/-
  What the limit on nesting does.

  The limit is compared where a group is opened and where a piece is put under a repetition, and
  nowhere else.  Two things follow, and they are proved apart.

  * A run under a larger limit is the same run, unless the smaller limit was what ended it
    (`run_larger`).  `SameUnlessDeep` is closed under `bind`, so only the two comparisons have a
    proof of their own, and the rest is that no other token looks at the limit (`effect_larger`).
  * The limit is a bound: all that is read on a level nests no deeper than the groups open around it
    leave room for (`State.Nested`).  Each level in a state has its own bound, which is the limit
    less the number of groups that were open around it; closing a group puts one level around what
    is nested in it, for which the group had left room.  Joining and factoring do not nest deeper,
    whatever is joined and factored later.

  Both together are `parsePattern_nesting`.  Nesting is counted along a way down the tree, in
  captures and in chains of repetitions that stand directly on one another (`StacksWithin`).
-/
import RegexTree.Proofs.Parse.Captures
import RegexTree.Proofs.Parse.Printable
import RegexTree.Proofs.Parse.Runs
import RegexTree.Proofs.Tree.Nesting

namespace RegexTree

open RegexTree.Tree

namespace Parse

/-! ## A larger limit -/

/-- Both results are the same, unless the first is that the nesting is too deep. -/
def SameUnlessDeep {α : Type} (r r' : Except Error α) : Prop :=
  r = r' ∨ ∃ e, r = .error e ∧ e.code = .nestingDepth

/-- Steps that are the same unless too deep make runs that are. -/
theorem SameUnlessDeep.bind {α β : Type} {r r' : Except Error α} {f g : α → Except Error β}
    (h : SameUnlessDeep r r') (hnext : ∀ a, r = .ok a → SameUnlessDeep (f a) (g a)) :
    SameUnlessDeep (r.bind f) (r'.bind g) := by
  rcases h with rfl | ⟨e, rfl, hcode⟩
  · cases r with
    | error e => exact Or.inl rfl
    | ok a => exact hnext a rfl
  · exact Or.inr ⟨e, rfl, hcode⟩

section

variable {setting : Setting} {limit : Nat} (hle : setting.nestLimit ≤ limit)

include hle

/-- A larger limit refuses a group only if the smaller one does. -/
theorem openGroup_larger (s : State) (flags : Flags) (capture : Option (Nat × Option String)) :
    SameUnlessDeep (s.openGroup setting flags capture)
      (s.openGroup { setting with nestLimit := limit } flags capture) := by
  rw [State.openGroup, State.openGroup]
  by_cases hdeep : setting.nestLimit ≤ s.groups.length
  · rw [if_pos hdeep]
    exact Or.inr ⟨_, rfl, rfl⟩
  · by_cases hdeep' : limit ≤ s.groups.length
    · exact absurd (Nat.le_trans hle hdeep') hdeep
    · rw [if_neg hdeep]
      dsimp only
      rw [if_neg hdeep']
      exact Or.inl rfl

/-- A larger limit refuses a repetition only if the smaller one does. -/
theorem quantify_larger (s : State) (start rest : List Char) (q : Quantifier) :
    SameUnlessDeep (s.quantify setting start rest q)
      (s.quantify { setting with nestLimit := limit } start rest q) := by
  rw [State.quantify, State.quantify]
  split
  · exact Or.inl rfl
  · split
    · exact Or.inl rfl
    · next operand pieces _ =>
      dsimp only
      by_cases hdeep : setting.nestLimit ≤ s.groups.length + operand.repeatHeight
      · rw [if_pos hdeep]
        exact Or.inr ⟨_, rfl, rfl⟩
      · have hdeep' : ¬limit ≤ s.groups.length + operand.repeatHeight := by omega
        rw [if_neg hdeep, if_neg hdeep']
        exact Or.inl rfl

/-- No other token looks at the limit. -/
theorem effect_larger (s : State) (start rest : List Char) (token : Token) :
    SameUnlessDeep (s.effect setting start rest token)
      (s.effect { setting with nestLimit := limit } start rest token) := by
  cases token with
  | capture name =>
    rw [State.effect, State.effect, State.openCapture, State.openCapture]
    split
    · exact Or.inl rfl
    · exact openGroup_larger hle _ _ _
  | group flags => exact openGroup_larger hle _ _ _
  | repetition q => exact quantify_larger hle _ _ _ _
  | close =>
    rw [State.effect, State.effect, State.closeGroup, State.closeGroup]
    exact Or.inl rfl
  | _ => exact Or.inl rfl

/-- Applying a token is the same under a larger limit, unless it is refused. -/
theorem apply_larger (s : State) (start rest : List Char) (token : Token) :
    SameUnlessDeep (s.apply setting start rest token)
      (s.apply { setting with nestLimit := limit } start rest token) := by
  rw [apply_eq, apply_eq]
  rcases effect_larger hle s start rest token with h | ⟨e, he, hcode⟩
  · rw [h]
    exact Or.inl rfl
  · rw [he]
    exact Or.inr ⟨e, rfl, hcode⟩

/-- A run is the same under a larger limit, unless it is refused; by induction on the text that is
    left. -/
theorem run_larger (s : State) (text : List Char) :
    SameUnlessDeep (s.run setting text) (s.run { setting with nestLimit := limit } text) := by
  induction text using suffix_induct generalizing s with
  | nil =>
    rw [State.run, State.run]
    exact Or.inl rfl
  | cons c tail ih =>
    rw [run_cons, run_cons]
    have hsame : SameUnlessDeep (readToken s.flags c tail) (readToken s.flags c tail) := Or.inl rfl
    refine hsame.bind fun read hread => ?_
    exact (apply_larger hle s (c :: tail) read.2 read.1).bind fun next _ =>
      ih read.2 (readToken_suffix hread) next

end

/-! ## What is nested -/

/-- No part of the level nests deeper than `n`. -/
structure Level.Nested (n : Nat) (level : Level) : Prop where
  branches : ∀ t ∈ level.branches, t.nesting ≤ n
  pieces : ∀ t ∈ level.pieces, t.nesting ≤ n

/-- On each level the parts nest no deeper than the groups around that level leave room for. -/
structure State.Nested (limit : Nat) (s : State) : Prop where
  room : s.groups.length ≤ limit
  level : s.level.Nested (limit - s.groups.length)
  groups : ∀ group below, group :: below <:+ s.groups → group.outer.Nested (limit - below.length)

theorem Level.Nested.empty (n : Nat) : Level.Nested n {} :=
  ⟨fun _ ht => absurd ht List.not_mem_nil, fun _ ht => absurd ht List.not_mem_nil⟩

section

variable {n : Nat} {level : Level}

/-- A piece that nests no deeper may be pushed. -/
theorem Level.Nested.push (h : level.Nested n) {t : Tree} (ht : t.nesting ≤ n) :
    (level.push t).Nested n := ⟨h.branches, List.forall_mem_cons.mpr ⟨ht, h.pieces⟩⟩

/-- A branch nests as deep as its pieces do. -/
theorem Level.Nested.branch (hnormal : level.Normal) (h : level.Nested n) :
    (Assembly.normal.branch level.pieces.reverse).nesting ≤ n := by
  have hpieces : ∀ t ∈ level.pieces.reverse, t.Normal ∧ t.nesting ≤ n := fun t ht =>
    ⟨hnormal.pieces t (List.mem_reverse.mp ht), h.pieces t (List.mem_reverse.mp ht)⟩
  have hsequence := sequence_normal fun t ht => (hpieces t ht).1
  exact nesting_asDot hsequence.shaped ((kept_nesting n).sequence fun t ht => (hpieces t ht).2)

theorem Level.Nested.bar (hnormal : level.Normal) (h : level.Nested n) :
    (level.bar .normal).Nested n :=
  ⟨List.forall_mem_cons.mpr ⟨h.branch hnormal, h.branches⟩,
    fun _ ht => absurd ht List.not_mem_nil⟩

/-- A choice nests as deep as its branches do. -/
theorem Level.Nested.finish (hnormal : level.Normal) (h : level.Nested n) :
    (level.finish .normal).nesting ≤ n := by
  have hbranches : ∀ t ∈ level.allBranches .normal, t.nesting ≤ n := by
    intro t ht
    rcases List.mem_cons.mp (List.mem_reverse.mp ht) with rfl | ht
    · exact h.branch hnormal
    · exact h.branches t ht
  exact ((kept_nesting n).choiceLaw.choice hbranches).1

end

section

variable {limit : Nat} {setting : Setting} {s next : State}

/-- A piece that nests nothing may be pushed anywhere. -/
theorem State.Nested.push (h : s.Nested limit) {t : Tree} (ht : t.nesting = 0) :
    (s.push t).Nested limit :=
  ⟨h.room, h.level.push (ht ▸ Nat.zero_le _), h.groups⟩

/-- Inside of a new group there is room for one level less, and the check says that there is one. -/
theorem State.Nested.openGroup (h : s.Nested setting.nestLimit) {flags : Flags}
    {capture : Option (Nat × Option String)}
    (hopen : s.openGroup setting flags capture = .ok next) : next.Nested setting.nestLimit := by
  obtain ⟨hroom, rfl⟩ := openGroup_eq_ok.mp hopen
  refine ⟨hroom, Level.Nested.empty _, fun group below hsuffix => ?_⟩
  rcases List.suffix_cons_iff.mp hsuffix with he | hsuffix
  · cases he
    exact h.level
  · exact h.groups group below hsuffix

/-- A group that captures takes its place from the room that the groups around it left. -/
theorem State.Nested.closeGroup (hset : setting.assembly = .normal) (hnormal : s.Normal)
    (h : s.Nested setting.nestLimit) (hclose : s.closeGroup setting = .ok next) :
    next.Nested setting.nestLimit := by
  obtain ⟨group, groups, hgroups, rfl⟩ := closeGroup_eq_ok.mp hclose
  have hroom := h.room
  have hbody := h.level.finish hnormal.level
  rw [hgroups, List.length_cons] at hroom hbody
  have houter := h.groups group groups (hgroups ▸ List.suffix_refl _)
  refine ⟨Nat.le_of_succ_le hroom, houter.push ?_, fun group' below hsuffix => ?_⟩
  · rw [OpenGroup.piece, hset]
    split
    · exact Nat.le_trans hbody (by omega)
    · refine nesting_le_iff.mpr ⟨?_, ?_, List.forall_mem_singleton.mpr ?_⟩
      · rw [repeatHeight_eq_zero rfl]
        exact Nat.zero_le _
      · show 1 ≤ setting.nestLimit - groups.length
        omega
      · show (s.level.finish .normal).nesting ≤ setting.nestLimit - groups.length - 1
        omega
  · refine h.groups group' below ?_
    rw [hgroups]
    exact hsuffix.trans (List.suffix_cons group groups)

/-- The guard of a repetition counts what stands directly on one another under it. -/
theorem State.Nested.quantify (h : s.Nested setting.nestLimit) {start rest : List Char}
    {q : Quantifier} (hq : q.Valid) (hrep : s.quantify setting start rest q = .ok next) :
    next.Nested setting.nestLimit := by
  obtain ⟨-, operand, pieces, hpieces, hroom, -, rfl⟩ := quantify_eq_ok.mp hrep
  have hlevel := h.level.pieces
  rw [hpieces] at hlevel
  obtain ⟨hoperand, hrest⟩ := List.forall_mem_cons.mp hlevel
  refine ⟨h.room, ⟨h.level.branches, List.forall_mem_cons.mpr ⟨?_, hrest⟩⟩, h.groups⟩
  have hstep : ∀ flags : Flags, captureStep { op := q.op, flags, min := q.min, max := q.max } = 0 :=
    fun _ => if_neg hq.ne_capture
  refine nesting_le_iff.mpr ⟨?_, ?_, List.forall_mem_singleton.mpr ?_⟩
  · show (s.repeated q operand).repeatHeight ≤ setting.nestLimit - s.groups.length
    rw [repeatHeight_repeated s hq]
    omega
  · rw [hstep]
    exact Nat.zero_le _
  · rw [hstep]
    exact hoperand

/-- No token nests anything deeper than there is room for.  Opening and closing a group move the
    bounds by one, a repetition was compared with them, and what other tokens make nests nothing. -/
theorem State.Nested.effect (hset : setting.assembly = .normal) (hnormal : s.Normal)
    (h : s.Nested setting.nestLimit) {start rest : List Char} {token : Token}
    (htoken : token.Valid) (heffect : s.effect setting start rest token = .ok next) :
    next.Nested setting.nestLimit := by
  cases token with
  | capture name =>
    obtain ⟨-, hopen⟩ := openCapture_eq_ok.mp heffect
    refine State.Nested.openGroup ?_ hopen
    exact ⟨h.room, h.level, h.groups⟩
  | group flags => exact h.openGroup heffect
  | setFlags flags =>
    cases heffect
    exact ⟨h.room, h.level, h.groups⟩
  | bar =>
    cases heffect
    rw [hset]
    exact ⟨h.room, h.level.bar hnormal.level, h.groups⟩
  | close => exact State.Nested.closeGroup hset hnormal h heffect
  | simple piece =>
    obtain ⟨op, flags, hop, rfl⟩ := htoken
    cases heffect
    exact h.push (nesting_leaf (simpleLeaf_normal hop flags).shaped (Op.arity_of_isSimple hop))
  | text runes =>
    cases heffect
    exact List.foldlRecOn (motive := fun t : State => t.Nested setting.nestLimit) runes _ h
      fun t ht r _ => ht.push rfl
  | bracket bracket =>
    cases heffect
    rw [hset]
    have hclean := bracket.ranges_clean s.flags htoken
    refine h.push (nesting_leaf ?_ (Assembly.arity_classPiece _ _))
    exact (Assembly.classPiece_normal hclean s.flags).shaped
  | repetition q => exact h.quantify htoken heffect

/-- Every token keeps the bounds, so a run does. -/
theorem State.Nested.run (hset : setting.assembly = .normal) (hnormal : s.Normal)
    (h : s.Nested setting.nestLimit) {text : List Char} (hrun : s.run setting text = .ok next) :
    next.Normal ∧ next.Nested setting.nestLimit := by
  refine run_induct (M := fun s _ t => s.Normal → s.Nested setting.nestLimit →
    t.Normal ∧ t.Nested setting.nestLimit) (fun _ hnormal h => ⟨hnormal, h⟩) ?_ hrun hnormal h
  intro s c tail token rest next t hread happly ih hnormal h
  have hvalid := readToken_valid hread
  refine ih (hnormal.apply hset hvalid happly) ?_
  obtain ⟨middle, heffect, rfl⟩ := effect_of_apply happly
  have hmiddle := State.Nested.effect hset hnormal h hvalid heffect
  exact ⟨hmiddle.room, hmiddle.level, hmiddle.groups⟩

end

end Parse

/-! ## Patterns -/

/-- Under a larger limit a pattern is read with the same result, unless its nesting was too deep. -/
theorem parsePattern_larger (pattern : String) (flags : Flags) {limit limit' : Nat}
    (hle : limit ≤ limit') :
    Parse.SameUnlessDeep (parsePattern pattern flags limit)
      (parsePattern pattern flags limit') := by
  rw [parsePattern, parsePattern, parseWith, parseWith]
  split
  · exact Or.inl rfl
  · have hrun := @Parse.run_larger ⟨.normal, limit, pattern.toList⟩ limit' hle { flags }
      pattern.toList
    dsimp only at hrun ⊢
    rcases hrun with h | ⟨e, he, hcode⟩
    · rw [h]
      exact Or.inl rfl
    · rw [he]
      exact Or.inr ⟨e, rfl, hcode⟩

/-- The tree of a pattern has a shape, since it is in normal form. -/
theorem parsePattern_shaped {pattern : String} {flags : Flags} {limit : Nat} {p : Pattern}
    (hp : parsePattern pattern flags limit = .ok p) : p.root.Shaped := by
  cases hlit : flags.literal with
  | true =>
    rw [parsePattern, parseWith, if_pos hlit] at hp
    cases hp
    exact (shapedNode_local.everywhere_literal rfl).mpr ⟨rfl, fun _ _ => trivial⟩
  | false => exact Normal.shaped (parsePattern_normal hlit hp)

/-- The tree of a pattern nests no deeper than the limit. -/
theorem parsePattern_nesting_le {pattern : String} {flags : Flags} {limit : Nat} {p : Pattern}
    (hp : parsePattern pattern flags limit = .ok p) : p.root.nesting ≤ limit := by
  cases hlit : flags.literal with
  | true =>
    rw [parsePattern, parseWith, if_pos hlit] at hp
    cases hp
    exact Nat.zero_le limit
  | false =>
    obtain ⟨s, hrun, hclosed, rfl⟩ := run_of_parsePattern hlit hp
    have hnormal : Parse.State.Normal { flags } :=
      ⟨rfl, Parse.LevelRelated.empty, List.Forall₂.nil, rfl, rfl, rfl⟩
    have hnested : Parse.State.Nested limit { flags } :=
      ⟨Nat.zero_le limit, Parse.Level.Nested.empty _, fun _ _ hsuffix => by
        cases List.suffix_nil.mp hsuffix⟩
    obtain ⟨hs, h⟩ := Parse.State.Nested.run rfl hnormal hnested hrun
    have hlevel := h.level
    rw [hclosed] at hlevel
    exact hlevel.finish hs.level

/-- The limit only rejects, and it does bound what stands in one another.  A pattern that is read
    under a limit is read as the same tree, with the same captures and names, under any larger one,
    and an error that is not about nesting stays the same error.  On every way down the tree there
    are no more captures than the limit, and wherever repetitions stand directly on one another, they
    and the captures above them are no more than the limit. -/
theorem parsePattern_nesting (pattern : String) (flags : Flags) {limit limit' : Nat}
    (hle : limit ≤ limit') :
    (∀ p, parsePattern pattern flags limit = .ok p →
      parsePattern pattern flags limit' = .ok p ∧ ∀ path ∈ p.root.paths, StacksWithin limit path) ∧
    ∀ e, parsePattern pattern flags limit = .error e → e.code ≠ .nestingDepth →
      parsePattern pattern flags limit' = .error e := by
  have hlarger := parsePattern_larger pattern flags hle
  constructor
  · intro p hp
    refine ⟨?_, (parsePattern_shaped hp).stacksWithin (parsePattern_nesting_le hp)⟩
    rcases hlarger with h | ⟨e, he, -⟩
    · rw [← h, hp]
    · rw [hp] at he
      cases he
  · intro e he hcode
    rcases hlarger with h | ⟨e', he', hcode'⟩
    · rw [← h, he]
    · rw [he] at he'
      cases he'
      exact absurd hcode' hcode

/-- A limit that is reached: one capture above three repetitions on one another. -/
theorem parsePattern_nesting_reached : 4 ≤ 9 ∧
    (∃ p, parsePattern "(x(?:(?:a*)+)?)" .perl 4 = .ok p ∧ p.root.print = "(x(?:(?:a*)+)?)" ∧
      parsePattern "(x(?:(?:a*)+)?)" .perl 9 = .ok p ∧
      ∀ path ∈ p.root.paths, StacksWithin 4 path) ∧
    parsePattern "(x(?:(?:a*)+)?)" .perl 3 = .error ⟨.nestingDepth, "(x(?:(?:a*)+)?)"⟩ := by
  have hle : 4 ≤ 9 := by decide
  obtain ⟨p, hp, hprint⟩ : ∃ p, parsePattern "(x(?:(?:a*)+)?)" .perl 4 = .ok p ∧
      p.root.print = "(x(?:(?:a*)+)?)" :=
    exists_of_map_eq_ok (f := fun p : Pattern => p.root.print) (by decide +kernel)
  have hdeep : (parsePattern "(x(?:(?:a*)+)?)" .perl 3).map (fun _ => ()) =
      .error ⟨.nestingDepth, "(x(?:(?:a*)+)?)"⟩ := by decide +kernel
  obtain ⟨hsame, hpaths⟩ := (parsePattern_nesting _ .perl hle).1 p hp
  refine ⟨hle, ⟨p, hp, hprint, hsame, hpaths⟩, ?_⟩
  cases h : parsePattern "(x(?:(?:a*)+)?)" .perl 3 with
  | ok q =>
    rw [h] at hdeep
    cases hdeep
  | error e =>
    rw [h] at hdeep
    rw [Except.error.inj hdeep]

end RegexTree
