/-
  A pattern in a group of its own.

  What stands in a group is read as if it stood alone.  `State.within` puts the state of a run that
  began with nothing into a group that another state has opened: the captures get the next numbers,
  the names come after those that were there, and everything else stays as it is.  A token does the
  same there (`effect_within`), so a run goes on as it would alone up to the parenthesis that closes
  the group (`run_within`), and the group is the tree of the pattern, raised to the numbers that it
  gets (`run_group`).

  There are three things that a token can see of what is around it, and so three side conditions.
  The limit on nesting has to leave room for the groups around; names must not be taken; and no
  token of the pattern may go on into what follows it (`Sealed`), as quoted text does and a bracket
  that looks for the end of a name.  For the first, one more than the limit of the pattern alone is
  enough: a repetition is compared by the height of its operand, which the pattern's own limit
  bounds (`low_of_run`).

  Groups in a row, in a choice or under a sign make the sequence, the choice and the repetition of
  those trees (`parsePattern_groups`).
-/
import RegexTree.Proofs.Parse.Captures
import RegexTree.Proofs.Parse.Printable
import RegexTree.Proofs.Syntax.Followed
import RegexTree.Proofs.Tree.Raised

namespace RegexTree.Parse

open RegexTree.Tree
open Assembly (asDot classPiece)

/-! ## Parts under other numbers -/

/-- The parts of the level under numbers that are higher by `k`. -/
def Level.raised (k : Nat) (level : Level) : Level :=
  ⟨level.branches.map (Tree.raised k), level.pieces.map (Tree.raised k)⟩

/-- The group under numbers that are higher by `k`. -/
def OpenGroup.raised (k : Nat) (group : OpenGroup) : OpenGroup :=
  ⟨group.outer.raised k, group.flags, group.capture.map fun capture => (capture.1 + k, capture.2)⟩

/-- The names with numbers that are higher by `k`. -/
def raisedNames (k : Nat) (names : List (String × Nat)) : List (String × Nat) :=
  names.map fun named => (named.1, named.2 + k)

section

variable (k : Nat)

/-- The branch of a level under higher numbers is the branch under higher numbers. -/
theorem Level.branch_raised (level : Level) :
    Assembly.normal.branch (level.raised k).pieces.reverse =
      (Assembly.normal.branch level.pieces.reverse).raised k := by
  show asDot (sequence (level.pieces.map (Tree.raised k)).reverse) =
    (asDot (sequence level.pieces.reverse)).raised k
  rw [raised_asDot, raised_sequence, List.map_reverse]

theorem Level.bar_raised (level : Level) :
    (level.raised k).bar .normal = (level.bar .normal).raised k := by
  rw [bar, bar, branch_raised]
  rfl

theorem Level.finish_raised (level : Level) :
    (level.raised k).finish .normal = (level.finish .normal).raised k := by
  show choice ((level.raised k).allBranches .normal) = (choice (level.allBranches .normal)).raised k
  rw [raised_choice, allBranches, allBranches, branch_raised, List.map_reverse]
  rfl

/-- A group that is closed raises its own number with those of its body. -/
theorem OpenGroup.piece_raised (group : OpenGroup) (body : Tree) :
    (group.raised k).piece (body.raised k) = (group.piece body).raised k := by
  obtain ⟨outer, flags, capture⟩ := group
  cases capture with
  | none => rfl
  | some capture => rfl

/-- A class has no number. -/
theorem classPiece_raised (flags : Flags) (x : Ranges) :
    (classPiece flags x).raised k = classPiece flags x := by
  have hleaf : ∀ l : Label, l.op ≠ .capture → (node l []).raised k = node l [] := fun _ =>
    raised_leaf k
  unfold classPiece
  split
  · split
    · exact hleaf _ (by rintro ⟨⟩)
    split
    · exact hleaf _ (by rintro ⟨⟩)
    · exact hleaf _ (by rintro ⟨⟩)
  · split
    · exact hleaf _ (by rintro ⟨⟩)
    · exact hleaf _ (by rintro ⟨⟩)
  · exact hleaf _ (by rintro ⟨⟩)

end

/-! ## States -/

/-- The state inside of a group that `outer` has opened, where the state would be `s` if nothing
    were around the group. -/
def State.within (outer s : State) : State where
  flags := s.flags
  level := s.level.raised outer.captures
  groups := s.groups.map (OpenGroup.raised outer.captures) ++
    ⟨outer.level, outer.flags, none⟩ :: outer.groups
  captures := s.captures + outer.captures
  names := outer.names ++ raisedNames outer.captures s.names
  lastRepeat := s.lastRepeat

section

variable {x y : Setting} {outer s next : State}

/-- Pushing a piece inside is pushing it under the numbers that it gets there. -/
theorem push_within (t : Tree) :
    outer.within (s.push t) = (outer.within s).push (t.raised outer.captures) := rfl

theorem foldl_push_within (runes : List Nat) (s : State) (b : Option (List Char)) :
    runes.foldl (fun s r => s.push (State.literalPiece s.flags r)) ((outer.within s).mark b) =
      (outer.within (runes.foldl (fun s r => s.push (State.literalPiece s.flags r)) s)).mark b := by
  induction runes generalizing s with
  | nil => rfl
  | cons r rest ih =>
    rw [List.foldl_cons, List.foldl_cons, ← ih]
    have hpiece : (State.literalPiece s.flags r).raised outer.captures =
        State.literalPiece s.flags r := raised_leaf _ (by rintro ⟨⟩)
    rw [push_within, hpiece]
    rfl

/-- All groups around stay open, and the one that it stands in. -/
theorem length_groups_within (outer s : State) :
    (outer.within s).groups.length = s.groups.length + (outer.groups.length + 1) := by
  rw [State.within, List.length_append, List.length_map, List.length_cons]

theorem names_within (outer s : State) :
    (outer.within s).names.map (·.1) = outer.names.map (·.1) ++ s.names.map (·.1) := by
  simp [State.within, raisedNames, Function.comp_def]

/-- There is room for a group inside of the outer one if there is room for it alone. -/
theorem openGroup_within (hroom : outer.groups.length + x.nestLimit < y.nestLimit) {flags : Flags}
    {capture : Option (Nat × Option String)} (h : s.openGroup x flags capture = .ok next)
    (b : Option (List Char)) :
    ((outer.within s).mark b).openGroup y flags
        (capture.map fun capture => (capture.1 + outer.captures, capture.2)) =
      .ok ((outer.within next).mark b) := by
  obtain ⟨hlimit, rfl⟩ := openGroup_eq_ok.mp h
  refine openGroup_eq_ok.mpr ⟨?_, rfl⟩
  show (outer.within s).groups.length < y.nestLimit
  rw [length_groups_within]
  omega

/-- A capture inside gets the next free number, and its name has to be new to all around it. -/
theorem openCapture_within (hroom : outer.groups.length + x.nestLimit < y.nestLimit)
    {start rest : List Char} {name : Option String}
    (h : s.openCapture x start rest name = .ok next)
    (hfresh : ∀ n ∈ next.names.map (·.1), n ∉ outer.names.map (·.1)) (b : Option (List Char))
    (start' rest' : List Char) :
    ((outer.within s).mark b).openCapture y start' rest' name =
      .ok ((outer.within next).mark b) := by
  obtain ⟨hfree, hopen⟩ := openCapture_eq_ok.mp h
  refine openCapture_eq_ok.mpr ⟨fun n hn hmem => ?_, ?_⟩
  · have hmem' : n ∈ outer.names.map (·.1) ++ s.names.map (·.1) := names_within outer s ▸ hmem
    rcases List.mem_append.mp hmem' with houter | hown
    · refine hfresh n ?_ houter
      rw [(opened_of_openGroup hopen).2.2, Option.mem_def.mp hn]
      simp
    · exact hfree n hn hown
  · have hcap : s.captures + outer.captures + 1 = s.captures + 1 + outer.captures := by omega
    have hstate : { (outer.within s).mark b with
          captures := s.captures + outer.captures + 1
          names := (outer.within s).names ++
            name.toList.map fun name => (name, s.captures + outer.captures + 1) } =
        (outer.within { s with
          captures := s.captures + 1
          names := s.names ++ name.toList.map fun name => (name, s.captures + 1) }).mark b := by
      simp [State.within, State.mark, raisedNames, hcap, Function.comp_def]
    have hinner := openGroup_within hroom hopen b
    rw [← hstate, Option.map_some, ← hcap] at hinner
    exact hinner

/-- A group that was opened inside is closed inside. -/
theorem closeGroup_within (hx : x.assembly = .normal) (hy : y.assembly = .normal)
    (h : s.closeGroup x = .ok next) (b : Option (List Char)) :
    ((outer.within s).mark b).closeGroup y = .ok ((outer.within next).mark b) := by
  obtain ⟨group, groups, hgroups, rfl⟩ := closeGroup_eq_ok.mp h
  have hinner : ((outer.within s).mark b).groups = group.raised outer.captures ::
      (groups.map (OpenGroup.raised outer.captures) ++
        ⟨outer.level, outer.flags, none⟩ :: outer.groups) := by
    show s.groups.map (OpenGroup.raised outer.captures) ++ _ = _
    rw [hgroups]
    rfl
  have hbody : ((outer.within s).mark b).level.finish y.assembly =
      (s.level.finish x.assembly).raised outer.captures := by
    rw [hx, hy]
    exact Level.finish_raised outer.captures s.level
  rw [closeGroup_of_groups hinner, hbody, OpenGroup.piece_raised]
  rfl

theorem repeated_within {q : Quantifier} (hq : q.Valid) (operand : Tree)
    (b : Option (List Char)) :
    ((outer.within s).mark b).repeated q (operand.raised outer.captures) =
      (s.repeated q operand).raised outer.captures :=
  (raised_many outer.captures hq.ne_capture [operand]).symm

/-- A sign has the same operand, and the guards see as much of it. -/
theorem quantify_within (hroom : outer.groups.length + x.nestLimit < y.nestLimit)
    {start rest : List Char} {q : Quantifier} (hq : q.Valid)
    (h : s.quantify x start rest q = .ok next) {b : Option (List Char)}
    (hb : b.isSome = s.lastRepeat.isSome) (start' rest' : List Char) :
    ((outer.within s).mark b).quantify y start' rest' q = .ok ((outer.within next).mark b) := by
  obtain ⟨hlast, operand, pieces, hpieces, hlimit, hfits, rfl⟩ := quantify_eq_ok.mp h
  refine quantify_eq_ok.mpr ⟨?_, operand.raised outer.captures,
    pieces.map (Tree.raised outer.captures), ?_, ?_, ?_, ?_⟩
  · show (if s.flags.perlX then b else none) = none
    split at hlast
    · next hperl =>
      rw [hlast, Option.isSome_none, Option.isSome_eq_false_iff, Option.isNone_iff_eq_none] at hb
      rw [if_pos hperl, hb]
    · next hperl => rw [if_neg hperl]
  · show s.level.pieces.map (Tree.raised outer.captures) = _
    rw [hpieces, List.map_cons]
  · show (outer.within s).groups.length + _ < _
    rw [length_groups_within, repeatHeight_raised]
    omega
  · rw [repeated_within hq, fitsBudget_raised]
    exact hfits
  · rw [repeated_within hq]
    rfl

/-- A token does the same inside of a group as alone.  Each kind of token has its lemma above; what
    a leaf makes has no number that would be raised. -/
theorem effect_within (hx : x.assembly = .normal) (hy : y.assembly = .normal)
    (hroom : outer.groups.length + x.nestLimit < y.nestLimit) {start rest : List Char}
    {token : Token} (htoken : token.Valid) (h : s.effect x start rest token = .ok next)
    (hfresh : ∀ n ∈ next.names.map (·.1), n ∉ outer.names.map (·.1)) {b : Option (List Char)}
    (hb : b.isSome = s.lastRepeat.isSome) (start' rest' : List Char) :
    ((outer.within s).mark b).effect y start' rest' token = .ok ((outer.within next).mark b) := by
  cases token with
  | capture name => exact openCapture_within hroom h hfresh b start' rest'
  | group flags => exact openGroup_within hroom h b
  | setFlags flags =>
    cases h
    rfl
  | bar =>
    cases h
    rw [State.effect, hx, hy]
    show Except.ok { (outer.within s).mark b with
      level := (s.level.raised outer.captures).bar .normal } = _
    rw [Level.bar_raised]
    rfl
  | close => exact closeGroup_within hx hy h b
  -- a leaf has no capture whose number could be raised
  | simple piece =>
    obtain ⟨op, flags, hop, rfl⟩ := htoken
    cases h
    have hleaf : (leaf op flags).raised outer.captures = leaf op flags := by
      refine raised_leaf _ ?_
      rintro rfl
      cases hop
    rw [push_within, hleaf]
    rfl
  | text runes =>
    cases h
    exact congrArg Except.ok (foldl_push_within runes s b)
  | bracket bracket =>
    cases h
    rw [push_within, hx]
    show Except.ok (((outer.within s).mark b).push
      (y.assembly.charClass s.flags (bracket.ranges s.flags))) = _
    rw [hy]
    show _ = Except.ok (((outer.within s).push
      ((classPiece s.flags (bracket.ranges s.flags)).raised outer.captures)).mark b)
    rw [classPiece_raised]
    rfl
  | repetition q => exact quantify_within hroom htoken h hb start' rest'

/-! ## Runs -/

/-- Names stay. -/
theorem names_subset_of_effect {start rest : List Char} {token : Token}
    (h : s.effect x start rest token = .ok next) : s.names ⊆ next.names := by
  cases token with
  | capture name =>
    obtain ⟨-, hopen⟩ := openCapture_eq_ok.mp h
    rw [(opened_of_openGroup hopen).2.2]
    exact List.subset_append_left _ _
  | group flags =>
    rw [(opened_of_openGroup h).2.2]
    exact List.Subset.refl _
  | close =>
    obtain ⟨_, _, -, rfl⟩ := closeGroup_eq_ok.mp h
    exact List.Subset.refl _
  | text runes =>
    cases h
    exact List.foldlRecOn (motive := fun t : State => s.names ⊆ t.names) runes _
      (List.Subset.refl _) fun _ ht _ _ => ht
  | repetition q =>
    obtain ⟨-, _, _, -, -, -, rfl⟩ := quantify_eq_ok.mp h
    exact List.Subset.refl _
  | _ =>
    cases h
    exact List.Subset.refl _

/-- A run keeps every name that it found. -/
theorem names_subset_of_run {text : List Char} (h : s.run x text = .ok next) :
    s.names ⊆ next.names := by
  refine run_induct (M := fun s _ t => s.names ⊆ t.names) (fun s => List.Subset.refl _) ?_ h
  intro s c tail token rest next t _ happly ih
  obtain ⟨middle, heffect, rfl⟩ := effect_of_apply happly
  exact List.Subset.trans (names_subset_of_effect heffect) ih

/-- Inside of a group a run goes on as it does alone, up to the parenthesis that closes the group.
    By induction on the run: each token is read again before the longer text, and the names that it
    adds are among those at the end, so none of them is in use outside. -/
theorem run_within (hx : x.assembly = .normal) (hy : y.assembly = .normal)
    (hroom : outer.groups.length + x.nestLimit < y.nestLimit) {text more : List Char}
    (hsealed : Sealed text more) (h : s.run x text = .ok next)
    (hfresh : ∀ n ∈ next.names.map (·.1), n ∉ outer.names.map (·.1)) {b : Option (List Char)}
    (hb : b.isSome = s.lastRepeat.isSome) :
    ∃ last, ((outer.within s).mark b).run y (text ++ ')' :: more) =
      ((outer.within next).mark last).run y (')' :: more) := by
  refine run_induct (M := fun s text t => s.run x text = .ok t →
    Sealed text more → (∀ n ∈ t.names.map (·.1), n ∉ outer.names.map (·.1)) →
    ∀ b : Option (List Char), b.isSome = s.lastRepeat.isSome →
      ∃ last, ((outer.within s).mark b).run y (text ++ ')' :: more) =
        ((outer.within t).mark last).run y (')' :: more)) ?_ ?_ h h hsealed hfresh b hb
  · intro s _ _ _ b _
    exact ⟨b, rfl⟩
  · intro s c tail token rest next t hread happly ih hrun hsealed hfresh b hb
    rw [run_token hread happly] at hrun
    obtain ⟨middle, heffect, hnext⟩ := effect_of_apply happly
    -- the names that the token adds are among those at the end, so none of them is in use outside
    have hnames : middle.names ⊆ t.names := by
      have hsubset := names_subset_of_run hrun
      rwa [hnext] at hsubset
    have hinner := effect_within hx hy hroom (readToken_valid hread) heffect
      (fun n hn => hfresh n (List.map_subset _ hnames hn)) hb (c :: (tail ++ ')' :: more))
      (rest ++ ')' :: more)
    have hread' : readToken ((outer.within s).mark b).flags c (tail ++ ')' :: more) =
        .ok (token, rest ++ ')' :: more) := readToken_followed hsealed hread
    have hrest : Sealed rest more :=
      hsealed.of_suffix ((readToken_suffix hread).trans (List.suffix_cons c tail))
    rw [List.cons_append, run_token hread' (apply_of_effect hinner)]
    have hmark : (token.repeatAt (c :: (tail ++ ')' :: more))).isSome = next.lastRepeat.isSome := by
      rw [hnext]
      cases token with
      | repetition q => rfl
      | _ => rfl
    have hgoal := ih hrun hrest hfresh _ hmark
    rw [hnext] at hgoal
    exact hgoal

end

/-! ## Heights -/

/-- No more than `n` repetitions stand directly on one another. -/
structure Level.Low (n : Nat) (level : Level) : Prop where
  branches : ∀ t ∈ level.branches, t.repeatHeight ≤ n
  pieces : ∀ t ∈ level.pieces, t.repeatHeight ≤ n

/-- The same on every level. -/
structure State.Low (n : Nat) (s : State) : Prop where
  level : s.level.Low n
  groups : ∀ group ∈ s.groups, group.outer.Low n

section

variable {n : Nat}

/-- A low piece may be pushed on a low level. -/
theorem Level.Low.push {level : Level} (h : level.Low n) {t : Tree} (ht : t.repeatHeight ≤ n) :
    (level.push t).Low n := ⟨h.branches, List.forall_mem_cons.mpr ⟨ht, h.pieces⟩⟩

/-- Joining pieces does not stack repetitions. -/
theorem Level.Low.branch {level : Level} (hnormal : level.Normal) (h : level.Low n) :
    (Assembly.normal.branch level.pieces.reverse).repeatHeight ≤ n := by
  show (asDot (sequence level.pieces.reverse)).repeatHeight ≤ n
  rw [repeatHeight_asDot]
  have hall : ∀ t ∈ level.pieces.reverse, t.Normal ∧ t.repeatHeight ≤ n := fun t ht =>
    ⟨hnormal.pieces t (List.mem_reverse.mp ht), h.pieces t (List.mem_reverse.mp ht)⟩
  generalize level.pieces.reverse = pieces at hall
  rcases pieces with _ | ⟨t, _ | ⟨u, rest⟩⟩
  · exact Nat.zero_le n
  · exact (hall t List.mem_cons_self).2
  · rw [repeatHeight_sequence (fun t ht => (hall t ht).1) (by simp)]
    exact Nat.zero_le n

/-- Factoring branches does not stack repetitions. -/
theorem Level.Low.finish {level : Level} (hnormal : level.Normal) (h : level.Low n) :
    (level.finish .normal).repeatHeight ≤ n := by
  show (choice (level.allBranches .normal)).repeatHeight ≤ n
  have hall : ∀ t ∈ level.allBranches .normal, t.Normal ∧ t.repeatHeight ≤ n := by
    intro t ht
    rcases List.mem_cons.mp (List.mem_reverse.mp ht) with rfl | ht
    · refine ⟨keeps_normal.branch _ fun u hu => ?_, h.branch hnormal⟩
      exact hnormal.pieces u (List.mem_reverse.mp hu)
    · exact ⟨hnormal.branches t ht, h.branches t ht⟩
  have hne : level.allBranches .normal ≠ [] := by
    rw [allBranches, List.reverse_ne_nil_iff]
    exact List.cons_ne_nil _ _
  generalize level.allBranches .normal = branches at hall hne
  rcases branches with _ | ⟨t, _ | ⟨u, rest⟩⟩
  · exact absurd rfl hne
  · rw [choice_singleton]
    exact (hall t List.mem_cons_self).2
  · rw [repeatHeight_choice (fun t ht => (hall t ht).1) (by simp)]
    exact Nat.zero_le n

theorem State.Low.push {s : State} (h : s.Low n) {t : Tree} (ht : t.repeatHeight = 0) :
    (s.push t).Low n :=
  ⟨h.level.push (ht ▸ Nat.zero_le _), h.groups⟩

theorem State.Low.openGroup {setting : Setting} {s next : State} (h : s.Low n) {flags : Flags}
    {capture : Option (Nat × Option String)}
    (hopen : s.openGroup setting flags capture = .ok next) : next.Low n := by
  obtain ⟨-, rfl⟩ := openGroup_eq_ok.mp hopen
  exact ⟨⟨fun _ ht => absurd ht List.not_mem_nil, fun _ ht => absurd ht List.not_mem_nil⟩,
    List.forall_mem_cons.mpr ⟨h.level, h.groups⟩⟩

/-- What a group holds is low, and as a piece it stays so: a capture has no height, and a group
    without a number is its body. -/
theorem State.Low.closeGroup {setting : Setting} (hset : setting.assembly = .normal)
    {s next : State} (hs : s.Normal) (h : s.Low n) (hclose : s.closeGroup setting = .ok next) :
    next.Low n := by
  obtain ⟨group, groups, hgroups, rfl⟩ := closeGroup_eq_ok.mp hclose
  have hall := h.groups
  rw [hgroups] at hall
  obtain ⟨houter, hrest⟩ := List.forall_mem_cons.mp hall
  refine ⟨houter.push ?_, hrest⟩
  rw [OpenGroup.piece, hset]
  split
  · exact h.level.finish hs.level
  · rw [repeatHeight_eq_zero rfl]
    exact Nat.zero_le _

/-- The guard of a repetition counts what stands directly on one another under it. -/
theorem State.Low.quantify {setting : Setting} {s next : State} (h : s.Low setting.nestLimit)
    {start rest : List Char} {q : Quantifier} (hq : q.Valid)
    (hrep : s.quantify setting start rest q = .ok next) : next.Low setting.nestLimit := by
  obtain ⟨-, operand, pieces, hpieces, hroom, -, rfl⟩ := quantify_eq_ok.mp hrep
  have hlevel := h.level.pieces
  rw [hpieces] at hlevel
  obtain ⟨-, hrest⟩ := List.forall_mem_cons.mp hlevel
  refine ⟨⟨h.level.branches, List.forall_mem_cons.mpr ⟨?_, hrest⟩⟩, h.groups⟩
  rw [repeatHeight_repeated s hq]
  omega

/-- No token stacks more repetitions than may be nested.  Only a repetition makes anything higher,
    and its guard is the bound. -/
theorem low_of_effect {setting : Setting} (hset : setting.assembly = .normal) {s next : State}
    (hs : s.Normal) (hlow : s.Low setting.nestLimit) {start rest : List Char} {token : Token}
    (htoken : token.Valid) (h : s.effect setting start rest token = .ok next) :
    next.Low setting.nestLimit := by
  -- only a repetition makes anything higher, and its guard is the bound; everything else starts
  -- again from zero or keeps what is there
  cases token with
  | capture name =>
    obtain ⟨-, hopen⟩ := openCapture_eq_ok.mp h
    refine State.Low.openGroup ?_ hopen
    exact ⟨hlow.level, hlow.groups⟩
  | group flags => exact hlow.openGroup h
  | setFlags flags =>
    cases h
    exact ⟨hlow.level, hlow.groups⟩
  | bar =>
    cases h
    rw [hset]
    refine ⟨⟨List.forall_mem_cons.mpr ⟨hlow.level.branch hs.level, hlow.level.branches⟩, ?_⟩,
      hlow.groups⟩
    exact fun _ ht => absurd ht List.not_mem_nil
  | close => exact State.Low.closeGroup hset hs hlow h
  | simple piece =>
    obtain ⟨op, flags, hop, rfl⟩ := htoken
    cases h
    exact hlow.push (repeatHeight_leaf (Op.arity_of_isSimple hop))
  | text runes =>
    cases h
    exact List.foldlRecOn (motive := fun t : State => t.Low setting.nestLimit) runes _ hlow
      fun t ht r _ => ht.push (repeatHeight_leaf rfl)
  | bracket bracket =>
    cases h
    rw [hset]
    exact hlow.push (repeatHeight_leaf (Assembly.arity_classPiece _ _))
  | repetition q => exact hlow.quantify htoken h

/-- Under a limit no repetition is stacked higher than the limit, by induction on the run. -/
theorem low_of_run {setting : Setting} (hset : setting.assembly = .normal) {s t : State}
    (hs : s.Normal) (hlow : s.Low setting.nestLimit) {text : List Char}
    (h : s.run setting text = .ok t) : t.Low setting.nestLimit := by
  refine run_induct (M := fun s _ t => s.Normal → s.Low setting.nestLimit →
    t.Low setting.nestLimit) (fun _ _ hlow => hlow) ?_ h hs hlow
  intro s c tail token rest next t hread happly ih hs hlow
  have hvalid := readToken_valid hread
  refine ih (hs.apply hset hvalid happly) ?_
  obtain ⟨middle, heffect, rfl⟩ := effect_of_apply happly
  have hkept := low_of_effect hset hs hlow hvalid heffect
  exact ⟨hkept.level, hkept.groups⟩

end

end Parse

open RegexTree.Tree

/-! ## Patterns -/

/-- No more repetitions stand directly on one another than may be nested. -/
theorem parsePattern_height {pattern : String} {flags : Flags} {limit : Nat} {p : Pattern}
    (hlit : flags.literal = false) (hp : parsePattern pattern flags limit = .ok p) :
    p.root.repeatHeight ≤ limit := by
  obtain ⟨s, hrun, -, rfl⟩ := run_of_parsePattern hlit hp
  have hnormal : Parse.State.Normal { flags } :=
    ⟨rfl, Parse.LevelRelated.empty, List.Forall₂.nil, rfl, rfl, rfl⟩
  have hnumbered : Parse.State.Numbered { flags } := ⟨trivial, rfl, rfl, List.nodup_nil⟩
  have hlow : Parse.State.Low limit { flags } :=
    ⟨⟨fun _ ht => absurd ht List.not_mem_nil, fun _ ht => absurd ht List.not_mem_nil⟩,
      fun _ hg => absurd hg List.not_mem_nil⟩
  have hs := (Parse.numbered_of_run rfl hnormal hnumbered hrun).2
  exact (Parse.low_of_run rfl hnormal hlow hrun).level.finish hs.level

namespace Parse

/-- The state after a group in which a pattern stands. -/
def State.grouped (s : State) (p : Pattern) : State :=
  { s with
    level := s.level.push (p.root.raised s.captures)
    captures := p.captures + s.captures
    names := s.names ++ raisedNames s.captures p.names }

/-- A pattern in a group is read as one piece, its tree under the numbers that are free there: the
    group is opened, the run goes on as it does alone, and the parenthesis closes the group. -/
theorem run_group {setting : Setting} (hset : setting.assembly = .normal) {s : State}
    {pattern : String} {limit : Nat} {p : Pattern} {more : List Char}
    (hlit : s.flags.literal = false) (hperl : s.flags.perlX = true)
    (hp : parsePattern pattern s.flags limit = .ok p)
    (hroom : s.groups.length + limit < setting.nestLimit) (hsealed : Sealed pattern.toList more)
    (hfresh : ∀ n ∈ p.names.map (·.1), n ∉ s.names.map (·.1)) :
    s.run setting ('(' :: '?' :: ':' :: (pattern.toList ++ ')' :: more)) =
      ((s.grouped p).mark none).run setting more := by
  obtain ⟨t, hrun, hclosed, rfl⟩ := run_of_parsePattern hlit hp
  have hopening : readToken s.flags '(' ('?' :: ':' :: (pattern.toList ++ ')' :: more)) =
      .ok (.group s.flags, pattern.toList ++ ')' :: more) := by
    rw [readToken, if_pos rfl, readOpening, hperl]
    rfl
  have hinside : s.effect setting ('(' :: '?' :: ':' :: (pattern.toList ++ ')' :: more))
      (pattern.toList ++ ')' :: more) (.group s.flags) =
      .ok ((s.within { flags := s.flags }).mark s.lastRepeat) := by
    refine openGroup_eq_ok.mpr ⟨by omega, ?_⟩
    simp [State.within, State.mark, State.inside, Level.raised, raisedNames]
  -- inside of the group the pattern is read from the empty level, as it is alone
  obtain ⟨last, hinner⟩ : ∃ last, ((s.within { flags := s.flags }).mark none).run setting
      (pattern.toList ++ ')' :: more) = ((s.within t).mark last).run setting (')' :: more) :=
    run_within rfl hset hroom hsealed hrun hfresh rfl
  have hclose : ((s.within t).mark last).effect setting (')' :: more) more .close =
      .ok ((s.grouped ⟨t.level.finish .normal, t.captures, t.names⟩).mark last) := by
    have hgroups : ((s.within t).mark last).groups = ⟨s.level, s.flags, none⟩ :: s.groups := by
      show t.groups.map (OpenGroup.raised s.captures) ++ ⟨s.level, s.flags, none⟩ :: s.groups = _
      rw [hclosed]
      rfl
    have hbody : ((s.within t).mark last).level.finish .normal =
        (t.level.finish .normal).raised s.captures := Level.finish_raised s.captures t.level
    show ((s.within t).mark last).closeGroup setting = _
    rw [closeGroup_of_groups hgroups, hset, hbody]
    rfl
  rw [run_token hopening (apply_of_effect hinside)]
  refine hinner.trans ?_
  rw [run_token rfl (apply_of_effect hclose)]
  rfl

/-- The state before anything is read. -/
theorem grouped_start (flags : Flags) (p : Pattern) :
    State.grouped { flags } p =
      { flags, level := { pieces := [p.root] }, captures := p.captures, names := p.names } := by
  simp [State.grouped, Level.push, raisedNames, raised_zero]

end Parse

/-- Two pieces in sequence are no class. -/
theorem asDot_sequence_pair {t u : Tree} (ht : t.Normal) (hu : u.Normal) :
    Assembly.asDot (sequence [t, u]) = sequence [t, u] := by
  refine asDot_of_not ?_
  rintro ⟨hop, -⟩
  rcases op_sequence
    (List.forall_mem_cons.mpr ⟨ht.reduced, List.forall_mem_singleton.mpr hu.reduced⟩)
    (Nat.le_refl 2) with h | h
  · rw [h] at hop
    cases hop
  · rw [h] at hop
    cases hop

section

variable {p q text : String} {flags : Flags} {limit : Nat} {P Q : Pattern}
  (hlit : flags.literal = false) (hperl : flags.perlX = true)
  (hp : parsePattern p flags limit = .ok P)

include hlit hperl hp

namespace Parse

/-- A pattern that begins with a group goes on after the tree of the group. -/
theorem run_first_group (whole : List Char) {more : List Char} (hsealed : Sealed p.toList more) :
    State.run ⟨.normal, limit + 1, whole⟩ { flags }
        ('(' :: '?' :: ':' :: (p.toList ++ ')' :: more)) =
      State.run ⟨.normal, limit + 1, whole⟩
        { flags, level := { pieces := [P.root] }, captures := P.captures, names := P.names }
        more := by
  have hroom : 0 + limit < limit + 1 := by omega
  rw [run_group (s := { flags }) rfl hlit hperl hp hroom hsealed fun _ _ => List.not_mem_nil,
    grouped_start]
  rfl

end Parse

/-- A group under a sign is the repetition of the tree. -/
theorem parsePattern_group_sign {sign : Char} {op : Op} (hsealed : Sealed p.toList [sign])
    (hsign : readToken flags sign [] = .ok (.repetition { op }, [])) (hop : op.isRepeat = true)
    (hcounted : op ≠ .counted)
    (htext : text.toList = '(' :: '?' :: ':' :: (p.toList ++ [')', sign])) :
    parsePattern text flags (limit + 1) =
      .ok ⟨.node { op, flags } [P.root], P.captures, P.names⟩ := by
  have hheight := parsePattern_height hlit hp
  have hflags : { flags with nonGreedy := flags.nonGreedy != false } = flags := by
    rw [Bool.bne_false]
  have hsigned : Parse.State.effect ⟨.normal, limit + 1, text.toList⟩
      { flags, level := { pieces := [P.root] }, captures := P.captures, names := P.names }
      [sign] [] (.repetition { op }) =
      .ok { flags, level := { pieces := [.node { op, flags } [P.root]] },
            captures := P.captures, names := P.names } := by
    rw [Parse.State.effect, Parse.State.quantify, if_pos hperl]
    dsimp only
    rw [if_neg (by simp; omega), if_neg fun h => hcounted h.1, hflags]
  have hrun := Parse.run_first_group hlit hperl hp text.toList hsealed
  rw [← htext, Parse.run_token hsign (Parse.apply_of_effect hsigned), Parse.State.run] at hrun
  rw [parsePattern_of_run hlit hrun rfl]
  have hdot : ¬(Tree.node { op, flags } [P.root]).DotClass := by
    rintro ⟨h, -⟩
    rw [op_node] at h
    rw [show op = .charClass from h] at hop
    cases hop
  show Except.ok (Pattern.mk (choice [Assembly.asDot (sequence [_])]) _ _) = _
  rw [sequence_singleton, choice_singleton, asDot_of_not hdot]
  rfl

variable (hq : parsePattern q flags limit = .ok Q) (hsealed : Sealed q.toList [])
  (hfresh : ∀ n ∈ Q.names.map (·.1), n ∉ P.names.map (·.1))

include hq hsealed hfresh

namespace Parse

omit hp in
/-- A group that ends a pattern is the last piece of it. -/
theorem run_last_group (whole : List Char) (level : Level) :
    State.run ⟨.normal, limit + 1, whole⟩
        (State.mark { flags, level, captures := P.captures, names := P.names } none)
        ('(' :: '?' :: ':' :: (q.toList ++ [')'])) =
      .ok { flags, level := level.push (Q.root.raised P.captures),
            captures := Q.captures + P.captures,
            names := P.names ++ raisedNames P.captures Q.names } := by
  have hgroup : State.run ⟨.normal, limit + 1, whole⟩
      (State.mark { flags, level, captures := P.captures, names := P.names } none)
      ('(' :: '?' :: ':' :: (q.toList ++ [')'])) = _ :=
    run_group rfl hlit hperl hq (show 0 + limit < limit + 1 by omega) hsealed hfresh
  rw [hgroup, State.run]
  rfl

end Parse

/-- Two groups in a row are the sequence of the trees. -/
theorem parsePattern_group_group (hfirst : Sealed p.toList ('(' :: '?' :: ':' :: (q.toList ++ [')'])))
    (htext : text.toList =
      '(' :: '?' :: ':' :: (p.toList ++ ')' :: '(' :: '?' :: ':' :: (q.toList ++ [')']))) :
    parsePattern text flags (limit + 1) =
      .ok ⟨sequence [P.root, Q.root.raised P.captures], Q.captures + P.captures,
        P.names ++ Parse.raisedNames P.captures Q.names⟩ := by
  have hrun := Parse.run_first_group hlit hperl hp text.toList hfirst
  rw [← htext] at hrun
  have hlast := Parse.run_last_group hlit hperl hq hsealed hfresh text.toList
    { pieces := [P.root] }
  rw [parsePattern_of_run hlit (hrun.trans hlast) rfl]
  show Except.ok (Pattern.mk (choice [Assembly.asDot (sequence [P.root, _])]) _ _) = _
  rw [choice_singleton, asDot_sequence_pair (parsePattern_normal hlit hp)
    (normal_raised _ (parsePattern_normal hlit hq))]

/-- Two groups around a bar are the choice between the trees. -/
theorem parsePattern_group_bar
    (hfirst : Sealed p.toList ('|' :: '(' :: '?' :: ':' :: (q.toList ++ [')'])))
    (htext : text.toList =
      '(' :: '?' :: ':' :: (p.toList ++ ')' :: '|' :: '(' :: '?' :: ':' :: (q.toList ++ [')']))) :
    parsePattern text flags (limit + 1) =
      .ok ⟨choice [P.root, Q.root.raised P.captures], Q.captures + P.captures,
        P.names ++ Parse.raisedNames P.captures Q.names⟩ := by
  have hdotP := (parsePattern_printable hlit hp).2
  have hdotQ : ¬(Q.root.raised P.captures).DotClass := by
    rw [DotClass, op_raised, runes_raised]
    exact (parsePattern_printable hlit hq).2
  have hrun := Parse.run_first_group hlit hperl hp text.toList hfirst
  have hbar : Parse.State.effect ⟨.normal, limit + 1, text.toList⟩
      { flags, level := { pieces := [P.root] }, captures := P.captures, names := P.names }
      ('|' :: '(' :: '?' :: ':' :: (q.toList ++ [')'])) ('(' :: '?' :: ':' :: (q.toList ++ [')']))
      .bar =
      .ok { flags, level := { branches := [P.root] }, captures := P.captures, names := P.names } := by
    have hbranch : Assembly.asDot (sequence [P.root]) = P.root := asDot_of_not hdotP
    refine congrArg (fun t => Except.ok (Parse.State.mk flags { branches := [t] } [] P.captures
      P.names none)) hbranch
  rw [← htext, Parse.run_token rfl (Parse.apply_of_effect hbar)] at hrun
  have hlast := Parse.run_last_group hlit hperl hq hsealed hfresh text.toList
    { branches := [P.root] }
  rw [parsePattern_of_run hlit (hrun.trans hlast) rfl]
  show Except.ok (Pattern.mk (choice [P.root, Assembly.asDot (sequence [_])]) _ _) = _
  rw [sequence_singleton, asDot_of_not hdotQ]

end

/-- A group is read as the pattern in it, whatever is around it: two groups in a row are the sequence
    of the trees, two groups around a bar are the choice between them, and a group under a sign is the
    repetition of the tree.  The captures of the second pattern get the numbers after those of the
    first.  Only quoted text and named groups in brackets could reach beyond the group. -/
theorem parsePattern_groups {p : String} {flags : Flags} {limit : Nat} {P : Pattern}
    (hlit : flags.literal = false) (hperl : flags.perlX = true)
    (hquoted : ¬"\\Q".toList <:+: p.toList) (hnamed : ¬"[:".toList <:+: p.toList)
    (hp : parsePattern p flags limit = .ok P) :
    (∀ q Q, ¬"\\Q".toList <:+: q.toList → parsePattern q flags limit = .ok Q →
      (∀ n ∈ Q.names.map (·.1), n ∉ P.names.map (·.1)) →
      parsePattern ("(?:" ++ p ++ ")(?:" ++ q ++ ")") flags (limit + 1) =
          .ok ⟨sequence [P.root, Q.root.raised P.captures], Q.captures + P.captures,
            P.names ++ Parse.raisedNames P.captures Q.names⟩ ∧
        parsePattern ("(?:" ++ p ++ ")|(?:" ++ q ++ ")") flags (limit + 1) =
          .ok ⟨choice [P.root, Q.root.raised P.captures], Q.captures + P.captures,
            P.names ++ Parse.raisedNames P.captures Q.names⟩) ∧
      parsePattern ("(?:" ++ p ++ ")*") flags (limit + 1) =
        .ok ⟨.node { op := .star, flags } [P.root], P.captures, P.names⟩ ∧
      parsePattern ("(?:" ++ p ++ ")+") flags (limit + 1) =
        .ok ⟨.node { op := .plus, flags } [P.root], P.captures, P.names⟩ ∧
      parsePattern ("(?:" ++ p ++ ")?") flags (limit + 1) =
        .ok ⟨.node { op := .quest, flags } [P.root], P.captures, P.names⟩ := by
  have hfirst : ∀ more, Sealed p.toList more := fun more => ⟨hquoted, fun h => absurd h hnamed⟩
  have hturn : ∀ q : Quantifier, withTurn flags q [] = (.repetition q, []) := by
    intro q
    rw [withTurn, if_neg (by simp)]
  have hstar : readToken flags '*' [] = .ok (.repetition { op := .star }, []) :=
    congrArg Except.ok (hturn _)
  have hplus : readToken flags '+' [] = .ok (.repetition { op := .plus }, []) :=
    congrArg Except.ok (hturn _)
  have hquest : readToken flags '?' [] = .ok (.repetition { op := .quest }, []) :=
    congrArg Except.ok (hturn _)
  refine ⟨fun q Q hquoted hq hfresh => ⟨?_, ?_⟩, ?_, ?_, ?_⟩
  · refine parsePattern_group_group hlit hperl hp hq ⟨hquoted, fun _ => by simp⟩ hfresh (hfirst _) ?_
    simp [String.toList_append]
  · refine parsePattern_group_bar hlit hperl hp hq ⟨hquoted, fun _ => by simp⟩ hfresh (hfirst _) ?_
    simp [String.toList_append]
  · refine parsePattern_group_sign hlit hperl hp (hfirst _) hstar rfl (by decide) ?_
    simp [String.toList_append]
  · refine parsePattern_group_sign hlit hperl hp (hfirst _) hplus rfl (by decide) ?_
    simp [String.toList_append]
  · refine parsePattern_group_sign hlit hperl hp (hfirst _) hquest rfl (by decide) ?_
    simp [String.toList_append]

theorem parsePattern_groups_named : Flags.perl.literal = false ∧ Flags.perl.perlX = true ∧
    ∃ P Q, parsePattern "(?i)a(b)?|(?P<x>\\x\x7b41\x7d)" .perl 3 = .ok P ∧
      parsePattern "(?P<y>[[:alpha:]]\x7b2\x7d|(c))" .perl 3 = .ok Q ∧
      (P.captures, P.names, Q.captures, Q.names) = (2, [("x", 2)], 2, [("y", 1)]) ∧
      parsePattern
          "(?:(?i)a(b)?|(?P<x>\\x\x7b41\x7d))(?:(?P<y>[[:alpha:]]\x7b2\x7d|(c)))" .perl 4 =
        .ok ⟨sequence [P.root, Q.root.raised 2], 4, [("x", 2), ("y", 3)]⟩ ∧
      parsePattern
          "(?:(?i)a(b)?|(?P<x>\\x\x7b41\x7d))|(?:(?P<y>[[:alpha:]]\x7b2\x7d|(c)))" .perl 4 =
        .ok ⟨choice [P.root, Q.root.raised 2], 4, [("x", 2), ("y", 3)]⟩ ∧
      parsePattern "(?:(?i)a(b)?|(?P<x>\\x\x7b41\x7d))*" .perl 4 =
        .ok ⟨.node { op := .star, flags := .perl } [P.root], 2, [("x", 2)]⟩ := by
  obtain ⟨P, hP, hcapsP⟩ : ∃ P,
      parsePattern "(?i)a(b)?|(?P<x>\\x\x7b41\x7d)" .perl 3 = .ok P ∧
        (P.captures, P.names) = (2, [("x", 2)]) :=
    exists_of_map_eq_ok (f := fun p : Pattern => (p.captures, p.names)) (by decide +kernel)
  obtain ⟨Q, hQ, hcapsQ⟩ : ∃ Q,
      parsePattern "(?P<y>[[:alpha:]]\x7b2\x7d|(c))" .perl 3 = .ok Q ∧
        (Q.captures, Q.names) = (2, [("y", 1)]) :=
    exists_of_map_eq_ok (f := fun p : Pattern => (p.captures, p.names)) (by decide +kernel)
  obtain ⟨hcapP, hnamesP⟩ := Prod.mk.inj hcapsP
  obtain ⟨hcapQ, hnamesQ⟩ := Prod.mk.inj hcapsQ
  obtain ⟨hpair, hstar, -, -⟩ := parsePattern_groups rfl rfl (by decide) (by decide) hP
  obtain ⟨hrow, hbar⟩ := hpair _ Q (by decide) hQ (by
    rw [hnamesP, hnamesQ]
    decide)
  rw [hcapP, hnamesP] at hrow hbar hstar
  rw [hcapQ, hnamesQ] at hrow hbar
  refine ⟨rfl, rfl, P, Q, hP, hQ, ?_, hrow, hbar, hstar⟩
  rw [hcapP, hnamesP, hcapQ, hnamesQ]

end RegexTree
