/-
  Two assemblies side by side.

  Which pieces a pattern has does not depend on what is made of them: the reader of tokens never
  looks at a tree.  So two assemblies that read the same pattern go through the same tokens, and if
  what they make of related parts is related (`Related`), all that they hold stays related, token by
  token (`apply_related`) and over a whole run (`run_related`): they fail together, with the same
  error, or their trees are related (`parseWith_related`).

  There is one place where a tree decides how to go on, which is a repetition: the operand's height
  is compared with the limit, and its copies with their bound.  So related operands have to agree in
  those two, as a field of `Related` demands.

  Two relations are needed, one for pieces and one for what is finished: a class that is a piece is
  not written as a dot yet, and one that is a branch is.  With one assembly on both sides and a
  relation that holds of equal trees only, this is an invariant of one run (`Keeps`,
  `parseWith_keeps`), and that is how most of its uses come to it.
-/
import RegexTree.Pattern
import RegexTree.Proofs.Parse.Tokens
import Mathlib.Data.List.Forall2

namespace RegexTree

/-- Both fail with the same error, or both give values that are related. -/
def Agree {ε α β : Type} (P : α → β → Prop) : Except ε α → Except ε β → Prop
  | .error e, .error f => e = f
  | .ok a, .ok b => P a b
  | _, _ => False

/-- Both fail with one error, or both give results that are related. -/
theorem Agree.cases {ε α β : Type} {P : α → β → Prop} {r : Except ε α} {r' : Except ε β}
    (h : Agree P r r') :
    (∃ e, r = .error e ∧ r' = .error e) ∨ ∃ a b, r = .ok a ∧ r' = .ok b ∧ P a b := by
  cases r with
  | error e =>
    cases r' with
    | error f => exact Or.inl ⟨e, rfl, congrArg Except.error (Eq.symm h)⟩
    | ok b => cases h
  | ok a =>
    cases r' with
    | error f => cases h
    | ok b => exact Or.inr ⟨a, b, rfl, rfl, h⟩

/-- A piece under a repetition. -/
def Quantifier.over (q : Quantifier) (flags : Flags) (t : Tree) : Tree :=
  .node { op := q.op, flags, min := q.min, max := q.max } [t]

/-- A piece in a group that captures. -/
def captureOf (flags : Flags) (cap : Nat) (name : Option String) (t : Tree) : Tree :=
  .node { op := .capture, flags, cap, name } [t]

namespace Parse

open List (Forall₂)

/-- What two assemblies make of related parts is related.  `R` relates pieces, `F` whole branches
    and choices, which are what groups hold. -/
structure Related (R F : Tree → Tree → Prop) (a b : Assembly) : Prop where
  piece : ∀ t u, F t u → R t u
  simple : ∀ (op : Op) flags, op.isSimple = true → R (.leaf op flags) (.leaf op flags)
  literal : ∀ flags r, r ≤ maxRune → R (State.literalPiece flags r) (State.literalPiece flags r)
  charClass : ∀ flags (x : Ranges), x.Clean → R (a.charClass flags x) (b.charClass flags x)
  branch : ∀ ts us, Forall₂ R ts us → F (a.branch ts) (b.branch us)
  choice : ∀ ts us, ts ≠ [] → Forall₂ F ts us → F (a.choice ts) (b.choice us)
  repetition : ∀ (q : Quantifier) flags t u, q.Valid → R t u →
    (q.op = .counted ∧ (2 ≤ q.min ∨ 2 ≤ q.max) →
      (q.over flags t).fitsBudget maxRepeat = true) → R (q.over flags t) (q.over flags u)
  capture : ∀ flags cap (name : Option String) t u, (∀ n ∈ name, isCaptureName n.toList = true) → F t u →
    R (captureOf flags cap name t) (captureOf flags cap name u)
  height : ∀ t u, R t u → t.repeatHeight = u.repeatHeight
  budget : ∀ t u, R t u → ∀ n, t.fitsBudget n = u.fitsBudget n

section

variable {R F : Tree → Tree → Prop} {a b : Assembly}

/-- The same branches and pieces, related one by one. -/
structure LevelRelated (R F : Tree → Tree → Prop) (x y : Level) : Prop where
  branches : Forall₂ F x.branches y.branches
  pieces : Forall₂ R x.pieces y.pieces

/-- The same groups are open, around related levels. -/
structure GroupRelated (R F : Tree → Tree → Prop) (x y : OpenGroup) : Prop where
  outer : LevelRelated R F x.outer y.outer
  flags : x.flags = y.flags
  capture : x.capture = y.capture
  name : ∀ cap name, x.capture = some (cap, name) → ∀ n ∈ name, isCaptureName n.toList = true

/-- The states differ only in what the assemblies made. -/
structure StateRelated (R F : Tree → Tree → Prop) (s t : State) : Prop where
  flags : s.flags = t.flags
  level : LevelRelated R F s.level t.level
  groups : Forall₂ (GroupRelated R F) s.groups t.groups
  captures : s.captures = t.captures
  names : s.names = t.names
  lastRepeat : s.lastRepeat = t.lastRepeat

/-- The settings differ in their assemblies only. -/
structure SettingRelated (a b : Assembly) (x y : Setting) : Prop where
  left : x.assembly = a
  right : y.assembly = b
  nestLimit : x.nestLimit = y.nestLimit
  pattern : x.pattern = y.pattern

theorem LevelRelated.empty : LevelRelated R F {} {} := ⟨Forall₂.nil, Forall₂.nil⟩

theorem LevelRelated.push {x y : Level} (h : LevelRelated R F x y) {t u : Tree} (ht : R t u) :
    LevelRelated R F (x.push t) (y.push u) :=
  ⟨h.branches, Forall₂.cons ht h.pieces⟩

variable (h : Related R F a b)

include h

/-- Branches of related pieces are related, as finished trees. -/
theorem LevelRelated.branch {x y : Level} (hl : LevelRelated R F x y) :
    F (a.branch x.pieces.reverse) (b.branch y.pieces.reverse) :=
  h.branch _ _ (List.rel_reverse hl.pieces)

theorem LevelRelated.bar {x y : Level} (hl : LevelRelated R F x y) :
    LevelRelated R F (x.bar a) (y.bar b) :=
  ⟨Forall₂.cons (hl.branch h) hl.branches, Forall₂.nil⟩

theorem LevelRelated.finish {x y : Level} (hl : LevelRelated R F x y) :
    F (x.finish a) (y.finish b) := by
  refine h.choice _ _ ?_ (List.rel_reverse (Forall₂.cons (hl.branch h) hl.branches))
  rw [Level.allBranches, List.reverse_ne_nil_iff]
  exact List.cons_ne_nil _ _

/-- Groups that were opened alike make related pieces of related bodies. -/
theorem GroupRelated.piece {x y : OpenGroup} (hg : GroupRelated R F x y) {t u : Tree}
    (ht : F t u) : R (x.piece t) (y.piece u) := by
  rw [OpenGroup.piece, OpenGroup.piece, ← hg.capture, ← hg.flags]
  split
  · exact h.piece t u ht
  · next cap name hc => exact h.capture x.flags cap name t u (hg.name cap name hc) ht

/-! ## Tokens -/

variable {x y : Setting} (hset : SettingRelated a b x y) {s t : State}
  (hst : StateRelated R F s t)

include hst

omit h in
/-- Related pieces may be pushed on both sides. -/
theorem push_related {p q : Tree} (hp : R p q) : StateRelated R F (s.push p) (t.push q) :=
  ⟨hst.flags, hst.level.push hp, hst.groups, hst.captures, hst.names, hst.lastRepeat⟩

theorem foldl_push_related {runes : List Nat} (hr : ∀ r ∈ runes, r ≤ maxRune) :
    StateRelated R F (runes.foldl (fun s r => s.push (State.literalPiece s.flags r)) s)
      (runes.foldl (fun s r => s.push (State.literalPiece s.flags r)) t) := by
  induction runes generalizing s t with
  | nil => exact hst
  | cons r rest ih =>
    obtain ⟨hr, hrest⟩ := List.forall_mem_cons.mp hr
    rw [List.foldl_cons, List.foldl_cons]
    refine ih (push_related hst ?_) hrest
    rw [← hst.flags]
    exact h.literal s.flags r hr

include hset

omit h in
/-- Both sides have as many groups open, so they refuse another one together. -/
theorem openGroup_related {flags : Flags} {capture : Option (Nat × Option String)}
    (hname : ∀ cap name, capture = some (cap, name) → ∀ n ∈ name, isCaptureName n.toList = true) :
    Agree (StateRelated R F) (s.openGroup x flags capture) (t.openGroup y flags capture) := by
  rw [State.openGroup, State.openGroup, ← hset.nestLimit, ← hst.groups.length_eq]
  split
  · exact congrArg (Error.toEnd _) hset.pattern
  · exact ⟨rfl, LevelRelated.empty,
      Forall₂.cons ⟨hst.level, hst.flags, rfl, hname⟩ hst.groups, hst.captures, hst.names,
      hst.lastRepeat⟩

omit h in
/-- Both sides know the same names, so they refuse a name together. -/
theorem openCapture_related {start rest : List Char} {name : Option String}
    (hname : ∀ n ∈ name, isCaptureName n.toList = true) :
    Agree (StateRelated R F) (s.openCapture x start rest name)
      (t.openCapture y start rest name) := by
  rw [State.openCapture, State.openCapture, ← hst.names, ← hst.captures, ← hst.flags]
  split
  · rfl
  · refine openGroup_related hset ?_ ?_
    · exact ⟨rfl, hst.level, hst.groups, rfl, rfl, hst.lastRepeat⟩
    · rintro cap name' hc
      cases hc
      exact hname

/-- Both sides have a group to close, or none has. -/
theorem closeGroup_related :
    Agree (StateRelated R F) (s.closeGroup x) (t.closeGroup y) := by
  have hgroups := hst.groups
  rw [State.closeGroup, State.closeGroup]
  revert hgroups
  cases s.groups with
  | nil =>
    intro hgroups
    rw [List.forall₂_nil_left_iff.mp hgroups]
    exact congrArg (Error.toEnd _) hset.pattern
  | cons g gs =>
    intro hgroups
    obtain ⟨g', gs', hg, hgs, he⟩ := List.forall₂_cons_left_iff.mp hgroups
    rw [he]
    have hbody := hst.level.finish h
    rw [← hset.left, ← hset.right] at hbody
    exact ⟨hg.flags, hg.outer.push (hg.piece h hbody), hgs, hst.captures, hst.names,
      hst.lastRepeat⟩

/-- The guards of a repetition see the operand only as the related one shows it, so both sides
    refuse it together; else the pieces are replaced by related ones. -/
theorem quantify_related {start rest : List Char} {q : Quantifier} (hq : q.Valid) :
    Agree (StateRelated R F) (s.quantify x start rest q) (t.quantify y start rest q) := by
  have hpieces := hst.level.pieces
  rw [State.quantify, State.quantify, ← hst.flags, ← hst.lastRepeat]
  split
  · rfl
  · revert hpieces
    cases hs : s.level.pieces with
    | nil =>
      intro hpieces
      rw [List.forall₂_nil_left_iff.mp hpieces]
      rfl
    | cons p ps =>
      intro hpieces
      obtain ⟨p', ps', hp, hps, he⟩ := List.forall₂_cons_left_iff.mp hpieces
      rw [he]
      dsimp only
      -- the trees under the repetition come to the same number of copies
      have hfits : ∀ l n, (Tree.node l [p]).fitsBudget n = (Tree.node l [p']).fitsBudget n := by
        intro l n
        have hsub : p.fitsBudget = p'.fitsBudget := funext (h.budget p p' hp)
        rw [Tree.fitsBudget, Tree.fold_node, Tree.fold_node]
        rw [Tree.fitsBudget] at hsub
        simp only [List.map_cons, List.map_nil, hsub]
      rw [← hset.nestLimit, ← hst.groups.length_eq, ← h.height p p' hp, hfits]
      split
      · exact congrArg (Error.toEnd _) hset.pattern
      · split
        · rfl
        · next hguard =>
          refine ⟨rfl, ⟨hst.level.branches, Forall₂.cons ?_ hps⟩, hst.groups, hst.captures,
            hst.names, rfl⟩
          refine h.repetition q _ p p' hq hp fun hcounted => ?_
          rw [← hfits] at hguard
          by_contra hnot
          rw [Bool.not_eq_true] at hnot
          exact hguard ⟨hcounted.1, hcounted.2, hnot⟩

/-- Every token keeps the states related, or fails on both sides; one case for each kind of
    token. -/
theorem effect_related {start rest : List Char} {token : Token} (htoken : token.Valid) :
    Agree (StateRelated R F) (s.effect x start rest token) (t.effect y start rest token) := by
  cases token with
  | capture name => exact openCapture_related hset hst htoken
  | group flags => exact openGroup_related hset hst fun _ _ hc => by cases hc
  | setFlags flags =>
    exact ⟨rfl, hst.level, hst.groups, hst.captures, hst.names, hst.lastRepeat⟩
  | bar =>
    have hbar := hst.level.bar h
    rw [← hset.left, ← hset.right] at hbar
    exact ⟨hst.flags, hbar, hst.groups, hst.captures, hst.names, hst.lastRepeat⟩
  | close => exact closeGroup_related h hset hst
  | simple piece =>
    obtain ⟨op, flags, hop, rfl⟩ := htoken
    exact push_related hst (h.simple op flags hop)
  | text runes => exact foldl_push_related h hst htoken
  | bracket bracket =>
    have hclass := h.charClass s.flags _ (bracket.ranges_clean s.flags htoken)
    rw [State.effect, State.effect, hset.left, hset.right, ← hst.flags]
    exact push_related hst hclass
  | repetition q => exact quantify_related h hset hst htoken

/-- A token keeps related states related, or is an error for both. -/
theorem apply_related {start rest : List Char} {token : Token} (htoken : token.Valid) :
    Agree (StateRelated R F) (s.apply x start rest token) (t.apply y start rest token) := by
  have heffect : Agree (StateRelated R F) (s.effect x start rest token)
      (t.effect y start rest token) := effect_related h hset hst htoken
  unfold State.apply
  rcases heffect.cases with ⟨e, he, he'⟩ | ⟨s', t', hs', ht', hnext⟩
  · rw [he, he']
    rfl
  · rw [hs', ht']
    exact ⟨hnext.flags, hnext.level, hnext.groups, hnext.captures, hnext.names, rfl⟩

/-! ## Runs -/

/-- A run keeps related states related, or fails for both in the same way. -/
theorem run_related (text : List Char) :
    Agree (StateRelated R F) (State.run x s text) (State.run y t text) := by
  induction text using suffix_induct generalizing s t with
  | nil =>
    rw [State.run, State.run]
    exact hst
  | cons c tail ih =>
    rw [State.run, State.run, ← hst.flags]
    split
    · rfl
    · next token rest hread =>
      have happly := @apply_related _ _ _ _ h _ _ hset _ _ hst (c :: tail) rest token
        (readToken_valid hread)
      rcases happly.cases with ⟨e, he, he'⟩ | ⟨s', t', hs', ht', hnext⟩
      · rw [he, he']
        rfl
      · rw [hs', ht']
        exact ih rest (readToken_suffix hread) hnext

end

/-! ## Patterns -/

/-- Two assemblies that make related parts of related parts fail together, or read trees that are
    related. -/
theorem parseWith_related {R F : Tree → Tree → Prop} {a b : Assembly} (h : Related R F a b)
    {flags : Flags} (hlit : flags.literal = false) (pattern : String) (nestLimit : Nat) :
    Agree (fun p q : Pattern => p.captures = q.captures ∧ p.names = q.names ∧ F p.root q.root)
      (parseWith a pattern flags nestLimit) (parseWith b pattern flags nestLimit) := by
  have hrun := run_related h (x := ⟨a, nestLimit, pattern.toList⟩)
    (y := ⟨b, nestLimit, pattern.toList⟩) ⟨rfl, rfl, rfl, rfl⟩ (s := { flags }) (t := { flags })
    ⟨rfl, LevelRelated.empty, Forall₂.nil, rfl, rfl, rfl⟩ pattern.toList
  rw [parseWith, parseWith, hlit]
  simp only [Bool.false_eq_true, if_false]
  rcases hrun.cases with ⟨e, he, he'⟩ | ⟨s, t, hs, ht, hrun⟩
  · rw [he, he']
    rfl
  · rw [hs, ht]
    dsimp only
    have hempty : s.groups.isEmpty = t.groups.isEmpty := by
      rw [Bool.eq_iff_iff, List.isEmpty_iff_length_eq_zero, List.isEmpty_iff_length_eq_zero,
        hrun.groups.length_eq]
    rw [← hempty]
    split
    · exact ⟨hrun.captures, hrun.names, hrun.level.finish h⟩
    · rfl

/-! ## Invariants of one run -/

/-- Of parts with the property `P` the assembly makes parts with it.  What it makes of whole
    branches and choices has `F`. -/
structure Keeps (P F : Tree → Prop) (a : Assembly) : Prop where
  piece : ∀ t, F t → P t
  simple : ∀ (op : Op) flags, op.isSimple = true → P (.leaf op flags)
  literal : ∀ flags r, r ≤ maxRune → P (State.literalPiece flags r)
  charClass : ∀ flags (x : Ranges), x.Clean → P (a.charClass flags x)
  branch : ∀ ts, (∀ t ∈ ts, P t) → F (a.branch ts)
  choice : ∀ ts, ts ≠ [] → (∀ t ∈ ts, F t) → F (a.choice ts)
  repetition : ∀ (q : Quantifier) flags t, q.Valid → P t →
    (q.op = .counted ∧ (2 ≤ q.min ∨ 2 ≤ q.max) →
      (q.over flags t).fitsBudget maxRepeat = true) → P (q.over flags t)
  capture : ∀ flags cap (name : Option String) t,
    (∀ n ∈ name, isCaptureName n.toList = true) → F t → P (captureOf flags cap name t)

/-- Lists that are equal element by element, where all elements have a property. -/
theorem forall₂_eq_and {P : Tree → Prop} {ts us : List Tree}
    (h : Forall₂ (fun t u => t = u ∧ P t) ts us) : ts = us ∧ ∀ t ∈ ts, P t := by
  induction h with
  | nil => exact ⟨rfl, fun _ ht => absurd ht List.not_mem_nil⟩
  | cons ht _ ih => exact ⟨by rw [ht.1, ih.1], List.forall_mem_cons.mpr ⟨ht.2, ih.2⟩⟩

/-- What an assembly keeps is a relation of it with itself. -/
theorem Keeps.related {P F : Tree → Prop} {a : Assembly} (h : Keeps P F a) :
    Related (fun t u => t = u ∧ P t) (fun t u => t = u ∧ F t) a a where
  piece _ _ ht := ⟨ht.1, h.piece _ ht.2⟩
  simple op flags hop := ⟨rfl, h.simple op flags hop⟩
  literal flags r hr := ⟨rfl, h.literal flags r hr⟩
  charClass flags x hx := ⟨rfl, h.charClass flags x hx⟩
  branch ts us hts := by
    obtain ⟨rfl, hall⟩ := forall₂_eq_and hts
    exact ⟨rfl, h.branch ts hall⟩
  choice ts us hne hts := by
    obtain ⟨rfl, hall⟩ := forall₂_eq_and hts
    exact ⟨rfl, h.choice ts hne hall⟩
  repetition q flags t u hq ht hfits := by
    obtain ⟨rfl, hp⟩ := ht
    exact ⟨rfl, h.repetition q flags t hq hp hfits⟩
  capture flags cap name t u hname ht := by
    obtain ⟨rfl, hf⟩ := ht
    exact ⟨rfl, h.capture flags cap name t hname hf⟩
  height t u ht := by rw [ht.1]
  budget t u ht n := by rw [ht.1]

/-- What an assembly keeps holds of every tree that is read with it. -/
theorem parseWith_keeps {P F : Tree → Prop} {a : Assembly} (h : Keeps P F a) {pattern : String}
    {flags : Flags} {nestLimit : Nat} {p : Pattern} (hlit : flags.literal = false)
    (hp : parseWith a pattern flags nestLimit = .ok p) : F p.root := by
  have hrel := parseWith_related h.related hlit pattern nestLimit
  rw [hp] at hrel
  exact hrel.2.2.2

end Parse

end RegexTree
