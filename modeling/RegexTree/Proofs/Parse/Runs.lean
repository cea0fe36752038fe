/-
  Runs: one token after the other.

  What a token that can fail does is said once: where it succeeds, and in which state
  (`openGroup_eq_ok`, `openCapture_eq_ok`, `closeGroup_eq_ok`, `quantify_eq_ok`).  Each is an
  equivalence, so that it tells of a successful step what was checked, and of a state where the
  checks pass that the step succeeds; what is proved of runs further on cites these and never opens
  a token.

  A run that succeeds is made of tokens that are read and applied in turn (`run_cons`, `run_token`),
  and what is known of one token is carried over a whole run by `run_induct`.  Every token takes
  some of the text, which is the measure of that induction.

  A pattern is read if the run over it leaves no group open (`parsePattern_of_run`,
  `run_of_parsePattern`).  Where letters stand for themselves and the pattern is not one literal as
  a whole, that is all there is to it.
-/
import RegexTree.Proofs.Parse.Related
import RegexTree.Proofs.Tree.Budget

namespace RegexTree

/-- Where the token begins, if it is a repetition. -/
def Token.repeatAt (start : List Char) : Token → Option (List Char)
  | .repetition _ => some start
  | _ => none

namespace Parse

/-- The state, the last token being a repetition that begins there. -/
def State.mark (s : State) (last : Option (List Char)) : State := { s with lastRepeat := last }

variable {setting : Setting} {s t : State}

/-! ## What a token does -/

/-- The state inside of a group that is opened. -/
def State.inside (s : State) (flags : Flags) (capture : Option (Nat × Option String)) : State :=
  { s with
    flags
    level := {}
    groups := ⟨s.level, s.flags, capture⟩ :: s.groups }

/-- A group is opened where there is room for it. -/
theorem openGroup_eq_ok {flags : Flags} {capture : Option (Nat × Option String)} :
    s.openGroup setting flags capture = .ok t ↔
      s.groups.length < setting.nestLimit ∧ t = s.inside flags capture := by
  rw [State.openGroup]
  by_cases hdeep : setting.nestLimit ≤ s.groups.length
  · rw [if_pos hdeep]
    exact iff_of_false (by rintro ⟨⟩) fun h => absurd hdeep (Nat.not_le.mpr h.1)
  · rw [if_neg hdeep, Except.ok.injEq, eq_comm]
    exact ⟨fun h => ⟨Nat.lt_of_not_le hdeep, h⟩, And.right⟩

/-- A group that captures is opened under the next number, where its name is not used. -/
theorem openCapture_eq_ok {start rest : List Char} {name : Option String} :
    s.openCapture setting start rest name = .ok t ↔
      (∀ n ∈ name, n ∉ s.names.map (·.1)) ∧
        State.openGroup setting
          { s with
            captures := s.captures + 1
            names := s.names ++ name.toList.map fun name => (name, s.captures + 1) }
          s.flags (some (s.captures + 1, name)) = .ok t := by
  have hused : (name.any fun name => s.names.any (·.1 == name)) = true ↔
      ∃ n ∈ name, n ∈ s.names.map (·.1) := by
    simp [Option.any_eq_true]
  rw [State.openCapture]
  split
  · next h =>
    obtain ⟨n, hn, hmem⟩ := hused.mp h
    exact iff_of_false (by rintro ⟨⟩) fun h => absurd hmem (h.1 n hn)
  · next h =>
    exact ⟨fun hopen => ⟨fun n hn hmem => h (hused.mpr ⟨n, hn, hmem⟩), hopen⟩, And.right⟩

/-- A group that is open is closed, and becomes a piece of the level around it. -/
theorem closeGroup_eq_ok :
    s.closeGroup setting = .ok t ↔
      ∃ group groups, s.groups = group :: groups ∧
        t = { s with
          flags := group.flags
          level := group.outer.push (group.piece (s.level.finish setting.assembly))
          groups } := by
  rw [State.closeGroup]
  split
  · next h =>
    refine iff_of_false (by rintro ⟨⟩) ?_
    rintro ⟨group, groups, hgroups, -⟩
    rw [h] at hgroups
    cases hgroups
  · next group groups h =>
    constructor
    · intro he
      exact ⟨group, groups, h, (Except.ok.inj he).symm⟩
    · rintro ⟨group', groups', hgroups, rfl⟩
      rw [h] at hgroups
      cases hgroups
      rfl

/-- Where a group is open, it can be closed. -/
theorem closeGroup_of_groups {group : OpenGroup} {groups : List OpenGroup}
    (h : s.groups = group :: groups) :
    s.closeGroup setting = .ok { s with
      flags := group.flags
      level := group.outer.push (group.piece (s.level.finish setting.assembly))
      groups } :=
  closeGroup_eq_ok.mpr ⟨group, groups, h, rfl⟩

/-- What a sign makes of its operand. -/
def State.repeated (s : State) (q : Quantifier) (operand : Tree) : Tree :=
  q.over { s.flags with nonGreedy := s.flags.nonGreedy != q.turned } operand

/-- A repetition stands one higher than its operand. -/
theorem repeatHeight_repeated (s : State) {q : Quantifier} (hq : q.Valid) (operand : Tree) :
    (s.repeated q operand).repeatHeight = 1 + operand.repeatHeight := by
  rw [State.repeated, Quantifier.over, Tree.repeatHeight_node, if_pos hq.isRepeat,
    List.map_singleton, List.headD_cons]

/-- The guards of a repetition, where there is a piece and no repetition has just been noted. -/
theorem quantify_of_operand {q : Quantifier} {operand : Tree} {pieces : List Tree}
    (hlast : (if s.flags.perlX then s.lastRepeat else none) = none)
    (hpieces : s.level.pieces = operand :: pieces) (start rest : List Char) :
    s.quantify setting start rest q =
      if setting.nestLimit ≤ s.groups.length + operand.repeatHeight then
        .error (State.wholeError setting .nestingDepth)
      else if q.op = .counted ∧ (2 ≤ q.min ∨ 2 ≤ q.max) ∧
          (s.repeated q operand).fitsBudget maxRepeat = false then
        .error (.between .invalidRepeatSize start rest)
      else .ok { s with level := { s.level with pieces := s.repeated q operand :: pieces } } := by
  rw [State.quantify]
  split
  · next last h =>
    rw [hlast] at h
    cases h
  · rw [hpieces]
    rfl

/-- A sign takes the last piece, if that is not a repetition just noted and the guards let it. -/
theorem quantify_eq_ok {start rest : List Char} {q : Quantifier} :
    s.quantify setting start rest q = .ok t ↔
      (if s.flags.perlX then s.lastRepeat else none) = none ∧
        ∃ operand pieces, s.level.pieces = operand :: pieces ∧
          s.groups.length + operand.repeatHeight < setting.nestLimit ∧
          (q.op = .counted → 2 ≤ q.min ∨ 2 ≤ q.max →
            (s.repeated q operand).fitsBudget maxRepeat = true) ∧
          t = { s with level := { s.level with pieces := s.repeated q operand :: pieces } } := by
  constructor
  · intro h
    obtain ⟨hlast, operand, pieces, hpieces⟩ :
        (if s.flags.perlX then s.lastRepeat else none) = none ∧
          ∃ operand pieces, s.level.pieces = operand :: pieces := by
      rw [State.quantify] at h
      split at h
      · cases h
      next hlast =>
      split at h
      · cases h
      next operand pieces hpieces => exact ⟨hlast, operand, pieces, hpieces⟩
    rw [quantify_of_operand hlast hpieces] at h
    split at h
    · cases h
    next hroom =>
    split at h
    · cases h
    next hfits =>
    refine ⟨hlast, operand, pieces, hpieces, Nat.lt_of_not_le hroom, fun hcounted hmany => ?_,
      (Except.ok.inj h).symm⟩
    by_contra hno
    exact hfits ⟨hcounted, hmany, eq_false_of_ne_true hno⟩
  · rintro ⟨hlast, operand, pieces, hpieces, hroom, hfits, rfl⟩
    rw [quantify_of_operand hlast hpieces, if_neg (Nat.not_le.mpr hroom), if_neg]
    rintro ⟨hcounted, hmany, hno⟩
    rw [hfits hcounted hmany] at hno
    cases hno

/-- A token is applied by its effect, and by noting whether it is a repetition. -/
theorem apply_eq (s : State) (start rest : List Char) (token : Token) :
    s.apply setting start rest token =
      (s.effect setting start rest token).map (·.mark (token.repeatAt start)) := by
  unfold State.apply
  cases s.effect setting start rest token with
  | error e => rfl
  | ok next =>
    cases token with
    | repetition q => rfl
    | _ => rfl

/-- Applying a token is its effect, and remembering where it began if it is a repetition. -/
theorem effect_of_apply {start rest : List Char} {token : Token} {next : State}
    (h : s.apply setting start rest token = .ok next) :
    ∃ middle, s.effect setting start rest token = .ok middle ∧
      next = middle.mark (token.repeatAt start) := by
  rw [apply_eq] at h
  cases heffect : s.effect setting start rest token with
  | error e =>
    rw [heffect] at h
    cases h
  | ok middle =>
    rw [heffect] at h
    exact ⟨middle, rfl, (Except.ok.inj h).symm⟩

/-- A repetition that is noted begins where the last token does. -/
theorem lastRepeat_of_apply {start rest last : List Char} {token : Token} {next : State}
    (h : s.apply setting start rest token = .ok next) (hlast : last ∈ next.lastRepeat) :
    last = start := by
  obtain ⟨middle, -, rfl⟩ := effect_of_apply h
  cases token with
  | repetition q => exact (Option.some.inj hlast).symm
  | _ => cases hlast

/-- A token that has an effect can be applied. -/
theorem apply_of_effect {start rest : List Char} {token : Token} {next : State}
    (h : s.effect setting start rest token = .ok next) :
    s.apply setting start rest token = .ok (next.mark (token.repeatAt start)) := by
  rw [apply_eq, h]
  rfl

/-- A run reads the first token and applies it, and goes on with the text after it. -/
theorem run_cons (s : State) (c : Char) (tail : List Char) :
    s.run setting (c :: tail) = (readToken s.flags c tail).bind fun read =>
      (s.apply setting (c :: tail) read.2 read.1).bind fun next => next.run setting read.2 := by
  rw [State.run]
  split
  · next h =>
    rw [h]
    rfl
  · next token rest h =>
    rw [h]
    show _ = (s.apply setting (c :: tail) rest token).bind fun next => next.run setting rest
    cases s.apply setting (c :: tail) rest token with
    | error e => rfl
    | ok next => rfl

/-- What is read of a text that begins with a token. -/
theorem run_token {c : Char} {text rest : List Char} {token : Token} {next : State}
    (hread : readToken s.flags c text = .ok (token, rest))
    (happly : s.apply setting (c :: text) rest token = .ok next) :
    s.run setting (c :: text) = next.run setting rest := by
  rw [run_cons, hread]
  show (s.apply setting (c :: text) rest token).bind _ = _
  rw [happly]
  rfl

/-- What holds of the run over no text, and of a run if it holds of what is left of it after the
    first token, holds of every run that succeeds. -/
theorem run_induct {M : State → List Char → State → Prop} (stop : ∀ s, M s [] s)
    (step : ∀ s c tail token rest next t, readToken s.flags c tail = .ok (token, rest) →
      s.apply setting (c :: tail) rest token = .ok next → M next rest t → M s (c :: tail) t)
    {text : List Char} (h : s.run setting text = .ok t) : M s text t := by
  induction text using suffix_induct generalizing s with
  | nil =>
    rw [State.run] at h
    cases h
    exact stop _
  | cons c tail ih =>
    rw [State.run] at h
    split at h
    · cases h
    · next token rest hread =>
      split at h
      · cases h
      · next next happly =>
        exact step s c tail token rest next t hread happly (ih rest (readToken_suffix hread) h)

end Parse

/-! ## Patterns -/

section

variable {pattern : String} {flags : Flags} {limit : Nat} (hlit : flags.literal = false)

include hlit

/-- A run that leaves no group open gives the tree of the level. -/
theorem parseWith_of_run {A : Assembly} {s : Parse.State}
    (hrun : Parse.State.run ⟨A, limit, pattern.toList⟩ { flags } pattern.toList = .ok s)
    (hclosed : s.groups = []) :
    parseWith A pattern flags limit = .ok ⟨s.level.finish A, s.captures, s.names⟩ := by
  rw [parseWith, hlit, if_neg Bool.false_ne_true]
  dsimp only
  rw [hrun]
  dsimp only
  rw [hclosed]
  rfl

/-- A run over the whole pattern that leaves no group open reads it. -/
theorem parsePattern_of_run {s : Parse.State}
    (hrun : Parse.State.run ⟨.normal, limit, pattern.toList⟩ { flags } pattern.toList = .ok s)
    (hclosed : s.groups = []) :
    parsePattern pattern flags limit = .ok ⟨s.level.finish .normal, s.captures, s.names⟩ :=
  parseWith_of_run hlit hrun hclosed

/-- A pattern that is read is read by a run that leaves no group open. -/
theorem run_of_parsePattern {p : Pattern} (hp : parsePattern pattern flags limit = .ok p) :
    ∃ s, Parse.State.run ⟨.normal, limit, pattern.toList⟩ { flags } pattern.toList = .ok s ∧
      s.groups = [] ∧ p = ⟨s.level.finish .normal, s.captures, s.names⟩ := by
  rw [parsePattern, parseWith, hlit, if_neg Bool.false_ne_true] at hp
  dsimp only at hp
  split at hp
  · cases hp
  · next s hrun =>
    split at hp
    · next hclosed => exact ⟨s, hrun, List.isEmpty_iff.mp hclosed, (Except.ok.inj hp).symm⟩
    · cases hp

end

end RegexTree
