/-
  Reading without regard to letter case does not depend on the case written.

  Where letters stand for all of their case, a literal is made of the smallest runes of their
  orbits, and a class has whole orbits.  So two patterns that differ in letter case only are read
  token by token to tokens that are alike (`TokenAlike`), and these lead to one and the same state
  but for the text from where the last repetition stands (`Resumed`): that is kept for the error of
  a repeated sign, and shows the pattern as it was written (`run_alike`).

  The patterns may have different lengths in bytes, since letters of one orbit may.  Nothing that
  decides how to read on looks at that.  They are read as the same tree, or both fail with the same
  code (`parsePattern_alike`).

  That the case of letters is ignored all along is part of the invariant: folding may be switched
  off inside of a pattern, so a state is `Folding` if it is on here and after every group that is
  open, and the patterns must not switch it off.

  For all flags, folding or not, the runes of a literal that folds are the least of their orbits
  (`LeastRunes`).
-/
import RegexTree.Proofs.Parse.Printable
import RegexTree.Proofs.Parse.Runs
import RegexTree.Proofs.Syntax.Folded

namespace RegexTree

open List (Forall₂)

namespace Parse

/-- Letters stand for all of their case, here and wherever a group that is open ends. -/
structure State.Folding (s : State) : Prop where
  here : s.flags.foldCase = true
  groups : ∀ group ∈ s.groups, group.flags.foldCase = true

/-- The states differ at most in the text from where the last repetition stands. -/
def Resumed (s t : State) : Prop :=
  ∃ last, t = s.mark last ∧ last.isSome = s.lastRepeat.isSome

/-- Letters of one orbit make the same literal. -/
theorem literalPiece_alike {flags : Flags} (hfold : flags.foldCase = true) {r r' : Nat}
    (h : Unicode.SameOrbit r r') : State.literalPiece flags r = State.literalPiece flags r' := by
  rw [State.literalPiece, State.literalPiece, if_pos hfold, if_pos hfold, h.minFold_eq]

section

variable {x y : Setting} (hassembly : x.assembly = y.assembly) (hlimit : x.nestLimit = y.nestLimit)
  {s : State} {last : Option (List Char)} (hlast : last.isSome = s.lastRepeat.isSome)

include hlast hlimit

/-- Opening a group looks at the number of groups only. -/
theorem openGroup_alike (flags : Flags) (capture : Option (Nat × Option String)) :
    SameCode Resumed (s.openGroup x flags capture) ((s.mark last).openGroup y flags capture) := by
  have hgroups : (s.mark last).groups = s.groups := rfl
  rw [State.openGroup, State.openGroup, hlimit, hgroups]
  split
  · rfl
  · exact ⟨last, rfl, hlast⟩

/-- Whether a repetition follows a repetition does not hang on where that stands. -/
theorem quantify_alike (start rest start' rest' : List Char) (q : Quantifier) :
    SameCode Resumed (s.quantify x start rest q) ((s.mark last).quantify y start' rest' q) := by
  have hrepeated : (if (s.mark last).flags.perlX then (s.mark last).lastRepeat else none).isSome =
      (if s.flags.perlX then s.lastRepeat else none).isSome := by
    show (if s.flags.perlX then last else none).isSome = _
    split
    · exact hlast
    · rfl
  have hlevel : (s.mark last).level = s.level := rfl
  have hgroups : (s.mark last).groups = s.groups := rfl
  have hflags : (s.mark last).flags = s.flags := rfl
  rw [State.quantify, State.quantify, hlimit]
  -- the two states note a repetition at different places, but both of them do or neither does
  revert hrepeated
  cases (if s.flags.perlX then s.lastRepeat else none) with
  | some place =>
    cases (if (s.mark last).flags.perlX then (s.mark last).lastRepeat else none) with
    | some place' => exact fun _ => rfl
    | none => exact fun hrepeated => by cases hrepeated
  | none =>
    cases (if (s.mark last).flags.perlX then (s.mark last).lastRepeat else none) with
    | some place' => exact fun hrepeated => by cases hrepeated
    | none =>
      intro _
      dsimp only
      rw [hlevel, hgroups, hflags]
      cases s.level.pieces with
      | nil => rfl
      | cons operand pieces =>
        dsimp only
        split
        · rfl
        · split
          · rfl
          · exact ⟨last, rfl, hlast⟩

include hassembly

/-- Tokens that are alike do the same. -/
theorem effect_alike (hfold : s.flags.foldCase = true) (start rest start' rest' : List Char)
    {token token' : Token} (h : TokenAlike token token') :
    SameCode Resumed (s.effect x start rest token)
      ((s.mark last).effect y start' rest' token') := by
  cases h with
  | capture =>
    -- without a name there is nothing to refuse
    have hopen : ∀ (z : Setting) (s : State) (start rest : List Char),
        s.openCapture z start rest none =
          State.openGroup z { s with captures := s.captures + 1, names := s.names ++ [] } s.flags
            (some (s.captures + 1, none)) := fun _ _ _ _ => rfl
    rw [State.effect, State.effect, hopen, hopen]
    exact openGroup_alike (s := { s with captures := s.captures + 1, names := s.names ++ [] })
      hlimit hlast s.flags _
  | bar =>
    rw [State.effect, State.effect, hassembly]
    exact ⟨last, rfl, hlast⟩
  | close =>
    rw [State.effect, State.effect, State.closeGroup, State.closeGroup, hassembly]
    dsimp only [State.mark]
    cases s.groups with
    | nil => rfl
    | cons group groups => exact ⟨last, rfl, hlast⟩
  | simple piece => exact ⟨last, rfl, hlast⟩
  | text h =>
    refine ⟨last, ?_, hlast⟩
    rw [List.foldl_cons, List.foldl_cons, List.foldl_nil, List.foldl_nil,
      literalPiece_alike hfold h]
    rfl
  | repetition q => exact quantify_alike hlimit hlast _ _ _ _ q

end

/-- Tokens that are alike leave letters standing for all of their case. -/
theorem State.Folding.effect {setting : Setting} {s next : State} (hs : s.Folding)
    {start rest : List Char} {token token' : Token} (htoken : TokenAlike token token')
    (h : s.effect setting start rest token = .ok next) : next.Folding := by
  cases htoken with
  | capture =>
    obtain ⟨-, hopen⟩ := openCapture_eq_ok.mp h
    obtain ⟨-, rfl⟩ := openGroup_eq_ok.mp hopen
    exact ⟨hs.here, List.forall_mem_cons.mpr ⟨hs.here, hs.groups⟩⟩
  | bar =>
    cases h
    exact ⟨hs.here, hs.groups⟩
  | close =>
    obtain ⟨group, groups, hgroups, rfl⟩ := closeGroup_eq_ok.mp h
    have hall := hs.groups
    rw [hgroups] at hall
    exact ⟨(List.forall_mem_cons.mp hall).1, (List.forall_mem_cons.mp hall).2⟩
  | simple piece =>
    cases h
    exact ⟨hs.here, hs.groups⟩
  | text _ =>
    cases h
    exact ⟨hs.here, hs.groups⟩
  | repetition q =>
    obtain ⟨-, _, _, -, -, -, rfl⟩ := quantify_eq_ok.mp h
    exact ⟨hs.here, hs.groups⟩

/-- What is remembered of the last repetition may differ, if it is remembered on both sides. -/
theorem Resumed.mark {s t : State} (h : Resumed s t) {start start' : List Char}
    {token token' : Token} (htoken : TokenAlike token token') :
    Resumed (s.mark (token.repeatAt start)) (t.mark (token'.repeatAt start')) := by
  obtain ⟨last, rfl, -⟩ := h
  refine ⟨token'.repeatAt start', rfl, ?_⟩
  cases htoken with
  | repetition q => rfl
  | _ => rfl

/-- Runs over texts that are alike come to states that are alike, or to errors of one code; by
    induction on the text that is left, which is shorter on both sides after each token. -/
theorem run_alike {x y : Setting} (hassembly : x.assembly = y.assembly)
    (hlimit : x.nestLimit = y.nestLimit) {s t : State} (hs : s.Folding) (hst : Resumed s t)
    {xs ys : List Char} (hletters : LettersOnly xs) (h : Forall₂ SameLetter xs ys) :
    SameCode Resumed (s.run x xs) (t.run y ys) := by
  induction xs using suffix_induct generalizing s t ys with
  | nil =>
    cases h
    rw [State.run, State.run]
    exact hst
  | cons c xs ih =>
    obtain ⟨d, ys, hcd, htail, rfl⟩ := List.forall₂_cons_left_iff.mp h
    obtain ⟨last, rfl, hlast⟩ := hst
    have hflags : (s.mark last).flags = s.flags := rfl
    rw [run_cons, run_cons, hflags]
    refine (readToken_alike s.flags hletters hcd htail).bind fun read read' hread _ halike => ?_
    have hsuffix := readToken_suffix hread
    rw [apply_eq, apply_eq]
    have heffect := effect_alike hassembly hlimit hlast hs.here (c :: xs) read.2 (d :: ys) read'.2
      halike.1
    rcases heffect.cases with ⟨e, f, he, hf, hcode⟩ | ⟨next, next', hnext, hnext', hresumed⟩
    · rw [he, hf]
      exact hcode
    · rw [hnext, hnext']
      have hfolding := State.Folding.effect hs halike.1 hnext
      have hrest := hletters.of_suffix (hsuffix.trans (List.suffix_cons c xs))
      refine ih read.2 hsuffix ?_ (hresumed.mark halike.1) hrest halike.2
      exact ⟨hfolding.here, hfolding.groups⟩

end Parse

/-- Patterns that differ in letter case only are read as the same pattern where letters stand for
    all of their case, or fail with the same code. -/
theorem parsePattern_alike {flags : Flags} (hlit : flags.literal = false)
    (hfold : flags.foldCase = true) {pattern pattern' : String} (limit : Nat)
    (hletters : LettersOnly pattern.toList)
    (h : Forall₂ SameLetter pattern.toList pattern'.toList) :
    SameCode (fun p q => p = q) (parsePattern pattern flags limit)
      (parsePattern pattern' flags limit) := by
  have hstart : Parse.State.Folding { flags } :=
    ⟨hfold, fun _ hg => absurd hg List.not_mem_nil⟩
  have hsame : Parse.Resumed { flags } { flags } := ⟨none, rfl, rfl⟩
  have hrun := Parse.run_alike (x := ⟨.normal, limit, pattern.toList⟩)
    (y := ⟨.normal, limit, pattern'.toList⟩) rfl rfl hstart hsame hletters h
  rw [parsePattern, parsePattern, parseWith, parseWith, hlit, if_neg Bool.false_ne_true,
    if_neg Bool.false_ne_true]
  dsimp only
  rcases hrun.cases with ⟨e, f, he, hf, hcode⟩ | ⟨s, t, hs, ht, last, rfl, -⟩
  · rw [he, hf]
    exact hcode
  · rw [hs, ht]
    have hgroups : (s.mark last).groups = s.groups := rfl
    dsimp only
    rw [hgroups]
    split
    · rfl
    · rfl

/-- The runes of a literal that stand for all of their case are the smallest of their orbits. -/
def LeastRunes (l : Label) (_ : List Tree) : Prop :=
  l.op = .literal → l.flags.foldCase = true → ∀ r ∈ l.runes, Unicode.minFold r = r

/-- What is read does not depend on the case that is written.  Whatever the flags, in each literal
    that stands for all of its case the runes are the smallest of their orbits.  And where letters
    stand for all of their case, patterns of the same orbits, character by character and without
    escapes, brackets and groups with a question mark, are read as the same pattern, with the same
    tree and captures, or fail with the same code. -/
theorem parsePattern_case_independent {flags : Flags} (hlit : flags.literal = false) :
    (∀ pattern limit p, parsePattern pattern flags limit = .ok p →
      p.root.Everywhere LeastRunes) ∧
    (flags.foldCase = true → ∀ (pattern pattern' : String) (limit : Nat),
      LettersOnly pattern.toList → Forall₂ SameLetter pattern.toList pattern'.toList →
      (∃ p, parsePattern pattern flags limit = .ok p ∧ parsePattern pattern' flags limit = .ok p) ∨
      ∃ e e', parsePattern pattern flags limit = .error e ∧
        parsePattern pattern' flags limit = .error e' ∧ e.code = e'.code) := by
  constructor
  · intro pattern limit p hp
    refine (parsePattern_printable hlit hp).1.nodes.imp fun l subs hnode hop hfold r hr => ?_
    exact ((hnode.literal hop).2 r hr).2 hfold
  · intro hfold pattern pattern' limit hletters h
    rcases (parsePattern_alike hlit hfold limit hletters h).cases with
      ⟨e, e', he, he', hcode⟩ | ⟨p, p', hp, hp', rfl⟩
    · exact Or.inr ⟨e, e', he, he', hcode⟩
    · exact Or.inl ⟨p, hp, hp'⟩

/-- The Kelvin sign and the long s, which take more bytes than the letters that they stand for. -/
theorem parsePattern_case_independent_kelvin :
    LettersOnly "k(ss|Sa)*".toList ∧
    Forall₂ SameLetter "k(ss|Sa)*".toList "\u212a(\u017fs|\u017fA)*".toList ∧
    ∃ p, parsePattern "k(ss|Sa)*" { Flags.perl with foldCase := true } 10 = .ok p ∧
      parsePattern "\u212a(\u017fs|\u017fA)*" { Flags.perl with foldCase := true } 10 = .ok p ∧
      p.root.print = "(?i:K)((?i:S)(?:(?i:S)|(?i:A)))*" ∧ p.root.Everywhere LeastRunes := by
  have hletters : LettersOnly "k(ss|Sa)*".toList := by
    have hall : ("k(ss|Sa)*".toList.all fun c => c != '\\' && c != '[' && c != '?') = true := by
      decide
    have hnone := fun c hc => List.all_eq_true.mp hall c hc
    simp only [Bool.and_eq_true, bne_iff_ne] at hnone
    refine ⟨fun c hc => (hnone c hc).1, fun hmark => ?_⟩
    exact (hnone '?' (hmark.subset (List.mem_cons_of_mem _ List.mem_cons_self))).2 rfl
  have halike : Forall₂ SameLetter "k(ss|Sa)*".toList "\u212a(\u017fs|\u017fA)*".toList := by
    refine Forall₂.cons ⟨1, ?_⟩ (Forall₂.cons ⟨0, ?_⟩ (Forall₂.cons ⟨1, ?_⟩ (Forall₂.cons ⟨0, ?_⟩
      (Forall₂.cons ⟨0, ?_⟩ (Forall₂.cons ⟨2, ?_⟩ (Forall₂.cons ⟨1, ?_⟩ (Forall₂.cons ⟨0, ?_⟩
        (Forall₂.cons ⟨0, ?_⟩ Forall₂.nil))))))))
    all_goals decide +kernel
  obtain ⟨p, hp, hprint⟩ :
      ∃ p, parsePattern "k(ss|Sa)*" { Flags.perl with foldCase := true } 10 = .ok p ∧
        p.root.print = "(?i:K)((?i:S)(?:(?i:S)|(?i:A)))*" :=
    exists_of_map_eq_ok (f := fun p : Pattern => p.root.print) (by decide +kernel)
  obtain ⟨hleast, hsame⟩ := @parsePattern_case_independent { Flags.perl with foldCase := true } rfl
  refine ⟨hletters, halike, p, hp, ?_, hprint, hleast _ 10 p hp⟩
  rcases hsame rfl _ _ 10 hletters halike with ⟨q, hq, hq'⟩ | ⟨e, -, he, -, -⟩
  · rw [hp] at hq
    cases hq
    exact hq'
  · rw [hp] at he
    cases he

end RegexTree
