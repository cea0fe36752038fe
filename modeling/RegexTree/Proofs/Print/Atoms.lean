/-
  Printed leaves are read back exactly.

  A literal is printed rune by rune, and a class in brackets, without anything between what is
  written for one rune and for the next.  Some runes are written as themselves, some as an escape of
  one letter and some by their number, and a surrogate, which is no character, by its number always.
  Still a printed literal is read as an equal one, and a printed class as a single atom that matches
  the same runes (`parse_print_atoms`).

  A literal that folds is printed in a group with a flag.  Its runes have to be the least of their
  orbits for the tree to be equal, as those of patterns are; for a literal that does not fold there
  is no condition but that its runes are code points.

  The atom that a class is read as may be a dot, or a literal that stands for one rune or for a
  pair; so the runes that it matches are told by a test (`runeTest?`), which is what the matcher
  tries (`results_of_runeTest?`).  For a class that is clean nothing else is known of it, and the
  class that is read may be another one: it is the test that is the same.
-/
import RegexTree.Proofs.Match.Atoms
import RegexTree.Proofs.Print.RoundTrip

namespace RegexTree

open Matcher
open Assembly (asDot classPiece)

namespace Tree

/-! ## Atoms and dots -/

/-- The test of a tree that matches one rune for the runes that it matches; other trees have none.
    These are the dots, the classes and the literals of one rune. -/
def runeTest? (t : Tree) : Option (Nat → Bool) :=
  match t.op with
  | .anyChar => some fun _ => true
  | .anyCharNotNL => some (· != newline)
  | _ => t.atomTest?

/-- An atom is tested as one. -/
theorem runeTest?_of_atomTest? {t : Tree} {test : Nat → Bool} (h : t.atomTest? = some test) :
    t.runeTest? = some test := by
  unfold runeTest?
  split
  · next hop =>
    rw [atomTest?, hop] at h
    cases h
  · next hop =>
    rw [atomTest?, hop] at h
    cases h
  · exact h

/-- What passes the test is what the tree matches. -/
theorem results_of_runeTest? {t : Tree} {test : Nat → Bool} (h : t.runeTest? = some test) :
    t.results = oneRune test := by
  obtain ⟨l, subs⟩ := t
  unfold runeTest? at h
  split at h
  · next hop =>
    rw [op_node] at hop
    rw [results_node, Label.results, hop]
    exact congrArg oneRune (Option.some.inj h)
  · next hop =>
    rw [op_node] at hop
    rw [results_node, Label.results, hop]
    exact congrArg oneRune (Option.some.inj h)
  · exact results_of_atomTest? h

/-- All code points are in the class of all runes. -/
theorem has_full {r : Nat} (hr : r ≤ maxRune) : Ranges.full.has r = true :=
  Ranges.has_iff.mpr ⟨_, List.mem_cons_self, Nat.zero_le r, hr⟩

theorem has_fullButNewline {r : Nat} (hr : r ≤ maxRune) :
    Ranges.fullButNewline.has r = (r != newline) := by
  rw [Bool.eq_iff_iff, bne_iff_ne, Ranges.has_iff]
  simp only [Ranges.fullButNewline, List.mem_cons, List.not_mem_nil, or_false, exists_eq_or_imp,
    exists_eq_left, newline]
  omega

/-- A dot matches the same runes as the class that it stands for. -/
theorem runeTest?_asDot {t : Tree} {test : Nat → Bool} (h : t.atomTest? = some test) :
    ∃ test', (asDot t).runeTest? = some test' ∧ ∀ r ≤ maxRune, test' r = test r := by
  rw [asDot]
  split
  · next hop =>
    have htest : test = (Ranges.ofRunes t.runes).has := by
      rw [atomTest?, hop] at h
      exact (Option.some.inj h).symm
    split
    · next hfull =>
      refine ⟨fun _ => true, by cases t; rfl, fun r hr => ?_⟩
      rw [htest, hfull, Ranges.ofRunes_runes, has_full hr]
    · split
      · next hfull =>
        refine ⟨(· != newline), by cases t; rfl, fun r hr => ?_⟩
        rw [htest, hfull, Ranges.ofRunes_runes, has_fullButNewline hr]
      · exact ⟨test, runeTest?_of_atomTest? h, fun _ _ => rfl⟩
  · exact ⟨test, runeTest?_of_atomTest? h, fun _ _ => rfl⟩

/-! ## Leaves as patterns -/

/-- A leaf that is read as it should be is the text of a whole pattern. -/
theorem parse_print_leaf {l : Label} (hleaf : l.op.arity = .leaf)
    (h : Parse.Rereads ⟨.normal, defaultNestLimit, (node l []).printed⟩ 1 (node l [])) :
    parse (node l []).print .perl = .ok (asDot (sequence ((node l []).reread .normal))) := by
  have hne : l.op ≠ .capture := Op.ne_of_arity hleaf (by decide)
  have hcaps : (node l []).captures = [] := by
    rw [captures_of_ne hne]
    rfl
  have hnumbers : NumberedFrom 0 (node l []).captures := by
    rw [hcaps]
    trivial
  have hnames : ((named (node l []).captures).map (·.1)).Nodup := by
    rw [hcaps]
    exact List.nodup_nil
  obtain ⟨q, hq, hroot⟩ := parseWith_print (by decide) h hnumbers hnames
  rw [parse, parsePattern, hq, Except.map, hroot]
  rfl

/-- A printed literal is read as an equal literal. -/
theorem parse_print_literal {runes : List Nat} (hne : runes ≠ []) {fold : Bool}
    (hrunes : ∀ r ∈ runes, PrintableRune fold r) :
    ∃ t, parse (literal runes { foldCase := fold }).print .perl = .ok t ∧
      t.equal (literal runes { foldCase := fold }) = true := by
  have hread := parse_print_leaf (l := { op := .literal, flags := { foldCase := fold }, runes }) rfl
    (Parse.rereads_literal Assembly.joins_normal rfl hne hrunes)
  refine ⟨literal runes { Flags.perl with foldCase := fold }, ?_, equal_literal_iff.mpr ⟨rfl, rfl⟩⟩
  refine hread.trans (congrArg Except.ok ?_)
  have hsame : sequence ((node { op := .literal, flags := { foldCase := fold }, runes } []).reread
      .normal) = literal runes { Flags.perl with foldCase := fold } := by
    cases fold with
    | true => rw [reread_folded rfl rfl, sequence_singleton]
    | false => exact (congrArg sequence (reread_literal rfl rfl)).trans (sequence_letters .perl hne)
  have hdot : ¬(literal runes { Flags.perl with foldCase := fold }).DotClass :=
    fun hdot => nomatch hdot.1
  rw [hsame, asDot_of_not hdot]

/-- A printed class is read as an atom for the same runes. -/
theorem parse_print_charClass {x : Ranges} (hx : x.Clean) (flags : Flags) :
    ∃ t test, parse (charClass x flags).print .perl = .ok t ∧ t.runeTest? = some test ∧
      ∀ r ≤ maxRune, test r = x.has r := by
  have hread := parse_print_leaf (l := { op := .charClass, flags, runes := x.runes }) rfl
    (Parse.rereads_charClass Assembly.joins_normal rfl rfl hx)
  rw [reread_class (x := x) rfl rfl, sequence_singleton] at hread
  obtain ⟨test, htest, htests⟩ := classPiece_isAtomOf .perl x
  obtain ⟨test', htest', hsame⟩ := runeTest?_asDot htest
  refine ⟨_, test', hread, htest', fun r hr => ?_⟩
  rw [hsame r hr, Bool.eq_iff_iff]
  exact htests r

/-- Printed runes and classes are read back exactly.  A literal is read as an equal one, without
    folding for all runes, and with folding for those that are the smallest of their orbits; a clean
    class is read as a single atom that matches just the runes of the class. -/
theorem parse_print_atoms :
    (∀ runes : List Nat, runes ≠ [] → (∀ r ∈ runes, r ≤ maxRune) →
      ∃ t, parse (literal runes {}).print .perl = .ok t ∧ t.equal (literal runes {}) = true) ∧
    (∀ runes : List Nat, runes ≠ [] → (∀ r ∈ runes, r ≤ maxRune ∧ Unicode.minFold r = r) →
      ∃ t, parse (literal runes { foldCase := true }).print .perl = .ok t ∧
        t.equal (literal runes { foldCase := true }) = true) ∧
    ∀ (x : Ranges) (flags : Flags), x.Clean →
      ∃ t test, parse (charClass x flags).print .perl = .ok t ∧ t.runeTest? = some test ∧
        ∀ r ≤ maxRune, test r = x.has r := by
  refine ⟨fun runes hne h => ?_, fun runes hne h => ?_, fun x flags hx => ?_⟩
  · exact parse_print_literal hne fun r hr => ⟨h r hr, fun hfold => nomatch hfold⟩
  · exact parse_print_literal hne fun r hr => ⟨(h r hr).1, fun _ => (h r hr).2⟩
  · exact parse_print_charClass hx flags

/-- A text with a surrogate, a text that folds, and the class of all runes but the newline, which is
    printed as the complement of that. -/
theorem parse_print_atoms_surrogate :
    (literal [0xd800, 0x2d, 0x5d] {}).print = "\\x\x7bd800\x7d-\\]" ∧
    (∃ t, parse (literal [0xd800, 0x2d, 0x5d] {}).print .perl = .ok t ∧
      t.equal (literal [0xd800, 0x2d, 0x5d] {}) = true) ∧
    (∃ t, parse (literal [0x4b, 0x2e] { foldCase := true }).print .perl = .ok t ∧
      t.equal (literal [0x4b, 0x2e] { foldCase := true }) = true) ∧
    (charClass Ranges.fullButNewline {}).print = "[^\\n]" ∧
    ∃ t test, parse (charClass Ranges.fullButNewline {}).print .perl = .ok t ∧
      t.runeTest? = some test ∧ test newline = false ∧ test 0xd800 = true := by
  obtain ⟨hplain, hfold, hclass⟩ := parse_print_atoms
  have hclean : Ranges.fullButNewline.Clean := by
    rw [Ranges.fullButNewline, Ranges.clean_cons, Ranges.clean_cons]
    refine ⟨by decide, List.forall_mem_singleton.mpr (by decide), by decide, ?_, Ranges.clean_nil⟩
    exact fun _ h => absurd h List.not_mem_nil
  obtain ⟨t, test, ht, htest, hsame⟩ := hclass Ranges.fullButNewline {} hclean
  refine ⟨by decide +kernel, hplain _ (List.cons_ne_nil _ _) ?_, hfold _ (List.cons_ne_nil _ _) ?_,
    by decide +kernel, t, test, ht, htest, ?_, ?_⟩
  · simp [maxRune]
  · simp only [List.forall_mem_cons]
    exact ⟨by decide +kernel, by decide +kernel, fun _ h => absurd h List.not_mem_nil⟩
  · rw [hsame newline (by decide)]
    rfl
  · rw [hsame 0xd800 (by decide)]
    decide

end Tree

end RegexTree
