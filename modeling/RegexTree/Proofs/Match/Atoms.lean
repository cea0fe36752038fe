/-
  Atoms: trees that match one rune.

  A class matches the runes in its ranges, and a literal of one rune the runes that this stands for,
  which are all of its orbit if letters fold; `atomTest?` is the test for them.  It is a test for
  any rune, of which the matcher tries only those of characters (`results_of_atomTest?`), so two
  atoms that test alike match alike and not the other way round.

  The reader does not keep every class that is written.  The piece that a class is rewritten to, a
  literal if it has one rune or one orbit, tests the same as the class (`classPiece_isAtomOf`), so
  both match the same (`results_classPiece`).  Half of that is the question what a folded literal
  stands for: the least rune of the orbit is kept, and reading as that is reading as any other
  member of the orbit (`readsAs_minFold`, `readsAs_of_isFoldPair`).

  `IsAtomOf runes` says the same without a function for the test, so that it can be stated for sets
  of runes that are given by a property.
-/
import RegexTree.Parse.Assembly
import RegexTree.Proofs.Match.Algebra
import RegexTree.Proofs.Unicode.Orbits

namespace RegexTree

open Matcher

/-! ## Runes of literals -/

/-- Only the runes of characters are ever tried. -/
theorem Matcher.oneRune_congr {f g : Nat → Bool} (h : ∀ c : Char, f c.toNat = g c.toNat) :
    oneRune f = oneRune g := by
  funext s
  simp only [oneRune, h]

/-- The orbit of one of a pair is the other. -/
theorem Unicode.orbit_of_isFoldPair {a b : Nat} (h : isFoldPair a b = true) : orbit a = [b] := by
  simp only [isFoldPair, Bool.and_eq_true, bne_iff_ne, beq_iff_eq] at h
  obtain ⟨⟨hne, hab⟩, hba⟩ := h
  rw [orbit, hab]
  simp only [walkBound, walk, if_neg (Ne.symm hne), hba, if_true]

/-- Without folding a rune of a literal stands for itself. -/
theorem readsAs_false_iff {r c : Nat} : readsAs false r c = true ↔ c = r := by
  simp only [readsAs, Bool.false_and, Bool.or_false, beq_iff_eq]

/-- Where letters stand for all of their case, a rune stands for its orbit. -/
theorem readsAs_true_iff {r c : Nat} : readsAs true r c = true ↔ Unicode.SameOrbit r c := by
  simp only [readsAs, Bool.true_and, Bool.or_eq_true, beq_iff_eq, List.contains_iff_mem,
    Unicode.sameOrbit_iff]

/-- The smallest rune of an orbit stands for the same runes as any other of it. -/
theorem readsAs_minFold (r c : Nat) : readsAs true (Unicode.minFold r) c = readsAs true r c := by
  rw [Bool.eq_iff_iff, readsAs_true_iff, readsAs_true_iff]
  constructor
  · exact (Unicode.sameOrbit_minFold r).trans
  · exact (Unicode.sameOrbit_minFold r).symm.trans

/-- One of a pair stands for both. -/
theorem readsAs_of_isFoldPair {a b : Nat} (h : Unicode.isFoldPair a b = true) {c : Nat} :
    readsAs true a c = true ↔ c = a ∨ c = b := by
  rw [readsAs_true_iff, Unicode.sameOrbit_iff, Unicode.orbit_of_isFoldPair h, List.mem_singleton]

namespace Tree

/-! ## Atoms -/

/-- A literal matches its runes one after the other. -/
theorem results_literal (runes : List Nat) (flags : Flags) :
    (literal runes flags).results =
      inOrder (runes.map fun r => oneRune (readsAs flags.foldCase r)) :=
  results_node _ _

/-- A class matches one rune that is in its ranges. -/
theorem results_charClass (x : Ranges) (flags : Flags) :
    (charClass x flags).results = oneRune x.has := by
  rw [charClass, results_node]
  show oneRune (Ranges.ofRunes x.runes).has = _
  rw [Ranges.ofRunes_runes]

/-- The test of an atom for the runes that it matches; other trees have none. -/
def atomTest? (t : Tree) : Option (Nat → Bool) :=
  match t.op, t.runes with
  | .charClass, runes => some (Ranges.ofRunes runes).has
  | .literal, [r] => some (readsAs t.flags.foldCase r)
  | _, _ => none

/-- An atom matches one rune of those that it tests for. -/
theorem results_of_atomTest? {t : Tree} {test : Nat → Bool} (h : t.atomTest? = some test) :
    t.results = oneRune test := by
  obtain ⟨l, subs⟩ := t
  rw [results_node, Label.results]
  unfold atomTest? at h
  split at h
  · next runes hop =>
    rw [op_node] at hop
    rw [hop]
    exact congrArg oneRune (Option.some.inj h)
  · next r hop hrunes =>
    rw [op_node] at hop
    rw [runes_node] at hrunes
    rw [hop]
    show inOrder (l.runes.map _) = _
    rw [hrunes, List.map_singleton, inOrder_singleton]
    exact congrArg oneRune (Option.some.inj h)
  · cases h

/-- The tree is an atom that matches just the runes of a set. -/
def IsAtomOf (t : Tree) (runes : Nat → Prop) : Prop :=
  ∃ test, t.atomTest? = some test ∧ ∀ c, test c = true ↔ runes c

/-- What an atom stands for matters only as a set. -/
theorem IsAtomOf.congr {t : Tree} {runes runes' : Nat → Prop} (h : t.IsAtomOf runes)
    (hiff : ∀ c, runes c ↔ runes' c) : t.IsAtomOf runes' := by
  obtain ⟨test, htest, htests⟩ := h
  exact ⟨test, htest, fun c => (htests c).trans (hiff c)⟩

/-- Whether an atom matches depends on its label alone. -/
theorem IsAtomOf.of_label {t u : Tree} {runes : Nat → Prop} (h : t.IsAtomOf runes)
    (hlabel : t.op = u.op ∧ t.runes = u.runes ∧ t.flags = u.flags) : u.IsAtomOf runes := by
  obtain ⟨test, htest, htests⟩ := h
  obtain ⟨hop, hrunes, hflags⟩ := hlabel
  refine ⟨test, ?_, htests⟩
  rw [← htest, atomTest?, atomTest?, hop, hrunes, hflags]

/-- A class is an atom of the runes in its ranges. -/
theorem charClass_isAtomOf (x : Ranges) (flags : Flags) :
    (charClass x flags).IsAtomOf (x.has · = true) := by
  refine ⟨x.has, ?_, fun _ => Iff.rfl⟩
  show some (Ranges.ofRunes x.runes).has = _
  rw [Ranges.ofRunes_runes]

/-- A literal of one rune is an atom of the runes that this one stands for. -/
theorem literal_isAtomOf {flags : Flags} {r : Nat} {runes : Nat → Prop}
    (h : ∀ c, readsAs flags.foldCase r c = true ↔ runes c) :
    (literal [r] flags).IsAtomOf runes :=
  ⟨readsAs flags.foldCase r, rfl, h⟩

/-- The piece that stands for a class matches just the runes of the class. -/
theorem classPiece_isAtomOf (flags : Flags) (x : Ranges) :
    (Assembly.classPiece flags x).IsAtomOf (x.has · = true) := by
  unfold Assembly.classPiece
  split
  · next a =>
    split
    · next hone =>
      refine literal_isAtomOf fun c => ?_
      rw [readsAs_false_iff, Ranges.has_cons, Ranges.has_nil, Bool.or_false, Range.has_iff]
      omega
    · split
      · next hpair =>
        refine literal_isAtomOf fun c => ?_
        rw [readsAs_of_isFoldPair hpair.2, Ranges.has_cons, Ranges.has_nil, Bool.or_false,
          Range.has_iff]
        omega
      · exact charClass_isAtomOf _ flags
  · next a b =>
    split
    · next hpair =>
      refine literal_isAtomOf fun c => ?_
      rw [readsAs_of_isFoldPair hpair.2.2, Ranges.has_cons, Ranges.has_cons, Ranges.has_nil,
        Bool.or_false, Bool.or_eq_true, Range.has_iff, Range.has_iff]
      omega
    · exact charClass_isAtomOf _ flags
  · exact charClass_isAtomOf _ flags

/-- A class matches the same as the piece that stands for it. -/
theorem results_classPiece (flags : Flags) (x : Ranges) :
    (Assembly.classPiece flags x).results = (charClass x flags).results := by
  obtain ⟨test, htest, htests⟩ := classPiece_isAtomOf flags x
  rw [results_of_atomTest? htest, results_charClass]
  exact oneRune_congr fun c => Bool.eq_iff_iff.mpr (htests c.toNat)

end Tree

end RegexTree
