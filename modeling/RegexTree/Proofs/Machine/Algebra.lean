/-
  The algebra of classes in a buffer.

  A buffer of the machine is a list of numbers, two for each range.  A list of valid ranges stands
  for the runes in them, and each operation on buffers is described by what it does to those:

  * appending adds a range, a class, what a class leaves out, or all that folds into a range
    (`appendClass_makes`, `appendNegatedClass_makes`, `appendFoldedRange_closure`);
  * cleaning changes nothing, and gives one list for all that hold the same runes
    (`cleanClass_makes`, `cleanClass_eq_iff`), so that the cleaned buffer stands for the set;
  * negation in place is the complement, and its own inverse (`negateClass_makes`,
    `negateClass_negateClass`).

  No arithmetic is stuck on the way, though the ends of ranges are moved by one in numbers of 32
  bits: below zero nothing is looked for, and above the last code point there is room.  All of that
  together is `range_algebra`.  It is read off what the operations do to lists of ranges, which is
  proved with the buffers.
-/
import RegexTree.Proofs.Machine.Buffer
import RegexTree.Proofs.Syntax.Denotes

namespace RegexTree.Machine

open Ranges (runes Valid Clean)

/-! ## Cleaning -/

/-- Cleaning gives a clean class of the same runes. -/
theorem cleanClass_makes {x : Ranges} (hx : x.Valid) :
    Makes Clean (cleanClass (runes x)) (x.has · = true) :=
  ⟨x.clean, cleanClass_runes hx, Ranges.clean_clean hx, fun d => by rw [Ranges.has_clean]⟩

/-- Two lists are cleaned to the same class just if they hold the same runes. -/
theorem cleanClass_eq_iff {x y : Ranges} (hx : x.Valid) (hy : y.Valid) :
    cleanClass (runes x) = cleanClass (runes y) ↔ ∀ d, x.has d = y.has d := by
  rw [cleanClass_runes hx, cleanClass_runes hy, Except.ok.injEq]
  constructor
  · intro h d
    have hclean : x.clean = y.clean := by
      rw [← Ranges.ofRunes_runes x.clean, h, Ranges.ofRunes_runes]
    rw [← Ranges.has_clean x, hclean, Ranges.has_clean]
  · intro h
    have hclean : x.clean = y.clean :=
      (Ranges.clean_clean hx).ext (Ranges.clean_clean hy) fun d => by
        rw [Ranges.has_clean, Ranges.has_clean, h]
    rw [hclean]

/-! ## Appending -/

/-- Appending a class adds its runes. -/
theorem appendClass_makes {x y : Ranges} (hx : x.Valid) (hy : y.Valid) :
    Makes Valid (appendClass (runes x) (runes y)) fun d => x.has d = true ∨ y.has d = true := by
  have hrev := Ranges.reverse_valid hx
  have happend := appendClass_runes hrev hy
  rw [List.reverse_reverse] at happend
  refine (makes_reverse happend (Ranges.addAll_valid hrev hy)).congr fun d => ?_
  rw [Ranges.has_addAll, Ranges.has_reverse, Bool.or_eq_true]

/-- Appending a negated class adds the runes that it leaves out. -/
theorem appendNegatedClass_makes {x y : Ranges} (hx : x.Valid) (hy : y.Clean) :
    Makes Valid (appendNegatedClass (runes x) (runes y))
      fun d => x.has d = true ∨ (d ≤ maxRune ∧ y.has d = false) := by
  have hrev := Ranges.reverse_valid hx
  have happend := appendNegatedClass_runes hrev hy.valid
  rw [List.reverse_reverse] at happend
  have hvalid := Ranges.addAll_valid hrev (Ranges.complement_clean hy).valid
  refine (makes_reverse happend hvalid).congr fun d => ?_
  rw [Ranges.has_addAll, Ranges.has_reverse, Bool.or_eq_true, Ranges.has_complement hy]

/-- Appending a range under folding adds the closure of the range. -/
theorem appendFoldedRange_closure {x : Ranges} {r : Range} (hx : x.Valid) (hr : r.Valid) :
    Makes Valid (appendFoldedRange (runes x) r.lo r.hi)
      fun d => x.has d = true ∨ FoldClosure (r.has · = true) d :=
  (appendFoldedRange_makes hx hr).congr fun _ => or_congr_right Ranges.foldsInto_iff

/-! ## Negation -/

/-- The complement that is written over a class is clean, and holds what the class leaves out. -/
theorem negateClass_makes {y : Ranges} (hy : y.Clean) :
    Makes Clean (negateClass (runes y)) fun d => d ≤ maxRune ∧ y.has d = false :=
  ⟨y.complement, negateClass_runes hy.valid, Ranges.complement_clean hy, Ranges.has_complement hy⟩

/-- In place or into an empty buffer, the complement is the same. -/
theorem appendNegatedClass_nil {y : Ranges} (hy : y.Clean) :
    appendNegatedClass [] (runes y) = negateClass (runes y) := by
  have hcomplement := Ranges.complement_clean hy
  have happend : appendNegatedClass [] (runes y) = .ok (runes (Ranges.addAll [] y.complement).reverse) :=
    appendNegatedClass_runes Ranges.valid_nil hy.valid
  have hadded : Ranges.addAll [] y.complement = y.complement.reverse :=
    Ranges.addAll_reverse (x := []) hcomplement
  rw [happend, hadded, List.reverse_reverse, negateClass_runes hy.valid]

/-- Negating twice gives the class back. -/
theorem negateClass_negateClass {y : Ranges} (hy : y.Clean) :
    (negateClass (runes y) >>= negateClass) = .ok (runes y) := by
  rw [negateClass_runes hy.valid, ok_bind, negateClass_runes (Ranges.complement_clean hy).valid,
    hy.complement_complement]

/-- What the operations on classes do to the runes that a list of valid ranges stands for. -/
theorem range_algebra :
    (∀ x : Ranges, x.Valid → Makes Clean (cleanClass (runes x)) (x.has · = true)) ∧
    (∀ x y : Ranges, x.Valid → y.Valid →
      (cleanClass (runes x) = cleanClass (runes y) ↔ ∀ d, x.has d = y.has d)) ∧
    (∀ (x : Ranges) (r : Range), x.Valid → r.Valid →
      Makes Valid (appendRange (runes x) r.lo r.hi) fun d => x.has d = true ∨ r.has d = true) ∧
    (∀ x y : Ranges, x.Valid → y.Valid →
      Makes Valid (appendClass (runes x) (runes y)) fun d => x.has d = true ∨ y.has d = true) ∧
    (∀ x y : Ranges, x.Valid → y.Clean →
      Makes Valid (appendNegatedClass (runes x) (runes y))
        fun d => x.has d = true ∨ (d ≤ maxRune ∧ y.has d = false)) ∧
    (∀ (x : Ranges) (r : Range), x.Valid → r.Valid →
      Makes Valid (appendFoldedRange (runes x) r.lo r.hi)
        fun d => x.has d = true ∨ FoldClosure (r.has · = true) d) ∧
    ∀ y : Ranges, y.Clean →
      Makes Clean (negateClass (runes y)) (fun d => d ≤ maxRune ∧ y.has d = false) ∧
      appendNegatedClass [] (runes y) = negateClass (runes y) ∧
      (negateClass (runes y) >>= negateClass) = .ok (runes y) :=
  ⟨fun _ => cleanClass_makes, fun _ _ => cleanClass_eq_iff, fun _ _ => appendRange_makes,
    fun _ _ => appendClass_makes, fun _ _ => appendNegatedClass_makes,
    fun _ _ => appendFoldedRange_closure,
    fun _ hy => ⟨negateClass_makes hy, appendNegatedClass_nil hy, negateClass_negateClass hy⟩⟩

/-- Ranges that overlap out of order, a range with the runes of the orbit of `k`, and a class that
    reaches to the last rune. -/
theorem range_algebra_overlapping :
    let x : Ranges := [⟨10, 20⟩, ⟨0, 5⟩, ⟨6, 8⟩, ⟨15, 30⟩]
    let r : Range := ⟨0x6a, 0x6b⟩
    let y : Ranges := [⟨0, 9⟩, ⟨0x30, maxRune⟩]
    (x.Valid ∧ r.Valid ∧ y.Clean) ∧
      cleanClass (runes x) = cleanClass [0, 8, 10, 30] ∧
      Makes Valid (appendFoldedRange (runes x) r.lo r.hi)
        (fun d => x.has d = true ∨ FoldClosure (r.has · = true) d) ∧
      FoldClosure (r.has · = true) 0x212a ∧
      Makes Clean (negateClass (runes y)) (fun d => d ≤ maxRune ∧ y.has d = false) ∧
      (negateClass (runes y) >>= negateClass) = .ok [0, 9, 0x30, maxRune] := by
  intro x r y
  obtain ⟨-, hclean, -, -, -, hfolded, hnegated⟩ := range_algebra
  have hx : x.Valid := by decide
  have hr : r.Valid := by decide
  have hy : y.Clean := Ranges.clean_of_scan (by decide)
  have hk : FoldClosure (r.has · = true) 0x6b := .base (by decide)
  refine ⟨⟨hx, hr, hy⟩, ?_, hfolded x r hx hr, hk.step, (hnegated y hy).1, (hnegated y hy).2.2⟩
  have hmerged : Valid [⟨0, 8⟩, ⟨10, 30⟩] := by decide
  refine (hclean x [⟨0, 8⟩, ⟨10, 30⟩] hx hmerged).mpr fun d => ?_
  rw [Bool.eq_iff_iff, Ranges.has_iff, Ranges.has_iff]
  simp only [x, List.mem_cons, List.not_mem_nil, or_false, exists_eq_or_imp, exists_eq_left]
  omega

end RegexTree.Machine
