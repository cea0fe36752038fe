/-
  Folding as a permutation.

  Simple folding takes each rune to the next one of its orbit, and the last one back to the first.
  The walk that collects an orbit has a bound on its steps, and nothing in its definition says that
  the bound is large enough; that it is, is what this module starts from: no orbit has more than
  four members (`length_orbit_le`), so that at most four steps lead from a rune back to it
  (`iterate_orbit`), and any walk with that many steps is the orbit (`walk_eq_orbit`).

  Every length up to four divides twelve, so twelve steps lead back from everywhere
  (`iterate_twelve`).  Then eleven steps are the inverse of one, which makes `simpleFold` one-to-one
  and onto, also on the numbers of 32 bits (`simpleFold_bijOn`), among which there are many that are
  no code points and fold to themselves.

  The smallest member stands for the orbit (`isLeast_minFold`): two runes have the same just if they
  are in one orbit (`minFold_eq_iff`).
-/
import RegexTree.Proofs.Unicode.Orbits
import Mathlib.Dynamics.PeriodicPts.Defs
import Mathlib.Order.Bounds.Basic

namespace RegexTree.Unicode

open Function

/-! ## How long a walk is -/

/-- What is read off the table: a walk round an irregular orbit meets no more than three others. -/
theorem irregularOrbits_short : (irregularOrbits.all fun members => members.all fun c =>
    (walkIn members c walkBound (nextOf members c)).length.ble 3) = true := by
  decide +kernel

/-- A rune shares its orbit with no more than three others. -/
theorem length_orbit_le (c : Nat) : (orbit c).length ≤ 3 := by
  rcases orbit_cases c with h | ⟨members, hmem, hc⟩ | ⟨-, -, h⟩
  · rw [h]
    exact Nat.zero_le 3
  · have hshort := List.all_eq_true.mp irregularOrbits_short members hmem
    rw [orbit_of_mem hmem hc]
    exact Nat.le_of_ble_eq_true (List.all_eq_true.mp hshort c hc)
  · rw [h]
    exact show 1 ≤ 3 by decide

/-- One step for each other member and one more lead back to where the walk began. -/
theorem iterate_orbit (c : Nat) : simpleFold^[(orbit c).length + 1] c = c :=
  iterate_walk (length_orbit_lt c)

/-- A walk that is back within its bound is the same with any other bound that lets it be back. -/
theorem walk_eq_of_length_lt {home m n c : Nat} (hm : (walk home m c).length < m)
    (hn : (walk home m c).length < n) : walk home n c = walk home m c := by
  induction n generalizing m c with
  | zero => cases hn
  | succ n ih =>
    cases m with
    | zero => cases hm
    | succ m =>
      rw [walk] at hm hn
      rw [walk, walk]
      by_cases hc : c = home
      · rw [if_pos hc, if_pos hc]
      · rw [if_neg hc, List.length_cons] at hm hn
        rw [if_neg hc, if_neg hc, ih (m := m) (by omega) (by omega)]

/-- Four steps are enough to meet the whole orbit. -/
theorem walk_eq_orbit {c steps : Nat} (h : 4 ≤ steps) : walk c steps (simpleFold c) = orbit c :=
  walk_eq_of_length_lt (length_orbit_lt c) (Nat.lt_of_le_of_lt (length_orbit_le c) h)

/-! ## A permutation -/

/-- Twelve steps lead back from everywhere: the length of every orbit divides twelve. -/
theorem iterate_twelve (c : Nat) : simpleFold^[12] c = c := by
  have horbit : IsPeriodicPt simpleFold ((orbit c).length + 1) c := iterate_orbit c
  have hdvd : ∀ n ≤ 3, n + 1 ∣ 12 := by decide
  exact horbit.trans_dvd (hdvd _ (length_orbit_le c))

/-- Eleven steps undo one. -/
theorem invOn_simpleFold (s : Set Nat) : Set.InvOn simpleFold^[11] simpleFold s s := by
  constructor
  · intro c _
    rw [← iterate_succ_apply simpleFold 11]
    exact iterate_twelve c
  · intro c _
    rw [← iterate_succ_apply' simpleFold 11]
    exact iterate_twelve c

/-- Numbers of 32 bits fold to numbers of 32 bits. -/
theorem simpleFold_lt {c : Nat} (hc : c < 2 ^ 32) : simpleFold c < 2 ^ 32 := by
  cases hspan : inFoldSpan c with
  | false => rwa [simpleFold_outside hspan]
  | true =>
    exact Nat.lt_of_le_of_lt (inFoldSpan_iff.mp (simpleFold_inFoldSpan hspan)).2 (by decide)

/-- Folding permutes the numbers of 32 bits. -/
theorem simpleFold_bijOn : Set.BijOn simpleFold (Set.Iio (2 ^ 32)) (Set.Iio (2 ^ 32)) := by
  have hmaps : Set.MapsTo simpleFold (Set.Iio (2 ^ 32)) (Set.Iio (2 ^ 32)) := fun _ => simpleFold_lt
  exact (invOn_simpleFold _).bijOn hmaps (hmaps.iterate 11)

/-! ## Whole orbits -/

/-- The orbit of a rune within the span lies within it. -/
theorem SameOrbit.inFoldSpan {c d : Nat} (h : SameOrbit c d) (hc : inFoldSpan c = true) :
    inFoldSpan d = true := by
  obtain ⟨n, rfl⟩ := h
  induction n generalizing c with
  | zero => exact hc
  | succ n ih => exact ih (simpleFold_inFoldSpan hc)

/-- The smallest member is the least rune of the orbit. -/
theorem isLeast_minFold (c : Nat) : IsLeast {d | SameOrbit c d} (minFold c) :=
  ⟨sameOrbit_minFold c, fun d hd => hd.minFold_eq ▸ minFold_le_self d⟩

/-- Runes with the same smallest member are in one orbit, and only those. -/
theorem minFold_eq_iff {c d : Nat} : minFold c = minFold d ↔ SameOrbit c d := by
  constructor
  · intro h
    have hc := sameOrbit_minFold c
    rw [h] at hc
    exact hc.trans (sameOrbit_minFold d).symm
  · exact SameOrbit.minFold_eq

end RegexTree.Unicode
