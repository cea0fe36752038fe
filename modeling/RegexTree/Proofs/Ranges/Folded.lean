/-
  Ranges closed under case folding: they stay valid, and what they hold.

  A range is folded by adding the orbit of each of its runes.  The walk over the range does not go
  through all of them: it adds a range as it is if it has all runes that fold or none, and else
  walks only the part of it in which runes fold.  What comes in is said without the walk
  (`FoldsInto`): the runes of the range, and those whose orbit has one of them.

  That the cutting makes no difference is `foldsInto_uncut`, and that a range may be folded in three
  parts is `foldsInto_parts`: runes that do not fold bring nothing but themselves.  With them
  `has_addFolded` is one case for each way that the walk goes.  A rune that comes in because one of
  the range is in its orbit comes in by a walk from that one, so that being in one orbit has to be
  known to go both ways (`foldsInto_iff_sameOrbit`).
-/
import RegexTree.Proofs.Unicode.Orbits

namespace RegexTree.Ranges

open Unicode

/-- The members of an orbit are code points. -/
theorem addOrbit_valid {x : Ranges} {c : Nat} (hx : x.Valid) (hc : c ≤ maxRune) :
    (x.addOrbit c).Valid := by
  refine addAll_valid hx fun r hr => ?_
  obtain ⟨d, hd, rfl⟩ := List.mem_map.mp hr
  exact ⟨Nat.le_refl d, orbit_le hc d hd⟩

theorem addFolded_valid {x : Ranges} {r : Range} (hx : x.Valid) (hr : r.Valid) :
    (x.addFolded r).Valid := by
  refine foldl_valid (fun y c hc hy => ?_) (add_valid hx hr)
  have hin := Range.has_iff.mp (List.mem_filter.mp hc).2
  exact addOrbit_valid hy (Nat.le_trans hin.2 hr.2)

/-- Closing a list under folding makes a clean one. -/
theorem folded_clean {x : Ranges} (hx : x.Valid) : x.folded.Clean :=
  clean_clean (foldl_valid (fun _ r hr hy => addFolded_valid hy (hx r hr)) valid_nil)

theorem has_singles {members : List Nat} {d : Nat} :
    has (members.map Range.single) d = true ↔ d ∈ members := by
  rw [has_iff]
  constructor
  · rintro ⟨r, hr, hlo, hhi⟩
    obtain ⟨c, hc, rfl⟩ := List.mem_map.mp hr
    exact Nat.le_antisymm hhi hlo ▸ hc
  · intro h
    exact ⟨Range.single d, List.mem_map_of_mem h, Nat.le_refl d, Nat.le_refl d⟩

theorem has_addOrbit {x : Ranges} {c d : Nat} :
    (x.addOrbit c).has d = true ↔ x.has d = true ∨ d ∈ orbit c := by
  rw [addOrbit, has_addAll, Bool.or_eq_true, has_singles]

/-- What a scan adds is what any of its steps adds. -/
theorem has_foldl {α : Type} {f : Ranges → α → Ranges} {adds : α → Nat → Prop} {d : Nat}
    (hf : ∀ (x : Ranges) i, (f x i).has d = true ↔ x.has d = true ∨ adds i d) (items : List α)
    (x : Ranges) : (items.foldl f x).has d = true ↔ x.has d = true ∨ ∃ i ∈ items, adds i d := by
  induction items generalizing x with
  | nil => simp
  | cons i rest ih =>
    rw [List.foldl_cons, ih, hf, or_assoc]
    simp

/-- `d` lies in the range or folds into it. -/
def FoldsInto (r : Range) (d : Nat) : Prop := r.has d = true ∨ ∃ c, r.has c = true ∧ d ∈ orbit c

/-- What folds into a range are the orbits of its runes. -/
theorem foldsInto_iff_sameOrbit {r : Range} {d : Nat} :
    FoldsInto r d ↔ ∃ c, r.has c = true ∧ SameOrbit c d := by
  constructor
  · rintro (hd | ⟨c, hc, hd⟩)
    · exact ⟨d, hd, .refl d⟩
    · exact ⟨c, hc, sameOrbit_iff.mpr (Or.inr hd)⟩
  · rintro ⟨c, hc, hd⟩
    rcases sameOrbit_iff.mp hd with rfl | hd
    · exact Or.inl hc
    · exact Or.inr ⟨c, hc, hd⟩

/-- Nothing else folds into a range of all runes that share orbits, or of none of them. -/
theorem foldsInto_uncut {r : Range} {d : Nat}
    (h : (r.lo ≤ firstFold ∧ lastFold ≤ r.hi) ∨ r.hi < firstFold ∨ lastFold < r.lo) :
    FoldsInto r d ↔ r.has d = true := by
  refine ⟨?_, Or.inl⟩
  rintro (hd | ⟨c, hc, hd⟩)
  · exact hd
  · rw [Range.has_iff] at hc ⊢
    have := span_of_mem_orbit hd
    omega

/-- Into any range fold its runes on both sides of the span, and the orbits of those within. -/
theorem foldsInto_parts {r : Range} {d : Nat} :
    FoldsInto r d ↔ (r.has d = true ∧ d < firstFold) ∨ (r.has d = true ∧ lastFold < d) ∨
      ∃ c, (r.has c = true ∧ firstFold ≤ c ∧ c ≤ lastFold) ∧ SameOrbit c d := by
  rw [foldsInto_iff_sameOrbit]
  constructor
  · rintro ⟨c, hc, hd⟩
    cases hspan : inFoldSpan c with
    | true => exact Or.inr (Or.inr ⟨c, ⟨hc, inFoldSpan_iff.mp hspan⟩, hd⟩)
    | false =>
      obtain rfl := hd.eq_of_fixed (Or.inl (simpleFold_outside hspan))
      rw [Bool.eq_false_iff, Ne, inFoldSpan_iff] at hspan
      rcases Nat.lt_or_ge c firstFold with hlow | hlow
      · exact Or.inl ⟨hc, hlow⟩
      · exact Or.inr (Or.inl ⟨hc, Nat.lt_of_not_le fun hhigh => hspan ⟨hlow, hhigh⟩⟩)
  · rintro (⟨hd, -⟩ | ⟨hd, -⟩ | ⟨c, ⟨hc, -⟩, hd⟩)
    · exact ⟨d, hd, .refl d⟩
    · exact ⟨d, hd, .refl d⟩
    · exact ⟨c, hc, hd⟩

/-- A range brings what it folds into. -/
theorem has_addFolded {x : Ranges} {r : Range} {d : Nat} :
    (x.addFolded r).has d = true ↔ x.has d = true ∨ FoldsInto r d := by
  rw [addFolded, has_foldl (f := addOrbit) fun _ _ => has_addOrbit, has_add, Bool.or_eq_true,
    FoldsInto, or_assoc]
  refine or_congr_right (or_congr_right ⟨?_, ?_⟩)
  · rintro ⟨c, hc, hd⟩
    exact ⟨c, (List.mem_filter.mp hc).2, hd⟩
  · rintro ⟨c, hc, hd⟩
    exact ⟨c, List.mem_filter.mpr ⟨mem_casedRunes_of_mem_orbit hd, hc⟩, hd⟩

end RegexTree.Ranges
