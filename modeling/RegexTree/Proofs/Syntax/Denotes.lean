/-
  What a bracket denotes.

  The runes of a bracket are collected item by item in one list, which is cleaned and perhaps
  complemented at the end.  What they should be is said here item by item, without a list: a range
  or a table is what is written, closed under folding where letters stand for all of their case; a
  negated group is what its table leaves out; a bracket is the union of its items, or what they
  leave out (`Bracket.Denotes`).

  The list holds just these runes (`Bracket.has_ranges`).  For a range that is a statement on the
  walk that adds the orbits of its runes: it skips what cannot fold and cuts off what lies outside
  of the runes that do, and still all members come in (`Ranges.has_folded`).

  Where letters stand for all of their case, no step round an orbit leads out of these runes or into
  them (`Bracket.denotes_simpleFold`).  For a negated bracket one has to see that the newline, which
  may be left out besides, is alone in its orbit, and that code points fold to code points
  (`simpleFold_le_maxRune_iff`).
-/
import RegexTree.Proofs.Parse.Tokens

namespace RegexTree

open Unicode

/-! ## Closing under folding -/

/-- The runes of a set, and those that steps round their orbits lead to. -/
inductive FoldClosure (runes : Nat → Prop) : Nat → Prop where
  | base {c : Nat} (h : runes c) : FoldClosure runes c
  | step {c : Nat} (h : FoldClosure runes c) : FoldClosure runes (simpleFold c)

/-- The runes of a set, closed under folding if letters stand for all of their case. -/
def foldedIf (fold : Bool) (runes : Nat → Prop) : Nat → Prop :=
  if fold then FoldClosure runes else runes

/-- The closure is made of whole orbits. -/
theorem foldClosure_iff {runes : Nat → Prop} {d : Nat} :
    FoldClosure runes d ↔ ∃ c, runes c ∧ SameOrbit c d := by
  constructor
  · intro h
    induction h with
    | base h => exact ⟨_, h, .refl _⟩
    | step _ ih =>
      obtain ⟨c, hc, hd⟩ := ih
      exact ⟨c, hc, hd.trans (sameOrbit_simpleFold _)⟩
  · rintro ⟨c, hc, n, rfl⟩
    induction n with
    | zero => exact .base hc
    | succ n ih =>
      rw [Function.iterate_succ_apply']
      exact .step ih

/-- A step round an orbit stays in the closure. -/
theorem foldClosure_simpleFold {runes : Nat → Prop} {c : Nat} :
    FoldClosure runes (simpleFold c) ↔ FoldClosure runes c := by
  constructor
  · intro h
    obtain ⟨d, hd, hc⟩ := foldClosure_iff.mp h
    exact foldClosure_iff.mpr ⟨d, hd, hc.trans (simpleFold_sameOrbit c)⟩
  · exact .step

/-- What a range folds into is the closure of its runes. -/
theorem Ranges.foldsInto_iff {r : Range} {d : Nat} :
    FoldsInto r d ↔ FoldClosure (r.has · = true) d := by
  rw [foldClosure_iff, foldsInto_iff_sameOrbit]

/-- What is closed range by range is closed as a whole. -/
theorem Ranges.has_folded {x : Ranges} {d : Nat} :
    x.folded.has d = true ↔ FoldClosure (x.has · = true) d := by
  have hscan : ∀ (y : Ranges) (r : Range), (y.addFolded r).has d = true ↔
      y.has d = true ∨ FoldsInto r d := fun _ _ => has_addFolded
  rw [folded, has_clean, has_foldl hscan, foldClosure_iff]
  constructor
  · rintro (h | ⟨r, hr, hd⟩)
    · cases h
    · obtain ⟨c, hc, hcd⟩ := foldClosure_iff.mp (foldsInto_iff.mp hd)
      exact ⟨c, has_iff.mpr ⟨r, hr, Range.has_iff.mp hc⟩, hcd⟩
  · rintro ⟨c, hc, hcd⟩
    obtain ⟨r, hr, hin⟩ := has_iff.mp hc
    exact Or.inr ⟨r, hr, foldsInto_iff.mpr (foldClosure_iff.mpr ⟨c, Range.has_iff.mpr hin, hcd⟩)⟩

/-! ## Items and brackets -/

/-- The runes that an item denotes. -/
def BracketItem.Denotes (fold : Bool) : BracketItem → Nat → Prop
  | .range r, c => foldedIf fold (r.has · = true) c
  | .group false table, c => foldedIf fold (table.has · = true) c
  | .group true table, c => c ≤ maxRune ∧ ¬foldedIf fold (table.has · = true) c

/-- The runes that a bracket denotes: those of its items, or all others.  A newline may be left out
    of the others. -/
def Bracket.Denotes (flags : Flags) (b : Bracket) (c : Nat) : Prop :=
  if b.negated then
    c ≤ maxRune ∧ (¬∃ item ∈ b.items, item.Denotes flags.foldCase c) ∧
      (flags.classNL = false → c ≠ newline)
  else ∃ item ∈ b.items, item.Denotes flags.foldCase c

/-- A table is closed under folding just where that is asked for. -/
theorem has_table (fold : Bool) (table : Ranges) (c : Nat) :
    (if fold then table.folded else table).has c = true ↔ foldedIf fold (table.has · = true) c := by
  cases fold with
  | false => exact Iff.rfl
  | true => exact Ranges.has_folded

/-- One more item adds the runes that it denotes. -/
theorem BracketItem.has_addTo {fold : Bool} {item : BracketItem} (h : item.Valid) (x : Ranges)
    (c : Nat) : (item.addTo fold x).has c = true ↔ x.has c = true ∨ item.Denotes fold c := by
  cases item with
  | range r =>
    rw [addTo, Denotes]
    cases fold with
    | false => exact (Bool.eq_iff_iff.mp (Ranges.has_add x r c)).trans (Bool.or_eq_true _ _).to_iff
    | true => exact Ranges.has_addFolded.trans (or_congr_right Ranges.foldsInto_iff)
  | group negated table =>
    have hclean : (if fold then table.folded else table).Clean := by
      split
      · exact Ranges.folded_clean h.valid
      · exact h
    rw [addTo, Ranges.has_addAll, Bool.or_eq_true]
    cases negated with
    | false => exact or_congr_right (has_table fold table c)
    | true =>
      refine or_congr_right ((Ranges.has_complement hclean c).trans (and_congr_right fun _ => ?_))
      rw [← has_table, Bool.not_eq_true]

/-- What was collected has what was there and what the items denote, by induction on the items. -/
theorem has_foldl_addTo {fold : Bool} {items : List BracketItem} (h : ∀ item ∈ items, item.Valid)
    (x : Ranges) (c : Nat) :
    (items.foldl (BracketItem.addTo fold) x).has c = true ↔
      x.has c = true ∨ ∃ item ∈ items, item.Denotes fold c := by
  induction items generalizing x with
  | nil => simp
  | cons item rest ih =>
    obtain ⟨hitem, hrest⟩ := List.forall_mem_cons.mp h
    rw [List.foldl_cons, ih hrest, BracketItem.has_addTo hitem, or_assoc]
    simp only [List.mem_cons, exists_eq_or_imp]

/-- Before it is complemented, the list holds the runes of the items, and perhaps the newline. -/
theorem Bracket.has_listed {b : Bracket} (h : ∀ item ∈ b.items, item.Valid) (flags : Flags)
    (c : Nat) : (b.listed flags).has c = true ↔
      (b.negated = true ∧ flags.classNL = false ∧ c = newline) ∨
        ∃ item ∈ b.items, item.Denotes flags.foldCase c := by
  have hsingle : (Range.single newline).has c = true ↔ c = newline := by
    rw [Range.has_iff]
    constructor
    · exact fun hin => Nat.le_antisymm hin.2 hin.1
    · exact fun he => ⟨Nat.le_of_eq he.symm, Nat.le_of_eq he⟩
  rw [listed, Ranges.has_clean, has_foldl_addTo h]
  refine or_congr_left ?_
  split
  · next hstart =>
    rw [Bool.and_eq_true, Bool.not_eq_true'] at hstart
    rw [Ranges.has_cons, Ranges.has_nil, Bool.or_false, hsingle]
    exact ⟨fun he => ⟨hstart.1, hstart.2, he⟩, fun hall => hall.2.2⟩
  · next hstart =>
    refine iff_of_false Bool.false_ne_true fun hall => hstart ?_
    rw [hall.1, hall.2.1]
    rfl

/-- The list of a bracket holds just the runes that the bracket denotes. -/
theorem Bracket.has_ranges {b : Bracket} (h : ∀ item ∈ b.items, item.Valid) (flags : Flags)
    (c : Nat) : (b.ranges flags).has c = true ↔ b.Denotes flags c := by
  have hlisted := b.has_listed h flags c
  rw [ranges_eq, Denotes]
  cases hnegated : b.negated with
  | false =>
    rw [hnegated] at hlisted
    refine hlisted.trans (or_iff_right ?_)
    exact fun hall => Bool.false_ne_true hall.1
  | true =>
    rw [hnegated] at hlisted
    rw [if_pos rfl, if_pos rfl, Ranges.has_complement (b.listed_clean flags h), Bool.eq_false_iff,
      Ne, hlisted]
    refine and_congr_right fun _ => ?_
    constructor
    · exact fun hnot => ⟨fun hitem => hnot (Or.inr hitem),
        fun hnl he => hnot (Or.inl ⟨rfl, hnl, he⟩)⟩
    · rintro ⟨hitems, hnl⟩ (hall | hitem)
      · exact hnl hall.2.1 hall.2.2
      · exact hitems hitem

/-! ## Steps round orbits -/

/-- Code points fold to code points, and nothing else does. -/
theorem simpleFold_le_maxRune_iff {c : Nat} : simpleFold c ≤ maxRune ↔ c ≤ maxRune := by
  constructor
  · exact fun h => (simpleFold_sameOrbit c).le_maxRune h
  · exact simpleFold_le

/-- The newline is alone in its orbit. -/
theorem simpleFold_eq_newline_iff {c : Nat} : simpleFold c = newline ↔ c = newline := by
  have hfixed : simpleFold newline = newline := by decide
  constructor
  · intro h
    exact ((sameOrbit_simpleFold c).eq_of_fixed (Or.inr (by rw [h, hfixed]))).trans h
  · rintro rfl
    exact hfixed

/-- A step round an orbit stays within the runes that an item denotes, or outside of them. -/
theorem BracketItem.denotes_simpleFold (item : BracketItem) (c : Nat) :
    item.Denotes true (simpleFold c) ↔ item.Denotes true c := by
  cases item with
  | range r => exact foldClosure_simpleFold
  | group negated table =>
    cases negated with
    | false => exact foldClosure_simpleFold
    | true => exact and_congr simpleFold_le_maxRune_iff (not_congr foldClosure_simpleFold)

/-- Where letters stand for all of their case, a step round an orbit stays within the runes that a
    bracket denotes, or outside of them. -/
theorem Bracket.denotes_simpleFold {flags : Flags} (hfold : flags.foldCase = true) (b : Bracket)
    (c : Nat) : b.Denotes flags (simpleFold c) ↔ b.Denotes flags c := by
  have hitems : (∃ item ∈ b.items, item.Denotes true (simpleFold c)) ↔
      ∃ item ∈ b.items, item.Denotes true c :=
    exists_congr fun item => and_congr_right fun _ => item.denotes_simpleFold c
  rw [Denotes, Denotes, hfold]
  split
  · -- of a complement, no orbit crosses the limit of all runes, and the newline is one by itself
    rw [simpleFold_le_maxRune_iff, hitems, Ne, Ne, simpleFold_eq_newline_iff]
  · exact hitems

end RegexTree
