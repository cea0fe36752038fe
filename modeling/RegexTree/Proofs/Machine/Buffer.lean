/-
  Classes in a buffer are lists of ranges.

  The buffer of the machine has the two ends of each range after one another, in the order in which
  they were added, and it is changed in place.  A list of ranges has the newest first.  So `runes
  x.reverse` is the buffer for the list `x`, and what is proved of an operation is either that it
  gives the buffer of the list that comes out (`appendRange_runes`, `cleanClass_runes`,
  `negateClass_runes`), or, where the machine adds ranges in another order than the list, only which
  runes the buffer comes to hold (`Makes`).

  * Appending a range looks whether it can be joined to the last or the last but one, and widens
    that in place (`widen_pair`); the positions are counted from the end, and a buffer that is too
    short is not looked into (`widen_short`).
  * Cleaning sorts and then goes through the buffer once, writing what is merged at a position that
    never overtakes the one that is read (`foldlM_merge`).
  * Negation in place writes the gaps over the ranges.  One gap more than ranges may come out, and
    then the last one is appended; the buffer is cut into what was written, what was read and may be
    overwritten, and what is still to be read (`pass_runes`, `foldlM_pass`).
-/
import RegexTree.Machine.Buffer
import RegexTree.Proofs.Ranges.Folded
import RegexTree.Proofs.Tree.NormalForm

namespace RegexTree.Machine

open Ranges (runes ofRunes Valid Clean runes_cons runes_append length_runes)
open Unicode

/-! ## Runes -/

/-- The ends of ranges, and one more, are numbers of 32 bits. -/
theorem word_of_le {n : Nat} (h : n ≤ maxRune + 1) : word n = .ok n :=
  word_of_lt (Nat.lt_of_le_of_lt h (by decide))

/-! ## Adding ranges -/

/-- The entry of a list in the place where its second part begins. -/
theorem getElem?_append_length {α : Type} (before after : List α) (k : Nat) :
    (before ++ after)[before.length + k]? = after[k]? := by
  rw [List.getElem?_append_right (Nat.le_add_right _ _), Nat.add_sub_cancel_left]

/-- What stands before the place that is written to does not change. -/
theorem replace_append {α : Type} (before : List α) {after : List α} {k : Nat}
    (hk : k < after.length) (a : α) :
    replace (before ++ after) (before.length + k) a = .ok (before ++ after.set k a) := by
  have hin : before.length + k < (before ++ after).length := by
    rw [List.length_append]
    omega
  rw [replace_of_lt hin, List.set_append_right _ _ (Nat.le_add_right _ _),
    Nat.add_sub_cancel_left]

section Pair

variable (before after : List Nat)

theorem replace_fst (a m : Nat) :
    replace (before ++ a :: after) before.length m = .ok (before ++ m :: after) := by
  have hfirst : 0 < (a :: after).length := Nat.succ_pos after.length
  exact replace_append before hfirst m

theorem replace_snd (a b n : Nat) :
    replace (before ++ a :: b :: after) (before.length + 1) n = .ok (before ++ a :: n :: after) :=
  replace_append before (Nat.succ_lt_succ (Nat.succ_pos after.length)) n

/-- The lower end of a pair is lowered where that is needed. -/
theorem replace_min (lo a : Nat) :
    (if lo < a then replace (before ++ a :: after) before.length lo
      else .ok (before ++ a :: after)) = .ok (before ++ min lo a :: after) := by
  split
  · next h => rw [replace_fst, Nat.min_eq_left (Nat.le_of_lt h)]
  · next h => rw [Nat.min_eq_right (Nat.le_of_not_lt h)]

/-- The upper end of a pair is raised where that is needed. -/
theorem replace_max (a b hi : Nat) :
    (if b < hi then replace (before ++ a :: b :: after) (before.length + 1) hi
      else .ok (before ++ a :: b :: after)) = .ok (before ++ a :: max hi b :: after) := by
  split
  · next h => rw [replace_snd, Nat.max_eq_left (Nat.le_of_lt h)]
  · next h => rw [Nat.max_eq_right (Nat.le_of_not_lt h)]

/-- The pair in front of the last `after.length` entries is widened if it touches the range. -/
theorem widen_pair {a r : Range} (ha : a.Valid) (hr : r.Valid) :
    widen (before ++ a.lo :: a.hi :: after) r.lo r.hi (after.length + 2) =
      .ok (if r.touches a then some (before ++ (r.hull a).lo :: (r.hull a).hi :: after)
        else none) := by
  have hlen : (before ++ a.lo :: a.hi :: after).length = before.length + (after.length + 2) := by
    rw [List.length_append, List.length_cons, List.length_cons]
  have hk : lessen (before ++ a.lo :: a.hi :: after).length (after.length + 2) =
      .ok before.length := by
    rw [hlen, lessen_of_le (Nat.le_add_left _ _), Nat.add_sub_cancel]
  have hlo : (before ++ a.lo :: a.hi :: after)[before.length]? = some a.lo :=
    getElem?_append_length before _ 0
  have hhi : (before ++ a.lo :: a.hi :: after)[before.length + 1]? = some a.hi :=
    getElem?_append_length before _ 1
  have hwa : word (a.hi + 1) = .ok (a.hi + 1) := word_of_le (Nat.succ_le_succ ha.2)
  have hwr : word (r.hi + 1) = .ok (r.hi + 1) := word_of_le (Nat.succ_le_succ hr.2)
  rw [widen, if_neg (by omega), hk]
  simp only [ok_bind, hlo, hhi, must_some, hwa, hwr, replace_min, replace_max]
  by_cases htouch : r.lo ≤ a.hi + 1 ∧ a.lo ≤ r.hi + 1
  · rw [if_pos htouch.1, if_pos htouch.2, if_pos (Range.touches_iff.mpr htouch)]
    rfl
  · rw [if_neg (mt Range.touches_iff.mp htouch)]
    split
    · next h =>
      rw [if_neg fun h' => htouch ⟨h, h'⟩]
      rfl
    · rfl

end Pair

/-- A buffer that has no range there is left alone. -/
theorem widen_short {buffer : List Nat} {i : Nat} (h : buffer.length < i) (lo hi : Nat) :
    widen buffer lo hi i = .ok none := if_pos h

/-- Appending a range to the buffer adds it to the list of ranges, the newest of which stands last.
    The last range and the one before it are looked at, in that order, as far as there are that
    many. -/
theorem appendRange_runes {x : Ranges} {r : Range} (hx : x.Valid) (hr : r.Valid) :
    appendRange (runes x.reverse) r.lo r.hi = .ok (runes (x.add r).reverse) := by
  rw [appendRange]
  rcases x with _ | ⟨a, _ | ⟨b, rest⟩⟩
  · rfl
  · have h : widen [a.lo, a.hi] r.lo r.hi 2 = _ :=
      widen_pair [] [] (Ranges.valid_cons.mp hx).1 hr
    rw [show runes [a].reverse = [a.lo, a.hi] from rfl, h, ok_bind]
    cases ht : r.touches a with
    | true => simp [Ranges.add, ht, runes_cons]; rfl
    | false =>
      simp only [Bool.false_eq_true, if_false]
      rw [widen_short (by simp)]
      simp [Ranges.add, ht]
      rfl
  · -- only the two newest pairs are looked at, the newer one first
    obtain ⟨ha, hb, -⟩ : a.Valid ∧ b.Valid ∧ _ := by
      rwa [Ranges.valid_cons, Ranges.valid_cons] at hx
    have hsplit : runes (a :: b :: rest).reverse =
        runes rest.reverse ++ b.lo :: b.hi :: [a.lo, a.hi] := by
      simp only [List.reverse_cons, runes_append, List.append_assoc]
      rfl
    have hlast := widen_pair (runes rest.reverse ++ [b.lo, b.hi]) [] ha hr
    have hprev := widen_pair (runes rest.reverse) [a.lo, a.hi] hb hr
    simp only [List.append_assoc, List.cons_append, List.nil_append, List.length_nil,
      List.length_cons, Nat.zero_add] at hlast hprev
    rw [hsplit, hlast, hprev]
    simp only [ok_bind]
    cases hta : r.touches a with
    | true => simp [Ranges.add, hta, runes_append, runes_cons]; rfl
    | false =>
      cases htb : r.touches b with
      | true => simp [Ranges.add, hta, htb, runes_append, runes_cons]; rfl
      | false => simp [Ranges.add, hta, htb, runes_append, runes_cons]; rfl

/-- Appending ranges one after the other adds each of them. -/
theorem foldlM_appendRange {x y : Ranges} (hx : x.Valid) (hy : y.Valid) :
    y.foldlM (fun buffer r => appendRange buffer r.lo r.hi) (runes x.reverse) =
      .ok (runes (x.addAll y).reverse) := by
  induction y generalizing x with
  | nil => rfl
  | cons r rest ih =>
    obtain ⟨hr, hrest⟩ := Ranges.valid_cons.mp hy
    rw [List.foldlM_cons, appendRange_runes hx hr, ok_bind, ih (Ranges.add_valid hx hr) hrest]
    rfl

/-- Appending a class adds each of its ranges. -/
theorem appendClass_runes {x y : Ranges} (hx : x.Valid) (hy : y.Valid) :
    appendClass (runes x.reverse) (runes y) = .ok (runes (x.addAll y).reverse) := by
  rw [appendClass, Ranges.ofRunes_runes]
  exact foldlM_appendRange hx hy

/-! ## What a buffer comes to hold -/

/-- The result is a buffer of ranges that are as they should be, and these hold just the runes of a
    set. -/
def Makes (good : Ranges → Prop) (result : Guarded (List Nat)) (set : Nat → Prop) : Prop :=
  ∃ z : Ranges, result = .ok (runes z) ∧ good z ∧ ∀ d, z.has d = true ↔ set d

/-- A buffer with the newest range last, made by adding to a list with the newest range first. -/
theorem makes_reverse {result : Guarded (List Nat)} {z : Ranges}
    (h : result = .ok (runes z.reverse)) (hz : z.Valid) :
    Makes Valid result (z.has · = true) :=
  ⟨z.reverse, h, Ranges.reverse_valid hz, fun d => by rw [Ranges.has_reverse]⟩

/-- A buffer holds what is the same set in other words. -/
theorem Makes.congr {good : Ranges → Prop} {result : Guarded (List Nat)} {set set' : Nat → Prop}
    (h : Makes good result set) (hset : ∀ d, set d ↔ set' d) : Makes good result set' := by
  obtain ⟨z, hz, hgood, hhas⟩ := h
  exact ⟨z, hz, hgood, fun d => (hhas d).trans (hset d)⟩

/-- The buffer of a list holds what the list has. -/
theorem makes_runes {x : Ranges} (hx : x.Valid) : Makes Valid (.ok (runes x)) (x.has · = true) :=
  ⟨x, rfl, hx, fun _ => Iff.rfl⟩

/-- Appending a range brings its runes, whether it is joined to another one or stands last. -/
theorem appendRange_makes {x : Ranges} {r : Range} (hx : x.Valid) (hr : r.Valid) :
    Makes Valid (appendRange (runes x) r.lo r.hi) fun d => x.has d = true ∨ r.has d = true := by
  have hrev := Ranges.reverse_valid hx
  have happend := appendRange_runes hrev hr
  rw [List.reverse_reverse] at happend
  refine (makes_reverse happend (Ranges.add_valid hrev hr)).congr fun d => ?_
  rw [Ranges.has_add, Ranges.has_reverse, Bool.or_eq_true]

/-- What a scan appends is what its steps append. -/
theorem makes_foldlM {α : Type} {f : List Nat → α → Guarded (List Nat)} {items : List α}
    {adds : α → Nat → Prop}
    (hf : ∀ x : Ranges, x.Valid → ∀ i ∈ items,
      Makes Valid (f (runes x) i) fun d => x.has d = true ∨ adds i d)
    {x : Ranges} (hx : x.Valid) :
    Makes Valid (items.foldlM f (runes x)) fun d => x.has d = true ∨ ∃ i ∈ items, adds i d := by
  induction items generalizing x with
  | nil => exact (makes_runes hx).congr fun d => by simp
  | cons i rest ih =>
    obtain ⟨y, hy, hyv, hyhas⟩ := hf x hx i List.mem_cons_self
    have hrest := ih (fun x hx j hj => hf x hx j (List.mem_cons_of_mem i hj)) hyv
    rw [List.foldlM_cons, hy, ok_bind]
    refine hrest.congr fun d => ?_
    rw [hyhas, or_assoc]
    simp only [List.mem_cons, exists_eq_or_imp]

/-! ## Folding -/

theorem single_valid {c : Nat} (hc : c ≤ maxRune) : (Range.single c).Valid := ⟨Nat.le_refl c, hc⟩

theorem appendRange_single {x : Ranges} {c : Nat} (hx : x.Valid) (hc : c ≤ maxRune) :
    Makes Valid (appendRange (runes x) c c) fun d => x.has d = true ∨ d = c := by
  have hone : ∀ d, (Range.single c).has d = true ↔ d = c := fun d =>
    Range.has_iff.trans ⟨fun h => Nat.le_antisymm h.2 h.1, fun h => h ▸ ⟨Nat.le_refl _, Nat.le_refl _⟩⟩
  exact (appendRange_makes hx (single_valid hc)).congr fun d => or_congr_right (hone d)

/-- A walk that is back in time appends the members that it meets, one after the other. -/
theorem appendOrbit_eq {c steps f : Nat} (hback : (walk c steps f).length < steps)
    (buffer : List Nat) :
    appendOrbit c steps f buffer =
      (walk c steps f).foldlM (fun buffer d => appendRange buffer d d) buffer := by
  induction steps generalizing f buffer with
  | zero => cases hback
  | succ steps ih =>
    rw [walk] at hback ⊢
    rw [appendOrbit]
    split
    · rfl
    · next hne =>
      rw [if_neg hne, List.length_cons] at hback
      rw [List.foldlM_cons]
      exact congrArg (appendRange buffer f f >>= ·) (funext fun _ => ih (by omega) _)

/-- A rune is appended with the whole of its orbit. -/
theorem appendFolds_makes {x : Ranges} {c : Nat} (hx : x.Valid) (hc : c ≤ maxRune) :
    Makes Valid (appendFolds (runes x) c) fun d => x.has d = true ∨ SameOrbit c d := by
  obtain ⟨y, hy, hyv, hyhas⟩ := appendRange_single hx hc
  have hothers : Makes Valid
      ((orbit c).foldlM (fun buffer d => appendRange buffer d d) (runes y))
      fun d => y.has d = true ∨ ∃ e ∈ orbit c, d = e :=
    makes_foldlM (fun z hz d hd => appendRange_single hz (orbit_le hc d hd)) hyv
  rw [appendFolds, hy, ok_bind, appendOrbit_eq (length_orbit_lt c)]
  refine hothers.congr fun d => ?_
  rw [hyhas, or_assoc, sameOrbit_iff]
  simp only [exists_eq_right']

/-- A range that is appended under a condition. -/
theorem appendRange_if {x : Ranges} {lo hi : Nat} (hx : x.Valid) (p : Prop) [Decidable p]
    (hle : p → lo ≤ hi) (hhi : hi ≤ maxRune) :
    Makes Valid (if p then appendRange (runes x) lo hi else .ok (runes x))
      fun d => x.has d = true ∨ (p ∧ lo ≤ d ∧ d ≤ hi) := by
  split
  · next h =>
    refine (appendRange_makes (r := ⟨lo, hi⟩) hx ⟨hle h, hhi⟩).congr fun d => or_congr_right ?_
    rw [Range.has_iff]
    exact (and_iff_right h).symm
  · next h =>
    exact (makes_runes hx).congr fun d => ⟨Or.inl, fun h' => h'.resolve_right fun h' => h h'.1⟩

/-- Appending a range with all that folds into it brings just these runes, in each of the ways that
    the walk goes: the range has all that folds or nothing of it, or the part of it that may fold is
    walked rune by rune, and what lies below and above is appended as it is. -/
theorem appendFoldedRange_makes {x : Ranges} {r : Range} (hx : x.Valid) (hr : r.Valid) :
    Makes Valid (appendFoldedRange (runes x) r.lo r.hi)
      fun d => x.has d = true ∨ Ranges.FoldsInto r d := by
  rw [appendFoldedRange]
  split
  · next hshort =>
    exact (appendRange_makes hx hr).congr fun d =>
      or_congr_right (Ranges.foldsInto_uncut hshort).symm
  · next hlong =>
    obtain ⟨hlo, hhi⟩ := hr
    obtain ⟨y, hy, hyv, hyhas⟩ := appendRange_if hx
      (r.lo < firstFold) Nat.le_sub_one_of_lt (by decide)
    obtain ⟨z, hz, hzv, hzhas⟩ := appendRange_if hyv
      (lastFold < r.hi) Nat.succ_le_of_lt hhi
    dsimp only at hyhas hzhas
    have hfirst : 0 < firstFold := by decide
    have hlast : lastFold ≤ maxRune := by decide
    -- the part that is gone through one by one lies between the two that are appended as they are
    have hmem : ∀ c, c ∈ List.range' (max r.lo firstFold)
        (min r.hi lastFold + 1 - max r.lo firstFold) ↔
        r.has c = true ∧ firstFold ≤ c ∧ c ≤ lastFold := by
      intro c
      rw [List.mem_range'_1, Range.has_iff]
      omega
    have hbefore : ∀ d, (r.lo < firstFold ∧ r.lo ≤ d ∧ d ≤ firstFold - 1) ↔
        r.has d = true ∧ d < firstFold := by
      intro d
      rw [Range.has_iff]
      omega
    have hafter : ∀ d, (lastFold < r.hi ∧ lastFold.succ ≤ d ∧ d ≤ r.hi) ↔
        r.has d = true ∧ lastFold < d := by
      intro d
      rw [Range.has_iff]
      omega
    have hmiddle : ∀ x : Ranges, x.Valid → ∀ c ∈ List.range' (max r.lo firstFold)
        (min r.hi lastFold + 1 - max r.lo firstFold),
        Makes Valid (appendFolds (runes x) c) fun d => x.has d = true ∨ SameOrbit c d := by
      intro x hx c hc
      have := (hmem c).mp hc
      exact appendFolds_makes hx (by omega)
    rw [hy, ok_bind, hz, ok_bind]
    refine (makes_foldlM hmiddle hzv).congr fun d => ?_
    rw [hzhas, hyhas, hbefore, hafter, Ranges.foldsInto_parts]
    simp only [hmem, or_assoc]

/-- Appending a class under folding appends what folds into one of its ranges. -/
theorem appendFoldedClass_makes {x y : Ranges} (hx : x.Valid) (hy : y.Valid) :
    Makes Valid (appendFoldedClass (runes x) (runes y))
      fun d => x.has d = true ∨ ∃ r ∈ y, Ranges.FoldsInto r d := by
  rw [appendFoldedClass, Ranges.ofRunes_runes]
  exact makes_foldlM (fun x hx r hr => appendFoldedRange_makes hx (hy r hr)) hx

/-! ## Clean classes -/

/-- A clean list with one more range, which lies above all others with a gap between. -/
theorem clean_concat {x : Ranges} {a : Range} :
    Clean (x ++ [a]) ↔ Clean x ∧ a.Valid ∧ ∀ b ∈ x, b.hi + 1 < a.lo := by
  constructor
  · rintro ⟨hv, hp⟩
    rw [List.pairwise_append] at hp
    refine ⟨⟨fun r hr => hv r (List.mem_append_left _ hr), hp.1⟩, hv a (by simp), fun b hb => ?_⟩
    exact hp.2.2 b hb a List.mem_cons_self
  · rintro ⟨⟨hv, hp⟩, ha, hap⟩
    refine ⟨fun r hr => ?_, ?_⟩
    · rcases List.mem_append.mp hr with hr | hr
      · exact hv r hr
      · exact List.mem_singleton.mp hr ▸ ha
    · rw [List.pairwise_append]
      refine ⟨hp, List.pairwise_singleton _ _, fun b hb c hc => ?_⟩
      exact List.mem_singleton.mp hc ▸ hap b hb

/-- A list with one more range has what it had and the runes of that. -/
theorem has_concat (x : Ranges) (a : Range) (c : Nat) :
    (x ++ [a]).has c = (x.has c || a.has c) := by
  rw [Ranges.has, List.any_append, List.any_cons, List.any_nil, Bool.or_false]
  rfl

/-- A range is merged into the last one, or put behind it. -/
theorem merge_concat (x : Ranges) {a r : Range} (ha : a.Valid) :
    merge (runes (x ++ [a])) r =
      .ok (runes (if r.lo ≤ a.hi + 1 then x ++ [⟨a.lo, max r.hi a.hi⟩] else x ++ [a] ++ [r])) := by
  have hsplit : ∀ d : Range, runes (x ++ [d]) = runes x ++ [d.lo] ++ [d.hi] := by
    intro d
    rw [runes_append, List.append_assoc]
    rfl
  have hlast : (runes (x ++ [a])).getLast? = some a.hi := by
    rw [hsplit, List.getLast?_concat]
  have hinit : (runes (x ++ [a])).dropLast = runes x ++ [a.lo] := by
    rw [hsplit, List.dropLast_concat]
  rw [merge, hlast]
  dsimp only
  rw [word_of_le (Nat.succ_le_succ ha.2), ok_bind]
  split
  · rw [pure_eq_ok, hinit]
    split
    · next h => rw [Nat.max_eq_left (Nat.le_of_lt h), hsplit]
    · next h => rw [Nat.max_eq_right (Nat.le_of_not_lt h), hsplit]
  · rw [pure_eq_ok, runes_append _ [r]]
    rfl

/-- One step of the loop that merges sorted ranges in place.  What is written is the clean list of
    what was read, and its last range may still grow. -/
theorem merge_runes {y : Ranges} {r : Range} (hy : y.Clean) (hr : r.Valid)
    (hle : ∀ a ∈ y, a.lo ≤ r.lo) :
    ∃ z : Ranges, merge (runes y) r = .ok (runes z) ∧ z.Clean ∧ (∀ a ∈ z, a.lo ≤ r.lo) ∧
      ∀ c, z.has c = (y.has c || r.has c) := by
  rcases List.eq_nil_or_concat y with rfl | ⟨x, a, he⟩
  · refine ⟨[r], rfl, Ranges.clean_cons.mpr ⟨hr, fun _ h => absurd h List.not_mem_nil,
      Ranges.clean_nil⟩, fun a ha => ?_, fun c => Bool.or_false _⟩
    exact List.mem_singleton.mp ha ▸ Nat.le_refl _
  rw [List.concat_eq_append] at he
  subst he
  obtain ⟨hx, ha, hap⟩ := clean_concat.mp hy
  have hale : a.lo ≤ r.lo := hle a (by simp)
  refine ⟨_, merge_concat x ha, ?_⟩
  split
  · next htouch =>
    -- the last range grows to the hull of both
    have hhull : ⟨a.lo, max r.hi a.hi⟩ = r.hull a := by
      rw [Range.hull, Nat.min_eq_right hale]
    have htouches : r.touches a = true := Range.touches_iff.mpr ⟨htouch, by have := hr.1; omega⟩
    refine ⟨clean_concat.mpr ⟨hx, hhull ▸ Ranges.hull_valid hr ha, hap⟩, fun b hb => ?_,
      fun c => ?_⟩
    · rcases List.mem_append.mp hb with hb | hb
      · exact hle b (List.mem_append_left _ hb)
      · rw [List.mem_singleton.mp hb]
        exact hale
    · rw [hhull, has_concat, has_concat, Range.has_hull htouches, Bool.or_assoc,
        Bool.or_comm (r.has c)]
  · next happart =>
    refine ⟨clean_concat.mpr ⟨hy, hr, fun b hb => ?_⟩, fun b hb => ?_, fun c => has_concat _ _ _⟩
    · rcases List.mem_append.mp hb with hb | hb
      · have := hap b hb
        have := ha.1
        omega
      · rw [List.mem_singleton.mp hb]
        omega
    · rcases List.mem_append.mp hb with hb | hb
      · exact hle b hb
      · exact List.mem_singleton.mp hb ▸ Nat.le_refl _

/-- Sorted ranges are merged to a clean list of the same runes. -/
theorem foldlM_merge {l y : Ranges} (hl : l.Valid) (hsorted : l.Pairwise fun a b => a.lo ≤ b.lo)
    (hy : y.Clean) (hle : ∀ a ∈ y, ∀ r ∈ l, a.lo ≤ r.lo) :
    ∃ z : Ranges, l.foldlM merge (runes y) = .ok (runes z) ∧ z.Clean ∧
      ∀ c, z.has c = (y.has c || l.has c) := by
  induction l generalizing y with
  | nil => exact ⟨y, rfl, hy, fun c => (Bool.or_false _).symm⟩
  | cons r rest ih =>
    obtain ⟨hr, hrest⟩ := Ranges.valid_cons.mp hl
    obtain ⟨hfirst, hsorted⟩ := List.pairwise_cons.mp hsorted
    obtain ⟨w, hw, hwc, hwle, hwhas⟩ := merge_runes hy hr fun a ha => hle a ha r List.mem_cons_self
    obtain ⟨z, hz, hzc, hzhas⟩ := ih hrest hsorted hwc fun a ha b hb =>
      Nat.le_trans (hwle a ha) (hfirst b hb)
    refine ⟨z, ?_, hzc, fun c => ?_⟩
    · rw [List.foldlM_cons, hw, ok_bind, hz]
    · rw [hzhas, hwhas, Ranges.has_cons, Bool.or_assoc]

/-- Sorting and merging gives the clean list. -/
theorem cleanClass_runes {x : Ranges} (hx : x.Valid) :
    cleanClass (runes x) = .ok (runes (Ranges.clean x)) := by
  have hperm := List.mergeSort_perm x comesFirst
  have htrans : ∀ a b c : Range, comesFirst a b = true → comesFirst b c = true →
      comesFirst a c = true := by
    intro a b c
    simp only [comesFirst, Bool.or_eq_true, Bool.and_eq_true, decide_eq_true_eq, beq_iff_eq]
    omega
  have htotal : ∀ a b : Range, (comesFirst a b || comesFirst b a) = true := by
    intro a b
    simp only [comesFirst, Bool.or_eq_true, Bool.and_eq_true, decide_eq_true_eq, beq_iff_eq]
    omega
  have hsorted : (x.mergeSort comesFirst).Pairwise fun a b => a.lo ≤ b.lo := by
    refine (List.pairwise_mergeSort htrans htotal x).imp fun {a b} h => ?_
    simp only [comesFirst, Bool.or_eq_true, Bool.and_eq_true, decide_eq_true_eq, beq_iff_eq] at h
    omega
  obtain ⟨z, hz, hzc, hzhas⟩ := foldlM_merge (l := x.mergeSort comesFirst)
    (fun r hr => hx r (hperm.mem_iff.mp hr)) hsorted Ranges.clean_nil
    fun a ha => absurd ha List.not_mem_nil
  rw [cleanClass, Ranges.ofRunes_runes]
  refine hz.trans (congrArg (fun y => Except.ok (runes y)) ?_)
  refine hzc.ext (Ranges.clean_clean hx) fun c => ?_
  rw [hzhas, Ranges.has_clean, Ranges.has_nil, Bool.false_or]
  -- sorting does not change what the ranges hold
  rw [Bool.eq_iff_iff, Ranges.has_iff, Ranges.has_iff]
  simp only [hperm.mem_iff]

/-! ## Complements -/

/-- Gap by gap, the runes that a clean class leaves out are appended. -/
theorem foldlM_appendGap {x y : Ranges} (hx : x.Valid) (hy : y.Valid) (next : Nat) :
    ((y.foldlM appendGap (runes x.reverse, next)) >>= fun state =>
      if state.2 ≤ maxRune then appendRange state.1 state.2 maxRune else .ok state.1) =
      .ok (runes (x.addAll (Ranges.gapsFrom next y)).reverse) := by
  -- `next` is the first rune that is not decided yet, on both sides
  induction y generalizing x next with
  | nil =>
    rw [List.foldlM_nil, pure_eq_ok, ok_bind, Ranges.gapsFrom]
    split
    · next h => exact appendRange_runes (r := ⟨next, maxRune⟩) hx ⟨h, Nat.le_refl _⟩
    · rfl
  | cons r rest ih =>
    obtain ⟨hr, hrest⟩ := Ranges.valid_cons.mp hy
    rw [List.foldlM_cons, appendGap, Ranges.gapsFrom]
    dsimp only
    rw [word_of_le (Nat.succ_le_succ hr.2)]
    split
    · next hgap =>
      have hv : Range.Valid ⟨next, r.lo - 1⟩ :=
        ⟨Nat.le_sub_one_of_lt hgap, Nat.le_trans (Nat.sub_le _ _) (Nat.le_trans hr.1 hr.2)⟩
      rw [lessen_of_le (Nat.one_le_of_lt hgap), ok_bind,
        appendRange_runes (r := ⟨next, r.lo - 1⟩) hx hv, ok_bind, ok_bind, pure_eq_ok, ok_bind]
      exact ih (Ranges.add_valid hx hv) hrest _
    · rw [ok_bind, ok_bind, pure_eq_ok, ok_bind]
      exact ih hx hrest _

/-- Appending a negated class adds every range of its complement. -/
theorem appendNegatedClass_runes {x y : Ranges} (hx : x.Valid) (hy : y.Valid) :
    appendNegatedClass (runes x.reverse) (runes y) =
      .ok (runes (x.addAll y.complement).reverse) := by
  rw [appendNegatedClass, Ranges.ofRunes_runes]
  exact foldlM_appendGap hx hy 0

/-- One step of the loop that negates in place, with the buffer cut in three: what was written, what
    was read and is not overwritten yet, and what is still to be read.  No gap is written before its
    range was read, so there is always a place to write to. -/
theorem pass_runes {out : Ranges} {left : List Nat} {r : Range} {k : Nat} (suf : Ranges)
    (next : Nat) (hr : r.Valid) (hk : 2 * k = (runes out).length + left.length) :
    ∃ left', Negation.pass ⟨runes out ++ left ++ runes (r :: suf), (runes out).length, next⟩ (2 * k) =
        .ok ⟨runes (if next < r.lo then out ++ [⟨next, r.lo - 1⟩] else out) ++ left' ++ runes suf,
          (runes (if next < r.lo then out ++ [⟨next, r.lo - 1⟩] else out)).length, r.hi + 1⟩ ∧
      2 * (k + 1) =
        (runes (if next < r.lo then out ++ [⟨next, r.lo - 1⟩] else out)).length + left'.length := by
  have hread : ∀ j, (runes out ++ left ++ runes (r :: suf))[2 * k + j]? =
      (r.lo :: r.hi :: runes suf)[j]? := by
    intro j
    rw [hk, ← List.length_append]
    exact getElem?_append_length _ _ j
  have hword : word (r.hi + 1) = .ok (r.hi + 1) := word_of_le (Nat.succ_le_succ hr.2)
  have hlo : (runes out ++ left ++ runes (r :: suf))[2 * k]? = some r.lo := hread 0
  have hhi : (runes out ++ left ++ runes (r :: suf))[2 * k + 1]? = some r.hi := hread 1
  rw [Negation.pass]
  dsimp only
  rw [hlo, hhi]
  simp only [must_some, ok_bind, hword]
  split
  · next hgap =>
    -- the two entries that are overwritten are left over, or hold the pair itself
    obtain ⟨a, b, left', hleft⟩ : ∃ a b left', left ++ [r.lo, r.hi] = a :: b :: left' := by
      rcases left with _ | ⟨a, _ | ⟨b, left'⟩⟩
      · exact ⟨r.lo, r.hi, [], rfl⟩
      · exact ⟨a, r.lo, [r.hi], rfl⟩
      · exact ⟨a, b, left' ++ [r.lo, r.hi], rfl⟩
    have hlen : left.length + 2 = left'.length + 2 := by
      have := congrArg List.length hleft
      simpa using this
    have hbuffer : runes out ++ left ++ runes (r :: suf) =
        runes out ++ a :: b :: (left' ++ runes suf) := by
      have h := congrArg (runes out ++ · ++ runes suf) hleft
      simpa only [runes_cons, List.append_assoc, List.cons_append, List.nil_append] using h
    refine ⟨left', ?_, ?_⟩
    · rw [hbuffer, replace_fst, ok_bind, lessen_of_le (Nat.one_le_of_lt hgap), ok_bind, replace_snd,
        ok_bind, pure_eq_ok, runes_append]
      simp [runes]
    · rw [runes_append, List.length_append, show (runes [⟨next, r.lo - 1⟩]).length = 2 from rfl]
      omega
  · refine ⟨left ++ [r.lo, r.hi], ?_, ?_⟩
    · rw [pure_eq_ok, runes_cons]
      simp
    · rw [List.length_append, show [r.lo, r.hi].length = 2 from rfl]
      omega

/-- Pass after pass, the gaps of a class come to stand in front. -/
theorem foldlM_pass {out suf : Ranges} {left : List Nat} {k : Nat} (next : Nat) (hsuf : suf.Valid)
    (hk : 2 * k = (runes out).length + left.length) :
    ∃ n, ((List.range' k suf.length).map (2 * ·)).foldlM Negation.pass
        ⟨runes out ++ left ++ runes suf, (runes out).length, next⟩ = .ok n ∧
      (n.buffer.take n.written ++ if n.next ≤ maxRune then [n.next, maxRune] else []) =
        runes (out ++ Ranges.gapsFrom next suf) := by
  -- the buffer is what was written, what is left over there, and the pairs still to be read; the
  -- equation of the lengths keeps the next pair at its index
  induction suf generalizing out left next k with
  | nil =>
    refine ⟨_, rfl, ?_⟩
    dsimp only
    rw [List.append_assoc, List.take_left, Ranges.gapsFrom, runes_append]
    split
    · rfl
    · rfl
  | cons r rest ih =>
    obtain ⟨hr, hrest⟩ := Ranges.valid_cons.mp hsuf
    obtain ⟨left', hpass, hk'⟩ := pass_runes rest next hr hk
    obtain ⟨n, hn, htaken⟩ := ih (r.hi + 1) hrest hk'
    refine ⟨n, ?_, htaken.trans ?_⟩
    · rw [List.length_cons, List.range'_succ, List.map_cons, List.foldlM_cons, hpass, ok_bind, hn]
    · rw [Ranges.gapsFrom]
      split
      · rw [List.append_assoc]
        rfl
      · rfl

/-- The complement that is written over a class is its complement. -/
theorem negateClass_runes {x : Ranges} (hx : x.Valid) :
    negateClass (runes x) = .ok (runes x.complement) := by
  have hcount : ((runes x).length + 1) / 2 = x.length := by
    rw [length_runes]
    omega
  have hstart : 2 * 0 = (runes []).length + ([] : List Nat).length := rfl
  obtain ⟨n, hn, htaken⟩ := foldlM_pass 0 hx hstart
  rw [negateClass, hcount, List.range_eq_range']
  refine (congrArg (· >>= _) hn).trans ?_
  rw [ok_bind]
  dsimp only
  rw [pure_eq_ok, Ranges.complement]
  refine congrArg Except.ok (Eq.trans ?_ htaken)
  split
  · rfl
  · rw [List.append_nil]

/-! ## Finished branches -/

/-- A finished branch in normal form is cleaned to a dot where it is one, and stays otherwise. -/
theorem cleanAlt_of_normal {t : Tree} (ht : t.Normal) : cleanAlt t = .ok (Assembly.asDot t) := by
  rw [cleanAlt, Assembly.asDot]
  by_cases hop : t.op = .charClass
  · obtain ⟨x, hx, hproper⟩ := ht.here.ranges hop
    have hclean : cleanClass t.runes = .ok t.runes := by
      rw [show t.runes = runes x from hx, cleanClass_runes hproper.clean.valid,
        hproper.clean.clean_eq]
    rw [if_neg (not_not_intro hop), if_pos hop, hclean, ok_bind, pure_eq_ok]
    obtain ⟨l, subs⟩ := t
    have hfull : Ranges.full.runes = [0, maxRune] := rfl
    have hnl : Ranges.fullButNewline.runes = [0, newline - 1, newline + 1, maxRune] := rfl
    rw [hfull, hnl]
    simp only [Tree.relabel]
    split
    · rfl
    · split
      · rfl
      · rfl
  · rw [if_pos hop, if_neg hop]

end RegexTree.Machine
