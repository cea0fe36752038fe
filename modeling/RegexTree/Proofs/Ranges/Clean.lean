/-
  Clean lists of ranges.

  A class is a list of ranges.  While it is collected the list may be in any order and its ranges
  may overlap; then it is cleaned: a clean list is sorted, its ranges hold code points and no two of
  them overlap or abut.

  What the operations do is said by the runes that a list has, and there are two facts for each:
  what it has (`has_add`, `has_insert`, `has_clean`, `has_complement`), and that it keeps the ranges
  in order, or makes a clean list (`add_valid`, `insert_clean`, `clean_clean`, `complement_clean`).
  Adding a range may join it to one that was added shortly before, which changes the list and not
  what it has.

  A clean list is determined by the runes in it (`Clean.ext`), which is why it can stand for them:
  the first range begins with the least rune, and ends where the next rune is not in the list.  So
  every law for sets of runes is one for clean lists: cleaning twice is cleaning once, and taking
  the complement twice gives the list back (`Clean.complement_complement`).
-/
import RegexTree.Ranges.Folded

namespace RegexTree.Ranges

/-- All ranges are valid, and between any two neighbours a rune is left out. -/
structure Clean (x : Ranges) : Prop where
  valid : x.Valid
  apart : x.Pairwise fun a b => a.hi + 1 < b.lo

instance (x : Ranges) : Decidable x.Valid := inferInstanceAs (Decidable (∀ r ∈ x, r.Valid))

theorem valid_nil : Valid [] := fun _ h => absurd h List.not_mem_nil

theorem valid_cons {r : Range} {x : Ranges} : Valid (r :: x) ↔ r.Valid ∧ Valid x :=
  List.forall_mem_cons

theorem clean_nil : Clean [] := ⟨valid_nil, List.Pairwise.nil⟩

/-- The first range lies before the others, with a gap after it. -/
theorem clean_cons {r : Range} {x : Ranges} :
    Clean (r :: x) ↔ r.Valid ∧ (∀ a ∈ x, r.hi + 1 < a.lo) ∧ Clean x := by
  constructor
  · rintro ⟨hv, hp⟩
    rw [valid_cons] at hv
    rw [List.pairwise_cons] at hp
    exact ⟨hv.1, hp.1, hv.2, hp.2⟩
  · rintro ⟨hr, ha, hv, hp⟩
    exact ⟨valid_cons.mpr ⟨hr, hv⟩, List.pairwise_cons.mpr ⟨ha, hp⟩⟩

/-- A rune is in the list if it is in one of the ranges. -/
theorem has_iff {x : Ranges} {c : Nat} : x.has c = true ↔ ∃ r ∈ x, r.lo ≤ c ∧ c ≤ r.hi := by
  simp only [has, List.any_eq_true, Range.has_iff]

/-! ## The ends of ranges, and their order -/

theorem runes_cons (r : Range) (x : Ranges) : runes (r :: x) = r.lo :: r.hi :: runes x := rfl

theorem runes_append (x y : Ranges) : runes (x ++ y) = runes x ++ runes y := List.flatMap_append

theorem length_runes (x : Ranges) : x.runes.length = 2 * x.length := by
  induction x with
  | nil => rfl
  | cons r rest ih =>
    rw [runes_cons, List.length_cons, List.length_cons, List.length_cons, ih]
    omega

theorem has_reverse (x : Ranges) (c : Nat) : has x.reverse c = x.has c := List.any_reverse

theorem reverse_valid {x : Ranges} (hx : x.Valid) : Valid x.reverse :=
  fun r hr => hx r (List.mem_reverse.mp hr)

/-! ## Adding ranges in any order -/

theorem hull_valid {a b : Range} (ha : a.Valid) (hb : b.Valid) : (a.hull b).Valid := by
  simp only [Range.Valid, Range.hull] at *
  omega

/-- Adding a range keeps all ranges in order. -/
theorem add_valid {x : Ranges} {r : Range} (hx : x.Valid) (hr : r.Valid) : (x.add r).Valid := by
  unfold add
  split
  · exact valid_cons.mpr ⟨hr, valid_nil⟩
  · rw [valid_cons] at hx
    split
    · exact valid_cons.mpr ⟨hull_valid hr hx.1, valid_nil⟩
    · exact valid_cons.mpr ⟨hr, valid_cons.mpr hx⟩
  · rw [valid_cons, valid_cons] at hx
    obtain ⟨ha, hb, hrest⟩ := hx
    split
    · exact valid_cons.mpr ⟨hull_valid hr ha, valid_cons.mpr ⟨hb, hrest⟩⟩
    · split
      · exact valid_cons.mpr ⟨ha, valid_cons.mpr ⟨hull_valid hr hb, hrest⟩⟩
      · exact valid_cons.mpr ⟨hr, valid_cons.mpr ⟨ha, valid_cons.mpr ⟨hb, hrest⟩⟩⟩

/-- What every step of a scan keeps valid is valid at its end. -/
theorem foldl_valid {α : Type} {f : Ranges → α → Ranges} {items : List α}
    (hf : ∀ x : Ranges, ∀ i ∈ items, x.Valid → (f x i).Valid) {x : Ranges} (hx : x.Valid) :
    (items.foldl f x).Valid := by
  induction items generalizing x with
  | nil => exact hx
  | cons i rest ih =>
    rw [List.foldl_cons]
    refine ih (fun y j hj => hf y j (List.mem_cons_of_mem i hj)) ?_
    exact hf x i List.mem_cons_self hx

theorem addAll_valid {x y : Ranges} (hx : x.Valid) (hy : y.Valid) : (x.addAll y).Valid :=
  foldl_valid (fun _ r hr hz => add_valid hz (hy r hr)) hx

/-- Adding a range adds its runes, also where it is joined to another one. -/
theorem has_add (x : Ranges) (r : Range) (c : Nat) :
    (x.add r).has c = (x.has c || r.has c) := by
  unfold add
  split
  · simp only [has_cons, has_nil, Bool.or_false, Bool.false_or]
  · split
    · next a ht =>
      simp only [has_cons, has_nil, Range.has_hull ht]
      cases a.has c <;> cases r.has c <;> rfl
    · simp only [has_cons, has_nil, Bool.or_comm]
  · split
    · next a b rest ht =>
      simp only [has_cons, Range.has_hull ht]
      cases a.has c <;> cases b.has c <;> cases r.has c <;> cases has rest c <;> rfl
    · next a b rest _ =>
      split
      · next ht =>
        simp only [has_cons, Range.has_hull ht]
        cases a.has c <;> cases b.has c <;> cases r.has c <;> cases has rest c <;> rfl
      · simp only [has_cons, Bool.or_comm]

theorem has_addAll (x y : Ranges) (c : Nat) : (x.addAll y).has c = (x.has c || y.has c) := by
  induction y generalizing x with
  | nil => rw [addAll, List.foldl_nil, has_nil, Bool.or_false]
  | cons r rest ih =>
    show (addAll (x.add r) rest).has c = _
    rw [ih, has_add, has_cons, Bool.or_assoc]

/-- A range behind all others, and apart from them, becomes a range of its own. -/
theorem add_of_apart {x : Ranges} {r : Range} (h : ∀ a ∈ x, a.hi + 1 < r.lo) :
    x.add r = r :: x := by
  have htouches : ∀ a ∈ x, r.touches a = false := by
    intro a ha
    rw [Range.touches, decide_eq_false (Nat.not_le_of_lt (h a ha)), Bool.false_and]
  unfold add
  split
  · rfl
  · rw [if_neg (ne_true_of_eq_false (htouches _ List.mem_cons_self))]
  · rw [if_neg (ne_true_of_eq_false (htouches _ List.mem_cons_self)),
      if_neg (ne_true_of_eq_false (htouches _ (List.mem_cons_of_mem _ List.mem_cons_self)))]

/-- The ranges of a clean list are added as they are. -/
theorem addAll_reverse {x y : Ranges} (h : Clean (x ++ y)) :
    addAll x.reverse y = (x ++ y).reverse := by
  induction y generalizing x with
  | nil => rw [List.append_nil, addAll, List.foldl_nil]
  | cons r rest ih =>
    have hapart : ∀ a ∈ x.reverse, a.hi + 1 < r.lo := by
      intro a ha
      exact (List.pairwise_append.mp h.apart).2.2 a (List.mem_reverse.mp ha) r List.mem_cons_self
    rw [List.append_cons] at h ⊢
    rw [← ih h, List.reverse_append, addAll, List.foldl_cons, add_of_apart hapart]
    rfl

/-! ## The clean list of given runes -/

/-- A range that is inserted in its place brings its runes. -/
theorem has_insert (r : Range) (x : Ranges) (c : Nat) :
    (insert r x).has c = (r.has c || x.has c) := by
  induction x generalizing r with
  | nil => rfl
  | cons a rest ih =>
    rw [insert]
    split
    · next ht => rw [ih, Range.has_hull ht, has_cons, Bool.or_assoc]
    · split
      · rfl
      · rw [has_cons, ih, has_cons, Bool.or_left_comm]

/-- What is in a list after an insertion begins no earlier than what was there or was put in. -/
theorem le_lo_insert {r b : Range} {x : Ranges} {n : Nat} (hr : n ≤ r.lo)
    (hx : ∀ a ∈ x, n ≤ a.lo) (hb : b ∈ insert r x) : n ≤ b.lo := by
  induction x generalizing r with
  | nil =>
    rw [insert, List.mem_singleton] at hb
    exact hb ▸ hr
  | cons a rest ih =>
    have ha := hx a List.mem_cons_self
    have hrest : ∀ a ∈ rest, n ≤ a.lo := fun d hd => hx d (List.mem_cons_of_mem a hd)
    rw [insert] at hb
    split at hb
    · refine ih ?_ hrest hb
      simp only [Range.hull]
      omega
    · split at hb
      · rcases List.mem_cons.mp hb with rfl | hb
        · exact hr
        · exact hx b hb
      · rcases List.mem_cons.mp hb with rfl | hb
        · exact ha
        · exact ih hr hrest hb

/-- A range that is inserted in its place leaves the list clean, as it is joined to whatever it
    touches. -/
theorem insert_clean {r : Range} {x : Ranges} (hr : r.Valid) (hx : x.Clean) :
    (insert r x).Clean := by
  induction x generalizing r with
  | nil => exact clean_cons.mpr ⟨hr, fun _ h => absurd h List.not_mem_nil, clean_nil⟩
  | cons a rest ih =>
    obtain ⟨ha, hap, hrest⟩ := clean_cons.mp hx
    have hlo : a.lo ≤ a.hi := ha.1
    have hrlo : r.lo ≤ r.hi := hr.1
    rw [insert]
    split
    · exact ih (hull_valid hr ha) hrest
    · next ht =>
      rw [Range.touches_iff] at ht
      split
      · next hlt =>
        refine clean_cons.mpr ⟨hr, fun b hb => ?_, hx⟩
        rcases List.mem_cons.mp hb with rfl | hb
        · omega
        · have := hap b hb
          omega
      · next hlt =>
        refine clean_cons.mpr ⟨ha, fun b hb => ?_, ih hr hrest⟩
        exact le_lo_insert (n := a.hi + 2) (by omega) hap hb

theorem clean_clean {x : Ranges} (hx : x.Valid) : (clean x).Clean := by
  induction x with
  | nil => exact clean_nil
  | cons r rest ih =>
    rw [valid_cons] at hx
    exact insert_clean hx.1 (ih hx.2)

/-- Cleaning changes the ranges and not the runes. -/
theorem has_clean (x : Ranges) (c : Nat) : (clean x).has c = x.has c := by
  induction x with
  | nil => rfl
  | cons r rest ih =>
    show (insert r (clean rest)).has c = _
    rw [has_insert, ih, has_cons]

/-! ## The runes left out -/

/-- The gaps of a clean list are a clean list, and begin where one starts to look; by induction on
    the ranges, looking on after each of them. -/
theorem gapsFrom_clean {x : Ranges} (hx : x.Clean) {next : Nat} (hn : ∀ r ∈ x, next ≤ r.lo) :
    (gapsFrom next x).Clean ∧ ∀ r ∈ gapsFrom next x, next ≤ r.lo := by
  induction x generalizing next with
  | nil =>
    rw [gapsFrom]
    split
    · next hle =>
      refine ⟨clean_cons.mpr ⟨⟨hle, Nat.le_refl _⟩, fun _ h => absurd h List.not_mem_nil,
        clean_nil⟩, fun r hr => ?_⟩
      exact (List.mem_singleton.mp hr).symm ▸ Nat.le_refl _
    · exact ⟨clean_nil, fun _ h => absurd h List.not_mem_nil⟩
  | cons a rest ih =>
    obtain ⟨⟨hlo, hhi⟩, hap, hrest⟩ := clean_cons.mp hx
    have hna := hn a List.mem_cons_self
    obtain ⟨hc, hge⟩ := ih hrest fun r hr => show a.hi + 1 ≤ r.lo from Nat.le_of_lt (hap r hr)
    rw [gapsFrom]
    split
    · next hlt =>
      refine ⟨clean_cons.mpr ⟨⟨?_, ?_⟩, fun r hr => ?_, hc⟩, fun r hr => ?_⟩
      · show next ≤ a.lo - 1
        omega
      · show a.lo - 1 ≤ maxRune
        omega
      · have := hge r hr
        show a.lo - 1 + 1 < r.lo
        omega
      · rcases List.mem_cons.mp hr with rfl | hr
        · exact Nat.le_refl _
        · have := hge r hr
          omega
    · refine ⟨hc, fun r hr => ?_⟩
      have := hge r hr
      omega

theorem complement_clean {x : Ranges} (hx : x.Clean) : x.complement.Clean :=
  (gapsFrom_clean hx fun _ _ => Nat.zero_le _).1

/-- The gaps have the code points that the list has not, from where one starts to look.  A rune lies
    before the first range and is in the first gap, or in the range, or after it. -/
theorem has_gapsFrom {x : Ranges} (hx : x.Clean) {next : Nat} (hn : ∀ r ∈ x, next ≤ r.lo)
    (c : Nat) : (gapsFrom next x).has c = true ↔ next ≤ c ∧ c ≤ maxRune ∧ x.has c = false := by
  induction x generalizing next with
  | nil =>
    rw [gapsFrom]
    split
    · simp only [has_cons, has_nil, Bool.or_false, Range.has_iff, and_true]
    · simp only [has_nil, Bool.false_eq_true, false_iff]
      omega
  | cons a rest ih =>
    obtain ⟨⟨hlo, hhi⟩, hap, hrest⟩ := clean_cons.mp hx
    have hna := hn a List.mem_cons_self
    have hih := ih hrest fun r hr => show a.hi + 1 ≤ r.lo from Nat.le_of_lt (hap r hr)
    -- before the end of `a` the rest of the list has no runes
    have hbefore : c ≤ a.hi → has rest c = false := by
      intro hc
      rw [Bool.eq_false_iff]
      intro h
      obtain ⟨r, hr, hrc, -⟩ := has_iff.mp h
      have := hap r hr
      omega
    have hacons : has (a :: rest) c = false ↔ ¬(a.lo ≤ c ∧ c ≤ a.hi) ∧ has rest c = false := by
      rw [has_cons, Bool.or_eq_false_iff, ← Bool.not_eq_true (a.has c), Range.has_iff]
    rw [gapsFrom, hacons]
    split
    · rw [has_cons, Bool.or_eq_true, hih, Range.has_iff]
      constructor
      · rintro (⟨h1, h2⟩ | ⟨h1, h2, h3⟩)
        · dsimp only at h1 h2
          exact ⟨h1, by omega, by omega, hbefore (by omega)⟩
        · exact ⟨by omega, h2, by omega, h3⟩
      · rintro ⟨h1, h2, h3, h4⟩
        rcases Nat.lt_or_ge c a.lo with hc | hc
        · exact Or.inl ⟨h1, Nat.le_sub_one_of_lt hc⟩
        · exact Or.inr ⟨by omega, h2, h4⟩
    · rw [hih]
      constructor
      · rintro ⟨h1, h2, h3⟩
        exact ⟨by omega, h2, by omega, h3⟩
      · rintro ⟨h1, h2, h3, h4⟩
        exact ⟨by omega, h2, h4⟩

/-- The complement has all code points that the list has not. -/
theorem has_complement {x : Ranges} (hx : x.Clean) (c : Nat) :
    x.complement.has c = true ↔ c ≤ maxRune ∧ x.has c = false := by
  rw [complement, has_gapsFrom hx fun _ _ => Nat.zero_le _]
  exact and_iff_right (Nat.zero_le c)

/-! ## A clean list is determined by its runes -/

/-- If the runes agree and the first lists do not begin before the second, they begin together. -/
theorem Clean.le_head {a b : Range} {x y : Ranges} (hx : Clean (a :: x)) (hy : Clean (b :: y))
    (h : ∀ c, has (a :: x) c = has (b :: y) c) : b.lo ≤ a.lo := by
  have ha : has (b :: y) a.lo = true := by
    rw [← h, has_cons, Range.has_iff.mpr ⟨Nat.le_refl _, (clean_cons.mp hx).1.1⟩, Bool.true_or]
  obtain ⟨r, hr, hrc, -⟩ := has_iff.mp ha
  rcases List.mem_cons.mp hr with rfl | hr
  · exact hrc
  · have h1 := (clean_cons.mp hy).2.1 r hr
    have h2 := (clean_cons.mp hy).1.1
    omega

/-- If they begin together, the first range of a clean list is not the shorter one. -/
theorem Clean.hi_le {a b : Range} {x y : Ranges} (hy : Clean (b :: y)) (hlo : a.lo = b.lo)
    (h : ∀ c, has (a :: x) c = has (b :: y) c) : a.hi ≤ b.hi := by
  refine Nat.le_of_not_lt fun hlt => ?_
  -- the rune after the end of `b` is in the first list and not in the second
  have ha : has (b :: y) (b.hi + 1) = true := by
    have hb := (clean_cons.mp hy).1.1
    rw [← h, has_cons, Range.has_iff.mpr ⟨by omega, hlt⟩, Bool.true_or]
  obtain ⟨r, hr, hrc, hrc'⟩ := has_iff.mp ha
  rcases List.mem_cons.mp hr with rfl | hr
  · omega
  · have := (clean_cons.mp hy).2.1 r hr
    omega

/-- Clean lists that have the same runes are the same list.  The first ranges begin with the least
    rune, and end before the least one that is missing above it; then what is left has the same
    runes again. -/
theorem Clean.ext {x y : Ranges} (hx : x.Clean) (hy : y.Clean) (h : ∀ c, x.has c = y.has c) :
    x = y := by
  induction x generalizing y with
  | nil =>
    cases y with
    | nil => rfl
    | cons b y =>
      have hb := h b.lo
      rw [has_nil, has_cons, Range.has_iff.mpr ⟨Nat.le_refl _, (clean_cons.mp hy).1.1⟩] at hb
      cases hb
  | cons a x ih =>
    cases y with
    | nil =>
      have ha := h a.lo
      rw [has_nil, has_cons, Range.has_iff.mpr ⟨Nat.le_refl _, (clean_cons.mp hx).1.1⟩] at ha
      cases ha
    | cons b y =>
      have hlo : a.lo = b.lo :=
        Nat.le_antisymm (hy.le_head hx fun c => (h c).symm) (hx.le_head hy h)
      have hhi : a.hi = b.hi :=
        Nat.le_antisymm (hy.hi_le hlo h) (hx.hi_le hlo.symm fun c => (h c).symm)
      obtain rfl : a = b := by
        cases a; cases b
        simp only at hlo hhi
        rw [hlo, hhi]
      obtain ⟨hva, hapx, hcx⟩ := clean_cons.mp hx
      obtain ⟨-, hapy, hcy⟩ := clean_cons.mp hy
      -- neither tail reaches down to `a`
      have htail : ∀ {z : Ranges}, (∀ r ∈ z, a.hi + 1 < r.lo) → ∀ c, a.has c = true →
          has z c = false := by
        intro z hz c hc
        rw [Bool.eq_false_iff]
        intro hzc
        obtain ⟨r, hr, hrc, -⟩ := has_iff.mp hzc
        have := hz r hr
        have := (Range.has_iff.mp hc).2
        omega
      rw [ih hcx hcy fun c => ?_]
      have hc := h c
      rw [has_cons, has_cons] at hc
      cases hac : a.has c with
      | true => rw [htail hapx c hac, htail hapy c hac]
      | false => simpa only [hac, Bool.false_or] using hc

/-- A clean list is not changed by being cleaned. -/
theorem Clean.clean_eq {x : Ranges} (hx : x.Clean) : clean x = x :=
  (clean_clean hx.valid).ext hx fun c => has_clean x c

/-- The ranges of a clean list, added one by one and cleaned, are the list. -/
theorem Clean.clean_addAll {x : Ranges} (hx : x.Clean) : clean (addAll [] x) = x := by
  refine (clean_clean (addAll_valid valid_nil hx.valid)).ext hx fun c => ?_
  rw [has_clean, has_addAll, has_nil, Bool.false_or]

/-- What is left out of what is left out of a clean list is the list. -/
theorem Clean.complement_complement {x : Ranges} (hx : x.Clean) : x.complement.complement = x := by
  refine (complement_clean (complement_clean hx)).ext hx fun c => ?_
  rw [Bool.eq_iff_iff, has_complement (complement_clean hx), ← Bool.not_eq_true, has_complement hx]
  constructor
  · rintro ⟨hle, hnot⟩
    rw [← Bool.not_eq_false]
    exact fun hno => hnot ⟨hle, hno⟩
  · intro hc
    obtain ⟨r, hr, -, hhi⟩ := has_iff.mp hc
    refine ⟨Nat.le_trans hhi (hx.valid r hr).2, fun hno => ?_⟩
    rw [hc] at hno
    cases hno.2

end RegexTree.Ranges
