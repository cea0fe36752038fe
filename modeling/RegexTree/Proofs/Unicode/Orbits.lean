/-
  Fold orbits: where they lie, that they close, and their smallest members.

  Walking on from any rune leads back to it, so all members of an orbit have the same smallest one,
  and that is its own smallest (`minFold_minFold`).

  There are two kinds of orbits.  The irregular ones have no rune in common, so from a member of one
  the walk goes on in that (`orbit_of_mem`), and the rest is read off their table.  All other orbits
  are a rune and its case partner, and the partner of the partner is the rune: a small letter has no
  small letter of its own, because the runs of `lowerRuns` move no rune into one of the runs
  (`lower_lower`).  So every orbit closes before the bound that cuts the walk off
  (`length_orbit_lt`), and `casedRunes` lists all runes that share one.
-/
import RegexTree.Proofs.Unicode.Tables
import Mathlib.Logic.Function.Iterate

namespace RegexTree.Unicode

/-! ## Sets of runes as numbers -/

/-- A list of numbers as the bits of one. -/
theorem testBit_mask {l : List Nat} {c : Nat} : (mask l).testBit c = true ↔ c ∈ l := by
  induction l with
  | nil => simp [mask]
  | cons a rest ih =>
    rw [mask, List.foldr_cons, Nat.testBit_or, Bool.or_eq_true, ← mask, ih, Nat.one_shiftLeft,
      Nat.testBit_two_pow, decide_eq_true_eq, List.mem_cons, eq_comm]

theorem testBit_masks {lists : List (List Nat)} {c : Nat} :
    (masks lists).testBit c = true ↔ c ∈ lists.flatten := by
  induction lists with
  | nil => simp [masks]
  | cons l rest ih =>
    rw [masks, List.foldr_cons, Nat.testBit_or, Bool.or_eq_true, ← masks, ih, testBit_mask,
      List.flatten_cons, List.mem_append]

/-- Sets without a common bit have no common member. -/
theorem not_mem_of_masks {m : Nat} {lists : List (List Nat)} {c : Nat}
    (h : m &&& masks lists = 0) (hc : m.testBit c = true) : c ∉ lists.flatten := by
  intro hmem
  have hbit : (m &&& masks lists).testBit c = true := by
    rw [Nat.testBit_and, hc, testBit_masks.mpr hmem]
    rfl
  rw [h, Nat.zero_testBit] at hbit
  cases hbit

/-! ## Runes that runs move -/

theorem CaseRun.mem_members {s : CaseRun} {c : Nat} (h : s.covers c = true) : c ∈ s.members := by
  obtain ⟨hfirst, hlast, hstep⟩ := covers_iff.mp h
  rw [members, List.mem_range']
  refine ⟨(c - s.first) / s.step, Nat.lt_succ_of_le ?_, ?_⟩
  · exact Nat.div_le_div_right (Nat.sub_le_sub_right hlast _)
  · have := Nat.div_add_mod (c - s.first) s.step
    omega

/-- The mapping moves runes of its runs only. -/
theorem mem_members_of_mapThrough_ne {runs : List CaseRun} {c : Nat} (h : mapThrough runs c ≠ c) :
    c ∈ (runs.map CaseRun.members).flatten := by
  rcases mapThrough_cases runs c with he | ⟨s, hs, hcovers, -⟩
  · exact absurd he h
  · exact List.mem_flatten.mpr ⟨s.members, List.mem_map_of_mem hs, CaseRun.mem_members hcovers⟩

/-- A small letter is its own small letter. -/
theorem lower_lower (c : Nat) : lower (lower c) = lower c := by
  rcases mapThrough_cases lowerRuns c with h | ⟨s, hs, hcovers, h⟩
  · rw [lower, lower, h, h]
  · rw [lower, lower, h]
    -- a small letter that moved on would be a member of a run, and no run leads to one
    refine Decidable.byContradiction fun hne => ?_
    refine not_mem_of_masks lowerRuns_apart (testBit_masks.mpr ?_) (mem_members_of_mapThrough_ne hne)
    exact List.mem_flatten.mpr ⟨_, List.mem_map_of_mem hs,
      List.mem_map_of_mem (CaseRun.mem_members hcovers)⟩

/-! ## Pairs -/

/-- The partner of the partner is the rune itself. -/
theorem casePartner_casePartner (c : Nat) : casePartner (casePartner c) = c := by
  by_cases hlow : lower c ≠ c ∧ upper (lower c) = c
  · have hpartner : casePartner c = lower c := if_pos hlow
    rw [hpartner, casePartner, lower_lower, if_neg (by simp), hlow.2,
      if_pos ⟨hlow.1.symm, rfl⟩]
  · by_cases hup : upper c ≠ c ∧ lower (upper c) = c
    · have hpartner : casePartner c = upper c := by rw [casePartner, if_neg hlow, if_pos hup]
      rw [hpartner, casePartner, hup.2, if_pos ⟨hup.1.symm, rfl⟩]
    · have hself : casePartner c = c := by rw [casePartner, if_neg hlow, if_neg hup]
      rw [hself, hself]

/-! ## Irregular orbits -/

theorem nextIn_eq_none {first c : Nat} {orbit : List Nat} (h : c ∉ orbit) :
    nextIn first c orbit = none := by
  fun_induction nextIn first c orbit with
  | case1 => rfl
  | case2 => exact absurd List.mem_cons_self h
  | case3 => rfl
  | case4 => exact absurd List.mem_cons_self h
  | case5 a b rest _ ih => exact ih fun hmem => h (List.mem_cons_of_mem a hmem)

/-- The member after a member of an orbit is the first, or a member. -/
theorem exists_nextIn {c : Nat} {orbit : List Nat} (h : c ∈ orbit) (first : Nat) :
    ∃ d, nextIn first c orbit = some d ∧ (d = first ∨ d ∈ orbit) := by
  have hsome : nextIn first c orbit ≠ none := by
    fun_induction nextIn first c orbit with
    | case1 => cases h
    | case2 => exact Option.some_ne_none first
    | case3 a hne => exact absurd (List.mem_singleton.mp h).symm hne
    | case4 => exact Option.some_ne_none _
    | case5 a b rest hne ih =>
      rcases List.mem_cons.mp h with rfl | hmem
      · exact absurd rfl hne
      · exact ih hmem
  obtain ⟨d, hd⟩ := Option.ne_none_iff_exists'.mp hsome
  exact ⟨d, hd, mem_of_nextIn hd⟩

/-- The next member is looked for in the orbit that the rune is in. -/
theorem findSome?_nextIn {orbits : List (List Nat)} (hdisjoint : disjoint orbits = true)
    {orbit : List Nat} (horbit : orbit ∈ orbits) {c : Nat} (hc : c ∈ orbit) :
    (orbits.findSome? fun orbit => nextIn (orbit.headD c) c orbit) =
      nextIn (orbit.headD c) c orbit := by
  induction orbits with
  | nil => cases horbit
  | cons other rest ih =>
    rw [disjoint, Bool.and_eq_true] at hdisjoint
    rw [List.findSome?_cons]
    by_cases hother : c ∈ other
    · have hrest : c ∉ rest.flatten :=
        not_mem_of_masks (Nat.eq_of_beq_eq_true hdisjoint.1) (testBit_mask.mpr hother)
      have hhere : orbit = other := by
        rcases List.mem_cons.mp horbit with h | h
        · exact h
        · exact absurd (List.mem_flatten.mpr ⟨orbit, h, hc⟩) hrest
      obtain ⟨d, hd, -⟩ := exists_nextIn hc (orbit.headD c)
      rw [← hhere, hd]
    · have hbelow : orbit ∈ rest := by
        rcases List.mem_cons.mp horbit with rfl | h
        · exact absurd hc hother
        · exact h
      rw [nextIn_eq_none hother]
      exact ih hdisjoint.2 hbelow

section

variable {members : List Nat} (hmembers : members ∈ irregularOrbits)

include hmembers

/-- From a member of an irregular orbit, the next member is in that orbit. -/
theorem simpleFold_of_mem {c : Nat} (hc : c ∈ members) :
    simpleFold c = nextOf members c ∧ nextOf members c ∈ members := by
  obtain ⟨d, hd, hmem⟩ := exists_nextIn hc (members.headD c)
  have hnext : nextOf members c = d := by rw [nextOf, hd, Option.getD_some]
  constructor
  · rw [simpleFold, inFoldSpan_of_mem hmembers hc, if_pos rfl, irregularNext?,
      findSome?_nextIn irregularOrbits_disjoint hmembers hc, hd, hnext, Option.getD_some]
  · rw [hnext]
    rcases hmem with rfl | hmem
    · cases members with
      | nil => cases hc
      | cons a rest => exact List.mem_cons_self
    · exact hmem

theorem walk_of_mem (home steps : Nat) {c : Nat} (hc : c ∈ members) :
    walk home steps c = walkIn members home steps c := by
  induction steps generalizing c with
  | zero => rfl
  | succ steps ih =>
    obtain ⟨hnext, hmem⟩ := simpleFold_of_mem hmembers hc
    rw [walk, walkIn, hnext, ih hmem]

/-- The orbit of a member is the rest of its row, from that member on. -/
theorem orbit_of_mem {c : Nat} (hc : c ∈ members) :
    orbit c = walkIn members c walkBound (nextOf members c) := by
  obtain ⟨hnext, hmem⟩ := simpleFold_of_mem hmembers hc
  rw [orbit, hnext, walk_of_mem hmembers c walkBound hmem]

/-- What is read off the table: an irregular orbit closes, lies where runes share orbits, and
    begins with its smallest member. -/
theorem closes_of_mem {c : Nat} (hc : c ∈ members) :
    (orbit c).length < walkBound ∧ inFoldSpan c = true ∧ (∀ d ∈ orbit c, inFoldSpan d = true) ∧
      minFold c = members.headD 0 := by
  have h := irregularOrbits_close hmembers hc
  simp only [closes, ← orbit_of_mem hmembers hc, Bool.and_eq_true, Nat.blt_eq, Nat.beq_eq,
    List.all_eq_true] at h
  obtain ⟨⟨⟨hclosed, hspan⟩, hspans⟩, hleast⟩ := h
  exact ⟨hclosed, hspan, hspans, hleast⟩

end

/-- A rune with an irregular next member is a member of an irregular orbit. -/
theorem exists_orbit_of_irregularNext? {c d : Nat} (h : irregularNext? c = some d) :
    ∃ orbit ∈ irregularOrbits, c ∈ orbit := by
  obtain ⟨orbit, hmem, hnext⟩ := List.exists_of_findSome?_eq_some h
  refine ⟨orbit, hmem, Decidable.byContradiction fun hc => ?_⟩
  rw [nextIn_eq_none hc] at hnext
  cases hnext

/-- The irregular runes are those in the table. -/
theorem irregularNext?_eq_none_iff {c : Nat} :
    irregularNext? c = none ↔ c ∉ irregularOrbits.flatten := by
  constructor
  · intro hnone hmem
    obtain ⟨orbit, horbit, hc⟩ := List.mem_flatten.mp hmem
    obtain ⟨d, hd, -⟩ := exists_nextIn hc (orbit.headD c)
    rw [irregularNext?, List.findSome?_eq_none_iff] at hnone
    rw [hnone orbit horbit] at hd
    cases hd
  · intro hc
    cases hnext : irregularNext? c with
    | none => rfl
    | some d =>
      obtain ⟨orbit, horbit, hmem⟩ := exists_orbit_of_irregularNext? hnext
      exact absurd (List.mem_flatten.mpr ⟨orbit, horbit, hmem⟩) hc

/-- No run leads a regular rune to an irregular one. -/
theorem regular_mapThrough {runs : List CaseRun} (hruns : runs ⊆ lowerRuns ++ upperRuns) {c : Nat}
    (hc : c ∉ irregularOrbits.flatten) : mapThrough runs c ∉ irregularOrbits.flatten := by
  rcases mapThrough_cases runs c with h | ⟨s, hs, hcovers, h⟩
  · rwa [h]
  · have hmember := List.all_eq_true.mp (caseRuns_stay (hruns hs)).2 c
      (CaseRun.mem_members hcovers)
    rw [h]
    intro himage
    rw [testBit_masks.mpr himage, Bool.not_true, Bool.false_or] at hmember
    exact hc (testBit_masks.mp hmember)

/-- Regular runes have regular partners. -/
theorem irregularNext?_casePartner {c : Nat} (hc : irregularNext? c = none) :
    irregularNext? (casePartner c) = none := by
  rw [irregularNext?_eq_none_iff] at hc ⊢
  rcases casePartner_cases c with h | ⟨h, -⟩ | ⟨h, -⟩
  · rwa [h]
  · rw [h]
    exact regular_mapThrough (List.subset_append_left _ _) hc
  · rw [h]
    exact regular_mapThrough (List.subset_append_right _ _) hc

/-! ## Members of orbits -/

/-- Runes outside the span stay. -/
theorem simpleFold_outside {c : Nat} (h : inFoldSpan c = false) : simpleFold c = c := by
  rw [simpleFold, h, if_neg Bool.false_ne_true]

theorem orbit_of_fixed {c : Nat} (h : simpleFold c = c) : orbit c = [] := by
  rw [orbit, h, walkBound, walk, if_pos rfl]

/-- Two runes that fold to each other are an orbit. -/
theorem orbit_of_pair {c d : Nat} (hcd : simpleFold c = d) (hdc : simpleFold d = c) (h : d ≠ c) :
    orbit c = [d] := by
  rw [orbit, hcd, walkBound, walk, if_neg h, hdc, walk, if_pos rfl]

/-- A rune that is not irregular folds to its partner, and the partner back. -/
theorem simpleFold_casePartner {c : Nat} (hspan : inFoldSpan c = true)
    (hregular : irregularNext? c = none) :
    simpleFold c = casePartner c ∧ simpleFold (casePartner c) = c := by
  constructor
  · rw [simpleFold, hspan, if_pos rfl, hregular]
    rfl
  · rw [simpleFold, casePartner_inFoldSpan hspan, if_pos rfl, irregularNext?_casePartner hregular]
    exact casePartner_casePartner c

/-- A rune stays, is a member of an irregular orbit, or goes to its case partner and back. -/
theorem simpleFold_cases (c : Nat) :
    simpleFold c = c ∨ (∃ members ∈ irregularOrbits, c ∈ members) ∨
      (inFoldSpan c = true ∧ simpleFold c = casePartner c ∧ simpleFold (casePartner c) = c) := by
  cases hspan : inFoldSpan c with
  | false => exact Or.inl (simpleFold_outside hspan)
  | true =>
    cases hnext : irregularNext? c with
    | some d => exact Or.inr (Or.inl (exists_orbit_of_irregularNext? hnext))
    | none => exact Or.inr (Or.inr ⟨rfl, simpleFold_casePartner hspan hnext⟩)

/-- A rune that shares its orbit is a member of an irregular one, or shares it with its case
    partner only. -/
theorem orbit_cases (c : Nat) :
    orbit c = [] ∨ (∃ members ∈ irregularOrbits, c ∈ members) ∨
      (inFoldSpan c = true ∧ casePartner c ≠ c ∧ orbit c = [casePartner c]) := by
  rcases simpleFold_cases c with h | h | ⟨hspan, hcd, hdc⟩
  · exact Or.inl (orbit_of_fixed h)
  · exact Or.inr (Or.inl h)
  · by_cases h : casePartner c = c
    · exact Or.inl (orbit_of_fixed (hcd.trans h))
    · exact Or.inr (Or.inr ⟨hspan, h, orbit_of_pair hcd hdc h⟩)

/-- Every orbit closes before the walk round it is cut off. -/
theorem length_orbit_lt (c : Nat) : (orbit c).length < walkBound := by
  rcases orbit_cases c with h | ⟨members, hmem, hc⟩ | ⟨-, -, h⟩
  · rw [h]
    decide
  · exact (closes_of_mem hmem hc).1
  · rw [h]
    exact show 1 < walkBound by decide

/-- Only runes within the span share an orbit. -/
theorem inFoldSpan_of_mem_orbit {c d : Nat} (h : d ∈ orbit c) :
    inFoldSpan c = true ∧ inFoldSpan d = true := by
  rcases orbit_cases c with hnil | ⟨members, hmem, hc⟩ | ⟨hspan, -, hpair⟩
  · rw [hnil] at h
    cases h
  · obtain ⟨-, hspan, hspans, -⟩ := closes_of_mem hmem hc
    exact ⟨hspan, hspans d h⟩
  · rw [hpair, List.mem_singleton] at h
    exact ⟨hspan, h ▸ casePartner_inFoldSpan hspan⟩

/-- Members of an orbit lie where runes fold. -/
theorem span_of_mem_orbit {c d : Nat} (h : d ∈ orbit c) :
    (firstFold ≤ c ∧ c ≤ lastFold) ∧ firstFold ≤ d ∧ d ≤ lastFold :=
  ⟨inFoldSpan_iff.mp (inFoldSpan_of_mem_orbit h).1, inFoldSpan_iff.mp (inFoldSpan_of_mem_orbit h).2⟩

/-- The list of cased runes misses none that shares its orbit. -/
theorem mem_casedRunes_of_mem_orbit {c d : Nat} (h : d ∈ orbit c) : c ∈ casedRunes := by
  rcases orbit_cases c with hnil | ⟨members, hmem, hc⟩ | ⟨-, hne, -⟩
  · rw [hnil] at h
    cases h
  · exact List.mem_append_left _ (List.mem_append_left _ (List.mem_flatten.mpr ⟨members, hmem, hc⟩))
  · -- a rune that goes to its partner is moved by a run, so it is a member of one
    rcases casePartner_cases c with he | ⟨he, -⟩ | ⟨he, -⟩
    · exact absurd he hne
    · rw [he] at hne
      have hmoved := mem_members_of_mapThrough_ne hne
      rw [← List.flatMap_def] at hmoved
      exact List.mem_append_left _ (List.mem_append_right _ hmoved)
    · rw [he] at hne
      have hmoved := mem_members_of_mapThrough_ne hne
      rw [← List.flatMap_def] at hmoved
      exact List.mem_append_right _ hmoved

/-! ## Smallest members -/

/-- A rune that is alone is the least of its orbit. -/
theorem minFold_of_fixed {c : Nat} (h : simpleFold c = c) : minFold c = c := by
  rw [minFold, orbit_of_fixed h]
  rfl

/-- The orbit of a rune that one other rune leads back to. -/
theorem minFold_of_pair {c d : Nat} (hcd : simpleFold c = d) (hdc : simpleFold d = c) :
    minFold c = min c d := by
  by_cases h : d = c
  · subst h
    rw [minFold_of_fixed hcd, Nat.min_self]
  · rw [minFold, orbit_of_pair hcd hdc h]
    rfl

/-! ## Runes of one orbit -/

/-- Walking on from `c`, one comes to `d`. -/
def SameOrbit (c d : Nat) : Prop := ∃ n, simpleFold^[n] c = d

/-- A step along the orbit keeps the smallest member. -/
theorem minFold_simpleFold (c : Nat) : minFold (simpleFold c) = minFold c := by
  rcases simpleFold_cases c with h | ⟨members, hmembers, hc⟩ | ⟨-, hcd, hdc⟩
  · rw [h]
  · obtain ⟨hnext, hmem⟩ := simpleFold_of_mem hmembers hc
    rw [hnext, (closes_of_mem hmembers hmem).2.2.2, (closes_of_mem hmembers hc).2.2.2]
  · rw [hcd, minFold_of_pair hcd hdc, minFold_of_pair hdc hcd, Nat.min_comm]

/-- A walk that comes to a rune alone in its orbit goes on there to its bound. -/
theorem length_walk_of_fixed {home c : Nat} (h : simpleFold c = c) (hne : c ≠ home) (steps : Nat) :
    (walk home steps c).length = steps := by
  induction steps with
  | zero => rfl
  | succ steps ih => rw [walk, if_neg hne, h, List.length_cons, ih]

/-- No step leads from a larger orbit to a rune that is alone in its own: the walk would not be
    back before it is cut off. -/
theorem fixed_of_simpleFold_fixed {c : Nat} (h : simpleFold (simpleFold c) = simpleFold c) :
    simpleFold c = c := by
  refine Decidable.byContradiction fun hne => ?_
  have hlen := length_orbit_lt c
  rw [orbit, length_walk_of_fixed h hne] at hlen
  exact Nat.lt_irrefl _ hlen

/-- All members of an orbit have the same smallest one. -/
theorem SameOrbit.minFold_eq {c d : Nat} (h : SameOrbit c d) : minFold c = minFold d := by
  obtain ⟨n, rfl⟩ := h
  induction n generalizing c with
  | zero => rfl
  | succ n ih => rw [Function.iterate_succ_apply, ← ih, minFold_simpleFold]

/-- Of two runes of one orbit neither is alone in it, or they are the same. -/
theorem SameOrbit.eq_of_fixed {c d : Nat} (h : SameOrbit c d)
    (hfixed : simpleFold c = c ∨ simpleFold d = d) : c = d := by
  obtain ⟨n, rfl⟩ := h
  have hself : simpleFold c = c := by
    rcases hfixed with hfixed | hfixed
    · exact hfixed
    · induction n generalizing c with
      | zero => exact hfixed
      | succ n ih => exact fixed_of_simpleFold_fixed (ih hfixed)
  -- so the walk stays where it begins
  clear hfixed
  induction n with
  | zero => rfl
  | succ n ih => rw [Function.iterate_succ_apply, hself, ← ih]

/-! ### Orbits as classes of runes -/

theorem SameOrbit.refl (c : Nat) : SameOrbit c c := ⟨0, rfl⟩

theorem SameOrbit.trans {c d e : Nat} (h : SameOrbit c d) (h' : SameOrbit d e) :
    SameOrbit c e := by
  obtain ⟨m, rfl⟩ := h
  obtain ⟨n, rfl⟩ := h'
  exact ⟨n + m, Function.iterate_add_apply _ n m c⟩

theorem sameOrbit_simpleFold (c : Nat) : SameOrbit c (simpleFold c) := ⟨1, rfl⟩

/-- A walk that is not cut off is back after as many steps as it meets members. -/
theorem iterate_walk {home steps c : Nat} (h : (walk home steps c).length < steps) :
    simpleFold^[(walk home steps c).length] c = home := by
  induction steps generalizing c with
  | zero => omega
  | succ steps ih =>
    rw [walk] at h ⊢
    split at h
    · next hc =>
      rw [if_pos hc]
      exact hc
    · next hc =>
      rw [if_neg hc, List.length_cons]
      rw [List.length_cons] at h
      exact ih (c := simpleFold c) (by omega)

/-- From the next member of an orbit the walk leads back. -/
theorem simpleFold_sameOrbit (c : Nat) : SameOrbit (simpleFold c) c :=
  ⟨(orbit c).length, iterate_walk (length_orbit_lt c)⟩

theorem SameOrbit.symm {c d : Nat} (h : SameOrbit c d) : SameOrbit d c := by
  obtain ⟨n, rfl⟩ := h
  induction n generalizing c with
  | zero => exact .refl c
  | succ n ih => exact (ih (c := simpleFold c)).trans (simpleFold_sameOrbit c)

/-- After a member that a walk meets it meets the next one, or is back. -/
theorem simpleFold_mem_walk {home steps c d : Nat} (h : (walk home steps c).length < steps)
    (hd : d ∈ walk home steps c) : simpleFold d = home ∨ simpleFold d ∈ walk home steps c := by
  induction steps generalizing c with
  | zero => omega
  | succ steps ih =>
    rw [walk] at h hd ⊢
    split at h
    · next hc =>
      rw [if_pos hc] at hd
      cases hd
    · next hc =>
      rw [if_neg hc] at hd ⊢
      rw [List.length_cons] at h
      rcases List.mem_cons.mp hd with rfl | hd
      · obtain ⟨steps, rfl⟩ := Nat.exists_eq_succ_of_ne_zero (show steps ≠ 0 by omega)
        by_cases hnext : simpleFold d = home
        · exact Or.inl hnext
        · rw [walk, if_neg hnext]
          exact Or.inr (List.mem_cons_of_mem _ List.mem_cons_self)
      · exact (ih (by omega) hd).imp_right (List.mem_cons_of_mem _)

/-- All that a walk meets is in the orbit. -/
theorem sameOrbit_of_mem_walk {home steps c d : Nat} (h : d ∈ walk home steps c) :
    SameOrbit c d := by
  induction steps generalizing c with
  | zero => cases h
  | succ steps ih =>
    rw [walk] at h
    split at h
    · cases h
    · rcases List.mem_cons.mp h with rfl | h
      · exact .refl d
      · exact (sameOrbit_simpleFold c).trans (ih h)

/-- The runes of the orbit of `c` are `c` and those that the walk from it meets. -/
theorem sameOrbit_iff {c d : Nat} : SameOrbit c d ↔ d = c ∨ d ∈ orbit c := by
  constructor
  · rintro ⟨n, rfl⟩
    induction n with
    | zero => exact Or.inl rfl
    | succ n ih =>
      rw [Function.iterate_succ_apply']
      rcases ih with h | h
      · rw [h]
        by_cases hfixed : simpleFold c = c
        · exact Or.inl hfixed
        · rw [orbit, walkBound, walk, if_neg hfixed]
          exact Or.inr List.mem_cons_self
      · exact simpleFold_mem_walk (length_orbit_lt c) h
  · rintro (rfl | h)
    · exact .refl d
    · exact (sameOrbit_simpleFold c).trans (sameOrbit_of_mem_walk h)

/-- An orbit with a code point has only code points. -/
theorem SameOrbit.le_maxRune {c d : Nat} (h : SameOrbit c d) (hc : c ≤ maxRune) :
    d ≤ maxRune := by
  obtain ⟨n, rfl⟩ := h
  induction n generalizing c with
  | zero => exact hc
  | succ n ih => exact ih (simpleFold_le hc)

theorem foldl_min_mem (members : List Nat) (least : Nat) :
    members.foldl min least ∈ least :: members := by
  induction members generalizing least with
  | nil => exact List.mem_singleton_self least
  | cons d rest ih =>
    have h := ih (min least d)
    rw [List.foldl_cons]
    rw [List.mem_cons] at h
    rcases h with h | h
    · rw [h]
      rcases Nat.le_total least d with hle | hle
      · rw [Nat.min_eq_left hle]
        exact List.mem_cons_self
      · rw [Nat.min_eq_right hle]
        exact List.mem_cons_of_mem _ List.mem_cons_self
    · exact List.mem_cons_of_mem _ (List.mem_cons_of_mem _ h)

/-- The smallest member of an orbit is one of its members. -/
theorem sameOrbit_minFold (c : Nat) : SameOrbit c (minFold c) :=
  sameOrbit_iff.mpr (List.mem_cons.mp (foldl_min_mem (orbit c) c))

/-- The smallest member of an orbit is its own smallest. -/
theorem minFold_minFold (c : Nat) : minFold (minFold c) = minFold c :=
  (sameOrbit_minFold c).minFold_eq.symm

/-- The smaller rune of a fold pair stands for it. -/
theorem minFold_of_isFoldPair {a b : Nat} (h : isFoldPair a b = true) (hle : a ≤ b) :
    minFold a = a := by
  simp only [isFoldPair, Bool.and_eq_true, beq_iff_eq] at h
  rw [minFold_of_pair h.1.2 h.2, Nat.min_eq_left hle]

end RegexTree.Unicode
