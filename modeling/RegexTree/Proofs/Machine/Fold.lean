/-
  The fold that is looked up.

  The machine looks the fold of a rune up: in a table of the runes whose orbits are irregular, by
  halving, and else in the mappings to small and capital letters, of which it takes the single runes
  that lead back.  On the other side orbits are defined by rows of members and runs of letters.

  * In a table that is in the order of its keys, the search keeps the half in which the key can be
    (`exists_lastUpTo`), so that it finds what the table holds (`lookUp_eq`).  The table of steps
    holds the irregular orbits (`lookUp_orbitSteps`).
  * Mappings to several runes lead to no partner (`partner?_eq`), and neither do surrogates, which
    are no characters.
  * So the fold that is looked up is `simpleFold` (`nextFold_eq`), and the walk over four of its
    steps finds the smallest member (`leastFold_eq`).

  Orbits close (`orbits_close`): at most four steps lead from any rune back to it, so that folding
  permutes the numbers of 32 bits.  That is why the walks that append an orbit to a class come to
  their end.
-/
import RegexTree.Machine.Fold
import RegexTree.Proofs.Machine.Buffer
import RegexTree.Proofs.Unicode.Cycles

namespace RegexTree.Machine

open Unicode
open Ranges (runes Valid)

/-! ## Searching a table -/

section

variable {table : List (Nat × Nat)} (hsorted : table.Pairwise fun a b => a.1 < b.1) (key : Nat)

include hsorted

theorem key_lt_key {i j : Nat} (hij : i < j) (hj : j < table.length) :
    table[i].1 < table[j].1 :=
  List.pairwise_iff_getElem.mp hsorted i j (Nat.lt_trans hij hj) hj hij

/-- The search ends at a place within its part of the table; in no other place of that part is the
    key. -/
theorem exists_lastUpTo {base size : Nat} (hsize : 0 < size) (hle : base + size ≤ table.length) :
    ∃ i, lastUpTo table key base size = .ok i ∧ base ≤ i ∧ i < base + size ∧
      ∀ (j : Nat) (hj : j < table.length), table[j].1 = key → base ≤ j → j < base + size →
        j = i := by
  induction size using Nat.strong_induction_on generalizing base with
  | _ size ih =>
    rw [lastUpTo]
    split
    · exact ⟨base, rfl, Nat.le_refl base, by omega, fun j hj _ hbase hend => by omega⟩
    · next hlong =>
      have hmiddle : base + size / 2 < table.length := by omega
      have hless : size - size / 2 < size := by omega
      rw [List.getElem?_eq_getElem hmiddle, must_some, ok_bind]
      by_cases hkey : key < table[base + size / 2].1
      · have hleft : base + (size - size / 2) ≤ table.length := by omega
        obtain ⟨i, hi, hlo, hhi, honly⟩ := ih _ hless (by omega) hleft
        rw [if_pos hkey]
        refine ⟨i, hi, hlo, by omega, fun j hj hjkey hbase hend => ?_⟩
        refine honly j hj hjkey hbase (Decidable.byContradiction fun hbeyond => ?_)
        -- from the middle on, all keys are larger
        rcases Nat.lt_or_eq_of_le (show base + size / 2 ≤ j by omega) with hlt | rfl
        · have := key_lt_key hsorted hlt hj
          omega
        · omega
      · have hright : base + size / 2 + (size - size / 2) ≤ table.length := by omega
        obtain ⟨i, hi, hlo, hhi, honly⟩ := ih _ hless (by omega) hright
        rw [if_neg hkey]
        refine ⟨i, hi, by omega, by omega, fun j hj hjkey hbase hend => ?_⟩
        refine honly j hj hjkey (Nat.le_of_not_lt fun hbefore => ?_) (by omega)
        -- before the middle, all keys are smaller
        have := key_lt_key hsorted hbefore hmiddle
        omega

/-- The search finds the value of a key that is in the table, and nothing for any other key. -/
theorem lookUp_eq : lookUp table key = .ok ((table.find? (·.1 == key)).map (·.2)) := by
  rw [lookUp, search]
  split
  · next hempty =>
    rw [List.length_eq_zero_iff.mp hempty]
    rfl
  · next hne =>
    obtain ⟨i, hi, -, hhi, honly⟩ :=
      exists_lastUpTo hsorted key (Nat.pos_of_ne_zero hne) (Nat.le_of_eq (Nat.zero_add _))
    have hlt : i < table.length := by omega
    have hentry : must table[i]? = .ok table[i] := by
      rw [List.getElem?_eq_getElem hlt]
      rfl
    rw [hi, ok_bind, hentry, ok_bind]
    cases hfind : table.find? (·.1 == key) with
    | none =>
      have hnone := List.find?_eq_none.mp hfind table[i] (List.getElem_mem hlt)
      rw [if_neg fun h => hnone (beq_iff_eq.mpr h)]
      rfl
    | some entry =>
      obtain ⟨j, hj, rfl⟩ := List.getElem_of_mem (List.mem_of_find?_eq_some hfind)
      have hfound := List.find?_some hfind
      have hkey : table[j].1 = key := beq_iff_eq.mp hfound
      obtain rfl := honly j hj hkey (Nat.zero_le j) (by omega)
      rw [if_pos hkey, pure_eq_ok, ok_bind]
      show (must table[j]? >>= fun entry => pure (some entry.2)) = _
      rw [hentry]
      rfl

end

/-! ## The tables -/

/-- All that is read off the table of steps, the mappings to several runes and the surrogates, in one
    evaluation. -/
theorem foldTables_checked :
    orbitSteps.IsChain (fun a b => a.1 < b.1) ∧
      (orbitSteps.all fun step => irregularNext? step.1 == some step.2) = true ∧
      mask (orbitSteps.map (·.1)) = masks irregularOrbits ∧
      mask severalLower &&& masks (lowerRuns.map CaseRun.members) = 0 ∧
      mask severalUpper &&& masks (upperRuns.map CaseRun.members) = 0 ∧
      ((lowerRuns ++ upperRuns).all fun s => s.last.blt 0xd800 || Nat.blt 0xdfff s.first) =
        true := by
  decide +kernel

theorem orbitSteps_sorted : orbitSteps.Pairwise fun a b => a.1 < b.1 := by
  have htrans : IsTrans (Nat × Nat) fun a b => a.1 < b.1 := ⟨fun _ _ _ => Nat.lt_trans⟩
  exact foldTables_checked.1.pairwise

/-- The table of steps leads on round the irregular orbits. -/
theorem lookUp_orbitSteps (r : Nat) : lookUp orbitSteps r = .ok (irregularNext? r) := by
  obtain ⟨-, hsteps, hkeys, -⟩ := foldTables_checked
  rw [lookUp_eq orbitSteps_sorted]
  refine congrArg Except.ok ?_
  cases hfind : orbitSteps.find? (·.1 == r) with
  | none =>
    refine (irregularNext?_eq_none_iff.mpr fun hr => ?_).symm
    rw [← testBit_masks, ← hkeys, testBit_mask] at hr
    obtain ⟨step, hstep, hkey⟩ := List.mem_map.mp hr
    exact List.find?_eq_none.mp hfind step hstep (beq_iff_eq.mpr hkey)
  | some step =>
    have hstep := List.all_eq_true.mp hsteps step (List.mem_of_find?_eq_some hfind)
    have hfound := List.find?_some hfind
    have hkey : step.1 = r := beq_iff_eq.mp hfound
    rw [hkey] at hstep
    exact (beq_iff_eq.mp hstep).symm

/-- No case mapping moves a surrogate. -/
theorem mapThrough_surrogate {runs : List CaseRun} (hruns : runs ⊆ lowerRuns ++ upperRuns) {r : Nat}
    (hspan : inFoldSpan r = true) (hr : (scalar? r).isNone = true) : mapThrough runs r = r := by
  have hsurrogate : 0xd800 ≤ r ∧ r ≤ 0xdfff := by
    have hlast : r ≤ lastFold := (inFoldSpan_iff.mp hspan).2
    have hmax : lastFold < 0x110000 := by decide
    have hinvalid : ¬r.isValidChar := by
      intro hvalid
      rw [scalar?, dif_pos hvalid] at hr
      cases hr
    rw [Nat.isValidChar] at hinvalid
    omega
  rcases mapThrough_cases runs r with h | ⟨s, hs, hcovers, -⟩
  · exact h
  · have happart := List.all_eq_true.mp foldTables_checked.2.2.2.2.2 s (hruns hs)
    obtain ⟨hfirst, hlast, -⟩ := CaseRun.covers_iff.mp hcovers
    rw [Bool.or_eq_true, Nat.blt_eq, Nat.blt_eq] at happart
    omega

/-! ## Partners -/

/-- Where no run moves the runes that are taken to several runes, a mapping leads to another single
    rune just if its runs do. -/
theorem single?_eq_some_iff {several : List Nat} {runs : List CaseRun}
    (happart : mask several &&& masks (runs.map CaseRun.members) = 0) {c d : Nat} (hne : d ≠ c) :
    single? several runs c = some d ↔ mapThrough runs c = d := by
  rw [single?]
  split
  · next hmem =>
    have hbit := testBit_mask.mpr (List.contains_iff_mem.mp hmem)
    have hself : mapThrough runs c = c := Decidable.byContradiction fun hmoved =>
      not_mem_of_masks happart hbit (mem_members_of_mapThrough_ne hmoved)
    rw [hself]
    exact iff_of_false (fun h => nomatch h) fun h => hne h.symm
  · exact Option.some_inj

/-- Looking for a partner among single runes is going there and back. -/
theorem partner?_eq {there back : Nat → Option Nat} {f g : Nat → Nat}
    (hthere : ∀ {c d : Nat}, d ≠ c → (there c = some d ↔ f c = d))
    (hback : ∀ {c d : Nat}, d ≠ c → (back c = some d ↔ g c = d)) (r : Nat) :
    partner? there back r = if f r ≠ r ∧ g (f r) = r then some (f r) else none := by
  rw [partner?]
  by_cases hmoved : f r = r
  · rw [if_neg fun h => h.1 hmoved]
    cases hother : there r with
    | none => rfl
    | some other =>
      have hself : other = r := Decidable.byContradiction fun hne =>
        hne (((hthere hne).mp hother).symm.trans hmoved)
      exact if_neg fun h => h.1 hself
  · rw [(hthere hmoved).mpr rfl]
    show (if f r ≠ r ∧ back (f r) = some r then some (f r) else none) = _
    simp only [hback (Ne.symm hmoved)]

/-- The partner of a rune is the same in both descriptions. -/
theorem partner?_casePartner (r : Nat) :
    (partner? lower? upper? r <|> partner? upper? lower? r).getD r = casePartner r := by
  have hlower : ∀ {c d : Nat}, d ≠ c → (lower? c = some d ↔ lower c = d) := fun hne =>
    single?_eq_some_iff foldTables_checked.2.2.2.1 hne
  have hupper : ∀ {c d : Nat}, d ≠ c → (upper? c = some d ↔ upper c = d) := fun hne =>
    single?_eq_some_iff foldTables_checked.2.2.2.2.1 hne
  rw [partner?_eq hlower hupper, partner?_eq hupper hlower, casePartner]
  split
  · rfl
  · split
    · rfl
    · rfl

/-! ## Folding -/

/-- The fold that is looked up is the fold. -/
theorem nextFold_eq (r : Nat) : nextFold r = .ok (simpleFold r) := by
  rw [nextFold]
  cases hspan : inFoldSpan r with
  | false =>
    rw [simpleFold_outside hspan]
    rfl
  | true =>
    rw [if_neg (by decide), lookUp_orbitSteps, ok_bind, simpleFold, hspan, if_pos rfl]
    cases irregularNext? r with
    | some next => rfl
    | none =>
      dsimp only [Option.getD_none]
      split
      · next hsurrogate =>
        have hlower : lower r = r :=
          mapThrough_surrogate (List.subset_append_left _ _) hspan hsurrogate
        have hupper : upper r = r :=
          mapThrough_surrogate (List.subset_append_right _ _) hspan hsurrogate
        rw [casePartner, hlower, hupper, if_neg fun h => h.1 rfl, if_neg fun h => h.1 rfl]
        rfl
      · rw [partner?_casePartner]
        rfl

/-- The walk for the least member is the walk round the orbit. -/
theorem leastFrom_eq (r steps f least : Nat) :
    leastFrom r steps f least = .ok ((walk r steps f).foldl min least) := by
  induction steps generalizing f least with
  | zero => rfl
  | succ steps ih =>
    rw [leastFrom, walk]
    split
    · rfl
    · rw [nextFold_eq, ok_bind, ih]
      rfl

/-- The walk over four steps finds the smallest member. -/
theorem leastFold_eq (r : Nat) : leastFold r = .ok (minFold r) := by
  rw [leastFold]
  cases hspan : inFoldSpan r with
  | false =>
    rw [minFold_of_fixed (simpleFold_outside hspan)]
    rfl
  | true =>
    have hbound : 4 ≤ maxOrbit := Nat.le_refl 4
    rw [if_neg (by decide), nextFold_eq, ok_bind, leastFrom_eq, walk_eq_orbit hbound]
    rfl

/-- However many rounds the loop over an orbit may take beyond four, it appends the other members
    one after the other and is at its end. -/
theorem appendOrbit_orbit {c steps : Nat} (h : 4 ≤ steps) (buffer : List Nat) :
    appendOrbit c steps (simpleFold c) buffer =
      (orbit c).foldlM (fun buffer d => appendRange buffer d d) buffer := by
  rw [← walk_eq_orbit h]
  refine appendOrbit_eq ?_ buffer
  rw [walk_eq_orbit h]
  exact Nat.lt_of_le_of_lt (length_orbit_le c) h

/-- What is looked up is the fold and the smallest member of an orbit.  At most four steps lead from
    any rune back to it, so that folding permutes the numbers of 32 bits, and the loop that appends an
    orbit ends by itself.  Runes outside the span stay and the orbits of those within it lie in it;
    the smallest member is the least of the orbit, and two runes have the same just if they are in
    one orbit. -/
theorem orbits_close :
    (∀ c, nextFold c = .ok (simpleFold c) ∧ leastFold c = .ok (minFold c)) ∧
    (∀ c, ∃ n, 1 ≤ n ∧ n ≤ 4 ∧ simpleFold^[n] c = c) ∧
    Set.BijOn simpleFold (Set.Iio (2 ^ 32)) (Set.Iio (2 ^ 32)) ∧
    (∀ c, (orbit c).length ≤ 3 ∧ ∀ steps buffer, 4 ≤ steps →
      appendOrbit c steps (simpleFold c) buffer =
        (orbit c).foldlM (fun buffer d => appendRange buffer d d) buffer) ∧
    (∀ c, c < firstFold ∨ lastFold < c → simpleFold c = c) ∧
    (∀ c d, firstFold ≤ c ∧ c ≤ lastFold → SameOrbit c d → firstFold ≤ d ∧ d ≤ lastFold) ∧
    (∀ c, IsLeast {d | SameOrbit c d} (minFold c)) ∧
    ∀ c d, minFold c = minFold d ↔ SameOrbit c d := by
  refine ⟨fun c => ⟨nextFold_eq c, leastFold_eq c⟩, fun c => ?_, simpleFold_bijOn,
    fun c => ⟨length_orbit_le c, fun steps buffer h => appendOrbit_orbit h buffer⟩,
    fun c hc => ?_, fun c d hc hd => ?_, isLeast_minFold, fun c d => minFold_eq_iff⟩
  · exact ⟨(orbit c).length + 1, Nat.le_add_left 1 _, Nat.succ_le_succ (length_orbit_le c),
      iterate_orbit c⟩
  · refine simpleFold_outside (Bool.eq_false_iff.mpr fun h => ?_)
    have := inFoldSpan_iff.mp h
    omega
  · exact inFoldSpan_iff.mp (hd.inFoldSpan (inFoldSpan_iff.mpr hc))

/-- The four runes of the orbit of theta, and a rune beyond all orbits. -/
theorem orbits_close_theta :
    (nextFold 0x3d1 = .ok 0x3f4 ∧ leastFold 0x3f4 = .ok 0x398) ∧
      appendOrbit 0x3d1 4 (simpleFold 0x3d1) [0x3d1, 0x3d1] =
        .ok [0x3d1, 0x3d1, 0x3f4, 0x3f4, 0x398, 0x398, 0x3b8, 0x3b8] ∧
      simpleFold maxRune = maxRune ∧
      (SameOrbit 0x398 0x3f4 ∧ firstFold ≤ 0x3f4 ∧ 0x3f4 ≤ lastFold) := by
  obtain ⟨hlooked, -, -, hloop, houtside, hinside, -, hsame⟩ := orbits_close
  have horbit : SameOrbit 0x398 0x3f4 := (hsame 0x398 0x3f4).mp (by decide +kernel)
  refine ⟨⟨?_, ?_⟩, ?_, houtside maxRune (Or.inr (by decide)), horbit,
    hinside 0x398 0x3f4 (by decide) horbit⟩
  · rw [(hlooked 0x3d1).1]
    decide +kernel
  · rw [(hlooked 0x3f4).2]
    decide +kernel
  · rw [(hloop 0x3d1).2 4 _ (Nat.le_refl 4)]
    decide +kernel

end RegexTree.Machine
