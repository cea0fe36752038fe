/-
  What is used of the Unicode tables.

  The tables of properties and groups are clean lists (`property?_clean`, `perlGroup?_clean`,
  `posixGroup?_clean`), and case folding does not lead out of the code points (`simpleFold_le`,
  `orbit_le`).

  Facts on a table of several thousand numbers can only be found by going through it, and each table
  is gone through once, by evaluation.  For that the property is put as a function that reads the
  table from its beginning to its end and remembers a single number (`isCleanFrom`), or that
  compares sets of runes as the bits of one number (`mask`, `disjoint`).  All checks of the case
  mappings are one statement (`caseTables_checked`), from which the others are taken, so that the
  tables are evaluated no more often than needed.

  The rest is reasoning: a rune that is moved by the mappings is in one of their runs, and the runs
  are in the part of the code points where letters fold (`mapThrough_inFoldSpan`,
  `casePartner_inFoldSpan`), and outside of that part nothing folds.
-/
import RegexTree.Proofs.Ranges.Clean
import RegexTree.Unicode.Property

namespace RegexTree

/-! ## Clean tables -/

namespace Ranges

/-- The list is clean and has no rune before `next`; one scan decides that. -/
def isCleanFrom (next : Nat) : Ranges → Bool
  | [] => true
  | r :: rest =>
    next.ble r.lo && r.lo.ble r.hi && r.hi.ble maxRune && isCleanFrom (r.hi + 2) rest

/-- A list that passes the check from some number on is clean, and begins there or later. -/
theorem clean_of_isCleanFrom {next : Nat} {x : Ranges} (h : isCleanFrom next x = true) :
    x.Clean ∧ ∀ r ∈ x, next ≤ r.lo := by
  induction x generalizing next with
  | nil => exact ⟨clean_nil, fun _ h => absurd h List.not_mem_nil⟩
  | cons r rest ih =>
    simp only [isCleanFrom, Bool.and_eq_true, Nat.ble_eq] at h
    obtain ⟨⟨⟨hnext, hlo⟩, hhi⟩, hrest⟩ := h
    obtain ⟨hclean, hge⟩ := ih hrest
    refine ⟨clean_cons.mpr ⟨⟨hlo, hhi⟩, fun a ha => hge a ha, hclean⟩, fun a ha => ?_⟩
    rcases List.mem_cons.mp ha with rfl | ha
    · exact hnext
    · have := hge a ha
      omega

theorem clean_of_scan {x : Ranges} (h : isCleanFrom 0 x = true) : x.Clean :=
  (clean_of_isCleanFrom h).1

end Ranges

namespace Unicode

open Ranges (clean_of_scan)

/-- The runes that have a property are a clean list. -/
theorem property?_clean {name : String} {x : Ranges} (h : property? name = some x) : x.Clean := by
  unfold property? at h
  split at h
  all_goals
    first
    | cases h
      exact clean_of_scan (by decide +kernel)
    | cases h

/-- The runes that a letter for a group stands for are a clean list. -/
theorem perlGroup?_clean {c : Char} {negated : Bool} {x : Ranges}
    (h : perlGroup? c = some (negated, x)) : x.Clean := by
  unfold perlGroup? at h
  split at h
  all_goals
    first
    | cases h
      exact clean_of_scan (by decide)
    | cases h

theorem posixGroup?_clean {name : String} {x : Ranges} (h : posixGroup? name = some x) :
    x.Clean := by
  unfold posixGroup? at h
  split at h
  all_goals
    first
    | cases h
      exact clean_of_scan (by decide)
    | cases h

/-! ## What is checked of the case mappings -/

/-- The set of the runes, as the number whose bits they are: to look a rune up in a large table
    takes one step of evaluation. -/
def mask (l : List Nat) : Nat := l.foldr (fun c m => 1 <<< c ||| m) 0

/-- The set of the runes that are in one of the lists. -/
def masks (lists : List (List Nat)) : Nat := lists.foldr (fun l m => mask l ||| m) 0

/-- No rune is in two of the orbits. -/
def disjoint : List (List Nat) → Bool
  | [] => true
  | orbit :: rest => (mask orbit &&& masks rest).beq 0 && disjoint rest

/-- The next member of an irregular orbit that is given by its members. -/
def nextOf (orbit : List Nat) (c : Nat) : Nat := (nextIn (orbit.headD c) c orbit).getD c

/-- The members met in an irregular orbit from `c` on until the walk is back at `home`. -/
def walkIn (orbit : List Nat) (home : Nat) : (steps : Nat) → (c : Nat) → List Nat
  | 0, _ => []
  | steps + 1, c => if c = home then [] else c :: walkIn orbit home steps (nextOf orbit c)

/-- The walk round the orbit from `c` on is back soon, stays where runes may share an orbit, and
    meets no smaller rune than the first of the orbit. -/
def closes (orbit : List Nat) (c : Nat) : Bool :=
  let others := walkIn orbit c walkBound (nextOf orbit c)
  Nat.blt others.length walkBound && inFoldSpan c && others.all inFoldSpan &&
    (others.foldl min c).beq (orbit.headD 0)

namespace CaseRun

/-- Where the run leads a rune. -/
def image (s : CaseRun) (c : Nat) : Nat := ((c : Int) + s.shift).toNat

/-- The run leads to runes that may share an orbit. -/
def staysInSpan (s : CaseRun) : Bool :=
  decide (firstFold ≤ (s.first : Int) + s.shift) && decide ((s.last : Int) + s.shift ≤ lastFold)

/-- The run leads regular runes to regular ones. -/
def staysRegular (s : CaseRun) : Bool :=
  s.members.all fun c =>
    !(masks irregularOrbits).testBit (s.image c) || (masks irregularOrbits).testBit c

end CaseRun

/-- All that is read off the tables of case mappings and irregular orbits, in one evaluation. -/
theorem caseTables_checked :
    ((lowerRuns ++ upperRuns).all fun s => s.staysInSpan && s.staysRegular) = true ∧
      masks (lowerRuns.map fun s => s.members.map s.image) &&&
        masks (lowerRuns.map CaseRun.members) = 0 ∧
      disjoint irregularOrbits = true ∧
      (irregularOrbits.all fun orbit => orbit.all (closes orbit)) = true := by
  decide +kernel

/-- Runs of letters move runes within the part where letters fold, and do not meet the irregular
    ones. -/
theorem caseRuns_stay {s : CaseRun} (hs : s ∈ lowerRuns ++ upperRuns) :
    s.staysInSpan = true ∧ s.staysRegular = true := by
  have h := List.all_eq_true.mp caseTables_checked.1 s hs
  rwa [Bool.and_eq_true] at h

/-- No run of small letters leads into such a run. -/
theorem lowerRuns_apart : masks (lowerRuns.map fun s => s.members.map s.image) &&&
    masks (lowerRuns.map CaseRun.members) = 0 :=
  caseTables_checked.2.1

theorem irregularOrbits_disjoint : disjoint irregularOrbits = true := caseTables_checked.2.2.1

/-- Going round an irregular orbit leads back. -/
theorem irregularOrbits_close {orbit : List Nat} (horbit : orbit ∈ irregularOrbits) {c : Nat}
    (hc : c ∈ orbit) : closes orbit c = true :=
  List.all_eq_true.mp (List.all_eq_true.mp caseTables_checked.2.2.2 orbit horbit) c hc

/-- The irregular orbits lie where runes may share an orbit. -/
theorem inFoldSpan_of_mem {orbit : List Nat} (horbit : orbit ∈ irregularOrbits) {c : Nat}
    (hc : c ∈ orbit) : inFoldSpan c = true := by
  have h := irregularOrbits_close horbit hc
  simp only [closes, Bool.and_eq_true] at h
  exact h.1.1.2

/-! ## Where runs lead -/

theorem inFoldSpan_iff {c : Nat} : inFoldSpan c = true ↔ firstFold ≤ c ∧ c ≤ lastFold := by
  rw [inFoldSpan, Bool.and_eq_true, decide_eq_true_eq, decide_eq_true_eq]

theorem CaseRun.covers_iff {s : CaseRun} {c : Nat} :
    s.covers c = true ↔ s.first ≤ c ∧ c ≤ s.last ∧ (c - s.first) % s.step = 0 := by
  simp only [CaseRun.covers, Bool.and_eq_true, decide_eq_true_eq, beq_iff_eq, and_assoc]

/-- A mapping leaves a rune alone, or moves it as one of its runs says. -/
theorem mapThrough_cases (runs : List CaseRun) (c : Nat) :
    mapThrough runs c = c ∨
      ∃ s ∈ runs, s.covers c = true ∧ mapThrough runs c = s.image c := by
  rw [mapThrough]
  split
  · next s hs =>
    exact Or.inr ⟨s, List.mem_of_find?_eq_some hs, List.find?_some (p := (CaseRun.covers · c)) hs,
      rfl⟩
  · exact Or.inl rfl

/-- Letters stay in the part where letters fold. -/
theorem mapThrough_inFoldSpan {runs : List CaseRun} (hruns : runs ⊆ lowerRuns ++ upperRuns)
    {c : Nat} (hc : inFoldSpan c = true) : inFoldSpan (mapThrough runs c) = true := by
  rcases mapThrough_cases runs c with h | ⟨s, hs, hcovers, h⟩
  · rwa [h]
  · have hstays := (caseRuns_stay (hruns hs)).1
    obtain ⟨hfirst, hlast, -⟩ := CaseRun.covers_iff.mp hcovers
    rw [inFoldSpan_iff, h, CaseRun.image]
    simp only [CaseRun.staysInSpan, Bool.and_eq_true, decide_eq_true_eq] at hstays
    omega

/-- The partner of a rune is its small or its capital letter, if that leads back, or the rune
    itself. -/
theorem casePartner_cases (c : Nat) :
    casePartner c = c ∨ (casePartner c = lower c ∧ upper (lower c) = c) ∨
      (casePartner c = upper c ∧ lower (upper c) = c) := by
  unfold casePartner
  split
  · next h => exact Or.inr (Or.inl ⟨rfl, h.2⟩)
  · split
    · next h => exact Or.inr (Or.inr ⟨rfl, h.2⟩)
    · exact Or.inl rfl

/-- The partner of a rune is in the part where letters fold, if the rune is. -/
theorem casePartner_inFoldSpan {c : Nat} (hc : inFoldSpan c = true) :
    inFoldSpan (casePartner c) = true := by
  rcases casePartner_cases c with h | ⟨h, -⟩ | ⟨h, -⟩
  · rwa [h]
  · rw [h]
    exact mapThrough_inFoldSpan (List.subset_append_left _ _) hc
  · rw [h]
    exact mapThrough_inFoldSpan (List.subset_append_right _ _) hc

/-! ## Folding stays within the code points -/

/-- The member after another in an orbit is a member. -/
theorem mem_of_nextIn {first c d : Nat} {orbit : List Nat} (h : nextIn first c orbit = some d) :
    d = first ∨ d ∈ orbit := by
  fun_induction nextIn first c orbit with
  | case1 => cases h
  | case2 =>
    cases h
    exact Or.inl rfl
  | case3 => cases h
  | case4 =>
    cases h
    exact Or.inr (by simp)
  | case5 a b rest hac ih =>
    rcases ih h with rfl | hmem
    · exact Or.inl rfl
    · exact Or.inr (List.mem_cons_of_mem a hmem)

/-- An irregular rune has the next one of its row. -/
theorem mem_of_irregularNext? {c d : Nat} (h : irregularNext? c = some d) :
    ∃ orbit ∈ irregularOrbits, d ∈ orbit := by
  obtain ⟨orbit, hmem, hnext⟩ := List.exists_of_findSome?_eq_some h
  refine ⟨orbit, hmem, ?_⟩
  rcases mem_of_nextIn hnext with rfl | hd
  · cases orbit with
    | nil => cases hnext
    | cons a rest => exact List.mem_cons_self
  · exact hd

/-- Where runes may share an orbit, the next member lies there, too. -/
theorem simpleFold_inFoldSpan {c : Nat} (hc : inFoldSpan c = true) :
    inFoldSpan (simpleFold c) = true := by
  rw [simpleFold, if_pos hc]
  cases h : irregularNext? c with
  | none => exact casePartner_inFoldSpan hc
  | some d =>
    obtain ⟨orbit, hmem, hd⟩ := mem_of_irregularNext? h
    exact inFoldSpan_of_mem hmem hd

/-- Code points fold to code points. -/
theorem simpleFold_le {c : Nat} (hc : c ≤ maxRune) : simpleFold c ≤ maxRune := by
  by_cases hspan : inFoldSpan c = true
  · exact Nat.le_trans (inFoldSpan_iff.mp (simpleFold_inFoldSpan hspan)).2 (by decide)
  · rwa [simpleFold, if_neg hspan]

/-- A walk from a code point meets only code points. -/
theorem walk_le (home : Nat) (steps : Nat) {c : Nat} (hc : c ≤ maxRune) :
    ∀ d ∈ walk home steps c, d ≤ maxRune := by
  induction steps generalizing c with
  | zero =>
    intro d hd
    cases hd
  | succ steps ih =>
    intro d hd
    rw [walk] at hd
    split at hd
    · cases hd
    · rcases List.mem_cons.mp hd with rfl | hd
      · exact hc
      · exact ih (simpleFold_le hc) d hd

/-- An orbit with a code point has only code points. -/
theorem orbit_le {c : Nat} (hc : c ≤ maxRune) : ∀ d ∈ orbit c, d ≤ maxRune :=
  walk_le c walkBound (simpleFold_le hc)

/-- The smallest member of an orbit is no larger than any. -/
theorem minFold_le_self (c : Nat) : minFold c ≤ c := by
  have h : ∀ (l : List Nat) (n : Nat), l.foldl min n ≤ n := by
    intro l
    induction l with
    | nil => exact Nat.le_refl
    | cons a rest ih =>
      intro n
      exact Nat.le_trans (ih (min n a)) (Nat.min_le_left n a)
  exact h (orbit c) c

end Unicode

end RegexTree
