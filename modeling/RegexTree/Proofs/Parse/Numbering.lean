/-
  Two tables of captures.

  A pattern keeps the number of its captures and the names of those that have one; its tree holds
  the captures themselves.  Both tell the same (`parsePattern_capture_tables`): in preorder the
  captures have the numbers from 1 to the last, the names of the pattern are those of the nodes, no
  name is used twice, and the largest number and the list of names by number are the same whether
  they are taken from the table or from the tree.

  That the numbers are in order comes from the run (`Parse.parsePattern_numbered`).  Here it is read
  off a list of numbered captures: its numbers are a range, the largest of them is the length
  (`Tree.maxCap_of_numbered`), and filling a table by number from such a list writes every place
  once, from the first to the last.  The two tables are filled by folds that write into a list, so
  the induction is on what has been written so far (`foldl_set_named`).
-/
import RegexTree.Proofs.Parse.Captures

namespace RegexTree

/-! ## Numbers -/

/-- The numbers of numbered captures are a range. -/
theorem NumberedFrom.map_fst {k : Nat} {xs : List (Nat × Option String)} (h : NumberedFrom k xs) :
    xs.map (·.1) = List.range' (k + 1) xs.length := by
  induction xs generalizing k with
  | nil => rfl
  | cons x rest ih =>
    obtain ⟨hcap, hrest⟩ := h
    rw [List.map_cons, ih hrest, List.length_cons, List.range'_succ]
    exact congrArg (· :: _) hcap

/-- Of numbers that follow one another the last is the largest. -/
theorem foldl_max_range' (k n : Nat) : (List.range' (k + 1) n).foldl max k = k + n := by
  induction n generalizing k with
  | zero => rfl
  | succ n ih =>
    rw [List.range'_succ, List.foldl_cons, Nat.max_eq_right (Nat.le_succ k), ih]
    omega

/-- The largest number is the number of captures. -/
theorem Tree.maxCap_of_numbered {t : Tree} (h : NumberedFrom 0 t.captures) :
    t.maxCap = t.captures.length := by
  rw [Tree.maxCap, h.map_fst, foldl_max_range', Nat.zero_add]

/-! ## Names -/

theorem named_cons_none (cap : Nat) (rest : List (Nat × Option String)) :
    named ((cap, none) :: rest) = named rest := rfl

theorem named_cons_some (cap : Nat) (name : String) (rest : List (Nat × Option String)) :
    named ((cap, some name) :: rest) = (name, cap) :: named rest := rfl

/-- The named captures are those that have a name. -/
theorem mem_named {xs : List (Nat × Option String)} {name : String} {cap : Nat} :
    (name, cap) ∈ named xs ↔ (cap, some name) ∈ xs := by
  simp [named]

/-- The names, in the order of the captures. -/
theorem map_fst_named (xs : List (Nat × Option String)) :
    (named xs).map (·.1) = xs.filterMap (·.2) := by
  induction xs with
  | nil => rfl
  | cons x rest ih =>
    obtain ⟨cap, _ | name⟩ := x
    · exact ih
    · rw [named_cons_some, List.map_cons, ih]
      rfl

/-- A place that holds nothing does not change when it is emptied. -/
theorem set_none {names : List (Option String)} {i : Nat} (h : ∀ n, names[i]? ≠ some (some n)) :
    names.set i none = names := by
  refine List.ext_getElem? fun j => ?_
  rw [List.getElem?_set]
  split
  · next hij =>
    subst hij
    split
    · next hlt =>
      rw [List.getElem?_eq_getElem hlt] at h ⊢
      cases hv : names[i] with
      | none => rfl
      | some n => exact absurd (congrArg some hv) (h n)
    · next hge => exact (List.getElem?_eq_none (Nat.le_of_not_lt hge)).symm
  · rfl

/-- Captures without a name leave no trace in a list that has no name at their numbers: entering
    all captures is entering those that have a name. -/
theorem foldl_set_named {k : Nat} {xs : List (Nat × Option String)} (h : NumberedFrom k xs)
    {names : List (Option String)} (hfree : ∀ i, k < i → ∀ n, names[i]? ≠ some (some n)) :
    (named xs).foldl (fun names p => names.set p.2 (some p.1)) names =
      xs.foldl (fun names p => names.set p.1 p.2) names := by
  induction xs generalizing k names with
  | nil => rfl
  | cons x rest ih =>
    obtain ⟨cap, name⟩ := x
    obtain ⟨rfl, hrest⟩ := h
    rw [List.foldl_cons]
    cases name with
    | none =>
      rw [named_cons_none, set_none (hfree (k + 1) (Nat.lt_succ_self k))]
      exact ih hrest fun i hi => hfree i (by omega)
    | some name =>
      rw [named_cons_some, List.foldl_cons]
      -- the name just entered stands before the numbers that are still to come
      refine ih hrest fun i hi n => ?_
      rw [List.getElem?_set_ne (by omega)]
      exact hfree i (by omega) n

/-- The names by number are the same in the table and in the tree. -/
theorem Pattern.Numbered.capNames_eq {p : Pattern} (h : p.Numbered) :
    p.capNames = p.root.capNames := by
  rw [Pattern.capNames, Tree.capNames, Tree.maxCap_of_numbered h.numbers, h.count, h.names]
  refine foldl_set_named h.numbers fun i _ n hn => ?_
  cases List.eq_of_mem_replicate (List.mem_of_getElem? hn)

/-! ## Patterns -/

/-- The captures of a pattern that is read: in preorder they have the numbers from 1 to the number
    of captures; the table of names holds the names of the nodes and nothing else, and each once;
    so the tree alone tells the number of captures and their names. -/
theorem parsePattern_capture_tables {pattern : String} {flags : Flags} {nestLimit : Nat}
    {p : Pattern} (hp : parsePattern pattern flags nestLimit = .ok p) :
    p.root.captures.map (·.1) = List.range' 1 p.captures ∧
      (∀ name cap, (name, cap) ∈ p.names ↔ (cap, some name) ∈ p.root.captures) ∧
      (p.names.map (·.1)).Nodup ∧
      (p.root.captures.filterMap (·.2)).Nodup ∧
      p.root.maxCap = p.captures ∧
      p.capNames = p.root.capNames := by
  have h := parsePattern_numbered hp
  refine ⟨?_, ?_, h.nodup, ?_, ?_, h.capNames_eq⟩
  · rw [h.numbers.map_fst, h.count]
  · intro name cap
    rw [h.names, mem_named]
  · rw [← map_fst_named, ← h.names]
    exact h.nodup
  · rw [Tree.maxCap_of_numbered h.numbers, h.count]

/-- Captures inside of one another and in branches that share a beginning. -/
theorem parsePattern_capture_tables_nested :
    ∃ p, parsePattern "ab(?P<x>c(d)|(?P<y>e))*|ab(f)" .perl 10 = .ok p ∧
      p.root.print = "ab(?:(?P<x>c(d)|(?P<y>e))*|(f))" ∧
      p.root.captures.map (·.1) = List.range' 1 p.captures ∧
      (∀ name cap, (name, cap) ∈ p.names ↔ (cap, some name) ∈ p.root.captures) ∧
      (p.names.map (·.1)).Nodup ∧
      (p.root.captures.filterMap (·.2)).Nodup ∧
      p.root.maxCap = p.captures ∧
      p.capNames = p.root.capNames := by
  obtain ⟨p, hp, hprint⟩ : ∃ p, parsePattern "ab(?P<x>c(d)|(?P<y>e))*|ab(f)" .perl 10 = .ok p ∧
      p.root.print = "ab(?:(?P<x>c(d)|(?P<y>e))*|(f))" :=
    exists_of_map_eq_ok (f := fun p : Pattern => p.root.print) (by decide +kernel)
  exact ⟨p, hp, hprint, parsePattern_capture_tables hp⟩

end RegexTree
