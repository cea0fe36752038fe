/-
  Normal form while reading does not change what a pattern means.

  The reader makes trees in normal form as it goes: it joins literals, splices sequences, writes
  classes as literals and dots, and takes shared beginnings out of choices.  Measured against a
  reader that keeps every piece as it was written (`Assembly.plain`), the errors are the same, the
  captures are the same, and the trees match the same in the same order (`parsePattern_plain`).

  Errors depend on the pieces too, through the height of stacked repetitions and the copies that
  counted ones come to, so those two have to be the same on both sides all along.  `SameMeaning` has
  them beside the results, and says of the first tree that it is in normal form, without which what
  the assembly does to it would not be known.

  The two readers go through the same tokens (`Parse.parseWith_related`), so what is left is that
  each way to put parts together keeps `SameMeaning`: a branch, a choice, and a node over one
  operand (`branch_same`, `choice_same`, `node_same`).  Each field of it is a law that was proved of
  `sequence` and `choice` already, on the one side, and the same of a bare node on the other.
-/
import RegexTree.Proofs.Match.NormalForm
import RegexTree.Proofs.Parse.Normal
import RegexTree.Proofs.Tree.Budget

namespace RegexTree

open List (Forall₂)
open Matcher
open RegexTree.Tree

/-- The trees match the same, and repetitions over them pass the same guards.  The first is in
    normal form. -/
structure SameMeaning (t u : Tree) : Prop where
  normal : t.Normal
  results : t.results = u.results
  height : t.repeatHeight = u.repeatHeight
  budget : t.fitsBudget = u.fitsBudget

/-- A tree in normal form means what it means. -/
theorem SameMeaning.refl {t : Tree} (h : t.Normal) : SameMeaning t t := ⟨h, rfl, rfl, rfl⟩

namespace Assembly

theorem normal_branch (pieces : List Tree) :
    normal.branch pieces = asDot (sequence pieces) := rfl

theorem normal_choice (branches : List Tree) : normal.choice branches = .choice branches := rfl

theorem plain_branch {pieces : List Tree} (h : pieces ≠ []) :
    plain.branch pieces = bare .concat pieces := if_neg h

theorem plain_choice (branches : List Tree) : plain.choice branches = bare .alternate branches :=
  rfl

end Assembly

namespace Parse

/-! ## Lists of parts -/

section

variable {ts us : List Tree}

/-- The parts of the first reader are in normal form. -/
theorem normal_of_same (h : Forall₂ SameMeaning ts us) : ∀ t ∈ ts, t.Normal := by
  induction h with
  | nil => exact fun _ ht => absurd ht List.not_mem_nil
  | cons ht _ ih => exact List.forall_mem_cons.mpr ⟨ht.normal, ih⟩

theorem shaped_of_same (h : Forall₂ SameMeaning ts us) : ∀ t ∈ ts, t.Shaped :=
  fun t ht => (normal_of_same h t ht).shaped

/-- Parts of the same meaning match the same, one by one. -/
theorem map_results_of_same (h : Forall₂ SameMeaning ts us) :
    ts.map results = us.map results := by
  induction h with
  | nil => rfl
  | cons ht _ ih => rw [List.map_cons, List.map_cons, ht.results, ih]

theorem fitAll_of_same (h : Forall₂ SameMeaning ts us) : fitAll ts = fitAll us := by
  funext n
  induction h with
  | nil => rfl
  | cons ht _ ih => rw [fitAll_cons, fitAll_cons, ht.budget, ih]

end

/-! ## Bare nodes -/

/-- A bare sequence matches its parts in their order, also where it is one part alone or none. -/
theorem results_bare_concat (parts : List Tree) :
    (Assembly.bare .concat parts).results = inOrder (parts.map results) := by
  have h := sequenceLaw_results.bare parts
  rwa [List.map_singleton, inOrder_singleton] at h

/-- A bare choice matches its branches in their order. -/
theorem results_bare_alternate (parts : List Tree) :
    (Assembly.bare .alternate parts).results = firstOf (parts.map results) := by
  have h := choiceLaw_results.bare fun t (_ : t ∈ parts) => trivial
  rwa [List.map_singleton, firstOf_singleton] at h

/-- A bare node comes to the copies of its parts. -/
theorem fitsBudget_bare {op : Op} (hop : op ≠ .counted) (parts : List Tree) :
    (Assembly.bare op parts).fitsBudget = fitAll parts := by
  refine bare_cases (P := fun parts t => t.fitsBudget = fitAll parts) ?_ ?_ parts
  · exact fun t => (fitAll_singleton t).symm
  · intro parts _
    funext n
    exact fitsBudget_of_ne hop parts n

/-- A node over several parts is no repetition, so nothing is stacked on one another in it. -/
theorem repeatHeight_bare {op : Op} (hop : op.isRepeat = false) {parts : List Tree}
    (hlen : 2 ≤ parts.length) : (Assembly.bare op parts).repeatHeight = 0 := by
  match parts, hlen with
  | a :: b :: rest, _ =>
    exact repeatHeight_eq_zero (t := branching op (a :: b :: rest)) hop

/-! ## The two assemblies -/

/-- A branch in normal form means what its pieces in a row do. -/
theorem branch_same {ts us : List Tree} (h : Forall₂ SameMeaning ts us) :
    SameMeaning (Assembly.normal.branch ts) (Assembly.plain.branch us) := by
  have hnormal := normal_of_same h
  match ts, us, h with
  | [], _, .nil => exact .refl empty_normal
  | t :: ts, u :: us, h =>
    rw [Assembly.normal_branch, Assembly.plain_branch (List.cons_ne_nil u us)]
    refine ⟨asDot_normal (sequence_normal hnormal), ?_, ?_, ?_⟩
    · rw [results_asDot, results_sequence, results_bare_concat, map_results_of_same h]
    · rw [repeatHeight_asDot]
      match ts, us, h with
      | [], _, .cons ht .nil => exact ht.height
      | _ :: _, _ :: _, .cons _ (.cons _ _) =>
        rw [repeatHeight_sequence hnormal (by simp), repeatHeight_bare rfl (by simp)]
    · rw [fitsBudget_asDot (sequence_normal hnormal).shaped,
        fitsBudget_sequence (shaped_of_same h), fitsBudget_bare (by decide), fitAll_of_same h]

/-- A factored choice means what its branches do. -/
theorem choice_same {ts us : List Tree} (hne : ts ≠ []) (h : Forall₂ SameMeaning ts us) :
    SameMeaning (Assembly.normal.choice ts) (Assembly.plain.choice us) := by
  have hnormal := normal_of_same h
  rw [Assembly.normal_choice, Assembly.plain_choice]
  refine ⟨choice_normal hne hnormal, ?_, ?_, ?_⟩
  · rw [results_choice, results_bare_alternate, map_results_of_same h]
  · match ts, us, h with
    | [], _, .nil => exact absurd rfl hne
    | [t], _, .cons ht .nil =>
      rw [choice_singleton]
      exact ht.height
    | _ :: _ :: _, _ :: _ :: _, .cons _ (.cons _ _) =>
      rw [repeatHeight_choice hnormal (by simp), repeatHeight_bare rfl (by simp)]
  · rw [fitsBudget_choice (shaped_of_same h), fitsBudget_bare (by decide), fitAll_of_same h]

/-- Nodes of one child see of it only what it matches, its height and its copies. -/
theorem node_same {l : Label} {t u : Tree} (hl : (node l [t]).Normal) (h : SameMeaning t u) :
    SameMeaning (node l [t]) (node l [u]) := by
  refine ⟨hl, ?_, ?_, ?_⟩
  · rw [results_node, results_node, List.map_singleton, List.map_singleton, h.results]
  · rw [repeatHeight_node, repeatHeight_node, List.map_singleton, List.map_singleton, h.height]
  · funext n
    rw [fitsBudget, fold_node, fold_node, List.map_singleton, List.map_singleton]
    rw [show fold _ t = t.fitsBudget from rfl, show fold _ u = u.fitsBudget from rfl, h.budget]

/-- The two assemblies make trees of the same meaning of parts of the same meaning. -/
theorem related_plain : Related SameMeaning SameMeaning .normal .plain where
  piece _ _ h := h
  simple op flags hop := .refl (simpleLeaf_normal hop flags)
  literal flags _ _ := .refl (literal_normal (List.cons_ne_nil _ _) flags)
  charClass flags x hx := by
    have hnormal := Assembly.classPiece_normal hx flags
    have hleaf := Assembly.arity_classPiece flags x
    refine ⟨hnormal, results_classPiece flags x, ?_, ?_⟩
    · show (Assembly.classPiece flags x).repeatHeight = (charClass x flags).repeatHeight
      rw [repeatHeight_leaf hleaf, repeatHeight_leaf rfl]
    · funext n
      show (Assembly.classPiece flags x).fitsBudget n = (charClass x flags).fitsBudget n
      rw [fitsBudget_leaf hnormal.shaped hleaf]
      exact (fitsBudget_of_ne (fun h => by cases h) [] n).symm
  branch _ _ h := branch_same h
  choice _ _ hne h := choice_same hne h
  repetition _ flags _ _ hq h _ := node_same (over_normal hq h.normal flags) h
  capture flags cap name _ _ _ h := node_same (captureOf_normal h.normal flags cap name) h
  height _ _ h := h.height
  budget _ _ h n := by rw [h.budget]

end Parse

/-- Under any flags and any limit, a pattern is an error for both readers, and the same error, or
    for none; then it has the same captures and names, and its trees match the same, in the same
    order, wherever they are tried. -/
theorem parsePattern_plain (pattern : String) (flags : Flags) (nestLimit : Nat) :
    Agree (fun p q : Pattern => p.captures = q.captures ∧ p.names = q.names ∧
        ∀ s : Spot, p.root.results s = q.root.results s)
      (parsePattern pattern flags nestLimit) (parseWith .plain pattern flags nestLimit) := by
  rw [parsePattern]
  by_cases hlit : flags.literal = true
  · rw [parseWith, parseWith, if_pos hlit, if_pos hlit]
    exact ⟨rfl, rfl, fun _ => rfl⟩
  · rw [Bool.not_eq_true] at hlit
    have hrel := Parse.parseWith_related Parse.related_plain hlit pattern nestLimit
    rcases hrel.cases with ⟨e, he, he'⟩ | ⟨p, q, hp, hq, hsame⟩
    · rw [he, he']
      rfl
    · rw [hp, hq]
      exact ⟨hsame.1, hsame.2.1, fun s => congrFun hsame.2.2.results s⟩

end RegexTree
