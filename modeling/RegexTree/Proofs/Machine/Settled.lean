/-
  What collapsing makes of its parts.

  The node that `collapse` makes matches what its parts match one after the other, or what they
  match in their order of preference, on any trees in which no operand is missing
  (`collapse_results`).  No normal form is needed for that, and none of the bounds on what is
  factored: the results are the same with all their copies and in the same order.

  Made of reduced parts it is settled: nothing is left to take out of the branches of its choices,
  and collapsing the parts of its sequences and choices again gives these nodes again
  (`SettledNode`, `collapse_settled`).  That is a statement on every node in the result, those that
  factoring has made included, and it follows from the result being reduced (`settled_of_reduced`):
  no neighbours can be joined and none share a beginning, so the scan ends every run at once.

  So are the trees of all patterns, which are made of reduced parts step by step.
-/
import RegexTree.Proofs.Machine.Collapse
import RegexTree.Proofs.Match.NormalForm
import RegexTree.Proofs.Parse.Normal
import RegexTree.Proofs.Tree.Fixpoint

namespace RegexTree.Machine

open RegexTree.Tree

/-! ## Meaning -/

/-- Collapsed branches match what they match in their order, and collapsed pieces what they match
    one after the other: the same results, the preferred ones first. -/
theorem collapse_results {subs : List Tree} (hne : subs ≠ [])
    (hfull : ∀ t ∈ subs, t.Everywhere HasOperand) :
    (∃ r, collapse .alternate subs = .ok r ∧ r.results = Matcher.firstOf (subs.map results)) ∧
      ∃ r, collapse .concat subs = .ok r ∧ r.results = Matcher.inOrder (subs.map results) := by
  constructor
  · exact ⟨choice subs, collapse_alternate hfull, results_choice subs⟩
  · exact ⟨sequence subs, collapse_concat hne, results_sequence subs⟩

/-- Two branches that begin with the same counted repetition, and one that is empty. -/
theorem collapse_results_counted :
    let twice := node { op := .counted, min := 2, max := 2 } [literal [97] {}]
    let subs := [branching .concat [twice, literal [98] {}],
      branching .concat [twice, literal [99] {}], empty]
    (∀ t ∈ subs, t.Everywhere HasOperand) ∧
      ∃ r, collapse .alternate subs = .ok r ∧ r.results = Matcher.firstOf (subs.map results) := by
  intro twice subs
  have hfull : ∀ t ∈ subs, t.Everywhere HasOperand := by
    simp [subs, twice, branching, literal, empty, leaf, everywhere_node, HasOperand, Op.arity]
  exact ⟨hfull, (collapse_results (List.cons_ne_nil _ _) hfull).1⟩

/-! ## Collapsing again -/

/-- Neighbouring branches of a choice share no beginning, and what a sequence or a choice is made of
    collapses to a node that is equal to it. -/
structure SettledNode (l : Label) (subs : List Tree) : Prop where
  factored : l.op = .alternate → subs.IsChain Apart
  collapses : l.op.arity = .many →
    ∃ r, collapse l.op subs = .ok r ∧ r.equal (node l subs) = true

/-- The parts of a reduced sequence or choice collapse to that again. -/
theorem collapse_subs_of_reduced {l : Label} {subs : List Tree} (ht : (node l subs).Reduced)
    (harity : l.op.arity = .many) : collapse l.op subs = .ok (branching l.op subs) := by
  obtain ⟨hhere, hbelow⟩ : ReducedNode l subs ∧ ∀ t ∈ subs, t.Reduced := everywhere_node.mp ht
  have hlen := hhere.parts harity
  have hnest := hhere.notNested harity
  cases hop : l.op with
  | concat =>
    rw [hop] at hnest
    have hne : subs ≠ [] := List.ne_nil_of_length_pos (by omega)
    rw [collapse_concat hne, sequence_of_unjoinable hlen hnest (hhere.unjoinable hop)]
  | alternate =>
    rw [hop] at hnest
    rw [collapse_alternate fun t hsub => (hbelow t hsub).operands,
      choice_of_apart hlen hnest (hhere.factored hop)]
  | _ =>
    rw [hop] at harity
    cases harity

/-- A reduced tree is settled at every node, as its parts are neither joined nor factored again. -/
theorem settled_of_reduced {t : Tree} (ht : t.Reduced) : t.Everywhere SettledNode := by
  induction t using Tree.induct with
  | step l subs ih =>
    have hbelow : ∀ s ∈ subs, s.Everywhere SettledNode := fun s hs => ih s hs (ht.below hs)
    refine everywhere_node.mpr ⟨⟨ht.here.factored, fun harity => ?_⟩, hbelow⟩
    refine ⟨_, collapse_subs_of_reduced ht harity, equal_symm (equal_branching harity ?_)⟩
    exact List.forall₂_same.mpr fun s _ => equal_refl s

/-- Reduced parts collapse to a reduced tree. -/
theorem collapse_reduced {op : Op} (harity : op.arity = .many) {subs : List Tree} (hne : subs ≠ [])
    (hsubs : ∀ t ∈ subs, t.Reduced) : ∃ r, collapse op subs = .ok r ∧ r.Reduced := by
  cases op with
  | concat => exact ⟨sequence subs, collapse_concat hne, sequence_reduced hsubs⟩
  | alternate =>
    exact ⟨choice subs, collapse_alternate fun t ht => (hsubs t ht).operands,
      choice_reduced hne hsubs⟩
  | _ => cases harity

/-- Two rounds over the branches are enough.  Reduced parts collapse to a reduced tree, in which
    nothing is left to take out of the choices and all sequences and choices collapse to themselves;
    and the tree of a pattern is such a tree. -/
theorem collapse_settled :
    (∀ (op : Op) (subs : List Tree), op = .concat ∨ op = .alternate → subs ≠ [] →
      (∀ t ∈ subs, t.Reduced) →
      ∃ r, collapse op subs = .ok r ∧ r.Reduced ∧ r.Everywhere SettledNode) ∧
    ∀ (pattern : String) (flags : Flags) (nestLimit : Nat) (p : Pattern), flags.literal = false →
      RegexTree.parsePattern pattern flags nestLimit = .ok p → p.root.Everywhere SettledNode := by
  constructor
  · intro op subs hop hne hsubs
    have harity : op.arity = .many := by
      rcases hop with rfl | rfl
      · rfl
      · rfl
    obtain ⟨r, hr, hreduced⟩ := collapse_reduced harity hne hsubs
    exact ⟨r, hr, hreduced, settled_of_reduced hreduced⟩
  · intro pattern flags nestLimit p hlit hp
    exact settled_of_reduced (Normal.reduced (parsePattern_normal hlit hp))

/-- The parts `abc`, `abd` and a dot, and the pattern that they are the branches of. -/
theorem collapse_settled_shared :
    let subs := [literal [97, 98, 99] {}, literal [97, 98, 100] {}, leaf .anyChar {}]
    ((∀ t ∈ subs, t.Reduced) ∧
      ∃ r, collapse .alternate subs = .ok r ∧ r.Reduced ∧ r.Everywhere SettledNode) ∧
    ∃ p, RegexTree.parsePattern "abc|abd|(?s:.)" .perl 10 = .ok p ∧
      p.root.print = "ab(?:c|d)|(?s:.)" ∧ p.root.Everywhere SettledNode := by
  intro subs
  have hsubs : ∀ t ∈ subs, t.Reduced := by
    intro t ht
    rcases List.mem_cons.mp ht with rfl | ht
    · exact literal_reduced (List.cons_ne_nil _ _) {}
    · rcases List.mem_cons.mp ht with rfl | ht
      · exact literal_reduced (List.cons_ne_nil _ _) {}
      · rw [List.mem_singleton.mp ht]
        exact leaf_reduced rfl (fun h => nomatch h) fun _ h => absurd h List.not_mem_nil
  obtain ⟨p, hp, hprint⟩ : ∃ p, RegexTree.parsePattern "abc|abd|(?s:.)" .perl 10 = .ok p ∧
      p.root.print = "ab(?:c|d)|(?s:.)" :=
    exists_of_map_eq_ok (f := fun p : Pattern => p.root.print) (by decide +kernel)
  refine ⟨⟨hsubs, ?_⟩, p, hp, hprint, collapse_settled.2 _ _ _ p rfl hp⟩
  exact collapse_settled.1 .alternate subs (Or.inr rfl) (List.cons_ne_nil _ _) hsubs

end RegexTree.Machine
