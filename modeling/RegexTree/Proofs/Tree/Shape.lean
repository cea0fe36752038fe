/-
  Properties of nodes that do not look at what is around a node.

  A property is `Local` if it asks nothing of sequences and choices, of a literal only something of
  each rune, and nothing of the empty match.  Such a property is kept by everything that makes
  sequences and choices (`Local.kept`), since what is made anew there is a sequence, a choice, an
  empty match or a literal with runes that were there.

  One is `ShapedNode`: every node has the children that its operation reads, and no others.  Trees
  may be put together that are not so, with children under a leaf or without an operand for a
  repetition, and what is proved of all trees has to reckon with them; what the reader makes is
  shaped.

  A property that asks nothing of literals either is kept too (`kept_of_free`).  Such a property is
  `HasOperand`: there is one child where one is read.  It is the part of being shaped that matching
  and simplifying rely on.
-/
import RegexTree.Proofs.Tree.Everywhere
import RegexTree.Proofs.Tree.Leading

namespace RegexTree.Tree

/-- A property of nodes that asks of a literal only that `ok` holds of its runes, and of sequences,
    choices and the empty match nothing. -/
structure Local (ok : Bool → Nat → Prop) (P : Label → List Tree → Prop) : Prop where
  many : ∀ l subs, l.op.arity = .many → P l subs
  empty : ∀ l, l.op = .emptyMatch → P l []
  literal : ∀ l, l.op = .literal → (P l [] ↔ ∀ r ∈ l.runes, ok l.flags.foldCase r)
  childless : ∀ l subs, l.op = .literal → P l subs → subs = []

namespace Local

variable {ok : Bool → Nat → Prop} {P : Label → List Tree → Prop} (hP : Local ok P)

include hP

/-- At a literal it is a property of the runes. -/
theorem everywhere_literal {t : Tree} (hop : t.op = .literal) :
    t.Everywhere P ↔ t.subs = [] ∧ ∀ r ∈ t.runes, ok t.flags.foldCase r := by
  obtain ⟨l, subs⟩ := t
  rw [op_node] at hop
  constructor
  · intro h
    have hsubs := hP.childless l subs hop h.here
    subst hsubs
    exact ⟨rfl, (hP.literal l hop).mp h.here⟩
  · rintro ⟨hsubs, hrunes⟩
    rw [subs_node] at hsubs
    subst hsubs
    exact everywhere_leaf.mpr ((hP.literal l hop).mpr hrunes)

/-- A local property is kept where it holds everywhere. -/
theorem kept : Kept fun t => t.Everywhere P where
  empty := everywhere_leaf.mpr (hP.empty _ rfl)
  subs _ ht _ _ hs := ht.below hs
  branches _ ht _ _ hs := ht.below hs
  many l subs harity h := everywhere_node.mpr ⟨hP.many l subs harity, h⟩
  joined t u ht hu h := by
    obtain ⟨hop, hop', hfold⟩ := canJoin_iff.mp h
    rw [hP.everywhere_literal hop] at ht
    rw [hP.everywhere_literal hop', ← hfold] at hu
    rw [hP.everywhere_literal (by rwa [joined_op]), joined_subs, joined_flags, joined_runes]
    exact ⟨ht.1, List.forall_mem_append.mpr ⟨ht.2, hu.2⟩⟩
  begun t s ht hop hs _ := by
    rw [hP.everywhere_literal hop] at ht
    rw [hP.everywhere_literal rfl]
    exact ⟨rfl, fun r hr => ht.2 r (hs.subset hr)⟩
  dropped t n ht hop := by
    rw [hP.everywhere_literal hop] at ht
    rw [dropRunes_literal hop, ht.1]
    split
    · exact everywhere_leaf.mpr (hP.empty _ rfl)
    · rw [hP.everywhere_literal rfl]
      exact ⟨rfl, fun r hr => ht.2 r (List.mem_of_mem_drop hr)⟩

end Local

/-! ## Shape -/

/-- The node has no child if its operation reads none, and one if it reads one. -/
structure ShapedNode (l : Label) (subs : List Tree) : Prop where
  leaf : l.op.arity = .leaf → subs = []
  one : l.op.arity = .one → ∃ t, subs = [t]

/-- Every node has the children that its operation reads. -/
abbrev Shaped (t : Tree) : Prop := t.Everywhere ShapedNode

/-- A shape asks nothing of runes. -/
theorem shapedNode_local : Local (fun _ _ => True) ShapedNode where
  many l subs h := ⟨fun h' => absurd (h.symm.trans h') (by decide),
    fun h' => absurd (h.symm.trans h') (by decide)⟩
  empty l h := ⟨fun _ => rfl, fun h' => by rw [h] at h'; cases h'⟩
  literal l h := by
    refine ⟨fun _ _ _ => trivial, fun _ => ⟨fun _ => rfl, fun h' => ?_⟩⟩
    rw [h] at h'
    cases h'
  childless l subs h hs := hs.leaf (by rw [h]; rfl)

theorem kept_shaped : Kept Shaped := shapedNode_local.kept

/-! ## Operands -/

/-- What is asked of no literal, sequence, choice or empty match is kept where it holds
    everywhere. -/
theorem kept_of_free {P : Label → List Tree → Prop}
    (h : ∀ l subs, l.op.arity = .many ∨ l.op = .emptyMatch ∨ l.op = .literal → P l subs) :
    Kept fun t => t.Everywhere P where
  empty := everywhere_leaf.mpr (h _ _ (Or.inr (Or.inl rfl)))
  subs _ ht _ _ hs := ht.below hs
  branches _ ht _ _ hs := ht.below hs
  many l subs harity hsubs := everywhere_node.mpr ⟨h l subs (Or.inl harity), hsubs⟩
  joined t u ht _ hcan := by
    obtain ⟨l, subs⟩ := t
    rw [joined_node, everywhere_node]
    exact ⟨h _ _ (Or.inr (Or.inr (canJoin_iff.mp hcan).1)), fun s hs => ht.below hs⟩
  begun _ _ _ _ _ _ := everywhere_leaf.mpr (h _ _ (Or.inr (Or.inr rfl)))
  dropped t n ht hop := by
    rw [dropRunes_literal hop, everywhere_node]
    refine ⟨h _ _ (Or.inr ?_), fun s hs => ht.below hs⟩
    dsimp only
    split
    · exact Or.inl rfl
    · exact Or.inr rfl

/-- There is one child if the operation reads one. -/
def HasOperand (l : Label) (subs : List Tree) : Prop := l.op.arity = .one → ∃ t, subs = [t]

/-- A tree that has a shape has its operands. -/
theorem operands_of_shaped {t : Tree} (ht : t.Shaped) : t.Everywhere HasOperand :=
  ht.imp fun _ _ h => h.one

/-- A walk over a tree finds every operand, if none is missing. -/
theorem isComplete_of_operands {t : Tree} (ht : t.Everywhere HasOperand) : t.isComplete = true := by
  induction t using induct with
  | step l subs ih =>
    have hall : ∀ b ∈ subs.map isComplete, b = true :=
      List.forall_mem_map.mpr fun s hs => ih s hs (ht.below hs)
    rw [isComplete, fold_node]
    cases harity : l.op.arity with
    | leaf => rfl
    | one =>
      obtain ⟨s, rfl⟩ := ht.here harity
      exact beq_iff_eq.mpr (congrArg some (hall _ List.mem_cons_self))
    | many => exact List.all_eq_true.mpr hall

theorem kept_operands : Kept fun t => t.Everywhere HasOperand := by
  refine kept_of_free fun l subs h harity => ?_
  rcases h with h | h | h
  all_goals
    rw [h] at harity
    cases harity

end RegexTree.Tree
