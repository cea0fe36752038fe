/-
  What holds at every node of a tree.

  A property of nodes looks at the label and the children.  `Everywhere P` says that `P` holds at
  the root and at every node below it; by `everywhere_node` it is proved and used one level at a
  time, so that an operation on trees has only to be followed through the nodes that it makes.

  Normal form, shape, operands and all other invariants of trees in this theory are of that kind.  A
  property that asks something of the children of a node, as that no two neighbours can be joined,
  is one of the node above them.
-/
import RegexTree.Tree.Basic

namespace RegexTree.Tree

/-- `P` holds at every node. -/
def Everywhere (P : Label → List Tree → Prop) : Tree → Prop :=
  fold fun l subs below => P l subs ∧ ∀ p ∈ below, p

section

variable {P Q : Label → List Tree → Prop}

/-- A property holds everywhere in a tree if it holds at the root and everywhere in the children. -/
theorem everywhere_node {l : Label} {subs : List Tree} :
    (node l subs).Everywhere P ↔ P l subs ∧ ∀ t ∈ subs, t.Everywhere P := by
  rw [Everywhere, fold_node]
  refine and_congr_right fun _ => ⟨fun h t ht => ?_, fun h p hp => ?_⟩
  · exact h _ (List.mem_map_of_mem ht)
  · obtain ⟨t, ht, rfl⟩ := List.mem_map.mp hp
    exact h t ht

theorem everywhere_iff {t : Tree} :
    t.Everywhere P ↔ P t.label t.subs ∧ ∀ s ∈ t.subs, s.Everywhere P := by
  obtain ⟨l, subs⟩ := t
  exact everywhere_node

/-- The property holds at the root. -/
theorem Everywhere.here {t : Tree} (h : t.Everywhere P) : P t.label t.subs :=
  (everywhere_iff.mp h).1

/-- The property holds everywhere in a child. -/
theorem Everywhere.below {t s : Tree} (h : t.Everywhere P) (hs : s ∈ t.subs) : s.Everywhere P :=
  (everywhere_iff.mp h).2 s hs

theorem everywhere_leaf {l : Label} : (node l []).Everywhere P ↔ P l [] := by
  rw [everywhere_node]
  exact ⟨And.left, fun h => ⟨h, fun t ht => absurd ht List.not_mem_nil⟩⟩

/-- What follows at each node follows everywhere. -/
theorem Everywhere.imp (h : ∀ l subs, P l subs → Q l subs) {t : Tree} :
    t.Everywhere P → t.Everywhere Q := by
  induction t using induct with
  | step l subs ih =>
    intro ht
    rw [everywhere_node] at ht ⊢
    exact ⟨h l subs ht.1, fun s hs => ih s hs (ht.2 s hs)⟩

theorem Everywhere.and {t : Tree} (hp : t.Everywhere P) (hq : t.Everywhere Q) :
    t.Everywhere fun l subs => P l subs ∧ Q l subs := by
  induction t using induct with
  | step l subs ih =>
    rw [everywhere_node] at hp hq ⊢
    exact ⟨⟨hp.1, hq.1⟩, fun s hs => ih s hs (hp.2 s hs) (hq.2 s hs)⟩

end

end RegexTree.Tree
