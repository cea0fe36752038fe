/-
  Simplifying once is enough.

  The nodes that simplifying makes are in a normal form (`UnrolledNode`): there is no counted
  repetition, and no operation stands over an operand that makes it redundant.  Each of them is made
  in one of a few ways, and what these keep is kept by simplifying (`KeptByUnroll.unroll`).  That
  the result is in the normal form is one use of it (`unrolled_unroll`), that it has its operands
  and its shape are others.

  Where the normal form holds, simplifying again makes an equal tree (`unroll_equal`): at each node
  what was done is not done a second time, since the operand is no empty match and no repetition of
  the same kind.  The tree is equal and not the same, as flags that are not compared are set anew.

  Leaves are copied as they are, with children that nobody reads.  So all this is about the trees
  that stand in the result with no leaf above them (`Reached`); if leaves have no children, these
  are all (`Within.reached`).  That the exception is a real one is seen from a leaf over a counted
  repetition, which is kept (`simplify_keeps_below_leaf`).
-/
import RegexTree.Proofs.Machine.Collapse
import RegexTree.Proofs.Tree.Fixpoint
import RegexTree.Tree.Dump
import RegexTree.Tree.Simplify

namespace RegexTree

/-- How simplifying tells the operations apart. -/
theorem Op.unroll_cases (op : Op) :
    op.arity = .leaf ∨ (op = .capture ∨ op = .concat ∨ op = .alternate) ∨
      (op.isRepeat = true ∧ op ≠ .counted) ∨ op = .counted := by
  cases op <;> decide

namespace Tree

/-! ## Trees within a tree -/

/-- The second tree is the first, or stands somewhere below it. -/
inductive Within : Tree → Tree → Prop where
  | root (t : Tree) : Within t t
  | child {t s u : Tree} (hs : s ∈ t.subs) (hu : Within s u) : Within t u

/-- The second tree is the first, or stands below it with no leaf above. -/
inductive Reached : Tree → Tree → Prop where
  | root (t : Tree) : Reached t t
  | child {t s u : Tree} (harity : t.op.arity ≠ .leaf) (hs : s ∈ t.subs) (hu : Reached s u) :
    Reached t u

theorem Reached.everywhere {P : Label → List Tree → Prop} {t u : Tree} (hu : Reached t u)
    (ht : t.Everywhere P) : u.Everywhere P := by
  induction hu with
  | root t => exact ht
  | child _ hs _ ih => exact ih (ht.below hs)

theorem Reached.trans {t u v : Tree} (hu : Reached t u) (hv : Reached u v) : Reached t v := by
  induction hu with
  | root t => exact hv
  | child harity hs _ ih => exact Reached.child harity hs (ih hv)

/-- If leaves have no children, nothing stands below a leaf. -/
theorem Within.reached {t u : Tree} (hu : Within t u) (ht : t.Shaped) : Reached t u := by
  induction hu with
  | root t => exact Reached.root t
  | child hs _ ih =>
    refine Reached.child (fun hleaf => ?_) hs (ih (ht.below hs))
    rw [ht.here.leaf hleaf] at hs
    cases hs

/-- The tree with its root marked as simple, or not. -/
def marked (simple : Bool) (t : Tree) : Tree :=
  t.relabel fun l => { l with flags := { l.flags with simple } }

@[simp] theorem marked_node (simple : Bool) (l : Label) (subs : List Tree) :
    (node l subs).marked simple = node { l with flags := { l.flags with simple } } subs := rfl

theorem everywhere_marked {P : Label → List Tree → Prop}
    (hP : ∀ l m subs, l.op = m.op → P l subs → P m subs) {simple : Bool} {t : Tree}
    (ht : t.Everywhere P) : (t.marked simple).Everywhere P := by
  obtain ⟨l, subs⟩ := t
  obtain ⟨hnode, hsubs⟩ := everywhere_node.mp ht
  exact everywhere_node.mpr ⟨hP l _ subs rfl hnode, hsubs⟩

theorem operands_marked {simple : Bool} {t : Tree} (ht : t.Everywhere HasOperand) :
    (t.marked simple).Everywhere HasOperand :=
  everywhere_marked (fun _ _ _ hop h harity => h (hop ▸ harity)) ht

theorem shaped_marked {simple : Bool} {t : Tree} (ht : t.Shaped) : (t.marked simple).Shaped :=
  everywhere_marked (fun _ _ _ hop h => ⟨fun harity => h.leaf (hop ▸ harity),
    fun harity => h.one (hop ▸ harity)⟩) ht

theorem flags_marked (simple : Bool) (t : Tree) : (t.marked simple).flags.simple = simple := by
  cases t
  rfl

/-- A tree that is not marked as simplified is simplified and marked. -/
theorem simplify_of_unmarked {t : Tree} (h : t.flags.simple = false) :
    t.simplify = t.unroll.marked true := by
  rw [simplify, h]
  rfl

/-- Equality does not see the mark. -/
theorem marked_equal (simple : Bool) (t : Tree) : (t.marked simple).equal t = true := by
  obtain ⟨l, subs⟩ := t
  have hagree : Label.agrees { l with flags := { l.flags with simple } } l = true := by
    cases hop : l.op <;> simp [Label.agrees, hop]
  exact equal_iff_reads.mpr ⟨hagree, List.forall₂_same.mpr fun t _ => equal_refl t⟩

/-! ## Simplified nodes -/

section Nodes

variable {l : Label} (subs unrolled : List Tree)

theorem unrollNode_leaf (h : l.op.arity = .leaf) : unrollNode l subs unrolled = node l subs := by
  unfold unrollNode
  revert h
  cases l.op <;> simp [Op.arity]

/-- Captures, sequences and choices are made again of their parts, with flags that are not
    compared. -/
theorem unrollNode_parts (h : l.op = .capture ∨ l.op = .concat ∨ l.op = .alternate) :
    unrollNode l subs unrolled =
      node { op := l.op, flags := l.flags, cap := l.cap, name := l.name } unrolled := by
  rcases h with h | h | h <;> rw [unrollNode, h]

/-- A sign is put over its operand, or left out. -/
theorem unrollNode_repeated (h : l.op.isRepeat = true) (hne : l.op ≠ .counted) :
    unrollNode l subs unrolled = repeated l.op l.flags (unrolled.headD empty) := by
  unfold unrollNode
  revert h hne
  cases l.op <;> simp [Op.isRepeat]

theorem unrollNode_counted (h : l.op = .counted) :
    unrollNode l subs unrolled = counted l.min l.max l.flags (unrolled.headD empty) := by
  rw [unrollNode, h]

end Nodes

/-! ## What simplifying keeps -/

/-- `Q` holds of whatever is made of trees of which `Q` holds, when a tree is simplified. -/
structure KeptByUnroll (Q : Tree → Prop) : Prop where
  blank : ∀ op, op = .emptyMatch ∨ op = .noMatch → Q (leaf op {})
  pieces : ∀ t, Q t → t.op = .concat → ∀ s ∈ t.subs, Q s
  many : ∀ l subs, l.op.arity = .many → (∀ s ∈ subs, Q s) → Q (node l subs)
  capture : ∀ l t, l.op = .capture → Q t → Q (node l [t])
  iterated : ∀ (op : Op) (flags : Flags) (t : Tree), op.isRepeat = true → op ≠ .counted →
    t.op ≠ .emptyMatch → ¬(t.op = op ∧ t.flags.nonGreedy = flags.nonGreedy) → Q t →
    Q (node { op, flags := { flags with simple := false } } [t])

namespace KeptByUnroll

variable {Q : Tree → Prop} (hQ : KeptByUnroll Q)

include hQ

/-- A sign over an operand keeps it, also where it is left out. -/
theorem repeated {op : Op} (hop : op.isRepeat = true) (hne : op ≠ .counted) (flags : Flags)
    {t : Tree} (ht : Q t) : Q (repeated op flags t) := by
  unfold Tree.repeated
  split
  · exact ht
  · next hempty =>
    split
    · exact ht
    · next hsame => exact hQ.iterated op flags t hop hne hempty hsame ht

/-- Parts in a row keep it. -/
theorem inSequence {parts : List Tree} (h : ∀ t ∈ parts, Q t) : Q (inSequence parts) := by
  refine hQ.many _ _ rfl fun s hs => ?_
  obtain ⟨t, ht, hst⟩ := List.mem_flatMap.mp hs
  rw [spliced] at hst
  split at hst
  · next hop => exact hQ.pieces t (h t ht) hop s hst
  · rw [List.mem_singleton] at hst
    exact hst ▸ h t ht

/-- Optional copies, one in another, by induction on their number. -/
theorem optional (flags : Flags) {t : Tree} (ht : Q t) (n : Nat) : Q (optional flags t n) := by
  induction n with
  | zero => exact hQ.repeated rfl (by decide) flags ht
  | succ n ih =>
    refine hQ.repeated rfl (by decide) flags (hQ.inSequence ?_)
    exact List.forall_mem_cons.mpr ⟨ht, List.forall_mem_singleton.mpr ih⟩

theorem copies (min max : Int) (flags : Flags) {t : Tree} (ht : Q t) :
    ∀ s ∈ copies min max flags t, Q s := by
  refine List.forall_mem_append.mpr ⟨fun s hs => (List.eq_of_mem_replicate hs) ▸ ht, ?_⟩
  split
  · exact List.forall_mem_singleton.mpr (hQ.optional flags ht _)
  · exact fun s hs => absurd hs List.not_mem_nil

/-- A count keeps it, since it becomes copies and what follows them, put in a row. -/
theorem counted (min max : Int) (flags : Flags) {t : Tree} (ht : Q t) :
    Q (counted min max flags t) := by
  have hplus : Q (Tree.repeated .plus flags t) := hQ.repeated rfl (by decide) flags ht
  have hcopies := hQ.copies min max flags ht
  unfold Tree.counted
  split
  · exact hQ.blank _ (Or.inl rfl)
  split
  · exact ht
  split
  · split
    · exact hQ.repeated rfl (by decide) flags ht
    split
    · exact hplus
    · refine hQ.inSequence (List.forall_mem_append.mpr ⟨fun s hs => ?_, ?_⟩)
      · exact (List.eq_of_mem_replicate hs) ▸ ht
      · exact List.forall_mem_singleton.mpr hplus
  split
  · exact ht
  split
  · exact hQ.blank _ (Or.inr rfl)
  · next only honly =>
    rw [honly] at hcopies
    exact hcopies only List.mem_cons_self
  · exact hQ.inSequence hcopies

/-- What holds of the leaves of a tree, and is kept by making nodes, holds of the simplified
    tree. -/
theorem unroll {P : Label → List Tree → Prop} (hP : ∀ l subs, P l subs → HasOperand l subs)
    (hleaf : ∀ l subs, l.op.arity = .leaf → (node l subs).Everywhere P → Q (node l subs))
    {t : Tree} (ht : t.Everywhere P) : Q t.unroll := by
  induction t using induct with
  | step l subs ih =>
    have hnode := hP l subs ht.here
    have hsubs : ∀ s ∈ subs.map Tree.unroll, Q s :=
      List.forall_mem_map.mpr fun s hs => ih s hs (ht.below hs)
    rw [unroll_node]
    rcases l.op.unroll_cases with harity | hparts | ⟨hrepeat, hne⟩ | hcount
    · rw [unrollNode_leaf _ _ harity]
      exact hleaf l subs harity ht
    · rw [unrollNode_parts _ _ hparts]
      rcases hparts with hop | hop | hop
      · obtain ⟨s, rfl⟩ := hnode (by rw [hop]; rfl)
        exact hQ.capture _ _ hop (hsubs _ List.mem_cons_self)
      · exact hQ.many _ _ (by rw [hop]; rfl) hsubs
      · exact hQ.many _ _ (by rw [hop]; rfl) hsubs
    · obtain ⟨s, rfl⟩ := hnode (Op.arity_of_isRepeat hrepeat)
      rw [unrollNode_repeated _ _ hrepeat hne]
      exact hQ.repeated hrepeat hne l.flags (hsubs _ List.mem_cons_self)
    · obtain ⟨s, rfl⟩ := hnode (by rw [hcount]; rfl)
      rw [unrollNode_counted _ _ hcount]
      exact hQ.counted l.min l.max l.flags (hsubs _ List.mem_cons_self)

end KeptByUnroll

section Everywhere

variable {P : Label → List Tree → Prop}

/-- What may be asked of nodes with the children that they read is kept. -/
theorem keptByUnroll_everywhere (hP : ∀ l subs, ShapedNode l subs → P l subs) :
    KeptByUnroll fun t => t.Everywhere P where
  blank op h := by
    refine everywhere_leaf.mpr (hP _ _ ⟨fun _ => rfl, fun harity => ?_⟩)
    rcases h with rfl | rfl <;> cases harity
  pieces t ht _ s hs := ht.below hs
  many l subs harity h :=
    everywhere_node.mpr ⟨hP _ _ ⟨fun h => (by rw [harity] at h; cases h),
      fun h => (by rw [harity] at h; cases h)⟩, h⟩
  capture l t hop ht := by
    refine everywhere_node.mpr ⟨hP _ _ ⟨fun h => ?_, fun _ => ⟨t, rfl⟩⟩, ?_⟩
    · rw [hop] at h
      cases h
    · exact List.forall_mem_singleton.mpr ht
  iterated op flags t hop _ _ _ ht := by
    refine everywhere_node.mpr ⟨hP _ _ ⟨fun h => ?_, fun _ => ⟨t, rfl⟩⟩, ?_⟩
    · rw [Op.arity_of_isRepeat hop] at h
      cases h
    · exact List.forall_mem_singleton.mpr ht

/-- Simplifying leaves no operand out. -/
theorem operands_unroll {t : Tree} (ht : t.Everywhere HasOperand) :
    t.unroll.Everywhere HasOperand :=
  (keptByUnroll_everywhere fun _ _ h => h.one).unroll (fun _ _ h => h) (fun _ _ _ h => h) ht

theorem shaped_unroll {t : Tree} (ht : t.Shaped) : t.unroll.Shaped :=
  (keptByUnroll_everywhere fun _ _ h => h).unroll (fun _ _ h => h.one) (fun _ _ _ h => h) ht

theorem shaped_simplify {t : Tree} (ht : t.Shaped) : t.simplify.Shaped := by
  rw [simplify]
  split
  · exact ht
  · exact shaped_marked (shaped_unroll ht)

end Everywhere

/-! ## The normal form -/

/-- A node that simplifying would leave as it is: no counted repetition, and none that its operand
    makes redundant. -/
structure UnrolledNode (l : Label) (subs : List Tree) : Prop where
  operand : HasOperand l subs
  notCounted : l.op ≠ .counted
  notEmpty : l.op.isRepeat = true → ∀ t ∈ subs, t.op ≠ .emptyMatch
  notSame : l.op.isRepeat = true → ∀ t ∈ subs, t.op = l.op → t.flags.nonGreedy ≠ l.flags.nonGreedy

/-- The normal form, wherever no leaf stands above. -/
def Unrolled (t : Tree) : Prop := ∀ u, Reached t u → UnrolledNode u.label u.subs

/-- At a node and below it, leaves apart. -/
theorem unrolled_node {l : Label} {subs : List Tree} :
    (node l subs).Unrolled ↔
      UnrolledNode l subs ∧ (l.op.arity ≠ .leaf → ∀ s ∈ subs, s.Unrolled) := by
  constructor
  · intro h
    exact ⟨h _ (Reached.root _), fun harity s hs u hu => h u (Reached.child harity hs hu)⟩
  · rintro ⟨hnode, hsubs⟩ u hu
    cases hu with
    | root => exact hnode
    | child harity hs hu => exact hsubs harity _ hs u hu

/-- Nodes that repeat nothing are in normal form. -/
theorem unrolledNode_of_not_repeat {l : Label} {subs : List Tree} (h : l.op.isRepeat = false)
    (hone : HasOperand l subs) : UnrolledNode l subs where
  operand := hone
  notCounted hop := by
    rw [hop] at h
    cases h
  notEmpty h' := absurd (h.symm.trans h') Bool.false_ne_true
  notSame h' := absurd (h.symm.trans h') Bool.false_ne_true

/-- The normal form is about nodes over one operand. -/
theorem unrolledNode_of_not_one {l : Label} {subs : List Tree} (h : l.op.arity ≠ .one) :
    UnrolledNode l subs :=
  unrolledNode_of_not_repeat (Op.isRepeat_of_arity h) fun hone => absurd hone h

theorem unrolled_leaf {l : Label} (h : l.op.arity = .leaf) (subs : List Tree) :
    (node l subs).Unrolled := by
  refine unrolled_node.mpr ⟨unrolledNode_of_not_one ?_, fun h' => absurd h h'⟩
  rw [h]
  decide

/-- Each way to make a node makes one in normal form. -/
theorem keptByUnroll_unrolled : KeptByUnroll Unrolled where
  blank op h := by
    refine unrolled_leaf ?_ []
    rcases h with rfl | rfl <;> rfl
  pieces t ht hop s hs := by
    obtain ⟨l, subs⟩ := t
    rw [op_node] at hop
    exact (unrolled_node.mp ht).2 (by rw [hop]; decide) s hs
  many l subs harity h := by
    refine unrolled_node.mpr ⟨unrolledNode_of_not_one ?_, fun _ => h⟩
    rw [harity]
    decide
  capture l t hop ht := by
    refine unrolled_node.mpr ⟨unrolledNode_of_not_repeat ?_ fun _ => ⟨t, rfl⟩, fun _ => ?_⟩
    · rw [hop]
      rfl
    · exact List.forall_mem_singleton.mpr ht
  iterated op flags t _ hne hempty hsame ht := by
    refine unrolled_node.mpr ⟨⟨fun _ => ⟨t, rfl⟩, hne, fun _ => ?_, fun _ => ?_⟩, fun _ => ?_⟩
    · exact List.forall_mem_singleton.mpr hempty
    · exact List.forall_mem_singleton.mpr fun hop hgreed => hsame ⟨hop, hgreed⟩
    · exact List.forall_mem_singleton.mpr ht

/-- Simplifying makes normal forms. -/
theorem unrolled_unroll {t : Tree} (ht : t.Everywhere HasOperand) : t.unroll.Unrolled :=
  keptByUnroll_unrolled.unroll (fun _ _ h => h) (fun _ subs h _ => unrolled_leaf h subs) ht

theorem unrolled_marked {simple : Bool} {t : Tree} (ht : t.Unrolled) :
    (t.marked simple).Unrolled := by
  obtain ⟨l, subs⟩ := t
  obtain ⟨hnode, hsubs⟩ := unrolled_node.mp ht
  refine unrolled_node.mpr ⟨⟨?_, ?_, ?_, ?_⟩, hsubs⟩
  · exact hnode.operand
  · exact hnode.notCounted
  · exact hnode.notEmpty
  · exact hnode.notSame

/-! ## Simplifying again -/

/-- Of a star, plus or quest, equality sees the operation and how greedy it is. -/
theorem agrees_repeated {l m : Label} (hop : l.op = m.op)
    (hgreed : l.flags.nonGreedy = m.flags.nonGreedy) (hrepeat : l.op.isRepeat = true)
    (hne : l.op ≠ .counted) : l.agrees m = true := by
  rw [Label.agrees, hop, hgreed]
  rw [hop] at hrepeat hne
  revert hrepeat hne
  cases m.op <;> simp [Op.isRepeat]

/-- An operation that its operand does not make redundant stands over it. -/
theorem repeated_equal {l : Label} {s t : Tree} (hl : UnrolledNode l [t])
    (hrepeat : l.op.isRepeat = true) (h : s.equal t = true) :
    (repeated l.op l.flags s).equal (node l [t]) = true := by
  have hop : s.op = t.op := op_of_equal h
  have hempty : s.op ≠ .emptyMatch := hop ▸ hl.notEmpty hrepeat t List.mem_cons_self
  have hsame : ¬(s.op = l.op ∧ s.flags.nonGreedy = l.flags.nonGreedy) := by
    rintro ⟨hs, hgreed⟩
    refine hl.notSame hrepeat t List.mem_cons_self (hop ▸ hs) ?_
    rw [← nonGreedy_of_equal h (by rw [hs]; exact hrepeat)]
    exact hgreed
  -- the normal form rules out both operands that make the operation redundant
  rw [repeated, if_neg hempty, if_neg hsame]
  refine equal_of_children ?_ (List.Forall₂.cons h List.Forall₂.nil)
  exact agrees_repeated rfl rfl hrepeat hl.notCounted

/-- What is in normal form, simplifying makes again. -/
theorem unroll_equal {t : Tree} (ht : t.Unrolled) : t.unroll.equal t = true := by
  induction t using induct with
  | step l subs ih =>
    obtain ⟨hnode, hsubs⟩ := unrolled_node.mp ht
    rw [unroll_node]
    by_cases hleaf : l.op.arity = .leaf
    · rw [unrollNode_leaf _ _ hleaf]
      exact equal_refl _
    · have hequal : ∀ s ∈ subs, s.unroll.equal s = true := fun s hs =>
        ih s hs (hsubs hleaf s hs)
      rcases l.op.unroll_cases with harity | hparts | ⟨hrepeat, hne⟩ | hcount
      · exact absurd harity hleaf
      · rw [unrollNode_parts _ _ hparts]
        refine equal_of_children ?_
          (List.forall₂_map_left_iff.mpr (List.forall₂_same.mpr hequal))
        rcases hparts with hop | hop | hop <;> simp [Label.agrees, hop]
      · obtain ⟨s, rfl⟩ := hnode.operand (Op.arity_of_isRepeat hrepeat)
        rw [unrollNode_repeated _ _ hrepeat hne]
        exact repeated_equal hnode hrepeat (hequal s List.mem_cons_self)
      · exact absurd hcount hnode.notCounted

/-! ## Missing operands -/

/-- A tree can be simplified if every operand that is looked for is there. -/
theorem isUnrollable_node (l : Label) (subs : List Tree) :
    (node l subs).isUnrollable =
      match l.op with
      | .capture | .concat | .alternate => (subs.map isUnrollable).all id
      | .star | .plus | .quest => (subs.map isUnrollable).head? == some true
      | .counted => l.min == 0 && l.max == 0 || (subs.map isUnrollable).head? == some true
      | _ => true :=
  fold_node _ l subs

/-- Simplifying finds every operand, if none is missing. -/
theorem isUnrollable_of_operands {t : Tree} (ht : t.Everywhere HasOperand) :
    t.isUnrollable = true := by
  induction t using induct with
  | step l subs ih =>
    have hall : ∀ b ∈ subs.map isUnrollable, b = true :=
      List.forall_mem_map.mpr fun s hs => ih s hs (ht.below hs)
    have hone (harity : l.op.arity = .one) : (subs.map isUnrollable).head? = some true := by
      obtain ⟨s, rfl⟩ := ht.here harity
      rw [List.map_singleton, hall _ List.mem_cons_self]
      rfl
    rw [isUnrollable_node]
    rcases l.op.unroll_cases with harity | hparts | ⟨hrepeat, hne⟩ | hcount
    · revert harity
      cases l.op <;> simp [Op.arity]
    · rcases hparts with hop | hop | hop <;> rw [hop] <;> exact List.all_eq_true.mpr hall
    · rw [hone (Op.arity_of_isRepeat hrepeat)]
      revert hrepeat hne
      cases l.op <;> simp [Op.isRepeat]
    · rw [hcount, hone (by rw [hcount]; rfl)]
      exact Bool.or_true _

/-- One pass of simplifying gives the normal form: nothing that is reached in the result is
    changed when it is simplified by itself. -/
theorem simplify_once {t : Tree} (ht : t.Everywhere HasOperand) (hsimple : t.flags.simple = false) :
    t.isUnrollable = true ∧
      (∀ u, Reached t.simplify u →
        UnrolledNode u.label u.subs ∧ (u.marked false).isUnrollable = true ∧
          Machine.equal (u.marked false).simplify u = .ok true) ∧
      (t.Shaped → ∀ u, Within t.simplify u → Reached t.simplify u) := by
  rw [simplify_of_unmarked hsimple]
  refine ⟨isUnrollable_of_operands ht, fun u hu => ?_, fun hshaped u hu => ?_⟩
  · have hnormal : u.Unrolled := fun v hv =>
      unrolled_marked (unrolled_unroll ht) v (hu.trans hv)
    have hoperands : u.Everywhere HasOperand := hu.everywhere (operands_marked (operands_unroll ht))
    have hcleared : (u.marked false).Everywhere HasOperand := operands_marked hoperands
    refine ⟨hnormal u (Reached.root u), isUnrollable_of_operands hcleared, ?_⟩
    rw [simplify_of_unmarked (flags_marked false u),
      Machine.equal_eq (operands_marked (operands_unroll hcleared)) hoperands]
    have hagain := equal_trans (unroll_equal (unrolled_marked hnormal)) (marked_equal false u)
    rw [equal_trans (marked_equal true _) hagain]
  · exact hu.reached (shaped_marked (shaped_unroll hshaped))

/-- Two letters under a star that another star makes redundant. -/
theorem simplify_once_starOfStar :
    let twice := node { op := .counted, min := 2, max := 2 } [literal [97] {}]
    let t := node { op := .star } [node { op := .star } [twice]]
    t.Everywhere HasOperand ∧ t.flags.simple = false ∧
      t.simplify.dump = "star\x7bcat\x7blit\x7ba\x7dlit\x7ba\x7d\x7d\x7d" ∧
      Machine.equal (t.simplify.marked false).simplify t.simplify = .ok true := by
  intro twice t
  have ht : t.Everywhere HasOperand := by
    simp [t, twice, literal, everywhere_node, HasOperand, Op.arity]
  refine ⟨ht, rfl, by decide +kernel, ?_⟩
  exact ((simplify_once ht rfl).2.1 _ (Reached.root _)).2.2

/-- Children of leaves stay as they are: a counted repetition below a leaf is left, and by itself it
    is not simple yet. -/
theorem simplify_keeps_below_leaf :
    let twice := node { op := .counted, min := 2, max := 2 } [literal [97] {}]
    let t := node { op := .endText } [twice]
    t.Everywhere HasOperand ∧ t.flags.simple = false ∧ Within t.simplify twice ∧
      twice.op = .counted ∧ Machine.equal (twice.marked false).simplify twice = .ok false := by
  intro twice t
  refine ⟨?_, rfl, ?_, rfl, by decide +kernel⟩
  · simp [t, twice, literal, everywhere_node, HasOperand, Op.arity]
  · exact Within.child List.mem_cons_self (Within.root twice)

end Tree

end RegexTree
