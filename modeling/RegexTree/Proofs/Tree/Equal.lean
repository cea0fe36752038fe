/-
  Equal trees.

  Two trees are compared by what their operations read: runes and folding of a literal, bounds and
  greed of a repetition, number and name of a capture, and so on, and of the children those that the
  operation has.  Flags that only say how something was written are passed over, and so are children
  that nobody reads, which a tree may have if it was put together by hand.

  * Equality is agreement of the labels and equality, one by one, of the children that the operation
    reads (`equal_iff_reads`), and what these give at a node holds of any two equal trees
    (`equal_induct_reads`).  So it is an equivalence (`equal_refl`, `equal_symm`, `equal_trans`).
  * On trees that have no other children, all children are equal (`equal_induct`), and that is the
    induction that most of the theory uses.
  * Comparing trees finds every operand if none is missing (`isComparable_of_operands`); a
    repetition without an operand has none to compare.

  What agreement of labels says of one operation is stated once for each of the fields that are
  compared (`literal_of_agrees`, `bounds_of_agrees`, …).
-/
import RegexTree.Proofs.Tree.Shape
import RegexTree.Tree.Equal
import Mathlib.Data.List.Forall2

namespace RegexTree

theorem Label.agrees_refl (l : Label) : l.agrees l = true := by
  cases h : l.op <;> simp [Label.agrees, h]

theorem Label.agrees_symm {a b : Label} (h : a.agrees b = true) : b.agrees a = true := by
  rw [agrees, Bool.and_eq_true, beq_iff_eq] at h ⊢
  obtain ⟨hop, h⟩ := h
  refine ⟨hop.symm, ?_⟩
  rw [hop] at h
  revert h
  generalize b.op = op
  intro h
  cases op <;> grind

theorem Label.agrees_trans {a b c : Label} (h : a.agrees b = true) (h' : b.agrees c = true) :
    a.agrees c = true := by
  rw [agrees, Bool.and_eq_true, beq_iff_eq] at h h' ⊢
  obtain ⟨hop, h⟩ := h
  obtain ⟨hop', h'⟩ := h'
  refine ⟨hop.trans hop', ?_⟩
  rw [hop] at h ⊢
  revert h h'
  generalize b.op = op
  intro h h'
  cases op <;> grind

theorem Label.op_of_agrees {a b : Label} (h : a.agrees b = true) : a.op = b.op := by
  rw [Label.agrees, Bool.and_eq_true, beq_iff_eq] at h
  exact h.1

namespace Label

section

variable {a b : Label} (h : a.agrees b = true)

include h

/-- Literals that agree fold alike and have the same runes. -/
theorem literal_of_agrees (hop : a.op = .literal) :
    a.flags.foldCase = b.flags.foldCase ∧ a.runes = b.runes := by
  rw [agrees, hop] at h
  simp only [Bool.and_eq_true, beq_iff_eq] at h
  exact h.2

theorem charClass_of_agrees (hop : a.op = .charClass) : a.runes = b.runes := by
  rw [agrees, hop] at h
  simp only [Bool.and_eq_true, beq_iff_eq] at h
  exact h.2

theorem wasDollar_of_agrees (hop : a.op = .endText) :
    a.flags.wasDollar = b.flags.wasDollar := by
  rw [agrees, hop] at h
  simp only [Bool.and_eq_true, beq_iff_eq] at h
  exact h.2

/-- Captures that agree have the same number and name. -/
theorem capture_of_agrees (hop : a.op = .capture) : a.cap = b.cap ∧ a.name = b.name := by
  rw [agrees, hop] at h
  simp only [Bool.and_eq_true, beq_iff_eq] at h
  exact h.2

/-- Counts that agree have the same bounds. -/
theorem bounds_of_agrees (hop : a.op = .counted) : a.min = b.min ∧ a.max = b.max := by
  rw [agrees, hop] at h
  simp only [Bool.and_eq_true, beq_iff_eq] at h
  exact ⟨h.2.1.2, h.2.2⟩

/-- Repetitions that agree are equally greedy. -/
theorem nonGreedy_of_agrees (hrepeat : a.op.isRepeat = true) :
    a.flags.nonGreedy = b.flags.nonGreedy := by
  rw [agrees, Bool.and_eq_true] at h
  obtain ⟨-, hfields⟩ := h
  cases hop : a.op <;> rw [hop] at hfields hrepeat <;>
    simp only [Bool.and_eq_true, beq_iff_eq] at hfields <;>
    first | exact hfields | exact hfields.1.1 | cases hrepeat

end

end Label

/-! ## What an operation reads -/

/-- Those of the children, or of what is known of them, that the operation reads. -/
def Label.reads {α : Type} (l : Label) (xs : List α) : List α :=
  match l.op.arity with
  | .leaf => []
  | .one => xs.take 1
  | .many => xs

namespace Label

variable {α : Type} {l : Label}

theorem reads_leaf (h : l.op.arity = .leaf) (xs : List α) : l.reads xs = [] := by
  rw [reads, h]

theorem reads_one (h : l.op.arity = .one) (xs : List α) : l.reads xs = xs.take 1 := by
  rw [reads, h]

theorem reads_many (h : l.op.arity = .many) (xs : List α) : l.reads xs = xs := by
  rw [reads, h]

theorem reads_subset (xs : List α) : l.reads xs ⊆ xs := by
  intro x hx
  rw [reads] at hx
  split at hx
  · cases hx
  · exact List.mem_of_mem_take hx
  · exact hx

/-- What an operation reads is chosen by the place alone. -/
theorem map_reads {β : Type} (f : α → β) (xs : List α) :
    (l.reads xs).map f = l.reads (xs.map f) := by
  rw [reads, reads]
  split
  · rfl
  · exact List.map_take
  · rfl

end Label

/-! ## Equality -/

namespace Tree

/-- Comparing lists is comparing them element by element, and their lengths. -/
theorem allMatch_map_iff {ts us : List Tree} :
    allMatch (ts.map equal) us = true ↔ List.Forall₂ (fun t u => t.equal u = true) ts us := by
  induction ts generalizing us with
  | nil =>
    cases us with
    | nil => exact iff_of_true rfl List.Forall₂.nil
    | cons u us => exact iff_of_false Bool.false_ne_true (by rintro ⟨⟩)
  | cons t ts ih =>
    cases us with
    | nil => exact iff_of_false Bool.false_ne_true (by rintro ⟨⟩)
    | cons u us => rw [List.map_cons, allMatch, Bool.and_eq_true, ih, List.forall₂_cons]

/-- What is the same for trees that stand in the same place is the same for the lists. -/
theorem map_eq_of_forall₂ {α : Type} {f : Tree → α} {ts us : List Tree}
    (h : List.Forall₂ (fun t u => f t = f u) ts us) : ts.map f = us.map f := by
  rwa [← List.forall₂_eq_eq_eq, List.forall₂_map_left_iff, List.forall₂_map_right_iff]

/-- A node that has a shape reads all its children. -/
theorem ShapedNode.reads_eq {l : Label} {subs : List Tree} (h : ShapedNode l subs) :
    l.reads subs = subs := by
  cases harity : l.op.arity with
  | leaf => rw [Label.reads_leaf harity, h.leaf harity]
  | one =>
    obtain ⟨t, rfl⟩ := h.one harity
    rw [Label.reads_one harity]
    rfl
  | many => exact Label.reads_many harity subs

/-- Trees are equal just if their labels agree and the children that are read are equal. -/
theorem equal_iff_reads {t u : Tree} :
    t.equal u = true ↔
      t.label.agrees u.label = true ∧
        List.Forall₂ (fun a b => a.equal b = true) (t.label.reads t.subs)
          (u.label.reads u.subs) := by
  obtain ⟨l, subs⟩ := t
  obtain ⟨m, subs'⟩ := u
  rw [equal_node, Bool.and_eq_true]
  refine and_congr_right fun hagree => ?_
  have hop : l.op = m.op := Label.op_of_agrees hagree
  simp only [label_node, subs_node]
  split
  · next harity =>
    rw [Label.reads_leaf harity, Label.reads_leaf (hop ▸ harity)]
    exact iff_of_true rfl List.Forall₂.nil
  · next harity =>
    rw [Label.reads_one harity, Label.reads_one (hop ▸ harity), ← List.map_take]
    exact allMatch_map_iff
  · next harity =>
    rw [Label.reads_many harity, Label.reads_many (hop ▸ harity)]
    exact allMatch_map_iff

/-- What follows from agreeing labels and from itself at the children that are read holds of equal
    trees. -/
theorem equal_induct_reads {P : Tree → Tree → Prop}
    (step : ∀ l m subs subs', l.agrees m = true → List.Forall₂ P (l.reads subs) (m.reads subs') →
      P (node l subs) (node m subs'))
    {t u : Tree} (h : t.equal u = true) : P t u := by
  induction t using induct generalizing u with
  | step l subs ih =>
    obtain ⟨m, subs'⟩ := u
    obtain ⟨hagree, hsubs⟩ := equal_iff_reads.mp h
    obtain ⟨hlen, hzip⟩ := List.forall₂_iff_zip.mp hsubs
    refine step l m subs subs' hagree (List.forall₂_iff_zip.mpr ⟨hlen, fun {a b} hab => ?_⟩)
    exact ih a (Label.reads_subset subs (List.of_mem_zip hab).1) (hzip hab)

/-- Every tree is equal to itself, whatever children it has that nobody reads. -/
theorem equal_refl (t : Tree) : t.equal t = true := by
  induction t using induct with
  | step l subs ih =>
    refine equal_iff_reads.mpr ⟨Label.agrees_refl l, List.forall₂_same.mpr fun t ht => ?_⟩
    exact ih t (Label.reads_subset subs ht)

theorem equal_symm {t u : Tree} (h : t.equal u = true) : u.equal t = true := by
  refine equal_induct_reads (P := fun t u => u.equal t = true) ?_ h
  intro l m subs subs' hagree hsubs
  exact equal_iff_reads.mpr ⟨Label.agrees_symm hagree, hsubs.flip⟩

/-- Equality is transitive, by induction on the first two trees. -/
theorem equal_trans {t u v : Tree} (h : t.equal u = true) (h' : u.equal v = true) :
    t.equal v = true := by
  refine equal_induct_reads (P := fun t u => ∀ v : Tree, u.equal v = true → t.equal v = true)
    ?_ h v h'
  intro l m subs subs' hagree hsubs v hv
  obtain ⟨hagree', hsubs'⟩ := equal_iff_reads.mp hv
  refine equal_iff_reads.mpr ⟨Label.agrees_trans hagree hagree', ?_⟩
  rw [label_node, subs_node] at hsubs' ⊢
  generalize l.reads subs = ts at hsubs
  generalize m.reads subs' = us at hsubs hsubs'
  generalize v.label.reads v.subs = vs at hsubs'
  induction hsubs generalizing vs with
  | nil =>
    cases hsubs'
    exact List.Forall₂.nil
  | cons hab _ ih =>
    cases hsubs' with
    | cons hbc hrest => exact List.Forall₂.cons (hab _ hbc) (ih _ hrest)

/-- Nodes are equal if their labels agree and their children are equal. -/
theorem equal_of_children {l m : Label} {subs subs' : List Tree} (hagree : l.agrees m = true)
    (h : List.Forall₂ (fun a b => a.equal b = true) subs subs') :
    (node l subs).equal (node m subs') = true := by
  refine equal_iff_reads.mpr ⟨hagree, ?_⟩
  rw [label_node, label_node, subs_node, subs_node, Label.reads, Label.reads,
    Label.op_of_agrees hagree]
  split
  · exact List.Forall₂.nil
  · cases h with
    | nil => exact List.Forall₂.nil
    | cons hfirst _ => exact List.Forall₂.cons hfirst List.Forall₂.nil
  · exact h

/-- Nodes that read no child are equal if their labels agree. -/
theorem equal_of_leaf {t u : Tree} (harity : t.op.arity = .leaf)
    (hagree : t.label.agrees u.label = true) : t.equal u = true := by
  have harity' : u.label.op.arity = .leaf := Label.op_of_agrees hagree ▸ harity
  refine equal_iff_reads.mpr ⟨hagree, ?_⟩
  rw [Label.reads_leaf harity, Label.reads_leaf harity']
  exact List.Forall₂.nil

/-- Of a sequence or a choice, equality sees the operation and the parts. -/
theorem equal_branching {l : Label} (harity : l.op.arity = .many) {subs subs' : List Tree}
    (h : List.Forall₂ (fun a b => a.equal b = true) subs subs') :
    (node l subs).equal (branching l.op subs') = true := by
  have hagree : l.agrees { op := l.op } = true := by
    rw [Label.agrees, beq_self_eq_true, Bool.true_and]
    cases hop : l.op <;> first | rfl | (rw [hop] at harity; cases harity)
  exact equal_of_children hagree h

/-- Literals are equal just if they have the same runes and both fold or neither does. -/
theorem equal_literal_iff {runes runes' : List Nat} {flags flags' : Flags} :
    (literal runes flags).equal (literal runes' flags') = true ↔
      flags.foldCase = flags'.foldCase ∧ runes = runes' := by
  rw [literal, literal, equal_node]
  simp [Label.agrees, Op.arity]

/-- What follows from agreeing labels and from itself at the children holds of equal trees. -/
theorem equal_induct {P : Tree → Tree → Prop}
    (step : ∀ l m subs subs', l.agrees m = true → List.Forall₂ P subs subs' →
      P (node l subs) (node m subs'))
    {t u : Tree} (ht : t.Shaped) (hu : u.Shaped) (h : t.equal u = true) : P t u := by
  refine equal_induct_reads (P := fun t u => t.Shaped → u.Shaped → P t u) ?_ h ht hu
  intro l m subs subs' hagree hsubs ht hu
  have hl : l.reads subs = subs := ht.here.reads_eq
  have hm : m.reads subs' = subs' := hu.here.reads_eq
  rw [hl, hm] at hsubs
  obtain ⟨hlen, hzip⟩ := List.forall₂_iff_zip.mp hsubs
  refine step l m subs subs' hagree (List.forall₂_iff_zip.mpr ⟨hlen, fun {a b} hab => ?_⟩)
  exact hzip hab (ht.below (List.of_mem_zip hab).1) (hu.below (List.of_mem_zip hab).2)

/-! ## Comparing -/

/-- If every test passes on every tree, all comparisons are reached. -/
theorem reachedAll_of_forall {ss ts : List Tree} {tests : List (Tree → Bool)}
    (h : ∀ test ∈ tests, ∀ t ∈ ts, test t = true) : reachedAll ss tests ts = true := by
  fun_induction reachedAll ss tests ts with
  | case1 s ss test tests t ts ih =>
    have htest := h test List.mem_cons_self t List.mem_cons_self
    have hrest := ih fun test' ht u hu =>
      h test' (List.mem_cons_of_mem _ ht) u (List.mem_cons_of_mem _ hu)
    rw [htest, hrest, Bool.or_true, Bool.and_true]
  | case2 => rfl

/-- Comparing trees finds every operand that it comes to, if none is missing. -/
theorem isComparable_of_operands {t u : Tree} (ht : t.Everywhere HasOperand)
    (hu : u.Everywhere HasOperand) : t.isComparable u = true := by
  induction t using induct generalizing u with
  | step l subs ih =>
    rw [isComparable, fold_node]
    cases hagree : l.agrees u.label with
    | false => rfl
    | true =>
      have hop : l.op = u.label.op := Label.op_of_agrees hagree
      cases harity : l.op.arity with
      | leaf => rfl
      | one =>
        obtain ⟨a, ha⟩ := ht.here harity
        obtain ⟨b, hb⟩ := hu.here (hop ▸ harity)
        rw [subs_node] at ha
        subst ha
        rw [hb]
        have hbelow := hu.below (hb ▸ List.mem_cons_self)
        exact ih a List.mem_cons_self (ht.below List.mem_cons_self) hbelow
      | many =>
        refine (Bool.or_eq_true _ _).mpr (Or.inr ((Bool.or_eq_true _ _).mpr (Or.inr ?_)))
        refine reachedAll_of_forall fun test htest s hs => ?_
        obtain ⟨a, ha, rfl⟩ := List.mem_map.mp htest
        exact ih a ha (ht.below ha) (hu.below hs)

end Tree

end RegexTree
