/-
  Weights: what is counted in a tree.

  A weight gives each node a number; the weight of a tree is the sum over the nodes that its
  operations read.  If sequences, choices and empty matches weigh nothing and each rune of a literal
  the same, then a sequence weighs as much as its pieces (`total_sequence`), since joining literals
  and splicing only move what is counted.

  A choice weighs no more than its branches (`weigh_choice_le`), because what neighbours share is
  counted once: of a run of `n` branches what they share is left once, and `n - 1` times its weight
  is gone (`add_total_dropLeadingText_le`, `add_total_dropLeadingPiece_le`).

  `massOf` is such a weight and counts no more than `mass` (`total_massOf_le`), which counts the
  children that nobody reads too.  The mass of the branches is the depth to which a choice may be
  factored, and each round that takes something out makes the rests lighter, which is why the
  recursion of `choice` is deep enough.
-/
import RegexTree.Proofs.Tree.Choice
import RegexTree.Proofs.Tree.Equal
import Mathlib.Algebra.GroupWithZero.Nat

namespace RegexTree.Tree

/-- The sum of what the labels of a tree weigh, where the operations read them. -/
def weigh (w : Label → Nat) : Tree → Nat := fold fun l _ parts => (l.reads parts).sum + w l

/-- What a list of trees weighs. -/
def total (w : Label → Nat) (ts : List Tree) : Nat := (ts.map (weigh w)).sum

/-- Nodes that only put other nodes together weigh nothing, runes of literals all the same, and
    labels that agree weigh the same. -/
structure Weight (perRune : Nat) (w : Label → Nat) : Prop where
  nothing : ∀ l : Label, l.op = .emptyMatch ∨ l.op = .concat ∨ l.op = .alternate → w l = 0
  literal : ∀ l : Label, l.op = .literal → w l = perRune * l.runes.length
  agrees : ∀ l m : Label, l.agrees m = true → w l = w m

section

variable {w : Label → Nat}

theorem weigh_node (l : Label) (subs : List Tree) :
    (node l subs).weigh w = total w (l.reads subs) + w l := by
  rw [weigh, fold_node, total, Label.map_reads]
  rfl

theorem weigh_leaf {l : Label} (h : l.op.arity = .leaf) (subs : List Tree) :
    (node l subs).weigh w = w l := by
  rw [weigh_node, Label.reads_leaf h]
  exact Nat.zero_add _

theorem weigh_many {l : Label} (h : l.op.arity = .many) (subs : List Tree) :
    (node l subs).weigh w = total w subs + w l := by
  rw [weigh_node, Label.reads_many h]

theorem total_cons (t : Tree) (rest : List Tree) :
    total w (t :: rest) = t.weigh w + total w rest := by
  rw [total, List.map_cons, List.sum_cons]
  rfl

theorem total_singleton (t : Tree) : total w [t] = t.weigh w := by
  rw [total_cons]
  rfl

theorem weigh_one {l : Label} (h : l.op.arity = .one) (t : Tree) :
    (node l [t]).weigh w = t.weigh w + w l := by
  rw [weigh_node, Label.reads_one h, ← total_singleton]
  rfl

theorem total_append (ts us : List Tree) : total w (ts ++ us) = total w ts + total w us := by
  rw [total, List.map_append, List.sum_append]
  rfl

/-- What is lost from each tree of a list is lost at least once. -/
theorem add_total_map_le {f : Tree → Tree} {n : Nat} {ts : List Tree} (hne : ts ≠ [])
    (h : ∀ t ∈ ts, n + (f t).weigh w = t.weigh w) : n + total w (ts.map f) ≤ total w ts := by
  induction ts with
  | nil => exact absurd rfl hne
  | cons t rest ih =>
    obtain ⟨ht, hrest⟩ := List.forall_mem_cons.mp h
    rw [List.map_cons, total_cons, total_cons]
    cases rest with
    | nil =>
      simp only [total, List.map_nil, List.sum_nil]
      omega
    | cons u more =>
      have := ih (List.cons_ne_nil u more) hrest
      omega

variable {k : Nat} (hw : Weight k w)

include hw

/-- A literal weighs as much as its runes. -/
theorem weigh_literal {t : Tree} (hop : t.op = .literal) : t.weigh w = k * t.runes.length := by
  obtain ⟨l, subs⟩ := t
  rw [op_node] at hop
  rw [weigh_leaf (by rw [hop]; rfl), hw.literal l hop]
  rfl

theorem weigh_empty {t : Tree} (hop : t.op = .emptyMatch) : t.weigh w = 0 := by
  obtain ⟨l, subs⟩ := t
  rw [op_node] at hop
  rw [weigh_leaf (by rw [hop]; rfl), hw.nothing l (Or.inl hop)]

/-- A sequence or a choice weighs as much as its parts. -/
theorem weigh_compound {l : Label} (hop : l.op = .concat ∨ l.op = .alternate) (subs : List Tree) :
    (node l subs).weigh w = total w subs := by
  rw [weigh_many, hw.nothing l (Or.inr hop), Nat.add_zero]
  rcases hop with hop | hop
  all_goals
    rw [hop]
    rfl

/-- Equal trees weigh the same. -/
theorem weigh_of_equal {t u : Tree} (h : t.equal u = true) : t.weigh w = u.weigh w := by
  refine equal_induct_reads (P := fun t u => t.weigh w = u.weigh w) ?_ h
  intro l m subs subs' hagree hsubs
  rw [weigh_node, weigh_node, hw.agrees l m hagree, total, total, map_eq_of_forall₂ hsubs]

/-- What is dropped and what is left weigh as much as the literal. -/
theorem weigh_dropRunes {t : Tree} (hop : t.op = .literal) {n : Nat} (hn : n ≤ t.runes.length) :
    k * n + (dropRunes n t).weigh w = t.weigh w := by
  rw [weigh_literal hw hop]
  rcases dropRunes_cases hop n with ⟨hshort, hop'⟩ | ⟨-, hop'⟩
  · rw [weigh_empty hw hop', show t.runes.length = n by omega, Nat.add_zero]
  · rw [weigh_literal hw hop', dropRunes_runes hop, List.length_drop, ← Nat.mul_add]
    congr 1
    omega

/-- Putting pieces together in a sequence does not change what they weigh. -/
theorem sequenceLaw_total : SequenceLaw (fun _ => True) (total w) where
  kept := kept_any
  tail t ps qs h := by rw [total_cons, total_cons, h]
  spliced l subs rest hop := by rw [total_append, total_cons, weigh_compound hw (Or.inl hop)]
  empty l subs rest hop _ := by rw [total_cons, weigh_empty hw (t := node l subs) hop, Nat.zero_add]
  joined t u rest _ _ h := by
    obtain ⟨hop, hop', -⟩ := canJoin_iff.mp h
    rw [total_cons, total_cons, total_cons, weigh_literal hw (t := joined t u) (by rwa [joined_op]),
      weigh_literal hw hop, weigh_literal hw hop', joined_runes, List.length_append, Nat.mul_add,
      Nat.add_assoc]
  split t s rest _ hop hs _ := by
    have hlen := weigh_dropRunes hw hop hs.length_le
    rw [total_cons, total_cons, total_cons, weigh_literal hw (t := literal s _) rfl,
      ← Nat.add_assoc]
    exact congrArg (· + _) hlen

/-- A sequence weighs as much as its pieces. -/
theorem total_sequence (pieces : List Tree) : (sequence pieces).weigh w = total w pieces := by
  rw [← total_singleton]
  exact (sequenceLaw_total hw).sequence fun _ _ => trivial

/-- The text that is taken out and the rest weigh as much as the branch. -/
theorem weigh_dropLeadingText {t : Tree} {shared : List Nat} (hne : shared ≠ [])
    (hshared : shared <+: t.leadingText.2) :
    k * shared.length + (dropLeadingText shared.length t).weigh w = t.weigh w := by
  have hlaw := (sequenceLaw_total hw).dropLeadingText (t := t) trivial hne hshared
  rwa [total_cons, total_singleton, total_singleton, weigh_literal hw (t := literal shared _) rfl]
    at hlaw

theorem weigh_dropLeadingPiece {t p : Tree} (hp : t.leadingPiece? = some p) :
    p.weigh w + (dropLeadingPiece t).weigh w = t.weigh w := by
  have hlaw := (sequenceLaw_total hw).dropLeadingPiece hp
  rwa [total_cons, total_singleton, total_singleton] at hlaw

/-- Shared runes are counted once for all branches of a run. -/
theorem add_total_dropLeadingText_le {ts : List Tree} {shared : List Nat} (hne : shared ≠ [])
    (htsne : ts ≠ []) (hts : ∀ t ∈ ts, shared <+: t.leadingText.2) :
    k * shared.length + total w (ts.map (dropLeadingText shared.length)) ≤ total w ts :=
  add_total_map_le htsne fun t ht => weigh_dropLeadingText hw hne (hts t ht)

/-- A shared piece is counted once for all branches of a run. -/
theorem add_total_dropLeadingPiece_le {lead : Tree} {ts : List Tree} (htsne : ts ≠ [])
    (hts : ∀ t ∈ ts, ∃ p, t.leadingPiece? = some p ∧ (p = lead ∨ lead.equal p = true)) :
    lead.weigh w + total w (ts.map dropLeadingPiece) ≤ total w ts := by
  refine add_total_map_le htsne fun t ht => ?_
  obtain ⟨p, hp, hpe⟩ := hts t ht
  have hweigh : lead.weigh w = p.weigh w := by
    rcases hpe with rfl | he
    · rfl
    · exact weigh_of_equal hw he
  rw [hweigh]
  exact weigh_dropLeadingPiece hw hp

/-- Taking out what branches share does not add weight. -/
theorem choiceLaw_total : ChoiceLaw (fun _ => True) fun ts us => total w us ≤ total w ts where
  kept := kept_any
  refl _ := Nat.le_refl _
  trans h h' := Nat.le_trans h' h
  append h h' := by
    rw [total_append, total_append]
    exact Nat.add_le_add h h'
  splice l subs hop _ := by
    rw [total_singleton, weigh_compound hw (Or.inr hop)]
  gather branches _ := by
    rw [total_singleton, branching, weigh_compound hw (Or.inr rfl)]
  text fold shared ts rest hne hts htsne _ hle := by
    have hsum := add_total_dropLeadingText_le hw hne htsne fun t ht => (hts t ht).2.2
    rw [total_singleton] at hle
    rw [total_singleton, total_sequence hw, total_cons, total_singleton,
      weigh_literal hw (t := literal shared _) rfl]
    exact Nat.le_trans (Nat.add_le_add_left hle _) hsum
  piece lead ts rest _ hts htsne _ _ hle := by
    have hsum := add_total_dropLeadingPiece_le hw htsne fun t ht => (hts t ht).2
    rw [total_singleton] at hle
    rw [total_singleton, total_sequence hw, total_cons, total_singleton]
    exact Nat.le_trans (Nat.add_le_add_left hle _) hsum

/-- A choice weighs no more than its branches. -/
theorem weigh_choice_le (branches : List Tree) :
    (choice branches).weigh w ≤ total w branches := by
  have hle := ((choiceLaw_total hw).choice fun t (_ : t ∈ branches) => trivial).2
  rwa [total_singleton] at hle

end

/-! ## Mass -/

/-- What a label adds to the mass of a tree. -/
def massOf (l : Label) : Nat :=
  match l.op with
  | .literal => l.runes.length
  | .emptyMatch | .concat | .alternate => 0
  | _ => 1

/-- A rune has the mass 1. -/
theorem massOf_weight : Weight 1 massOf where
  nothing l h := by
    rcases h with h | h | h <;> simp [massOf, h]
  literal l h := by simp [massOf, h]
  agrees l m h := by
    have hop := Label.op_of_agrees h
    by_cases hlit : l.op = .literal
    · have hm := hlit
      rw [hop] at hm
      simp [massOf, hlit, hm, (Label.literal_of_agrees h hlit).2]
    · simp only [massOf, ← hop]
      cases hl : l.op <;> simp_all

/-- The mass of a tree counts all its nodes. -/
theorem mass_node (l : Label) (subs : List Tree) :
    (node l subs).mass = (subs.map mass).foldr (· + ·) 0 + massOf l :=
  fold_node _ l subs

/-- What the operations read of trees has no more mass than all of them. -/
theorem total_massOf_le_of {ts : List Tree} (h : ∀ t ∈ ts, t.weigh massOf ≤ t.mass) :
    total massOf ts ≤ (ts.map mass).foldr (· + ·) 0 := by
  induction ts with
  | nil => exact Nat.le_refl 0
  | cons t rest ih =>
    obtain ⟨ht, hrest⟩ := List.forall_mem_cons.mp h
    rw [total_cons]
    exact Nat.add_le_add ht (ih hrest)

/-- What is read of a tree is no more than all of it. -/
theorem weigh_massOf_le (t : Tree) : t.weigh massOf ≤ t.mass := by
  induction t using induct with
  | step l subs ih =>
    have hsubs := total_massOf_le_of ih
    have hread : total massOf (l.reads subs) ≤ total massOf subs := by
      cases harity : l.op.arity with
      | leaf => exact Label.reads_leaf harity subs ▸ Nat.zero_le _
      | one =>
        rw [Label.reads_one harity]
        conv_rhs => rw [← List.take_append_drop 1 subs, total_append]
        exact Nat.le_add_right _ _
      | many => rw [Label.reads_many harity]
    rw [weigh_node, mass_node]
    omega

theorem total_massOf_le (ts : List Tree) : total massOf ts ≤ (ts.map mass).foldr (· + ·) 0 :=
  total_massOf_le_of fun t _ => weigh_massOf_le t

end RegexTree.Tree
