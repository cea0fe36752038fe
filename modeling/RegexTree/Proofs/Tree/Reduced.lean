/-
  Reduced trees, and the operations that keep them so.

  A tree is reduced if there is nothing left in it to put together or to take out: sequences and
  choices are neither nested nor of one part, no two neighbours in a sequence are literals that
  could be one, no two neighbours in a choice begin with something that could be taken out of them
  (`Apart`), and no literal is without runes (`ReducedNode`).

  A sequence of reduced pieces is reduced (`sequence_reduced`): splicing takes out the sequences
  among the pieces, whose parts are no sequences themselves, and joining leaves no neighbours that
  could be one.  Empty matches do not have to be dropped for that, and they are not.

  For a choice more is needed, since its branches lose what they begin with before they are put
  together again.  A branch that has lost that is reduced still (`dropLeadingText_reduced`,
  `dropLeadingPiece_reduced`): if a literal is cut short it stays a literal that folds as before, so
  it can be joined to its neighbour no more than before (`canJoin_dropRunes`), and if it is used up
  the rest are parts that were neighbours already.  What the choice makes of those branches is
  proved in the module on reduced choices.
-/
import RegexTree.Proofs.Tree.Shape
import RegexTree.Tree.Equal

namespace RegexTree.Tree

/-! ## What is reduced -/

/-- The first rune of the literal that a branch begins with, and whether it folds. -/
def firstRune? (t : Tree) : Option (Bool × Nat) :=
  t.leadingText.2.head?.map fun r => (t.leadingText.1, r)

/-- The branches share no beginning: neither the first rune of literals that both fold or both do
    not, nor a piece of fixed width. -/
structure Apart (a b : Tree) : Prop where
  text : ∀ r ∈ a.firstRune?, r ∉ b.firstRune?
  piece : ∀ p ∈ a.leadingPiece?, ∀ q ∈ b.leadingPiece?, p.isFixedWidth = true → p.equal q = false

/-- A node of a reduced tree. -/
structure ReducedNode (l : Label) (subs : List Tree) : Prop where
  operand : HasOperand l subs
  parts : l.op.arity = .many → 2 ≤ subs.length
  notNested : l.op.arity = .many → ∀ t ∈ subs, t.op ≠ l.op
  /-- Neighbours in a sequence are not literals that both fold or both do not. -/
  unjoinable : l.op = .concat → Unjoinable subs
  /-- Neighbours in a choice have no beginning in common. -/
  factored : l.op = .alternate → subs.IsChain Apart
  text : l.op = .literal → l.runes ≠ []

/-- Every node of the tree is reduced. -/
abbrev Reduced (t : Tree) : Prop := t.Everywhere ReducedNode

/-- A leaf is reduced, unless it is a literal without runes. -/
theorem leaf_reduced {l : Label} {subs : List Tree} (harity : l.op.arity = .leaf)
    (htext : l.op = .literal → l.runes ≠ []) (hsubs : ∀ t ∈ subs, t.Reduced) :
    (node l subs).Reduced := by
  refine everywhere_node.mpr ⟨⟨?_, ?_, ?_, ?_, ?_, htext⟩, hsubs⟩
  all_goals
    intro h
    rw [h] at harity
    contradiction

theorem empty_reduced : empty.Reduced :=
  leaf_reduced rfl (fun h => nomatch h) fun _ ht => absurd ht List.not_mem_nil

theorem literal_reduced {runes : List Nat} (h : runes ≠ []) (flags : Flags) :
    (literal runes flags).Reduced :=
  leaf_reduced rfl (fun _ => h) fun _ ht => absurd ht List.not_mem_nil

namespace Reduced

variable {t : Tree} (ht : t.Reduced)

include ht

theorem operands : t.Everywhere HasOperand := ht.imp fun _ _ h => h.operand

/-- A sequence or a choice has at least two children. -/
theorem two_le_length (harity : t.op.arity = .many) : 2 ≤ t.subs.length := ht.here.parts harity

theorem runes_ne_nil (hop : t.op = .literal) : t.runes ≠ [] := ht.here.text hop

end Reduced

/-- A node over parts that are not nested and, in a sequence, not joinable, or, in a choice, share
    no beginnings, is reduced. -/
theorem many_reduced {l : Label} {parts : List Tree} (harity : l.op.arity = .many)
    (hparts : ∀ t ∈ parts, t.Reduced) (hlen : 2 ≤ parts.length) (hop : ∀ t ∈ parts, t.op ≠ l.op)
    (hun : l.op = .concat → Unjoinable parts) (hfac : l.op = .alternate → parts.IsChain Apart) :
    (node l parts).Reduced := by
  refine everywhere_node.mpr ⟨⟨?_, fun _ => hlen, fun _ => hop, hun, hfac, ?_⟩, hparts⟩
  · intro h
    rw [harity] at h
    cases h
  · intro h
    rw [h] at harity
    cases harity

/-- A sequence of several reduced pieces, none of which is a sequence or can be joined to the
    next. -/
theorem concat_reduced {l : Label} {parts : List Tree} (hop : l.op = .concat)
    (hparts : ∀ t ∈ parts, t.Reduced) (hlen : 2 ≤ parts.length)
    (hne : ∀ t ∈ parts, t.op ≠ .concat) (hun : Unjoinable parts) : (node l parts).Reduced := by
  refine many_reduced (by rw [hop]; rfl) hparts hlen ?_ (fun _ => hun) fun h => ?_
  · rw [hop]
    exact hne
  · rw [hop] at h
    cases h

/-! ## Sequences -/

/-- A literal that was joined is one with more runes. -/
theorem joined_reduced {t u : Tree} (ht : t.Reduced) (h : canJoin t u = true) :
    (joined t u).Reduced := by
  have hop := (canJoin_iff.mp h).1
  have hrunes := ht.runes_ne_nil hop
  obtain ⟨l, subs⟩ := t
  rw [op_node] at hop
  have hleaf : l.op.arity = .leaf := by
    rw [hop]
    rfl
  have hjoined := List.append_ne_nil_of_left_ne_nil hrunes u.runes
  exact leaf_reduced hleaf (fun _ => hjoined) fun s hs => ht.below hs

/-- Being reduced passes to the parts of a sequence. -/
theorem kept_reduced : KeptByParts Reduced where
  empty := empty_reduced
  subs _ ht _ _ hs := ht.below hs
  joined _ _ ht _ h := joined_reduced ht h

/-- What is spliced into a sequence is no sequence. -/
theorem op_ne_of_mem_spliced {op : Op} (harity : op.arity = .many) {t s : Tree} (ht : t.Reduced)
    (hs : s ∈ spliced op t) : s.op ≠ op := by
  by_cases hop : t.op = op
  · rw [spliced_of_op hop] at hs
    have hnest := ht.here.notNested (by rw [show t.label.op = op from hop]; exact harity) s hs
    rwa [show t.label.op = op from hop] at hnest
  · rw [spliced_of_ne hop, List.mem_singleton] at hs
    exact hs ▸ hop

theorem reduced_of_mem_spliced {op : Op} {t s : Tree} (ht : t.Reduced) (hs : s ∈ spliced op t) :
    s.Reduced := by
  by_cases hop : t.op = op
  · rw [spliced_of_op hop] at hs
    exact ht.below hs
  · rw [spliced_of_ne hop, List.mem_singleton] at hs
    exact hs ▸ ht

/-- Splicing does not lose a piece. -/
theorem length_le_flatMap_spliced {op : Op} (harity : op.arity = .many) {pieces : List Tree}
    (h : ∀ t ∈ pieces, t.Reduced) : pieces.length ≤ (pieces.flatMap (spliced op)).length := by
  induction pieces with
  | nil => exact Nat.le_refl 0
  | cons t rest ih =>
    obtain ⟨ht, hrest⟩ := List.forall_mem_cons.mp h
    have hone : 1 ≤ (spliced op t).length := by
      by_cases hop : t.op = op
      · rw [spliced_of_op hop]
        have := ht.two_le_length (by rw [hop]; exact harity)
        omega
      · rw [spliced_of_ne hop]
        exact Nat.le_refl 1
    have := ih hrest
    rw [List.flatMap_cons, List.length_append, List.length_cons]
    omega

/-- The parts that a sequence is made of are reduced, and no sequences. -/
theorem flatParts_reduced {pieces : List Tree} (h : ∀ t ∈ pieces, t.Reduced) :
    ∀ t ∈ flatParts pieces, t.Reduced ∧ t.op ≠ .concat := by
  have hkept : KeptByParts fun t => t.Reduced ∧ t.op ≠ .concat := by
    refine ⟨⟨empty_reduced, by decide⟩, fun t ht hop => absurd hop ht.2, ?_⟩
    rintro t u ⟨ht, hop⟩ - hcan
    exact ⟨joined_reduced ht hcan, by rwa [joined_op]⟩
  refine forall_joinLiterals hkept fun t ht => ?_
  obtain ⟨u, hu, htu⟩ := List.mem_flatMap.mp ht
  exact ⟨reduced_of_mem_spliced (h u hu) htu, op_ne_of_mem_spliced rfl (h u hu) htu⟩

theorem flatParts_ne_nil {pieces : List Tree} (h : ∀ t ∈ pieces, t.Reduced) (hne : pieces ≠ []) :
    flatParts pieces ≠ [] := by
  refine joinLiterals_ne_nil fun hnil => ?_
  have hlen := length_le_flatMap_spliced (show Op.concat.arity = .many from rfl) h
  rw [hnil, List.length_nil, Nat.le_zero, List.length_eq_zero_iff] at hlen
  exact hne hlen

/-- A sequence of reduced pieces is reduced. -/
theorem sequence_reduced {pieces : List Tree} (h : ∀ t ∈ pieces, t.Reduced) :
    (sequence pieces).Reduced := by
  match pieces, h with
  | [], _ => exact empty_reduced
  | [t], h => exact h t List.mem_cons_self
  | a :: b :: rest, h =>
    have hparts := flatParts_reduced h
    have hne := flatParts_ne_nil h (List.cons_ne_nil a _)
    rw [sequence_many (by simp)]
    revert hparts hne
    generalize hflat : flatParts (a :: b :: rest) = parts
    have hun : Unjoinable parts := hflat ▸ joinLiterals_unjoinable _
    intro hparts hne
    match parts with
    | [] => exact absurd rfl hne
    | [t] => exact (hparts t List.mem_cons_self).1
    | c :: d :: more =>
      exact concat_reduced rfl (fun t ht => (hparts t ht).1) (by simp)
        (fun t ht => (hparts t ht).2) hun

/-- Where at least two pieces become one part, that is a literal. -/
theorem op_of_joinLiterals_eq {pieces : List Tree} {t : Tree} (hlen : 2 ≤ pieces.length)
    (h : joinLiterals pieces = [t]) : t.op = .literal := by
  match pieces, hlen with
  | a :: b :: rest, _ =>
    rw [joinLiterals_cons] at h
    cases hj : joinLiterals (b :: rest) with
    | nil => exact absurd hj (consJoined_ne_nil b _)
    | cons u more =>
      rw [hj, consJoined] at h
      split at h
      · next hcan =>
        injection h with h
        rw [← h, joined_op]
        exact (canJoin_iff.mp hcan).1
      · injection h with _ h
        cases h

/-- The sequence of at least two reduced pieces is a sequence or a literal. -/
theorem op_sequence {pieces : List Tree} (h : ∀ t ∈ pieces, t.Reduced)
    (hlen : 2 ≤ pieces.length) :
    (sequence pieces).op = .concat ∨ (sequence pieces).op = .literal := by
  rw [sequence_many hlen]
  have hflat : ∀ t, flatParts pieces = [t] → t.op = .literal := fun t =>
    op_of_joinLiterals_eq (Nat.le_trans hlen (length_le_flatMap_spliced rfl h))
  revert hflat
  generalize flatParts pieces = parts
  intro hflat
  match parts with
  | [] => exact Or.inl rfl
  | [t] => exact Or.inr (hflat t rfl)
  | _ :: _ :: _ => exact Or.inl rfl

/-! ## Branches that lost what they begin with -/

/-- A literal that is cut short is a literal or an empty match. -/
theorem dropRunes_reduced (n : Nat) {t : Tree} (ht : t.Reduced) : (dropRunes n t).Reduced := by
  by_cases hop : t.op = .literal
  · rw [dropRunes_literal hop]
    split
    · exact leaf_reduced rfl (fun h => nomatch h) fun s hs => ht.below hs
    · next hlong =>
      refine leaf_reduced rfl (fun _ h => ?_) fun s hs => ht.below hs
      exact hlong (List.drop_eq_nil_iff.mp h)
  · rw [dropRunes_of_ne hop]
    exact ht

/-- A literal that is cut short can be joined to the same literals as before. -/
theorem canJoin_dropRunes {n : Nat} {t : Tree} (h : (dropRunes n t).op ≠ .emptyMatch) (u : Tree) :
    canJoin (dropRunes n t) u = canJoin t u := by
  by_cases hop : t.op = .literal
  · rcases dropRunes_cases hop n with ⟨-, hop'⟩ | ⟨-, hop'⟩
    · exact absurd hop' h
    · simp only [canJoin, hop, hop', dropRunes_flags]
  · rw [dropRunes_of_ne hop]

/-- What is left of a sequence is reduced. -/
theorem remaining_reduced {l : Label} {rest : List Tree} (hop : l.op = .concat)
    (hrest : ∀ t ∈ rest, t.Reduced) (hne : ∀ t ∈ rest, t.op ≠ .concat) (hun : Unjoinable rest) :
    (remaining l rest).Reduced := by
  match rest with
  | [] => exact empty_reduced
  | [t] => exact hrest t List.mem_cons_self
  | a :: b :: more => exact concat_reduced hop hrest (by simp) hne hun

/-- A branch without the first runes of its literal is reduced. -/
theorem dropLeadingText_reduced (n : Nat) {t : Tree} (ht : t.Reduced) :
    (dropLeadingText n t).Reduced := by
  by_cases hop : t.op = .concat
  · obtain ⟨l, subs⟩ := t
    rw [op_node] at hop
    obtain ⟨hhere, hsubs⟩ := everywhere_node.mp ht
    have hnest := hhere.notNested (by rw [hop]; rfl)
    have hun := hhere.unjoinable hop
    have hlen := ht.two_le_length (by rw [op_node, hop]; rfl)
    rw [hop] at hnest
    match subs, hlen with
    | first :: rest, hlen =>
      obtain ⟨hfirst, hrest⟩ := List.forall_mem_cons.mp hsubs
      rw [unjoinable_cons] at hun
      rw [dropLeadingText_concat hop]
      split
      · exact remaining_reduced hop hrest (fun u hu => hnest u (List.mem_cons_of_mem _ hu)) hun.2
      · next hkeep =>
        refine concat_reduced hop ?_ hlen ?_ ?_
        · exact List.forall_mem_cons.mpr ⟨dropRunes_reduced n hfirst, hrest⟩
        · refine List.forall_mem_cons.mpr ⟨?_, fun u hu => hnest u (List.mem_cons_of_mem _ hu)⟩
          by_cases hlit : first.op = .literal
          · rw [dropRunes_literal hlit, op_node]
            split <;> simp
          · rw [dropRunes_of_ne hlit]
            exact hnest first List.mem_cons_self
        · refine unjoinable_cons.mpr ⟨fun u hu => ?_, hun.2⟩
          rw [canJoin_dropRunes hkeep]
          exact hun.1 u hu
  · rw [dropLeadingText_of_ne hop]
    exact dropRunes_reduced n ht

/-- A branch without its first piece is reduced. -/
theorem dropLeadingPiece_reduced {t : Tree} (ht : t.Reduced) : (dropLeadingPiece t).Reduced := by
  rw [dropLeadingPiece]
  split
  · next hop =>
    have hnest := ht.here.notNested (by rw [show t.label.op = .concat from hop]; rfl)
    rw [show t.label.op = .concat from hop] at hnest
    refine remaining_reduced hop ?_ ?_ (ht.here.unjoinable hop).tail
    · exact fun u hu => ht.below (List.mem_of_mem_tail hu)
    · exact fun u hu => hnest u (List.mem_of_mem_tail hu)
  · exact empty_reduced

end RegexTree.Tree
