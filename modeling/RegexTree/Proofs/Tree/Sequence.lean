/-
  Sequences: what splicing and joining keep.

  A sequence is made in two steps.  Sequences among the pieces are spliced in, and then neighbouring
  literals are joined (`flatParts`), from the last to the first, so that each step puts one piece in
  front of a list that is joined already (`consJoined`).  After it no two neighbours can be joined
  (`joinLiterals_unjoinable`), and a list of which that holds is left as it is
  (`joinLiterals_eq_self`).

  Two kinds of facts go through these steps, and each is packaged once.

  * What holds of trees: `KeptByParts` asks that the parts of a sequence have the property and two
    literals that are joined have it, and `Kept` that sequences and choices do and the two parts of
    a literal that is cut.  Then all that the reader makes of such trees has it.
  * What is computed from a list of pieces: `SequenceLaw` says of a function that it sees neither
    where a sequence is spliced nor where two literals are joined or one is cut, and
    `SequenceLaw.sequence` concludes that it takes the same value at the sequence of the pieces.

  Captures, copies, weights, runes that are matched and results of matching are such functions.
  Functions whose values are compared by another relation than equality are treated with choices.
-/
import RegexTree.Parse.Assembly
import Mathlib.Data.List.Chain

namespace RegexTree.Tree

open Assembly (bare)

/-! ## Literals that could be one -/

/-- Two literals can be joined if they fold alike. -/
theorem canJoin_iff {a b : Tree} :
    canJoin a b = true ↔
      a.op = .literal ∧ b.op = .literal ∧ a.flags.foldCase = b.flags.foldCase := by
  simp only [canJoin, Bool.and_eq_true, beq_iff_eq, and_assoc]

theorem joined_node (l : Label) (subs : List Tree) (b : Tree) :
    joined (node l subs) b = node { l with runes := l.runes ++ b.runes } subs := rfl

@[simp] theorem joined_op (a b : Tree) : (joined a b).op = a.op := by
  cases a
  rfl

@[simp] theorem joined_flags (a b : Tree) : (joined a b).flags = a.flags := by
  cases a
  rfl

@[simp] theorem joined_runes (a b : Tree) : (joined a b).runes = a.runes ++ b.runes := by
  cases a
  rfl

@[simp] theorem joined_subs (a b : Tree) : (joined a b).subs = a.subs := by
  cases a
  rfl

/-- What a literal can be joined with does not change when it is joined. -/
theorem canJoin_joined {a b : Tree} (h : canJoin a b = true) (c : Tree) :
    canJoin (joined a b) c = canJoin b c := by
  obtain ⟨ha, hb, hf⟩ := canJoin_iff.mp h
  simp only [canJoin, joined_op, joined_flags, ha, hb, hf]

/-- A literal in front of one that it can be joined to. -/
theorem consJoined_join {t u : Tree} {rest : List Tree} (h : canJoin t u = true) :
    consJoined t (u :: rest) = joined t u :: rest := by
  rw [consJoined, if_pos h]

theorem consJoined_apart {t : Tree} {rest : List Tree} (h : ∀ u ∈ rest.head?, canJoin t u = false) :
    consJoined t rest = t :: rest := by
  cases rest with
  | nil => rfl
  | cons u rest =>
    have hu := h u rfl
    rw [consJoined, if_neg (by rw [hu]; exact Bool.false_ne_true)]

theorem joinLiterals_cons (t : Tree) (rest : List Tree) :
    joinLiterals (t :: rest) = consJoined t (joinLiterals rest) := rfl

theorem consJoined_ne_nil (t : Tree) (rest : List Tree) : consJoined t rest ≠ [] := by
  cases rest with
  | nil => exact List.cons_ne_nil t []
  | cons u rest =>
    rw [consJoined]
    split <;> exact List.cons_ne_nil _ _

theorem joinLiterals_ne_nil {pieces : List Tree} (h : pieces ≠ []) : joinLiterals pieces ≠ [] := by
  cases pieces with
  | nil => exact absurd rfl h
  | cons t rest => exact consJoined_ne_nil t _

/-- No two neighbours could be one. -/
abbrev Unjoinable (pieces : List Tree) : Prop := pieces.IsChain fun a b => canJoin a b = false

/-- The first piece cannot be joined to the second, and so on. -/
theorem unjoinable_cons {t : Tree} {rest : List Tree} :
    Unjoinable (t :: rest) ↔ (∀ u ∈ rest.head?, canJoin t u = false) ∧ Unjoinable rest :=
  List.isChain_cons

/-- After joining no two neighbours can be joined; a literal that was joined folds as before, so it
    is the last one of its kind still. -/
theorem joinLiterals_unjoinable (pieces : List Tree) : Unjoinable (joinLiterals pieces) := by
  induction pieces with
  | nil => exact List.isChain_nil
  | cons t rest ih =>
    rw [joinLiterals_cons]
    cases hrest : joinLiterals rest with
    | nil => exact List.isChain_singleton t
    | cons u more =>
      rw [hrest] at ih
      cases h : canJoin t u with
      | true =>
        rw [consJoined_join h]
        rw [unjoinable_cons] at ih ⊢
        refine ⟨fun v hv => ?_, ih.2⟩
        rw [canJoin_joined h]
        exact ih.1 v hv
      | false =>
        rw [consJoined, if_neg (by rw [h]; exact Bool.false_ne_true)]
        exact ih.cons_cons h

/-- Pieces that cannot be joined are left as they are. -/
theorem joinLiterals_eq_self {pieces : List Tree} (h : Unjoinable pieces) :
    joinLiterals pieces = pieces := by
  induction pieces with
  | nil => rfl
  | cons t rest ih =>
    rw [unjoinable_cons] at h
    rw [joinLiterals_cons, ih h.2, consJoined_apart h.1]

/-! ## Parts -/

theorem spliced_of_op {op : Op} {t : Tree} (h : t.op = op) : spliced op t = t.subs := if_pos h

theorem spliced_of_ne {op : Op} {t : Tree} (h : t.op ≠ op) : spliced op t = [t] := if_neg h

/-- The parts of the sequence of the pieces: no sequences among them, and joined literals. -/
def flatParts (pieces : List Tree) : List Tree := joinLiterals (pieces.flatMap (spliced .concat))

/-- A sequence of several pieces is a node over their parts, or the one part that they come to. -/
theorem sequence_many {pieces : List Tree} (h : 2 ≤ pieces.length) :
    sequence pieces = bare .concat (flatParts pieces) := by
  match pieces, h with
  | a :: b :: rest, _ =>
    simp only [sequence, flatParts]
    rfl

/-- A bare node over parts is the only part, or a node over other than one part. -/
theorem bare_cases {P : List Tree → Tree → Prop} {op : Op} (hone : ∀ t, P [t] t)
    (hmany : ∀ parts, parts.length ≠ 1 → P parts (branching op parts)) (parts : List Tree) :
    P parts (bare op parts) := by
  match parts with
  | [] => exact hmany [] (by decide)
  | [t] => exact hone t
  | a :: b :: rest => exact hmany (a :: b :: rest) (by simp)

theorem bare_of_two_le {op : Op} {parts : List Tree} (h : 2 ≤ parts.length) :
    bare op parts = branching op parts := by
  revert h
  refine bare_cases (P := fun parts t => 2 ≤ parts.length → t = branching op parts) ?_ ?_ parts
  · intro t h
    exact absurd h (by simp)
  · exact fun _ _ _ => rfl

/-! ## What holds of the parts -/

/-- What holds of the empty match and passes from a sequence to its parts, and from two literals to
    the one made of them. -/
structure KeptByParts (Q : Tree → Prop) : Prop where
  empty : Q Tree.empty
  subs : ∀ t, Q t → t.op = .concat → ∀ s ∈ t.subs, Q s
  joined : ∀ t u, Q t → Q u → canJoin t u = true → Q (joined t u)

/-- What holds of every sequence or choice of trees of which it holds, and of the two parts into
    which a literal is cut. -/
structure Kept (Q : Tree → Prop) : Prop extends KeptByParts Q where
  branches : ∀ t, Q t → t.op = .alternate → ∀ s ∈ t.subs, Q s
  many : ∀ l subs, l.op.arity = .many → (∀ t ∈ subs, Q t) → Q (node l subs)
  begun : ∀ t s, Q t → t.op = .literal → s <+: t.runes → s ≠ [] →
    Q (literal s { foldCase := t.flags.foldCase })
  dropped : ∀ t n, Q t → t.op = .literal → Q (dropRunes n t)

theorem kept_any : Kept fun _ => True where
  empty := trivial
  subs _ _ _ _ _ := trivial
  joined _ _ _ _ _ := trivial
  branches _ _ _ _ _ := trivial
  many _ _ _ _ := trivial
  begun _ _ _ _ _ _ := trivial
  dropped _ _ _ _ := trivial

section

variable {Q : Tree → Prop} (hQ : KeptByParts Q)

include hQ

/-- What holds of the pieces, and passes to the parts of a sequence, holds of what they are spliced
    to. -/
theorem forall_spliced {pieces : List Tree} (h : ∀ t ∈ pieces, Q t) :
    ∀ t ∈ pieces.flatMap (spliced .concat), Q t := by
  intro t ht
  obtain ⟨u, hu, htu⟩ := List.mem_flatMap.mp ht
  by_cases hop : u.op = .concat
  · rw [spliced_of_op hop] at htu
    exact hQ.subs u (h u hu) hop t htu
  · rw [spliced_of_ne hop, List.mem_singleton] at htu
    exact htu ▸ h u hu

/-- What passes to a literal that is made of two holds of all pieces when literals are joined. -/
theorem forall_joinLiterals {pieces : List Tree} (h : ∀ t ∈ pieces, Q t) :
    ∀ t ∈ joinLiterals pieces, Q t := by
  induction pieces with
  | nil =>
    intro t ht
    cases ht
  | cons t rest ih =>
    obtain ⟨ht, hrest⟩ := List.forall_mem_cons.mp h
    rw [joinLiterals_cons]
    cases hj : joinLiterals rest with
    | nil => exact List.forall_mem_singleton.mpr ht
    | cons u more =>
      obtain ⟨hu, hmore⟩ := List.forall_mem_cons.mp (hj ▸ ih hrest)
      rw [consJoined]
      split
      · next hcan => exact List.forall_mem_cons.mpr ⟨hQ.joined t u ht hu hcan, hmore⟩
      · exact List.forall_mem_cons.mpr ⟨ht, List.forall_mem_cons.mpr ⟨hu, hmore⟩⟩

theorem forall_flatParts {pieces : List Tree} (h : ∀ t ∈ pieces, Q t) :
    ∀ t ∈ flatParts pieces, Q t :=
  forall_joinLiterals hQ (forall_spliced hQ h)

end

namespace Kept

variable {Q : Tree → Prop} (hQ : Kept Q)

include hQ

theorem bare {op : Op} (harity : op.arity = .many) {parts : List Tree} (h : ∀ t ∈ parts, Q t) :
    Q (Assembly.bare op parts) := by
  match parts, h with
  | [], h => exact hQ.many _ _ harity h
  | [t], h => exact h t List.mem_cons_self
  | _ :: _ :: _, h => exact hQ.many _ _ harity h

/-- It holds of the sequence of trees of which it holds. -/
theorem sequence {pieces : List Tree} (h : ∀ t ∈ pieces, Q t) : Q (Tree.sequence pieces) := by
  match pieces, h with
  | [], _ => exact hQ.empty
  | [t], h => exact h t List.mem_cons_self
  | a :: b :: rest, h =>
    rw [sequence_many (by simp)]
    exact hQ.bare rfl (forall_flatParts hQ.toKeptByParts h)

theorem remaining {l : Label} (hop : l.op = .concat) {rest : List Tree} (h : ∀ t ∈ rest, Q t) :
    Q (Tree.remaining l rest) := by
  match rest, h with
  | [], _ => exact hQ.empty
  | [t], h => exact h t List.mem_cons_self
  | _ :: _ :: _, h => exact hQ.many _ _ (by rw [hop]; rfl) h

end Kept

/-! ## What is computed from the pieces -/

/-- `F` computes something of a list of pieces, and does not see how the pieces are put: sequences
    among them, empty matches, and where a literal ends and the next one begins.  `Q` is what has
    to hold of the pieces for that. -/
structure SequenceLaw {β : Type} (Q : Tree → Prop) (F : List Tree → β) : Prop where
  kept : Kept Q
  tail : ∀ t ps qs, F ps = F qs → F (t :: ps) = F (t :: qs)
  spliced : ∀ l subs rest, l.op = .concat → F (subs ++ rest) = F (node l subs :: rest)
  empty : ∀ l subs rest, l.op = .emptyMatch → Q (node l subs) → F (node l subs :: rest) = F rest
  joined : ∀ t u rest, Q t → Q u → canJoin t u = true → F (joined t u :: rest) = F (t :: u :: rest)
  split : ∀ t s rest, Q t → t.op = .literal → s <+: t.runes → s ≠ [] →
    F (literal s { foldCase := t.flags.foldCase } :: dropRunes s.length t :: rest) = F (t :: rest)

namespace SequenceLaw

variable {β : Type} {Q : Tree → Prop} {F : List Tree → β} (hF : SequenceLaw Q F)

include hF

/-- Splicing does not change what is computed, by induction on the pieces. -/
theorem flatMap_spliced (pieces : List Tree) :
    F (pieces.flatMap (Tree.spliced .concat)) = F pieces := by
  induction pieces with
  | nil => rfl
  | cons t rest ih =>
    rw [List.flatMap_cons]
    by_cases hop : t.op = .concat
    · obtain ⟨l, subs⟩ := t
      rw [spliced_of_op hop, subs_node, hF.spliced l subs _ hop]
      exact hF.tail _ _ _ ih
    · rw [spliced_of_ne hop]
      exact hF.tail _ _ _ ih

theorem joinLiterals {pieces : List Tree} (h : ∀ t ∈ pieces, Q t) :
    F (Tree.joinLiterals pieces) = F pieces := by
  induction pieces with
  | nil => rfl
  | cons t rest ih =>
    obtain ⟨ht, hrest⟩ := List.forall_mem_cons.mp h
    rw [joinLiterals_cons, ← hF.tail t _ _ (ih hrest)]
    cases hj : Tree.joinLiterals rest with
    | nil => rfl
    | cons u more =>
      rw [consJoined]
      split
      · next hcan =>
        have hu : Q u := forall_joinLiterals hF.kept.toKeptByParts hrest u (hj ▸ List.mem_cons_self)
        exact hF.joined t u more ht hu hcan
      · rfl

theorem flatParts {pieces : List Tree} (h : ∀ t ∈ pieces, Q t) :
    F (Tree.flatParts pieces) = F pieces := by
  rw [Tree.flatParts, hF.joinLiterals (forall_spliced hF.kept.toKeptByParts h), hF.flatMap_spliced]

theorem bare (parts : List Tree) : F [Assembly.bare .concat parts] = F parts := by
  refine bare_cases (P := fun parts t => F [t] = F parts) (fun _ => rfl) (fun parts _ => ?_) parts
  rw [branching, ← hF.spliced { op := .concat } parts [] rfl, List.append_nil]

/-- The sequence of the pieces has the same of it as the pieces. -/
theorem sequence {pieces : List Tree} (h : ∀ t ∈ pieces, Q t) :
    F [Tree.sequence pieces] = F pieces := by
  match pieces, h with
  | [], _ => exact hF.empty { op := .emptyMatch } [] [] rfl hF.kept.empty
  | [t], _ => rfl
  | a :: b :: rest, h =>
    rw [sequence_many (by simp), hF.bare, hF.flatParts h]

/-- What is left of a sequence counts as the parts that are left. -/
theorem remaining {l : Label} (hop : l.op = .concat) (pieces rest : List Tree) :
    F (Tree.remaining l pieces :: rest) = F (pieces ++ rest) := by
  match pieces with
  | [] => exact hF.empty { op := .emptyMatch } [] rest rfl hF.kept.empty
  | [t] => rfl
  | a :: b :: more => exact (hF.spliced l (a :: b :: more) rest hop).symm

end SequenceLaw

end RegexTree.Tree
