/-
  What a branch begins with, and what is left without it.

  A branch that begins with a literal is that literal, or a sequence with the literal in front
  (`leadingText_cases`).  Factoring cuts some runes off that literal, and if none is left, the
  literal with them; or it cuts off the first piece as a whole.  What is left of a sequence is a
  sequence without its first part, its second part alone, or nothing (`remaining`), and what is left
  of anything else is an empty match.

  Cutting the beginning off loses nothing: what is computed from the beginning and the rest is what
  is computed from the branch, for every function of lists of parts that follows the laws of
  sequences (`SequenceLaw.dropLeadingText`, `SequenceLaw.dropLeadingPiece`).  And it makes nothing
  that was not there: what is kept by the parts of a tree is kept by the beginning and the rest
  (`Kept.leadingText`, `Kept.dropLeadingText`, `Kept.dropLeadingPiece`).

  Those four are all that is used of beginnings when choices are factored.
-/
import RegexTree.Proofs.Tree.Sequence

namespace RegexTree.Tree

/-! ## Dropping runes -/

theorem dropRunes_of_ne {n : Nat} {t : Tree} (h : t.op ≠ .literal) : dropRunes n t = t := if_neg h

/-- A literal keeps the runes that are not dropped, and is an empty match if that is none. -/
theorem dropRunes_literal {t : Tree} (hop : t.op = .literal) (n : Nat) :
    dropRunes n t =
      node { t.label with
        op := if t.runes.length ≤ n then .emptyMatch else .literal
        runes := t.runes.drop n } t.subs := by
  rw [dropRunes, if_pos hop]
  cases t
  rfl

@[simp] theorem dropRunes_flags (n : Nat) (t : Tree) : (dropRunes n t).flags = t.flags := by
  by_cases hop : t.op = .literal
  · rw [dropRunes_literal hop]
    rfl
  · rw [dropRunes_of_ne hop]

@[simp] theorem dropRunes_subs (n : Nat) (t : Tree) : (dropRunes n t).subs = t.subs := by
  by_cases hop : t.op = .literal
  · rw [dropRunes_literal hop]
    rfl
  · rw [dropRunes_of_ne hop]

/-- The runes that are left are the last ones. -/
theorem dropRunes_runes {t : Tree} (hop : t.op = .literal) (n : Nat) :
    (dropRunes n t).runes = t.runes.drop n := by
  rw [dropRunes_literal hop]
  rfl

/-- A literal without some of its runes is empty, or a literal still. -/
theorem dropRunes_cases {t : Tree} (hop : t.op = .literal) (n : Nat) :
    (t.runes.length ≤ n ∧ (dropRunes n t).op = .emptyMatch) ∨
      (n < t.runes.length ∧ (dropRunes n t).op = .literal) := by
  rw [dropRunes_literal hop, op_node]
  split
  · next hshort => exact Or.inl ⟨hshort, rfl⟩
  · next hlong => exact Or.inr ⟨Nat.lt_of_not_le hlong, rfl⟩

/-- What is left of a literal is a leaf. -/
theorem arity_dropRunes {t : Tree} (hop : t.op = .literal) (n : Nat) :
    (dropRunes n t).op.arity = .leaf := by
  rcases dropRunes_cases hop n with ⟨-, h⟩ | ⟨-, h⟩
  · rw [h]
    rfl
  · rw [h]
    rfl

/-! ## The literal in front -/

theorem front_of_ne {t : Tree} (h : t.op ≠ .concat) : t.front = t := if_neg h

/-- The front of a sequence is its first part. -/
theorem front_node_cons {l : Label} (hop : l.op = .concat) (first : Tree) (rest : List Tree) :
    (node l (first :: rest)).front = first := if_pos hop

/-- A branch with a literal in front begins with its runes. -/
theorem leadingText_of_front {t : Tree} (h : t.front.op = .literal) :
    t.leadingText = (t.front.flags.foldCase, t.front.runes) := if_pos h

theorem leadingText_of_ne {t : Tree} (h : t.front.op ≠ .literal) : t.leadingText = (false, []) :=
  if_neg h

/-- A branch that begins with runes is a literal, or a sequence that begins with one. -/
theorem leadingText_cases {t : Tree} (h : t.leadingText.2 ≠ []) :
    (t.op = .literal ∧ t.leadingText = (t.flags.foldCase, t.runes)) ∨
      ∃ l first rest, t = node l (first :: rest) ∧ l.op = .concat ∧ first.op = .literal ∧
        t.leadingText = (first.flags.foldCase, first.runes) := by
  have hfront : t.front.op = .literal := by
    by_cases hop : t.front.op = .literal
    · exact hop
    · rw [leadingText_of_ne hop] at h
      exact absurd rfl h
  have htext := leadingText_of_front hfront
  by_cases hop : t.op = .concat
  · obtain ⟨l, subs⟩ := t
    rw [op_node] at hop
    cases subs with
    | nil =>
      rw [show (node l []).front = node l [] by simp [front], op_node, hop] at hfront
      cases hfront
    | cons first rest =>
      rw [front_node_cons hop] at hfront htext
      exact Or.inr ⟨l, first, rest, rfl, hop, hfront, htext⟩
  · rw [front_of_ne hop] at hfront htext
    exact Or.inl ⟨hfront, htext⟩

theorem dropLeadingText_of_ne {n : Nat} {t : Tree} (h : t.op ≠ .concat) :
    dropLeadingText n t = dropRunes n t := if_neg h

/-- A sequence loses runes of its first part, and that part if no rune is left. -/
theorem dropLeadingText_concat {l : Label} (hop : l.op = .concat) (n : Nat) (first : Tree)
    (rest : List Tree) :
    dropLeadingText n (node l (first :: rest)) =
      if (dropRunes n first).op = .emptyMatch then remaining l rest
      else node l (dropRunes n first :: rest) := if_pos hop

/-! ## The piece in front -/

/-- A branch has a first piece unless it is empty or begins with what is. -/
theorem leadingPiece?_eq_some {t p : Tree} (h : t.leadingPiece? = some p) :
    p = t.front ∧ t.op ≠ .emptyMatch ∧ t.front.op ≠ .emptyMatch := by
  rw [leadingPiece?] at h
  split at h
  · cases h
  · next hne =>
    cases h
    rw [not_or] at hne
    exact ⟨rfl, hne.1, hne.2⟩

theorem dropLeadingPiece_of_ne {t : Tree} (h : t.op ≠ .concat) : dropLeadingPiece t = empty :=
  if_neg h

/-- A sequence loses its first part. -/
theorem dropLeadingPiece_concat {l : Label} (hop : l.op = .concat) (subs : List Tree) :
    dropLeadingPiece (node l subs) = remaining l subs.tail := if_pos hop

/-! ## What is kept -/

/-- What is kept by parts is kept by the front. -/
theorem KeptByParts.front {Q : Tree → Prop} (hQ : KeptByParts Q) {t : Tree} (ht : Q t) :
    Q t.front := by
  by_cases hop : t.op = .concat
  · obtain ⟨l, subs⟩ := t
    rw [op_node] at hop
    cases subs with
    | nil => rwa [show (node l []).front = node l [] by simp [Tree.front]]
    | cons first rest =>
      rw [front_node_cons hop]
      exact hQ.subs _ ht hop first List.mem_cons_self
  · rwa [front_of_ne hop]

namespace Kept

variable {Q : Tree → Prop} (hQ : Kept Q)

include hQ

/-- The text that is taken out is a literal like the one in front. -/
theorem leadingText {t : Tree} (ht : Q t) {shared : List Nat} (hne : shared ≠ [])
    (hshared : shared <+: t.leadingText.2) :
    Q (literal shared { foldCase := t.leadingText.1 }) := by
  have hfront : t.front.op = .literal := by
    by_cases hop : t.front.op = .literal
    · exact hop
    · rw [leadingText_of_ne hop, List.prefix_nil] at hshared
      exact absurd hshared hne
  rw [leadingText_of_front hfront] at hshared ⊢
  exact hQ.begun t.front shared (hQ.front ht) hfront hshared hne

/-- A literal keeps it without some of its runes. -/
theorem dropRunes {t : Tree} (ht : Q t) (n : Nat) : Q (Tree.dropRunes n t) := by
  by_cases hop : t.op = .literal
  · exact hQ.dropped t n ht hop
  · rwa [dropRunes_of_ne hop]

/-- A branch keeps it without some of its text. -/
theorem dropLeadingText {t : Tree} (ht : Q t) (n : Nat) : Q (Tree.dropLeadingText n t) := by
  by_cases hop : t.op = .concat
  · obtain ⟨l, subs⟩ := t
    have hsubs := hQ.subs _ ht hop
    rw [op_node] at hop
    cases subs with
    | nil =>
      rw [Tree.dropLeadingText, op_node, if_pos hop]
      exact ht
    | cons first rest =>
      obtain ⟨hfirst, hrest⟩ := List.forall_mem_cons.mp hsubs
      rw [dropLeadingText_concat hop]
      split
      · exact hQ.remaining hop hrest
      · refine hQ.many l _ (by rw [hop]; rfl) ?_
        exact List.forall_mem_cons.mpr ⟨hQ.dropRunes hfirst n, hrest⟩
  · rw [dropLeadingText_of_ne hop]
    exact hQ.dropRunes ht n

/-- A branch keeps it without its first piece. -/
theorem dropLeadingPiece {t : Tree} (ht : Q t) : Q (Tree.dropLeadingPiece t) := by
  by_cases hop : t.op = .concat
  · obtain ⟨l, subs⟩ := t
    rw [op_node] at hop
    rw [dropLeadingPiece_concat hop]
    exact hQ.remaining hop fun u hu => hQ.subs _ ht hop u (List.mem_of_mem_tail hu)
  · rw [dropLeadingPiece_of_ne hop]
    exact hQ.empty

end Kept

/-! ## What is computed -/

namespace SequenceLaw

variable {β : Type} {Q : Tree → Prop} {F : List Tree → β} (hF : SequenceLaw Q F)

include hF

/-- Runes that a branch begins with and what is left of it make up the branch. -/
theorem dropLeadingText {t : Tree} (ht : Q t) {shared : List Nat} (hne : shared ≠ [])
    (hshared : shared <+: t.leadingText.2) :
    F [literal shared { foldCase := t.leadingText.1 }, Tree.dropLeadingText shared.length t] =
      F [t] := by
  have htext : t.leadingText.2 ≠ [] := by
    intro hnil
    rw [hnil, List.prefix_nil] at hshared
    exact hne hshared
  rcases leadingText_cases htext with ⟨hop, he⟩ | ⟨l, first, rest, rfl, hop, hfirst, he⟩
  · rw [he] at hshared ⊢
    rw [dropLeadingText_of_ne (by rw [hop]; decide)]
    exact hF.split t shared [] ht hop hshared hne
  · rw [he] at hshared ⊢
    have hq : Q first := hF.kept.subs _ ht hop first List.mem_cons_self
    have hsplit := hF.split first shared rest hq hfirst hshared hne
    have hnode : F [node l (first :: rest)] = F (first :: rest) := by
      rw [← hF.spliced l (first :: rest) [] hop, List.append_nil]
    rw [hnode, ← hsplit, dropLeadingText_concat hop]
    refine hF.tail _ _ _ ?_
    split
    · next hempty =>
      have hdropped : Q (dropRunes shared.length first) := hF.kept.dropRunes hq _
      rw [hF.remaining hop, List.append_nil]
      revert hempty hdropped
      generalize dropRunes shared.length first = e
      intro hempty hdropped
      obtain ⟨le, subse⟩ := e
      exact (hF.empty le subse rest hempty hdropped).symm
    · rw [← hF.spliced l (_ :: rest) [] hop, List.append_nil]

/-- The first piece of a branch and what is left of it make up the branch. -/
theorem dropLeadingPiece {t p : Tree} (hp : t.leadingPiece? = some p) :
    F [p, Tree.dropLeadingPiece t] = F [t] := by
  obtain ⟨rfl, -, -⟩ := leadingPiece?_eq_some hp
  have hempty : ∀ u, F [u, Tree.empty] = F [u] := fun u =>
    hF.tail _ _ _ (hF.empty { op := .emptyMatch } [] [] rfl hF.kept.empty)
  by_cases hop : t.op = .concat
  · obtain ⟨l, subs⟩ := t
    rw [op_node] at hop
    rw [dropLeadingPiece_concat hop]
    cases subs with
    | nil =>
      rw [show (node l []).front = node l [] by simp [front]]
      exact hempty _
    | cons first rest =>
      have hrest : F [Tree.remaining l rest] = F rest := by
        rw [hF.remaining hop, List.append_nil]
      rw [front_node_cons hop, List.tail_cons, hF.tail first _ _ hrest,
        ← hF.spliced l (first :: rest) [] hop, List.append_nil]
  · rw [front_of_ne hop, dropLeadingPiece_of_ne hop]
    exact hempty t

end SequenceLaw

end RegexTree.Tree
