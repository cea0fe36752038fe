/-
  When a printed tree reads as an equal tree.

  Nearly always it does: letters are joined to the literal that they were, and what was put together
  in normal form is put together as it was.  The one exception is a class of all runes that is a
  branch of its own.  The reader makes no such branch itself, since it turns a branch that is such a
  class into a dot; but a branch becomes one when what stands before the class is taken out of it,
  and read again it is turned into a dot after all.

  That trees without such a branch are read as equal trees is an induction over the tree, with one
  lemma for each operation (`equal_reread_concat`, `equal_reread_alternate`).  It is said for any
  assembly that puts pieces together in normal form (`Joins`); that leaves open what is done to a
  branch that is a class of all runes, and so it holds for the normal assembly and for the one that
  leaves such branches as they are.

  The converse is by counting.  A class of all runes weighs one and nothing else weighs anything
  (`dotWeight`), so that equal trees weigh the same.  Reading again makes no class of all runes, and
  each branch that is one loses its weight; nothing that is read anywhere else makes up for that
  (`equal_reread_iff`).
-/
import RegexTree.Proofs.Print.Reread
import RegexTree.Proofs.Tree.Fixpoint
import Mathlib.Algebra.BigOperators.Group.List.Basic

namespace RegexTree.Tree

open Assembly (asDot bare joins_normal normal)

variable {A : Assembly}

/-- No branch of a choice is a class of all runes. -/
def NoDotBranch (l : Label) (subs : List Tree) : Prop :=
  l.op = .alternate → ∀ t ∈ subs, ¬t.DotClass

/-! ## Letters -/

/-- Letters in front of other pieces are joined to one literal in front of them. -/
theorem joinLiterals_letters (flags : Flags) {runes : List Nat} (h : runes ≠ [])
    (pieces : List Tree) :
    joinLiterals (runes.map (fun r => literal [r] flags) ++ pieces) =
      consJoined (literal runes flags) (joinLiterals pieces) := by
  induction runes with
  | nil => exact absurd rfl h
  | cons r rest ih =>
    rw [List.map_cons, List.cons_append, joinLiterals_cons]
    cases rest with
    | nil => rfl
    | cons q more =>
      rw [ih (List.cons_ne_nil q more)]
      have hself : canJoin (literal [r] flags) (literal (q :: more) flags) = true :=
        canJoin_iff.mpr ⟨rfl, rfl, rfl⟩
      cases joinLiterals pieces with
      | nil => exact consJoined_join hself
      | cons u tail =>
        cases hcan : canJoin (literal (q :: more) flags) u with
        | true =>
          have hfirst : canJoin (literal (r :: q :: more) flags) u = true := hcan
          have hjoined : canJoin (literal [r] flags) (joined (literal (q :: more) flags) u) = true :=
            hself
          rw [consJoined_join hcan, consJoined_join hfirst, consJoined_join hjoined]
          rfl
        | false =>
          have hfirst : canJoin (literal (r :: q :: more) flags) u = false := hcan
          rw [consJoined, hcan, if_neg Bool.false_ne_true, consJoined_join hself, consJoined,
            hfirst, if_neg Bool.false_ne_true]
          rfl

/-- Letters in sequence are the literal of them. -/
theorem sequence_letters (flags : Flags) {runes : List Nat} (h : runes ≠ []) :
    sequence (runes.map fun r => literal [r] flags) = literal runes flags := by
  match runes, h with
  | [r], _ => rfl
  | r :: q :: more, h =>
    have hne : ∀ t ∈ (r :: q :: more).map (fun r => literal [r] flags), t.op ≠ .concat := by
      intro t ht
      obtain ⟨s, -, rfl⟩ := List.mem_map.mp ht
      exact fun hop => nomatch hop
    have hjoin := joinLiterals_letters flags h []
    rw [List.append_nil] at hjoin
    rw [sequence_many (by simp), flatParts, flatMap_spliced_of_ne hne, hjoin]
    rfl

/-! ## Whole pieces -/

/-- What is no sequence is read as one piece, or as the letters of a literal. -/
theorem reread_cases {t : Tree} (ht : t.Printable) (hop : t.op ≠ .concat) :
    (∃ u, t.reread A = [u]) ∨
      (t.op = .literal ∧ t.runes ≠ [] ∧ t.reread A = t.runes.map fun r => literal [r] .perl) := by
  revert hop
  refine ht.induct (P := fun t => t.op ≠ .concat → (∃ u, t.reread A = [u]) ∨
    (t.op = .literal ∧ t.runes ≠ [] ∧ t.reread A = t.runes.map fun r => literal [r] .perl))
    ?empty ?simple ?literal ?charClass ?capture ?repetition ?concat ?alternate
  case empty => exact fun l _ hop _ => Or.inl ⟨_, reread_empty hop⟩
  case simple => exact fun l _ hop _ => Or.inl ⟨_, reread_simple hop⟩
  case literal =>
    intro l _ hop hne _ _
    cases hfold : l.flags.foldCase with
    | true => exact Or.inl ⟨_, reread_folded hop hfold⟩
    | false => exact Or.inr ⟨hop, hne, reread_literal hop hfold⟩
  case charClass => exact fun l x _ hop hrunes hx _ => Or.inl ⟨_, reread_charClass hop hrunes hx⟩
  case capture => exact fun l t _ hop _ _ => Or.inl ⟨_, reread_capture hop t⟩
  case repetition => exact fun l t _ hop _ _ _ => Or.inl ⟨_, reread_repetition hop t⟩
  case concat => exact fun l subs _ hop _ _ hne => absurd hop hne
  case alternate => exact fun l subs _ hop _ _ _ => Or.inl ⟨_, reread_alternate hop subs⟩

/-- The pieces of what is no sequence are joined to what follows as their sequence is. -/
theorem joinLiterals_reread {t : Tree} (ht : t.Printable) (hop : t.op ≠ .concat)
    (pieces : List Tree) :
    joinLiterals (t.reread A ++ pieces) =
      consJoined (sequence (t.reread A)) (joinLiterals pieces) := by
  rcases reread_cases ht hop with ⟨u, hu⟩ | ⟨-, hne, hr⟩
  · rw [hu]
    rfl
  · rw [hr, joinLiterals_letters _ hne, sequence_letters _ hne]

/-- Joining all letters of several trees is joining those of each first. -/
theorem joinLiterals_flatMap_reread {ts : List Tree}
    (h : ∀ t ∈ ts, t.Printable ∧ t.op ≠ .concat) :
    joinLiterals (ts.flatMap (reread A)) =
      joinLiterals (ts.map fun t => sequence (t.reread A)) := by
  induction ts with
  | nil => rfl
  | cons t rest ih =>
    obtain ⟨ht, hrest⟩ := List.forall_mem_cons.mp h
    rw [List.flatMap_cons, joinLiterals_reread ht.1 ht.2, ih hrest, List.map_cons,
      joinLiterals_cons]

/-- Several trees are read as several pieces at least. -/
theorem two_le_length_flatMap_reread (hA : A.Joins) {ts : List Tree}
    (h : ∀ t ∈ ts, t.Printable) (hlen : 2 ≤ ts.length) : 2 ≤ (ts.flatMap (reread A)).length := by
  match ts, hlen with
  | a :: b :: rest, _ =>
    have hone : ∀ t ∈ a :: b :: rest, 1 ≤ (t.reread A).length := fun t ht =>
      List.length_pos_iff.mpr (reread_normal hA (h t ht)).2
    have ha := hone a (by simp)
    have hb := hone b (by simp)
    rw [List.flatMap_cons, List.flatMap_cons, List.length_append, List.length_append]
    omega

/-! ## Equality -/

/-- What is read of a tree that is no class of all runes is no such class either, and stays a
    branch as it is. -/
theorem branch_of_equal (hA : A.Joins) {t : Tree} {pieces : List Tree}
    (h : t.equal (sequence pieces) = true) (hdot : ¬t.DotClass) :
    A.branch pieces = sequence pieces :=
  hA.branch_of_not fun hd => hdot (dotClass_of_equal (equal_symm h) hd)

/-- A node over children is equal to a node over what they are read as. -/
theorem equal_branching_reread {l : Label} {subs : List Tree} (harity : l.op.arity = .many)
    (hequal : ∀ t ∈ subs, t.equal (sequence (t.reread A)) = true) :
    (node l subs).equal (branching l.op (subs.map fun t => sequence (t.reread A))) = true :=
  equal_branching harity (List.forall₂_map_right_iff.mpr (List.forall₂_same.mpr hequal))

section Many

variable {subs : List Tree} (hequal : ∀ t ∈ subs, t.equal (sequence (t.reread A)) = true)

include hequal

/-- What a tree is read as has the operation of the tree. -/
theorem op_sequence_reread : ∀ t ∈ subs, (sequence (t.reread A)).op = t.op := fun t ht =>
  (op_of_equal (hequal t ht)).symm

/-- The children of a sequence are put together again as they are read. -/
theorem sequence_flatMap_reread (hA : A.Joins) (hsubs : ∀ t ∈ subs, t.Printable)
    (hlen : 2 ≤ subs.length) (hne : ∀ t ∈ subs, t.op ≠ .concat) (hun : Unjoinable subs) :
    sequence (subs.flatMap (reread A)) =
      branching .concat (subs.map fun t => sequence (t.reread A)) := by
  have hops := op_sequence_reread hequal
  have hpieces : ∀ p ∈ subs.flatMap (reread A), p.op ≠ .concat := by
    intro p hp
    obtain ⟨t, ht, hpt⟩ := List.mem_flatMap.mp hp
    rcases reread_cases (hsubs t ht) (hne t ht) with ⟨u, hu⟩ | ⟨-, -, hr⟩
    · have hop := hops t ht
      rw [hu] at hpt hop
      rw [List.mem_singleton.mp hpt]
      exact fun hc => hne t ht (hop.symm.trans hc)
    · rw [hr] at hpt
      obtain ⟨r, -, rfl⟩ := List.mem_map.mp hpt
      exact fun hop => nomatch hop
  have hwhole : Unjoinable (subs.map fun t => sequence (t.reread A)) := by
    rw [Unjoinable, List.isChain_map]
    refine hun.imp_of_mem_imp fun a b ha hb hab => ?_
    -- what a literal can be joined with is the same for equal literals
    rw [Bool.eq_false_iff] at hab ⊢
    intro hcan
    obtain ⟨hopa, hopb, hfold⟩ := canJoin_iff.mp hcan
    rw [hops a ha] at hopa
    rw [hops b hb] at hopb
    refine hab (canJoin_iff.mpr ⟨hopa, hopb, ?_⟩)
    rw [(literal_of_equal (hequal a ha) hopa).1, (literal_of_equal (hequal b hb) hopb).1, hfold]
  rw [sequence_many (two_le_length_flatMap_reread hA hsubs hlen), flatParts,
    flatMap_spliced_of_ne hpieces, joinLiterals_flatMap_reread fun t ht => ⟨hsubs t ht, hne t ht⟩,
    joinLiterals_eq_self hwhole, bare_of_two_le (by rwa [List.length_map])]

/-- The branches of a choice are put together again as they are read. -/
theorem choice_map_reread (hlen : 2 ≤ subs.length) (hne : ∀ t ∈ subs, t.op ≠ .alternate)
    (hapart : subs.IsChain Apart) :
    choice (subs.map fun t => sequence (t.reread A)) =
      branching .alternate (subs.map fun t => sequence (t.reread A)) := by
  refine choice_of_apart (by rwa [List.length_map]) (fun p hp => ?_) ?_
  · obtain ⟨t, ht, rfl⟩ := List.mem_map.mp hp
    rw [op_sequence_reread hequal t ht]
    exact hne t ht
  · rw [List.isChain_map]
    refine hapart.imp_of_mem_imp fun a b ha hb hab => ?_
    exact hab.of_equal (hequal a ha) (hequal b hb)

end Many

/-- What is no compound, no repetition and no longer literal needs no group. -/
theorem not_dotClass_of_needsGroup {t : Tree} (h : Print.needsGroup t = true) : ¬t.DotClass := by
  rintro ⟨hop, -⟩
  rw [Print.needsGroup, hop] at h
  exact Bool.false_ne_true h

/-- A leaf that is neither a literal nor a class is equal to the leaf that is read. -/
theorem equal_simpleLeaf {l : Label} (hop : l.op.isSimple = true) :
    (node l []).equal (leaf l.op (leafFlags l)) = true := by
  refine equal_of_children ?_ List.Forall₂.nil
  cases h : l.op <;> simp_all [Label.agrees, leafFlags, Op.isSimple]

/-- A literal is equal to the sequence of what is read of it. -/
theorem equal_reread_literal {l : Label} (hop : l.op = .literal) (hne : l.runes ≠ []) :
    (node l []).equal (sequence ((node l []).reread A)) = true := by
  cases hfold : l.flags.foldCase with
  | true =>
    rw [reread_folded hop hfold, sequence_singleton]
    exact equal_of_children (by simp [Label.agrees, hop, hfold]) List.Forall₂.nil
  | false =>
    rw [reread_literal hop hfold, sequence_letters _ hne]
    exact equal_of_children (by simp [Label.agrees, hop, hfold, Flags.perl]) List.Forall₂.nil

/-- Groups of equal trees with the same number and name are equal. -/
theorem equal_captureOf {l : Label} (hop : l.op = .capture) {t u : Tree}
    (h : t.equal u = true) : (node l [t]).equal (captureOf .perl l.cap l.name u) = true := by
  refine equal_of_children ?_ (List.Forall₂.cons h List.Forall₂.nil)
  simp [Label.agrees, hop]

/-- Repetitions of equal trees by the same sign are equal. -/
theorem equal_underSign {l : Label} (hop : l.op.isRepeat = true) {t u : Tree}
    (h : t.equal u = true) : (node l [t]).equal (underSign l u) = true := by
  refine equal_of_children ?_ (List.Forall₂.cons h List.Forall₂.nil)
  have hq := l.quantifier_op
  cases h : l.op <;> simp_all [Label.agrees, Label.quantifier, Op.isRepeat]

/-- An operand that is read as an equal tree is so in a group as well: what needs a group is no
    class, so it does not turn into a dot there. -/
theorem rereadOperand_of_equal (hA : A.Joins) {t : Tree}
    (h : t.equal (sequence (t.reread A)) = true) : t.rereadOperand A = sequence (t.reread A) := by
  rw [rereadOperand]
  split
  · next hgroup => exact branch_of_equal hA h (not_dotClass_of_needsGroup hgroup)
  · rfl

/-- A sequence of trees that are read as equal trees is read as an equal tree. -/
theorem equal_reread_concat (hA : A.Joins) {l : Label} {subs : List Tree}
    (ht : (node l subs).Printable) (hop : l.op = .concat) (hlen : 2 ≤ subs.length)
    (hequal : ∀ t ∈ subs, t.equal (sequence (t.reread A)) = true) :
    (node l subs).equal (sequence ((node l subs).reread A)) = true := by
  have hsubs : ∀ t ∈ subs, t.Printable := fun t hsub => ht.below hsub
  rw [reread_concat hop, sequence_flatMap_reread hequal hA hsubs hlen (ht.op_sub_ne hop rfl)
    (ht.normal.here.unjoinable hop), ← hop]
  exact equal_branching_reread (by rw [hop]; rfl) hequal

/-- So is a choice, if its branches stay as they are. -/
theorem equal_reread_alternate {l : Label} {subs : List Tree} (ht : (node l subs).Printable)
    (hop : l.op = .alternate) (hlen : 2 ≤ subs.length)
    (hequal : ∀ t ∈ subs, t.equal (sequence (t.reread A)) = true)
    (hkeep : ∀ t ∈ subs, A.branch (t.reread A) = sequence (t.reread A)) :
    (node l subs).equal (sequence ((node l subs).reread A)) = true := by
  rw [reread_alternate hop, sequence_singleton, List.map_congr_left hkeep,
    choice_map_reread hequal hlen (ht.op_sub_ne hop rfl) (ht.normal.here.factored hop), ← hop]
  exact equal_branching_reread (by rw [hop]; rfl) hequal

/-- A tree without a class of all runes among its branches is read as an equal tree, and so is
    every tree if such branches are left as they are. -/
theorem equal_sequence_reread (hA : A.Joins) {t : Tree} (ht : t.Printable)
    (h : A.branch = sequence ∨ t.Everywhere NoDotBranch) :
    t.equal (sequence (t.reread A)) = true := by
  revert h
  refine ht.induct (P := fun t => A.branch = sequence ∨ t.Everywhere NoDotBranch →
    t.equal (sequence (t.reread A)) = true)
    ?empty ?simple ?literal ?charClass ?capture ?repetition ?concat ?alternate
  case empty =>
    intro l _ hop _
    rw [reread_empty hop, sequence_singleton]
    exact equal_of_children (by rw [Label.agrees, hop]; rfl) List.Forall₂.nil
  case simple =>
    intro l _ hop _
    rw [reread_simple hop, sequence_singleton]
    exact equal_simpleLeaf hop
  case literal => exact fun l _ hop hne _ _ => equal_reread_literal hop hne
  case charClass =>
    intro l x _ hop hrunes hx _
    rw [reread_charClass hop hrunes hx, sequence_singleton]
    exact equal_of_children (by simp [Label.agrees, hop, hrunes]) List.Forall₂.nil
  case capture =>
    intro l t ht hop ih h
    have hequal := ih (h.imp_right (·.below List.mem_cons_self))
    rw [reread_capture hop, sequence_singleton, branch_of_equal hA hequal
      (ht.nodes.here.body hop t List.mem_cons_self)]
    exact equal_captureOf hop hequal
  case repetition =>
    intro l t ht hop _ ih h
    have hequal := ih (h.imp_right (·.below List.mem_cons_self))
    rw [reread_repetition hop, sequence_singleton, rereadOperand_of_equal hA hequal]
    exact equal_underSign hop hequal
  case concat =>
    intro l subs ht hop hlen ih h
    exact equal_reread_concat hA ht hop hlen fun t hsub => ih t hsub (h.imp_right (·.below hsub))
  case alternate =>
    intro l subs ht hop hlen ih h
    have hequal : ∀ t ∈ subs, t.equal (sequence (t.reread A)) = true := fun t hsub =>
      ih t hsub (h.imp_right (·.below hsub))
    refine equal_reread_alternate ht hop hlen hequal fun t hsub => ?_
    -- a branch is kept as it is, since all are, or since it is no class of all runes
    rcases h with hkeep | h
    · rw [hkeep]
    · exact branch_of_equal hA (hequal t hsub) (h.here hop t hsub)

/-! ## Classes of all runes -/

/-- A class of all runes weighs one, and nothing else weighs anything. -/
def dotWeight (l : Label) : Nat :=
  if l.op = .charClass ∧ (l.runes = Ranges.full.runes ∨ l.runes = Ranges.fullButNewline.runes) then
    1
  else 0

theorem dotWeight_of_ne {l : Label} (hop : l.op ≠ .charClass) : dotWeight l = 0 :=
  if_neg fun h => hop h.1

/-- Counting the classes of all runes is a weight, for which the runes of literals weigh nothing. -/
theorem dotWeight_weight : Weight 0 dotWeight where
  nothing l h := by
    rcases h with h | h | h
    all_goals exact dotWeight_of_ne (by rw [h]; decide)
  literal l h := by rw [dotWeight_of_ne (by rw [h]; decide), Nat.zero_mul]
  agrees l m h := by
    have hop := Label.op_of_agrees h
    by_cases hc : l.op = .charClass
    · rw [dotWeight, dotWeight, hop, Label.charClass_of_agrees h hc]
    · rw [dotWeight_of_ne hc, dotWeight_of_ne (hop ▸ hc)]

/-- Turned into a dot, a class of all runes weighs nothing any more; all else keeps its weight. -/
theorem weigh_asDot (t : Tree) :
    (asDot t).weigh dotWeight + (if t.DotClass then 1 else 0) = t.weigh dotWeight := by
  by_cases hdot : t.DotClass
  · obtain ⟨op, hop, he⟩ := asDot_of_dotClass hdot
    obtain ⟨l, subs⟩ := t
    have hweight : dotWeight l = 1 := if_pos hdot
    rw [he, if_pos hdot, weigh_leaf (show l.op.arity = .leaf from hdot.arity), hweight]
    rcases hop with rfl | rfl
    all_goals
      rw [weigh_leaf rfl, dotWeight_of_ne]
      exact fun h => nomatch h
  · rw [asDot_of_not hdot, if_neg hdot, Nat.add_zero]

/-- The number of branches that are classes of all runes. -/
def dotBranches : Tree → Nat :=
  fold fun l subs counts =>
    counts.sum + if l.op = .alternate then (subs.map fun t => if t.DotClass then 1 else 0).sum else 0

theorem dotBranches_node (l : Label) (subs : List Tree) :
    (node l subs).dotBranches = (subs.map dotBranches).sum +
      if l.op = .alternate then (subs.map fun t => if t.DotClass then 1 else 0).sum else 0 :=
  fold_node _ l subs

theorem dotBranches_of_ne {l : Label} (hop : l.op ≠ .alternate) (subs : List Tree) :
    (node l subs).dotBranches = (subs.map dotBranches).sum := by
  rw [dotBranches_node, if_neg hop, Nat.add_zero]

/-- If there are no such branches, none is found anywhere. -/
theorem noDotBranch_of_dotBranches {t : Tree} (h : t.dotBranches = 0) :
    t.Everywhere NoDotBranch := by
  induction t using Tree.induct with
  | step l subs ih =>
    rw [dotBranches_node, Nat.add_eq_zero_iff, List.sum_eq_zero_iff_forall_eq_nat] at h
    refine everywhere_node.mpr ⟨fun hop t ht hdot => ?_, fun t ht => ih t ht ?_⟩
    · rw [if_pos hop, List.sum_eq_zero_iff_forall_eq_nat] at h
      have hone := h.2 _ (List.mem_map_of_mem ht)
      rw [if_pos hdot] at hone
      cases hone
    · exact h.1 _ (List.mem_map_of_mem ht)

theorem leaf_noDotBranch {t : Tree} (ht : t.Shaped) (harity : t.op.arity = .leaf) :
    t.Everywhere NoDotBranch := by
  obtain ⟨l, subs⟩ := t
  rw [op_node] at harity
  rw [show subs = [] from ht.here.leaf harity]
  exact everywhere_leaf.mpr fun _ t h => absurd h List.not_mem_nil

/-- Without such branches, as many classes of all runes are read as were printed. -/
theorem total_reread_of_noDotBranch {t : Tree} (ht : t.Printable) (h : t.Everywhere NoDotBranch) :
    total dotWeight (t.reread .normal) = t.weigh dotWeight := by
  rw [← total_sequence dotWeight_weight]
  exact (weigh_of_equal dotWeight_weight (equal_sequence_reread joins_normal ht (Or.inr h))).symm

/-- Read again, a branch that is a class of all runes loses its weight. -/
theorem weigh_branch_reread {t : Tree} (ht : t.Printable) :
    (normal.branch (t.reread .normal)).weigh dotWeight + (if t.DotClass then 1 else 0) ≤
      total dotWeight (t.reread .normal) := by
  have hshaped := (sequence_normal (reread_normal joins_normal ht).1).shaped
  have hweigh : (normal.branch (t.reread .normal)).weigh dotWeight + _ = _ := weigh_asDot _
  rw [total_sequence dotWeight_weight] at hweigh
  by_cases hdot : t.DotClass
  · have hequal := equal_sequence_reread joins_normal ht
      (Or.inr (leaf_noDotBranch ht.normal.shaped hdot.arity))
    rw [if_pos (dotClass_of_equal hequal hdot)] at hweigh
    rw [if_pos hdot]
    omega
  · rw [if_neg hdot]
    omega

/-- What is lost of each tree of a list is lost of the list. -/
theorem total_flatMap_le {w : Label → Nat} {f : Tree → List Tree} {lost : Tree → Nat}
    {ts : List Tree} (h : ∀ t ∈ ts, total w (f t) + lost t ≤ t.weigh w) :
    total w (ts.flatMap f) + (ts.map lost).sum ≤ total w ts := by
  induction ts with
  | nil => exact Nat.le_refl 0
  | cons t rest ih =>
    obtain ⟨ht, hrest⟩ := List.forall_mem_cons.mp h
    have hle := ih hrest
    rw [List.flatMap_cons, total_append, List.map_cons, List.sum_cons, total_cons]
    omega

/-- A leaf is no choice, and its pieces weigh what it weighs. -/
theorem total_reread_leaf_le {l : Label} (ht : (node l []).Printable) (harity : l.op.arity = .leaf) :
    total dotWeight ((node l []).reread .normal) + (node l []).dotBranches ≤
      (node l []).weigh dotWeight := by
  have hne : l.op ≠ .alternate := Op.ne_of_arity harity (by decide)
  rw [total_reread_of_noDotBranch ht (leaf_noDotBranch ht.normal.shaped harity),
    dotBranches_of_ne hne]
  exact Nat.le_refl _

/-- An operand has no more of them than what it is read as. -/
theorem weigh_rereadOperand_le {t : Tree} (ht : t.Printable) :
    (t.rereadOperand .normal).weigh dotWeight ≤ total dotWeight (t.reread .normal) := by
  rw [rereadOperand]
  split
  · exact Nat.le_trans (Nat.le_add_right _ _) (weigh_branch_reread ht)
  · rw [total_sequence dotWeight_weight]

/-- A repetition weighs what its operand weighs. -/
theorem weigh_underSign {l : Label} (hop : l.op.isRepeat = true) (t : Tree) :
    (underSign l t).weigh dotWeight = t.weigh dotWeight := by
  have hne : l.quantifier.op ≠ .charClass := by
    rw [Label.quantifier_op]
    exact Op.ne_of_isRepeat hop rfl
  have hsign : l.quantifier.op.arity = .one := by
    rw [Label.quantifier_op]
    exact Op.arity_of_isRepeat hop
  rw [underSign, Quantifier.over, weigh_one hsign, dotWeight_of_ne hne, Nat.add_zero]

/-- A tree that is printed and read again has fewer classes of all runes, by one at least for each
    branch that is such a class.  By induction on the tree: no case brings one in, and in a choice
    each such branch becomes a dot. -/
theorem total_reread_le {t : Tree} (ht : t.Printable) :
    total dotWeight (t.reread .normal) + t.dotBranches ≤ t.weigh dotWeight := by
  refine ht.induct
    (P := fun t => total dotWeight (t.reread .normal) + t.dotBranches ≤ t.weigh dotWeight)
    ?empty ?simple ?literal ?charClass ?capture ?repetition ?concat ?alternate
  case empty => exact fun l ht hop => total_reread_leaf_le ht (by rw [hop]; rfl)
  case simple => exact fun l ht hop => total_reread_leaf_le ht (Op.arity_of_isSimple hop)
  case literal => exact fun l ht hop _ _ => total_reread_leaf_le ht (by rw [hop]; rfl)
  case charClass => exact fun l x ht hop _ _ => total_reread_leaf_le ht (by rw [hop]; rfl)
  case capture =>
    intro l t ht hop ih
    have hbody := weigh_branch_reread (ht.below List.mem_cons_self)
    rw [reread_capture hop, total_singleton, captureOf, weigh_one rfl,
      dotBranches_of_ne (by rw [hop]; decide), weigh_one (by rw [hop]; rfl),
      dotWeight_of_ne (by simp)]
    simp only [List.map_cons, List.map_nil, List.sum_cons, List.sum_nil]
    omega
  case repetition =>
    intro l t ht hop _ ih
    have hne : l.op ≠ .alternate := Op.ne_of_isRepeat hop rfl
    have hbody := weigh_rereadOperand_le (ht.below List.mem_cons_self)
    rw [reread_repetition hop, total_singleton, weigh_underSign hop, dotBranches_of_ne hne,
      weigh_one (Op.arity_of_isRepeat hop)]
    simp only [List.map_cons, List.map_nil, List.sum_cons, List.sum_nil]
    omega
  case concat =>
    intro l subs ht hop _ ih
    rw [reread_concat hop, dotBranches_of_ne (by rw [hop]; decide),
      weigh_compound dotWeight_weight (Or.inl hop)]
    exact total_flatMap_le ih
  case alternate =>
    intro l subs ht hop _ ih
    have hchoice := weigh_choice_le dotWeight_weight
      (subs.map fun t => normal.branch (t.reread .normal))
    -- each branch loses what was lost inside it, and itself if it is a class of all runes
    have hbranches : total dotWeight (subs.flatMap fun t => [normal.branch (t.reread .normal)]) +
        (subs.map fun t => t.dotBranches + if t.DotClass then 1 else 0).sum ≤
          total dotWeight subs := by
      refine total_flatMap_le fun t hsub => ?_
      have hbody := weigh_branch_reread (ht.below hsub)
      have hle := ih t hsub
      rw [total_singleton]
      omega
    rw [← List.map_eq_flatMap, List.sum_map_add] at hbranches
    rw [reread_alternate hop, total_singleton, dotBranches_node, if_pos hop,
      weigh_compound dotWeight_weight (Or.inr hop)]
    omega

/-- A tree that is printed and read again is equal just if no branch in it is a class of all runes.
    One direction is an induction on the tree; for the other, equal trees have as many such classes,
    and each such branch would have cost one. -/
theorem equal_reread_iff {t : Tree} (ht : t.Printable) (hdot : ¬t.DotClass) :
    t.equal (normal.branch (t.reread .normal)) = true ↔ t.Everywhere NoDotBranch := by
  have hshaped := (joins_normal.branch_normal (reread_normal joins_normal ht).1).shaped
  constructor
  · intro h
    have hweigh := weigh_of_equal dotWeight_weight h
    have hbody := weigh_branch_reread ht
    have hle := total_reread_le ht
    exact noDotBranch_of_dotBranches (by omega)
  · intro h
    have hequal := equal_sequence_reread joins_normal ht (Or.inr h)
    have hsame : normal.branch (t.reread .normal) = sequence (t.reread .normal) :=
      branch_of_equal joins_normal hequal hdot
    rwa [hsame]

end RegexTree.Tree
