/-
  The normal form does not change what a tree matches.

  The reader puts a pattern together with `sequence` and `choice`, which join literals, splice what
  is nested and take shared beginnings out of the branches.  Nothing of that may be seen by who
  matches with the tree, not even in the order of the results:

  * equal trees match the same (`results_of_equal`): the labels agree in all that a node reads
    (`Label.results_of_agrees`), and the operands match the same by induction;
  * a class matches the same as the dot that stands for it (`results_asDot`);
  * a sequence matches as its pieces one after the other (`results_sequence`), since joining,
    splicing and dropping what is empty each keep the product of the results
    (`sequenceLaw_results`);
  * a choice matches as its branches in their order, however deep shared beginnings are taken out of
    them (`results_choiceWithin`).

  No tree has to be well formed for that.  Of the rounds that take something out, the only question
  is whether what is taken out can end in one way at most, and it can: it is a literal, or a tree of
  a fixed width (`single_isFixedWidth`).  The rounds that make classes of one-rune branches need the
  branches to be atoms, which match one rune each.
-/
import RegexTree.Proofs.Match.Atoms
import RegexTree.Proofs.Tree.Choice
import RegexTree.Proofs.Tree.Equal

namespace RegexTree

open Matcher

/-! ## Equal trees -/

/-- Labels that agree make the same of the same matchers. -/
theorem Label.results_of_agrees {l m : Label} (h : l.agrees m = true) (ms : List Matcher) :
    l.results ms = m.results ms := by
  have hop := op_of_agrees h
  rw [agrees, Bool.and_eq_true] at h
  obtain ⟨-, h⟩ := h
  unfold results
  rw [← hop]
  cases hl : l.op
  all_goals
    rw [hl] at h
    try rfl
  all_goals
    simp only [Bool.and_eq_true, beq_iff_eq] at h
    simp only [h]

/-- What an operation makes of matchers depends only on those that it reads. -/
theorem Label.results_reads (l : Label) (ms : List Matcher) :
    l.results (l.reads ms) = l.results ms := by
  have hhead : (ms.take 1).headD fail = ms.headD fail := by
    cases ms <;> rfl
  unfold results
  cases hop : l.op
  case capture | star | plus | quest | counted =>
    simp only [reads_one (show l.op.arity = .one by rw [hop]; rfl), hhead]
  case concat | alternate => simp only [reads_many (show l.op.arity = .many by rw [hop]; rfl)]
  all_goals rfl

namespace Tree

/-- Equal trees match the same. -/
theorem results_of_equal {t u : Tree} (h : t.equal u = true) : t.results = u.results := by
  refine equal_induct_reads (P := fun t u => t.results = u.results) ?_ h
  intro l m subs subs' hagree hsubs
  have hmap : (l.reads subs).map results = (m.reads subs').map results := by
    rwa [← List.forall₂_eq_eq_eq, List.forall₂_map_left_iff, List.forall₂_map_right_iff]
  calc (node l subs).results = l.results ((l.reads subs).map results) := by
        rw [results_node, Label.map_reads, Label.results_reads]
    _ = m.results ((m.reads subs').map results) := by
        rw [hmap, Label.results_of_agrees hagree]
    _ = (node m subs').results := by rw [results_node, Label.map_reads, Label.results_reads]

/-! ## Dots -/

/-- A class of all runes, or of all but the newline, matches the same as the dot for it. -/
theorem results_asDot (t : Tree) : (Assembly.asDot t).results = t.results := by
  obtain ⟨l, subs⟩ := t
  unfold Assembly.asDot
  split
  · next hop =>
    rw [op_node] at hop
    have hclass : (node l subs).results = oneRune (Ranges.ofRunes l.runes).has := by
      rw [results_node, Label.results, hop]
    split
    · next hfull =>
      rw [hclass, relabel, results_node, show l.runes = _ from hfull, Ranges.ofRunes_runes]
      show oneRune (fun _ => true) = _
      refine oneRune_congr fun c => Eq.symm ?_
      have := toNat_le_maxRune c
      simp only [Ranges.full, Ranges.has_cons, Ranges.has_nil, Bool.or_false, Range.has_iff]
      omega
    · split
      · next hnl =>
        rw [hclass, relabel, results_node, show l.runes = _ from hnl, Ranges.ofRunes_runes]
        show oneRune (· != newline) = _
        refine oneRune_congr fun c => ?_
        have := toNat_le_maxRune c
        rw [Bool.eq_iff_iff, Ranges.fullButNewline, Ranges.has_cons, Ranges.has_cons,
          Ranges.has_nil, Bool.or_false, Bool.or_eq_true, Range.has_iff, Range.has_iff,
          bne_iff_ne]
        simp only [newline]
        omega
      · rfl
  · rfl

/-! ## Sequences -/

/-- A tree that is a literal matches its runes in their order. -/
theorem results_of_literal {t : Tree} (hop : t.op = .literal) :
    t.results = inOrder (t.runes.map fun r => oneRune (readsAs t.flags.foldCase r)) := by
  obtain ⟨l, subs⟩ := t
  rw [op_node] at hop
  rw [results_node, Label.results, hop]
  rfl

theorem results_of_empty {t : Tree} (hop : t.op = .emptyMatch) : t.results = stay := by
  obtain ⟨l, subs⟩ := t
  rw [op_node] at hop
  rw [results_node, Label.results, hop]

theorem results_of_concat {l : Label} (hop : l.op = .concat) (subs : List Tree) :
    (node l subs).results = inOrder (subs.map results) := by
  rw [results_node, Label.results, hop]

/-- A choice matches the first of its branches that does, and then the others. -/
theorem results_of_alternate {l : Label} (hop : l.op = .alternate) (subs : List Tree) :
    (node l subs).results = firstOf (subs.map results) := by
  rw [results_node, Label.results, hop]

/-- A beginning of a literal and what is left of it match what the literal matches. -/
theorem results_split {t : Tree} {s : List Nat} (hop : t.op = .literal) (hs : s <+: t.runes) :
    both (literal s { foldCase := t.flags.foldCase }).results (dropRunes s.length t).results =
      t.results := by
  obtain ⟨more, hmore⟩ := hs
  have hdrop : t.runes.drop s.length = more := by
    rw [← hmore, List.drop_left]
  rw [results_literal, results_of_literal hop, ← hmore, List.map_append, inOrder_append]
  rcases dropRunes_cases hop s.length with ⟨hshort, hop'⟩ | ⟨-, hop'⟩
  · have hnil : more = [] := by
      rw [← hdrop]
      exact List.drop_eq_nil_of_le hshort
    rw [results_of_empty hop', hnil]
    rfl
  · rw [results_of_literal hop', dropRunes_runes hop, dropRunes_flags, hdrop]

/-- What a sequence matches does not depend on how its pieces are put. -/
theorem sequenceLaw_results : SequenceLaw (fun _ => True) fun ps => inOrder (ps.map results) where
  kept := kept_any
  tail t ps qs h := by rw [List.map_cons, List.map_cons, inOrder_cons, inOrder_cons, h]
  spliced l subs rest hop := by
    rw [List.map_append, inOrder_append, List.map_cons, inOrder_cons, results_of_concat hop]
  empty l subs rest hop _ := by
    rw [List.map_cons, inOrder_cons, results_of_empty (t := node l subs) hop, stay_both]
  joined t u rest _ _ h := by
    obtain ⟨hop, hop', hfold⟩ := canJoin_iff.mp h
    simp only [List.map_cons, inOrder_cons]
    rw [results_of_literal (t := joined t u) (by rwa [joined_op]), results_of_literal hop,
      results_of_literal hop', joined_runes, joined_flags, List.map_append, inOrder_append, hfold,
      both_assoc]
  split t s rest _ hop hs _ := by
    simp only [List.map_cons, inOrder_cons]
    rw [← both_assoc, results_split hop hs]

/-- A sequence matches its pieces one after the other. -/
theorem results_sequence (pieces : List Tree) :
    (sequence pieces).results = inOrder (pieces.map results) := by
  have h := sequenceLaw_results.sequence fun t (_ : t ∈ pieces) => trivial
  rwa [List.map_singleton, inOrder_singleton] at h

/-! ## Choices -/

/-- A literal can end in one place at most. -/
theorem single_literal (runes : List Nat) (flags : Flags) :
    Single (literal runes flags).results := by
  rw [results_literal]
  refine Single.inOrder fun m hm => ?_
  obtain ⟨r, -, rfl⟩ := List.mem_map.mp hm
  exact single_oneRune _

/-- What matches one rune can end in one place at most. -/
theorem single_isOneRune {t : Tree} (h : t.isOneRune = true) : Single t.results := by
  obtain ⟨l, subs⟩ := t
  rw [isOneRune, op_node, runes_node] at h
  rw [results_node]
  cases hop : l.op
  case literal =>
    rw [Label.results, hop]
    refine Single.inOrder fun m hm => ?_
    obtain ⟨r, -, rfl⟩ := List.mem_map.mp hm
    exact single_oneRune _
  case charClass | anyCharNotNL | anyChar =>
    rw [Label.results, hop]
    exact single_oneRune _
  all_goals
    rw [hop] at h
    cases h

/-- A piece of fixed width matches in one way at most. -/
theorem single_isFixedWidth {t : Tree} (h : t.isFixedWidth = true) : Single t.results := by
  rw [isFixedWidth, Bool.or_eq_true] at h
  rcases h with h | h
  · exact single_isOneRune h
  · obtain ⟨l, subs⟩ := t
    rw [op_node, label_node, subs_node] at h
    rw [results_node]
    cases hop : l.op
    case beginLine | endLine | beginText | endText | wordBoundary | noWordBoundary =>
      rw [Label.results, hop]
      exact single_place _
    case counted =>
      rw [hop] at h
      simp only [Bool.and_eq_true, beq_iff_eq] at h
      obtain ⟨hbounds, hone⟩ := h
      rw [Label.results, hop]
      cases subs with
      | nil => cases hone
      | cons t rest =>
        have hsingle : Single t.results := single_isOneRune hone
        simp only [List.map_cons, List.headD_cons, Matcher.counted, hbounds]
        rw [if_neg (Int.lt_irrefl _), Int.sub_self]
        exact (hsingle.exactly _).both single_stay
    all_goals
      rw [hop] at h
      cases h

/-- Two matchers in a row are one after the other. -/
theorem inOrder_pair (m n : Matcher) : inOrder [m, n] = both m n := by
  rw [inOrder_cons, inOrder_singleton]

/-- A piece that matches in one way at most may be taken out of branches that begin with it. -/
theorem firstOf_taken_out {lead rest : Tree} {drop : Tree → Tree} {ts : List Tree}
    (hlead : Single lead.results)
    (hdrop : ∀ t ∈ ts, both lead.results (drop t).results = t.results)
    (hrest : firstOf ([rest].map results) = firstOf ((ts.map drop).map results)) :
    firstOf ([sequence [lead, rest]].map results) = firstOf (ts.map results) := by
  rw [List.map_singleton, firstOf_singleton] at hrest
  rw [List.map_singleton, firstOf_singleton, results_sequence, List.map_cons, List.map_singleton,
    inOrder_pair, hrest, hlead.both_firstOf, List.map_map, List.map_map]
  exact congrArg firstOf (List.map_congr_left hdrop)

/-- What a choice matches does not depend on what is taken out of its branches. -/
theorem choiceLaw_results : ChoiceLaw (fun _ => True) fun ts us =>
    firstOf (us.map results) = firstOf (ts.map results) where
  kept := kept_any
  refl _ := rfl
  trans h h' := h'.trans h
  append h h' := by
    rw [List.map_append, List.map_append]
    exact firstOf_append_congr h h'
  splice l subs hop _ := by
    rw [List.map_singleton, firstOf_singleton, results_of_alternate hop]
  gather branches _ := by
    rw [List.map_singleton, firstOf_singleton, branching, results_of_alternate rfl]
  text fold shared ts rest hne hts _ _ hrest := by
    refine firstOf_taken_out (single_literal shared _) (fun t ht => ?_) hrest
    obtain ⟨-, hfold, hshared⟩ := hts t ht
    have hlaw := sequenceLaw_results.dropLeadingText (t := t) trivial hne hshared
    rwa [hfold, List.map_cons, List.map_singleton, inOrder_pair, List.map_singleton,
      inOrder_singleton] at hlaw
  piece lead ts rest hfixed hts _ _ _ hrest := by
    refine firstOf_taken_out (single_isFixedWidth hfixed) (fun t ht => ?_) hrest
    obtain ⟨-, p, hp, he⟩ := hts t ht
    have hsame : lead.results = p.results := by
      rcases he with rfl | he
      · rfl
      · exact results_of_equal he
    have hlaw := sequenceLaw_results.dropLeadingPiece hp
    rwa [List.map_cons, List.map_singleton, inOrder_pair, List.map_singleton, inOrder_singleton,
      ← hsame] at hlaw

/-- At any depth, a choice matches its branches in their order. -/
theorem results_choiceWithin (depth : Nat) (branches : List Tree) :
    (choiceWithin depth branches).results = firstOf (branches.map results) := by
  have h := (choiceLaw_results.choiceWithin depth fun t (_ : t ∈ branches) => trivial).2
  rwa [List.map_singleton, firstOf_singleton] at h

/-- A choice matches its branches in their order. -/
theorem results_choice (branches : List Tree) :
    (choice branches).results = firstOf (branches.map results) :=
  results_choiceWithin _ branches

end Tree

end RegexTree
