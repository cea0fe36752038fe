/-
  Equal parts make equal trees.

  Equality passes over most flags, and over children that an operation does not read.  What puts
  trees together looks at nothing else either: two literals can be joined just if equal ones can
  (`canJoin_congr`), and branches have a beginning in common just if equal ones have.  So sequences
  of equal pieces are equal (`sequence_congr`).  Equal lists of branches are cut into runs at the
  same places (`runs_congr`), what is left of them is equal, and choices of one depth are equal
  (`choiceWithin_congr`).  That the depths are the same takes trees without children that nobody
  reads, since these have a mass as well (`mass_congr`).

  Simplifying makes equal trees of equal ones (`simplify_congr`), and a dump shows nothing that is
  not compared (`dump_congr`).
-/
import RegexTree.Proofs.Tree.Fixpoint
import RegexTree.Proofs.Tree.Unrolled
import RegexTree.Proofs.Tree.Weight

namespace RegexTree.Tree

open Assembly (bare)

/-- The lists have the same length, and trees that stand in the same place are equal. -/
abbrev EqualAll : List Tree → List Tree → Prop := List.Forall₂ fun t u => t.equal u = true

/-! ## Equal operands -/

section

variable {t t' u u' : Tree} (ht : t.equal t' = true) (hu : u.equal u' = true)

include ht hu

/-- A test that equal trees pass or fail together. -/
theorem equal_congr : t.equal u = t'.equal u' :=
  Bool.eq_iff_iff.mpr
    ⟨fun h => equal_trans (equal_symm ht) (equal_trans h hu),
      fun h => equal_trans ht (equal_trans h (equal_symm hu))⟩

/-- Whether two literals can be joined is seen from what is compared. -/
theorem canJoin_congr : canJoin t u = canJoin t' u' := by
  have hto {a b a' b' : Tree} (ha : a.equal a' = true) (hb : b.equal b' = true)
      (h : canJoin a b = true) : canJoin a' b' = true := by
    obtain ⟨hop, hop', hfold⟩ := canJoin_iff.mp h
    refine canJoin_iff.mpr ⟨op_of_equal ha ▸ hop, op_of_equal hb ▸ hop', ?_⟩
    rw [← (literal_of_equal ha hop).1, ← (literal_of_equal hb hop').1, hfold]
  exact Bool.eq_iff_iff.mpr ⟨hto ht hu, hto (equal_symm ht) (equal_symm hu)⟩

end

/-- Of a literal, equality sees the runes and whether it folds. -/
theorem equal_of_literals {t u : Tree} (ht : t.op = .literal) (hu : u.op = .literal)
    (hfold : t.flags.foldCase = u.flags.foldCase) (hrunes : t.runes = u.runes) :
    t.equal u = true := by
  have hagree : t.label.agrees u.label = true := by
    rw [Label.agrees, show t.label.op = .literal from ht, show u.label.op = .literal from hu]
    simp only [beq_self_eq_true, Bool.true_and, Bool.and_eq_true, beq_iff_eq]
    exact ⟨hfold, hrunes⟩
  exact equal_of_leaf (by rw [ht]; rfl) hagree

/-- Empty matches are equal. -/
theorem equal_of_empties {t u : Tree} (ht : t.op = .emptyMatch) (hu : u.op = .emptyMatch) :
    t.equal u = true := by
  have hagree : t.label.agrees u.label = true := by
    rw [Label.agrees, show t.label.op = .emptyMatch from ht, show u.label.op = .emptyMatch from hu]
    rfl
  exact equal_of_leaf (by rw [ht]; rfl) hagree

/-! ## Sequences -/

section

variable {ts us : List Tree}

theorem branching_congr (op : Op) (h : EqualAll ts us) :
    (branching op ts).equal (branching op us) = true :=
  equal_of_children (Label.agrees_refl _) h

/-- Bare nodes over equal parts are equal, as both are the part alone if there is one. -/
theorem bare_congr (op : Op) (h : EqualAll ts us) : (bare op ts).equal (bare op us) = true := by
  have hmany := branching_congr op h
  cases h with
  | nil => exact hmany
  | cons hfirst hrest =>
    cases hrest with
    | nil => exact hfirst
    | cons _ _ => exact hmany

/-- Equal trees contribute equal parts when they are spliced. -/
theorem spliced_congr {op : Op} {t u : Tree} (h : t.equal u = true)
    (hsubs : t.op = op → EqualAll t.subs u.subs) : EqualAll (spliced op t) (spliced op u) := by
  rw [spliced, spliced, ← op_of_equal h]
  split
  · next hop => exact hsubs hop
  · exact List.Forall₂.cons h List.Forall₂.nil

theorem flatMap_spliced_congr {op : Op} (harity : op.arity = .many) (h : EqualAll ts us) :
    EqualAll (ts.flatMap (spliced op)) (us.flatMap (spliced op)) :=
  List.rel_flatMap h fun _ _ htu =>
    spliced_congr htu fun hop => subs_of_equal_of_many htu (hop ▸ harity)

/-- Joining equal literals makes equal literals. -/
theorem joined_congr {t t' u u' : Tree} (ht : t.equal t' = true) (hu : u.equal u' = true)
    (hcan : canJoin t u = true) : (joined t u).equal (joined t' u') = true := by
  obtain ⟨hop, hop', -⟩ := canJoin_iff.mp hcan
  obtain ⟨hfold, hrunes⟩ := literal_of_equal ht hop
  refine equal_of_literals ?_ ?_ ?_ ?_
  · rw [joined_op, hop]
  · rw [joined_op, ← op_of_equal ht, hop]
  · rw [joined_flags, joined_flags, hfold]
  · rw [joined_runes, joined_runes, hrunes, (literal_of_equal hu hop').2]

/-- Putting an equal piece in front of equal ones joins both or none. -/
theorem consJoined_congr {t u : Tree} (ht : t.equal u = true) (h : EqualAll ts us) :
    EqualAll (consJoined t ts) (consJoined u us) := by
  cases h with
  | nil => exact List.Forall₂.cons ht List.Forall₂.nil
  | cons hfirst hrest =>
    rw [consJoined, consJoined, ← canJoin_congr ht hfirst]
    split
    · next hcan => exact List.Forall₂.cons (joined_congr ht hfirst hcan) hrest
    · exact List.Forall₂.cons ht (List.Forall₂.cons hfirst hrest)

/-- Equal lists of pieces are joined at the same places. -/
theorem joinLiterals_congr (h : EqualAll ts us) : EqualAll (joinLiterals ts) (joinLiterals us) := by
  refine List.rel_foldr (fun t u ht rest rest' hrest => ?_) List.Forall₂.nil h
  exact consJoined_congr ht hrest

/-- Sequences of equal pieces are equal. -/
theorem sequence_congr (h : EqualAll ts us) : (sequence ts).equal (sequence us) = true := by
  have hmany (hlen : 2 ≤ ts.length) : (sequence ts).equal (sequence us) = true := by
    rw [sequence_many hlen, sequence_many (h.length_eq ▸ hlen)]
    exact bare_congr _ (joinLiterals_congr (flatMap_spliced_congr rfl h))
  cases h with
  | nil => exact equal_refl _
  | cons hfirst hrest =>
    cases hrest with
    | nil => exact hfirst
    | cons _ _ => exact hmany (by simp)

end

/-! ## Beginnings -/

section

variable {t u : Tree} (h : t.equal u = true)

include h

/-- Equal branches begin with equal pieces, or both with none. -/
theorem leadingPiece?_congr :
    Option.Rel (fun p q => p.equal q = true) t.leadingPiece? u.leadingPiece? := by
  have hfront := front_of_equal h
  rw [leadingPiece?, leadingPiece?, op_of_equal h, op_of_equal hfront]
  split
  · exact Option.Rel.none
  · exact Option.Rel.some hfront

/-- Dropping as many runes leaves equal trees. -/
theorem dropRunes_congr (n : Nat) : (dropRunes n t).equal (dropRunes n u) = true := by
  have hop := op_of_equal h
  by_cases hlit : t.op = .literal
  · obtain ⟨hfold, hrunes⟩ := literal_of_equal h hlit
    have hlit' : u.op = .literal := hop ▸ hlit
    rcases dropRunes_cases hlit n with ⟨hshort, hempty⟩ | ⟨hlong, hleft⟩
    · rcases dropRunes_cases hlit' n with ⟨-, hempty'⟩ | ⟨hlong', -⟩
      · exact equal_of_empties hempty hempty'
      · exact absurd hshort (by rw [hrunes]; omega)
    · rcases dropRunes_cases hlit' n with ⟨hshort', -⟩ | ⟨-, hleft'⟩
      · exact absurd hlong (by rw [hrunes]; omega)
      · refine equal_of_literals hleft hleft' ?_ ?_
        · rw [dropRunes_flags, dropRunes_flags, hfold]
        · rw [dropRunes_runes hlit, dropRunes_runes hlit', hrunes]
  · rw [dropRunes_of_ne hlit, dropRunes_of_ne (hop ▸ hlit)]
    exact h

omit h in
/-- What is left under a sequence is one piece, none or a sequence on both sides. -/
theorem remaining_congr {l m : Label} (hagree : l.agrees m = true) {ts us : List Tree}
    (h : EqualAll ts us) : (remaining l ts).equal (remaining m us) = true := by
  have hmany : (node l ts).equal (node m us) = true := equal_of_children hagree h
  cases h with
  | nil => exact equal_refl _
  | cons hfirst hrest =>
    cases hrest with
    | nil => exact hfirst
    | cons _ _ => exact hmany

/-- Equal branches are equal without as much of their text. -/
theorem dropLeadingText_congr (n : Nat) :
    (dropLeadingText n t).equal (dropLeadingText n u) = true := by
  have hop := op_of_equal h
  by_cases hconcat : t.op = .concat
  · have hsubs := subs_of_equal_of_many h (by rw [hconcat]; rfl)
    have hagree := (equal_iff_reads.mp h).1
    obtain ⟨l, subs⟩ := t
    obtain ⟨m, subs'⟩ := u
    rw [subs_node, subs_node] at hsubs
    cases hsubs with
    | nil =>
      rw [dropLeadingText, dropLeadingText, if_pos hconcat, if_pos (hop ▸ hconcat)]
      exact h
    | cons hfirst hrest =>
      have hdropped := dropRunes_congr hfirst n
      rw [op_node, op_node] at hop
      rw [op_node] at hconcat
      rw [dropLeadingText_concat hconcat, dropLeadingText_concat (hop ▸ hconcat),
        op_of_equal hdropped]
      split
      · exact remaining_congr hagree hrest
      · exact equal_of_children hagree (List.Forall₂.cons hdropped hrest)
  · rw [dropLeadingText_of_ne hconcat, dropLeadingText_of_ne (hop ▸ hconcat)]
    exact dropRunes_congr h n

theorem dropLeadingPiece_congr : (dropLeadingPiece t).equal (dropLeadingPiece u) = true := by
  have hop := op_of_equal h
  by_cases hconcat : t.op = .concat
  · have hsubs := subs_of_equal_of_many h (by rw [hconcat]; rfl)
    have hagree := (equal_iff_reads.mp h).1
    obtain ⟨l, subs⟩ := t
    obtain ⟨m, subs'⟩ := u
    rw [op_node, op_node] at hop
    rw [op_node] at hconcat
    rw [dropLeadingPiece_concat hconcat, dropLeadingPiece_concat (hop ▸ hconcat)]
    refine remaining_congr hagree ?_
    rw [subs_node, subs_node] at hsubs
    cases hsubs with
    | nil => exact List.Forall₂.nil
    | cons _ hrest => exact hrest
  · rw [dropLeadingPiece_of_ne hconcat, dropLeadingPiece_of_ne (hop ▸ hconcat)]
    exact equal_refl _

end

/-! ## Runs -/

section

variable {ρ : Type} {start : Tree → ρ} {add? : ρ → Tree → Option ρ} {S : ρ → ρ → Prop}
  (hstart : ∀ {t u}, t.equal u = true → S (start t) (start u))
  (hadd : ∀ {run run' t u}, S run run' → t.equal u = true →
    Option.Rel S (add? run t) (add? run' u))

include hstart hadd

/-- If runs that are alike take in equal trees together, equal lists are cut at the same places; by
    induction on the list. -/
theorem runsFrom_congr {run run' : ρ} (hrun : S run run') {ts us : List Tree}
    (h : EqualAll ts us) :
    List.Forall₂ S (runsFrom start add? run ts) (runsFrom start add? run' us) := by
  induction h generalizing run run' with
  | nil => exact List.Forall₂.cons hrun List.Forall₂.nil
  | @cons t u _ _ hfirst _ ih =>
    have hnext := hadd hrun hfirst
    rw [runsFrom, runsFrom]
    generalize add? run t = longer? at hnext ⊢
    generalize add? run' u = longer?' at hnext ⊢
    -- both runs take the next tree, or both end before it
    cases hnext with
    | some hlonger => exact ih hlonger
    | none => exact List.Forall₂.cons hrun (ih (hstart hfirst))

/-- Equal trees are cut into runs at the same places, if the runs of equal trees cannot be told
    apart. -/
theorem runs_congr {ts us : List Tree} (h : EqualAll ts us) :
    List.Forall₂ S (runs start add? ts) (runs start add? us) := by
  cases h with
  | nil => exact List.Forall₂.nil
  | cons hfirst hrest => exact runsFrom_congr hstart hadd (hstart hfirst) hrest

end

/-- The runs share the same runes, and have equal members. -/
structure TextRun.Alike (a b : TextRun) : Prop where
  fold : a.fold = b.fold
  shared : a.shared = b.shared
  members : EqualAll a.members b.members

namespace TextRun

theorem start_congr {t u : Tree} (h : t.equal u = true) : (start t).Alike (start u) where
  fold := congrArg Prod.fst (leadingText_of_equal h)
  shared := congrArg Prod.snd (leadingText_of_equal h)
  members := List.Forall₂.cons h List.Forall₂.nil

/-- Runs that are alike take in equal branches together, and stay alike. -/
theorem add?_congr {a b : TextRun} {t u : Tree} (hrun : a.Alike b) (h : t.equal u = true) :
    Option.Rel Alike (a.add? t) (b.add? u) := by
  rw [add?, add?, leadingText_of_equal h, hrun.fold, hrun.shared]
  split
  · refine Option.Rel.some ⟨rfl, rfl, ?_⟩
    exact List.rel_append hrun.members (List.Forall₂.cons h List.Forall₂.nil)
  · exact Option.Rel.none

end TextRun

/-- The runs share equal pieces, and have equal members. -/
structure PieceRun.Alike (a b : PieceRun) : Prop where
  lead : Option.Rel (fun p q => p.equal q = true) a.lead b.lead
  members : EqualAll a.members b.members

namespace PieceRun

theorem start_congr {t u : Tree} (h : t.equal u = true) : (start t).Alike (start u) where
  lead := leadingPiece?_congr h
  members := List.Forall₂.cons h List.Forall₂.nil

/-- So do runs of pieces. -/
theorem add?_congr {a b : PieceRun} {t u : Tree} (hrun : a.Alike b) (h : t.equal u = true) :
    Option.Rel Alike (a.add? t) (b.add? u) := by
  obtain ⟨lead, members⟩ := a
  obtain ⟨lead', members'⟩ := b
  obtain ⟨hlead, hmembers⟩ := hrun
  have hpiece := leadingPiece?_congr h
  rw [add?, add?]
  generalize t.leadingPiece? = piece? at hpiece ⊢
  generalize u.leadingPiece? = piece?' at hpiece ⊢
  cases hlead with
  | none => exact Option.Rel.none
  | some hleads =>
    cases hpiece with
    | none => exact Option.Rel.none
    | some hpieces =>
      dsimp only
      rw [isFixedWidth_of_equal hleads, equal_congr hleads hpieces]
      split
      · refine Option.Rel.some ⟨Option.Rel.some hleads, ?_⟩
        exact List.rel_append hmembers (List.Forall₂.cons h List.Forall₂.nil)
      · exact Option.Rel.none

end PieceRun

theorem EqualAll.singleton (h : EqualAll ts us) (hone : ts.length = 1) :
    ∃ t u, ts = [t] ∧ us = [u] ∧ t.equal u = true := by
  obtain ⟨t, rfl⟩ := List.length_eq_one_iff.mp hone
  obtain ⟨u, rfl⟩ := List.length_eq_one_iff.mp (h.length_eq ▸ hone)
  exact ⟨t, u, rfl, rfl, (List.forall₂_cons.mp h).1⟩

/-! ## Choices -/

section

variable {choice : List Tree → Tree}
  (hchoice : ∀ {ts us}, EqualAll ts us → (choice ts).equal (choice us) = true)

include hchoice

/-- Runs that are alike make equal branches, if choices of equal rests are equal. -/
theorem TextRun.branch_congr {a b : TextRun} (h : a.Alike b) :
    (a.branch choice).equal (b.branch choice) = true := by
  have hmembers := h.members
  by_cases hone : a.members.length = 1
  · obtain ⟨t, u, ht, hu, htu⟩ := EqualAll.singleton hmembers hone
    rwa [branch_one ht, branch_one hu]
  · rw [branch_of_ne hone, branch_of_ne (hmembers.length_eq ▸ hone), h.fold, h.shared]
    refine sequence_congr (List.Forall₂.cons (equal_refl _) (List.Forall₂.cons (hchoice ?_)
      List.Forall₂.nil))
    refine List.rel_map (fun t u htu => ?_) hmembers
    exact dropLeadingText_congr htu _

theorem PieceRun.branch_congr {a b : PieceRun} (h : a.Alike b) :
    (a.branch choice).equal (b.branch choice) = true := by
  have hlead := h.lead
  have hmembers := h.members
  by_cases hone : a.members.length = 1
  · obtain ⟨t, u, ht, hu, htu⟩ := EqualAll.singleton hmembers hone
    rwa [branch_one ht, branch_one hu]
  · have hrest : (choice (a.members.map dropLeadingPiece)).equal
        (choice (b.members.map dropLeadingPiece)) = true := by
      refine hchoice (List.rel_map (fun t u htu => ?_) hmembers)
      exact dropLeadingPiece_congr htu
    rw [branch_of_ne hone, branch_of_ne (hmembers.length_eq ▸ hone)]
    generalize a.lead = lead? at hlead ⊢
    generalize b.lead = lead?' at hlead ⊢
    cases hlead with
    | none => exact hrest
    | some hleads =>
      exact sequence_congr (List.Forall₂.cons hleads (List.Forall₂.cons hrest List.Forall₂.nil))

/-- Equal branches are factored to equal ones. -/
theorem factored_congr {ts us : List Tree} (h : EqualAll ts us) :
    EqualAll (factored choice ts) (factored choice us) := by
  have htexts : EqualAll ((runs TextRun.start TextRun.add? ts).map (TextRun.branch choice))
      ((runs TextRun.start TextRun.add? us).map (TextRun.branch choice)) := by
    refine List.rel_map (fun a b hrun => ?_)
      (runs_congr TextRun.start_congr TextRun.add?_congr h)
    exact TextRun.branch_congr hchoice hrun
  refine List.rel_map (fun a b hrun => ?_)
    (runs_congr PieceRun.start_congr PieceRun.add?_congr htexts)
  exact PieceRun.branch_congr hchoice hrun

end

/-- Choices of one depth among equal branches are equal. -/
theorem choiceWithin_congr (depth : Nat) {ts us : List Tree} (h : EqualAll ts us) :
    (choiceWithin depth ts).equal (choiceWithin depth us) = true := by
  induction depth generalizing ts us with
  | zero => exact branching_congr .alternate h
  | succ depth ih =>
    by_cases hone : ts.length = 1
    · obtain ⟨t, rfl⟩ := List.length_eq_one_iff.mp hone
      obtain ⟨u, rfl⟩ := List.length_eq_one_iff.mp (h.length_eq ▸ hone)
      rw [choiceWithin, choiceWithin]
      exact (List.forall₂_cons.mp h).1
    · rw [choiceWithin_succ depth hone, choiceWithin_succ depth (h.length_eq ▸ hone)]
      exact bare_congr _ (factored_congr ih (flatMap_spliced_congr rfl h))

/-- Equal trees have the same mass, if none of them has children that nobody reads. -/
theorem mass_congr {t u : Tree} (ht : t.Shaped) (hu : u.Shaped) (h : t.equal u = true) :
    t.mass = u.mass := by
  refine equal_induct (P := fun t u => t.mass = u.mass) ?_ ht hu h
  intro l m subs subs' hagree hsubs
  rw [mass_node, mass_node, map_eq_of_forall₂ hsubs, massOf_weight.agrees l m hagree]

/-- Choices among equal branches are equal. -/
theorem choice_congr {ts us : List Tree}
    (h : List.Forall₂ (fun t u => t.Shaped ∧ u.Shaped ∧ t.equal u = true) ts us) :
    (choice ts).equal (choice us) = true := by
  have hequal : EqualAll ts us := h.imp fun _ _ htu => htu.2.2
  have hmass : ts.map mass = us.map mass :=
    map_eq_of_forall₂ (h.imp fun _ _ htu => mass_congr htu.1 htu.2.1 htu.2.2)
  -- the depth is taken from the mass of the branches
  rw [choice, choice, hmass]
  exact choiceWithin_congr _ hequal

/-! ## Simplified trees -/

section

variable {flags flags' : Flags} (hgreed : flags.nonGreedy = flags'.nonGreedy) {t u : Tree}
  (h : t.equal u = true)

include hgreed h

/-- Equal trees under the same sign, which is left out on both sides or on none. -/
theorem repeated_congr {op : Op} (hrepeat : op.isRepeat = true) (hne : op ≠ .counted) :
    (repeated op flags t).equal (repeated op flags' u) = true := by
  have hop := op_of_equal h
  have hsame : t.op = op ∧ t.flags.nonGreedy = flags.nonGreedy ↔
      u.op = op ∧ u.flags.nonGreedy = flags'.nonGreedy := by
    rw [← hop, ← hgreed]
    refine and_congr_right fun hunder => ?_
    rw [nonGreedy_of_equal h (hunder ▸ hrepeat)]
  rw [repeated, repeated, ← hop]
  by_cases hempty : t.op = .emptyMatch
  · rw [if_pos hempty, if_pos hempty]
    exact h
  · rw [if_neg hempty, if_neg hempty]
    by_cases hredundant : t.op = op ∧ t.flags.nonGreedy = flags.nonGreedy
    · rw [if_pos hredundant, hop, if_pos (hsame.mp hredundant)]
      exact h
    · rw [if_neg hredundant, hop, if_neg (mt hsame.mpr hredundant)]
      refine equal_of_children ?_ (List.Forall₂.cons h List.Forall₂.nil)
      exact agrees_repeated rfl hgreed hrepeat hne

omit hgreed h in
theorem inSequence_congr {ts us : List Tree} (h : EqualAll ts us) :
    (inSequence ts).equal (inSequence us) = true :=
  branching_congr _ (flatMap_spliced_congr rfl h)

theorem optional_congr (n : Nat) : (optional flags t n).equal (optional flags' u n) = true := by
  induction n with
  | zero => exact repeated_congr hgreed h rfl (by decide)
  | succ n ih =>
    refine repeated_congr hgreed (inSequence_congr ?_) rfl (by decide)
    exact List.Forall₂.cons h (List.Forall₂.cons ih List.Forall₂.nil)

omit hgreed in
theorem replicate_congr (n : Nat) : EqualAll (List.replicate n t) (List.replicate n u) := by
  induction n with
  | zero => exact List.Forall₂.nil
  | succ n ih => exact List.Forall₂.cons h ih

theorem copies_congr (min max : Int) :
    EqualAll (copies min max flags t) (copies min max flags' u) := by
  refine List.rel_append (replicate_congr h _) ?_
  split
  · exact List.Forall₂.cons (optional_congr hgreed h _) List.Forall₂.nil
  · exact List.Forall₂.nil

/-- Counts over equal trees are written as equal copies. -/
theorem counted_congr (min max : Int) :
    (counted min max flags t).equal (counted min max flags' u) = true := by
  have hplus : (repeated .plus flags t).equal (repeated .plus flags' u) = true :=
    repeated_congr hgreed h rfl (by decide)
  have hcopies := copies_congr hgreed h min max
  unfold counted
  rw [← op_of_equal h]
  split
  · exact equal_refl _
  split
  · exact h
  split
  · split
    · exact repeated_congr hgreed h rfl (by decide)
    split
    · exact hplus
    · refine inSequence_congr (List.rel_append (replicate_congr h _) ?_)
      exact List.Forall₂.cons hplus List.Forall₂.nil
  split
  · exact h
  · have hmany := inSequence_congr hcopies
    generalize copies min max flags t = parts at hcopies hmany ⊢
    generalize copies min max flags' u = parts' at hcopies hmany ⊢
    cases hcopies with
    | nil => exact equal_refl _
    | cons hfirst hrest =>
      cases hrest with
      | nil => exact hfirst
      | cons _ _ => exact hmany

end

/-- Simplifying makes equal trees of equal ones; by induction on both, with the four ways to make a
    node: a leaf, a node over its parts, a sign and a count. -/
theorem unroll_congr {t u : Tree} (h : t.equal u = true) : t.unroll.equal u.unroll = true := by
  refine equal_induct_reads (P := fun t u => t.unroll.equal u.unroll = true) ?_ h
  intro l m subs subs' hagree hsubs
  have hop := Label.op_of_agrees hagree
  have hparts : EqualAll (l.reads (subs.map unroll)) (m.reads (subs'.map unroll)) := by
    rw [← Label.map_reads, ← Label.map_reads, EqualAll, List.forall₂_map_left_iff,
      List.forall₂_map_right_iff]
    exact hsubs
  have hoperand (harity : l.op.arity = .one) :
      ((subs.map unroll).headD empty).equal ((subs'.map unroll).headD empty) = true := by
    rw [Label.reads_one harity, Label.reads_one (hop ▸ harity)] at hparts
    generalize subs.map unroll = ts at hparts ⊢
    generalize subs'.map unroll = us at hparts ⊢
    rcases ts with _ | ⟨a, ts⟩ <;> rcases us with _ | ⟨b, us⟩
    · exact equal_refl _
    · cases hparts
    · cases hparts
    · exact (List.forall₂_cons.mp hparts).1
  rw [unroll_node, unroll_node]
  rcases l.op.unroll_cases with harity | hcompound | ⟨hrepeat, hne⟩ | hcount
  · rw [unrollNode_leaf _ _ harity, unrollNode_leaf _ _ (hop ▸ harity)]
    exact equal_of_leaf harity hagree
  · rw [unrollNode_parts _ _ hcompound, unrollNode_parts _ _ (hop ▸ hcompound)]
    refine equal_iff_reads.mpr ⟨?_, hparts⟩
    rcases hcompound with hcase | hcase | hcase
    · simpa [Label.agrees, hcase, ← hop] using hagree
    · simp [Label.agrees, hcase, ← hop]
    · simp [Label.agrees, hcase, ← hop]
  · rw [unrollNode_repeated _ _ hrepeat hne, unrollNode_repeated _ _ (hop ▸ hrepeat) (hop ▸ hne),
      ← hop]
    have hgreed := Label.nonGreedy_of_agrees hagree hrepeat
    exact repeated_congr hgreed (hoperand (Op.arity_of_isRepeat hrepeat)) hrepeat hne
  · rw [unrollNode_counted _ _ hcount, unrollNode_counted _ _ (hop ▸ hcount)]
    have hgreed := Label.nonGreedy_of_agrees hagree (by rw [hcount]; rfl)
    obtain ⟨hmin, hmax⟩ := Label.bounds_of_agrees hagree hcount
    rw [hmin, hmax]
    exact counted_congr hgreed (hoperand (by rw [hcount]; rfl)) _ _

/-- Equal trees are equal when they are simplified, if neither is marked as simple. -/
theorem simplify_congr {t u : Tree} (ht : t.flags.simple = false) (hu : u.flags.simple = false)
    (h : t.equal u = true) : t.simplify.equal u.simplify = true := by
  rw [simplify_of_unmarked ht, simplify_of_unmarked hu]
  exact equal_trans (marked_equal true _)
    (equal_trans (unroll_congr h) (equal_symm (marked_equal true _)))

/-! ## Dumps -/

/-- A dump shows no field of a node that is not compared. -/
theorem dumpName_of_agrees {l m : Label} (h : l.agrees m = true) : l.dumpName = m.dumpName := by
  have hop := Label.op_of_agrees h
  unfold Label.dumpName
  rw [← hop]
  cases hcase : l.op
  case star | plus | quest | counted =>
    dsimp only
    rw [Label.nonGreedy_of_agrees h (by rw [hcase]; rfl)]
  case literal =>
    obtain ⟨hfold, hrunes⟩ := Label.literal_of_agrees h hcase
    rw [hfold, hrunes]
  all_goals rfl

/-- Labels that agree are dumped alike. -/
theorem dumpBody_of_agrees {l m : Label} (h : l.agrees m = true) (dumps : List String) :
    l.dumpBody dumps = m.dumpBody dumps := by
  have hop := Label.op_of_agrees h
  unfold Label.dumpBody
  rw [← hop]
  cases hcase : l.op
  case endText => rw [Label.wasDollar_of_agrees h hcase]
  case literal => rw [(Label.literal_of_agrees h hcase).2]
  case charClass => rw [Label.charClass_of_agrees h hcase]
  case counted =>
    obtain ⟨hmin, hmax⟩ := Label.bounds_of_agrees h hcase
    rw [hmin, hmax]
  case capture => rw [(Label.capture_of_agrees h hcase).2]
  all_goals rfl

/-- Equal trees have the same compact form. -/
theorem dump_congr {t u : Tree} (ht : t.Shaped) (hu : u.Shaped) (h : t.equal u = true) :
    t.dump = u.dump := by
  refine equal_induct (P := fun t u => t.dump = u.dump) ?_ ht hu h
  intro l m subs subs' hagree hsubs
  rw [dump_node, dump_node, map_eq_of_forall₂ hsubs, dumpName_of_agrees hagree,
    dumpBody_of_agrees hagree]

end RegexTree.Tree
