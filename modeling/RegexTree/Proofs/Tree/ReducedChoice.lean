/-
  A choice of reduced branches is reduced.

  After factoring, the branches are what their runs share before the choice of the rests.  Three
  things have to be shown of them: that each is reduced, that none is a choice, and that no two
  neighbours share a beginning, so that a further round would find nothing.

  What makes the induction on the depth go through is that each round leaves less mass for the next
  depth, since a run of at least two branches loses the runes or the piece that they share.  So
  choices one less deep are reduced as long as their mass is bounded by the depth (`ReducedBelow`),
  and the rests of a run keep that bound.

  The result of at least two branches is a choice or a sequence, never a single leaf
  (`choice_compound`), so that the shared beginning in front of it stays a piece of its own or grows
  to a longer literal (`sequence_pair`).  That is why the branches of the result begin as the runs
  do (`TextRun.StandsFor`, `PieceRun.StandsFor`), and since a run ends only where the next branch
  does not go on with it, neighbours are apart.  The second round must not undo that for the first:
  its pieces are no literals (`PieceRun.Sound.lead_ne_literal`), so what it makes begins with no
  text at all.
-/
import RegexTree.Proofs.Tree.Reduced
import RegexTree.Proofs.Tree.Weight

namespace RegexTree.Tree

open Assembly (bare)

/-! ## A piece in front of a choice or a sequence -/

/-- The operation puts other trees together. -/
def Compound (t : Tree) : Prop := t.op = .alternate ∨ t.op = .concat

/-- A piece in front of a tree is joined to its first part or stands before it. -/
theorem flatParts_pair {a b : Tree} (ha : a.op ≠ .concat) (hb : b.Reduced) :
    flatParts [a, b] = consJoined a (spliced .concat b) := by
  have hun : Unjoinable (spliced .concat b) := by
    by_cases hop : b.op = .concat
    · rw [spliced_of_op hop]
      exact hb.here.unjoinable hop
    · rw [spliced_of_ne hop]
      exact List.isChain_singleton b
  rw [flatParts, List.flatMap_cons, List.flatMap_cons, List.flatMap_nil, List.append_nil,
    spliced_of_ne ha, List.singleton_append, joinLiterals_cons, joinLiterals_eq_self hun]

/-- A piece in front of a choice or a sequence stays in front, perhaps joined with what it meets. -/
theorem sequence_pair {a b : Tree} (ha : a.op ≠ .concat) (hb : b.Reduced) (hbop : b.Compound) :
    ∃ first rest, sequence [a, b] = branching .concat (first :: rest) ∧
      (first = a ∨ ∃ u, canJoin a u = true ∧ first = joined a u) := by
  rw [sequence_many (by simp), flatParts_pair ha hb]
  -- a choice is joined with nothing; of a sequence, the first piece may be a literal that is
  rcases hbop with hop | hop
  · have hcan : canJoin a b = false := by
      rw [Bool.eq_false_iff]
      intro h
      have := (canJoin_iff.mp h).2.1
      rw [hop] at this
      cases this
    rw [spliced_of_ne (by rw [hop]; decide), consJoined, hcan]
    exact ⟨a, [b], rfl, Or.inl rfl⟩
  · have hlen := hb.two_le_length (by rw [hop]; rfl)
    rw [spliced_of_op hop]
    obtain ⟨u, more, hsubs⟩ := List.exists_cons_of_ne_nil (List.ne_nil_of_length_pos
      (Nat.lt_of_lt_of_le Nat.zero_lt_two hlen))
    rw [hsubs, List.length_cons] at hlen
    have hmore : 1 ≤ more.length := Nat.le_of_succ_le_succ hlen
    rw [hsubs, consJoined]
    split
    · next hcan =>
      exact ⟨joined a u, more, bare_of_two_le (Nat.succ_le_succ hmore), Or.inr ⟨u, hcan, rfl⟩⟩
    · exact ⟨a, u :: more, bare_of_two_le (Nat.succ_le_succ (Nat.le_succ_of_le hmore)),
        Or.inl rfl⟩

/-! ## First runes -/

/-- A branch that begins with a text has the first rune of that. -/
theorem firstRune?_eq {t : Tree} {shared : List Nat} (hne : shared ≠ [])
    (h : shared <+: t.leadingText.2) :
    t.firstRune? = shared.head?.map fun r => (t.leadingText.1, r) := by
  obtain ⟨r, rest, rfl⟩ := List.exists_cons_of_ne_nil hne
  obtain ⟨more, hmore⟩ := h
  rw [firstRune?, ← hmore]
  rfl

/-- A branch without a literal in front has none. -/
theorem firstRune?_of_ne {t : Tree} (h : t.front.op ≠ .literal) : t.firstRune? = none := by
  rw [firstRune?, leadingText_of_ne h]
  rfl

/-- A literal in front of a choice or a sequence begins it. -/
theorem leadingText_sequence_pair (runes : List Nat) (flags : Flags) {b : Tree} (hb : b.Reduced)
    (hbop : b.Compound) :
    (sequence [literal runes flags, b]).leadingText.1 = flags.foldCase ∧
      runes <+: (sequence [literal runes flags, b]).leadingText.2 := by
  obtain ⟨first, rest, he, hfirst⟩ :=
    sequence_pair (a := literal runes flags) (show Op.literal ≠ .concat by decide) hb hbop
  have hop : first.op = .literal := by
    rcases hfirst with rfl | ⟨u, -, rfl⟩
    · rfl
    · rw [joined_op]
      rfl
  have hfront : (branching .concat (first :: rest)).front = first := front_node_cons rfl first rest
  rw [he, leadingText_of_front (by rw [hfront]; exact hop), hfront]
  rcases hfirst with rfl | ⟨u, -, rfl⟩
  · exact ⟨rfl, List.prefix_refl _⟩
  · rw [joined_flags, joined_runes]
    exact ⟨rfl, List.prefix_append _ _⟩

/-- A piece that is no literal stays in front of a choice or a sequence as it is. -/
theorem front_sequence_pair {a b : Tree} (ha : a.op ≠ .concat) (hlit : a.op ≠ .literal)
    (hb : b.Reduced) (hbop : b.Compound) :
    (sequence [a, b]).op = .concat ∧ (sequence [a, b]).front = a := by
  obtain ⟨first, rest, he, hfirst⟩ := sequence_pair ha hb hbop
  rw [he]
  rcases hfirst with rfl | ⟨u, hcan, -⟩
  · exact ⟨rfl, front_node_cons rfl first rest⟩
  · exact absurd (canJoin_iff.mp hcan).1 hlit

/-! ## Pieces of fixed width -/

/-- A piece of a fixed width is neither a sequence nor empty, and weighs something. -/
theorem isFixedWidth_cases {t : Tree} (h : t.isFixedWidth = true) :
    t.op ≠ .concat ∧ t.op ≠ .emptyMatch ∧ 1 ≤ massOf t.label := by
  obtain ⟨l, subs⟩ := t
  rw [isFixedWidth, Bool.or_eq_true] at h
  simp only [isOneRune, op_node, runes_node] at h
  simp only [op_node, label_node, massOf]
  cases hop : l.op <;> simp_all

theorem one_le_weigh_of_isFixedWidth {t : Tree} (h : t.isFixedWidth = true) :
    1 ≤ t.weigh massOf := by
  obtain ⟨l, subs⟩ := t
  have := (isFixedWidth_cases h).2.2
  rw [label_node] at this
  rw [weigh_node]
  omega

/-- Equal literals begin with the same rune. -/
theorem firstRune?_of_equal {t u lead : Tree} (ht : t.leadingPiece? = some lead)
    (hop : lead.op = .literal) {p : Tree} (hu : u.leadingPiece? = some p)
    (he : p = lead ∨ lead.equal p = true) : u.firstRune? = t.firstRune? := by
  have hfields : p.op = .literal ∧ p.flags.foldCase = lead.flags.foldCase ∧
      p.runes = lead.runes := by
    rcases he with rfl | he
    · exact ⟨hop, rfl, rfl⟩
    · have hagree := (equal_iff_reads.mp he).1
      obtain ⟨hfold, hrunes⟩ := Label.literal_of_agrees hagree hop
      exact ⟨(Label.op_of_agrees hagree).symm.trans hop, hfold.symm, hrunes.symm⟩
  rw [(leadingPiece?_eq_some ht).1] at hop hfields
  rw [(leadingPiece?_eq_some hu).1] at hfields
  rw [firstRune?, firstRune?, leadingText_of_front hop, leadingText_of_front hfields.1,
    hfields.2.1, hfields.2.2]

/-! ## Where runs end -/

/-- The literals that the branches begin with differ in their first rune, or only one of them
    folds. -/
def TextApart (a b : Tree) : Prop := ∀ r ∈ a.firstRune?, r ∉ b.firstRune?

/-- The first rune of a member is the first of the shared runes. -/
theorem TextRun.Sound.firstRune? {run : TextRun} (hrun : run.Sound) {t : Tree}
    (ht : t ∈ run.members) : t.firstRune? = run.shared.head?.map fun r => (run.fold, r) := by
  obtain ⟨hfold, hprefix⟩ := hrun.begins t ht
  by_cases hne : run.shared = []
  · -- a run that shares nothing has one member, which begins with no rune
    rcases one_or_many hrun.ne_nil with ⟨only, hm⟩ | hlen
    · have halone := hrun.alone only hm
      rw [hm, List.mem_singleton] at ht
      rw [ht, Tree.firstRune?, ← halone, hne]
      rfl
    · exact absurd hne (hrun.shares hlen)
  · rw [firstRune?_eq hne hprefix, hfold]

/-- A branch that a run does not take begins with another rune than the members. -/
theorem TextRun.Sound.textApart {run : TextRun} (hrun : run.Sound) {t u : Tree}
    (ht : t ∈ run.members) (hstop : run.add? u = none) : TextApart t u := by
  intro r hr hr'
  rw [hrun.firstRune? ht, Option.mem_def, Option.map_eq_some_iff] at hr
  rw [Tree.firstRune?, Option.mem_def, Option.map_eq_some_iff] at hr'
  obtain ⟨q, hq, rfl⟩ := hr
  obtain ⟨q', hq', he⟩ := hr'
  obtain ⟨hfold, rfl⟩ := Prod.mk.inj he
  rw [add?] at hstop
  split at hstop
  · cases hstop
  · next hnot =>
    exact hnot ⟨hfold, fun hnil => commonPrefix_eq_nil_iff.mp hnil q' hq hq'⟩

/-- A branch that a run does not take begins with another piece, if that of the run is of fixed
    width. -/
theorem PieceRun.equal_eq_false_of_stop {run : PieceRun} {u p q : Tree} (hp : run.lead = some p)
    (hq : u.leadingPiece? = some q) (hfixed : p.isFixedWidth = true) (hstop : run.add? u = none) :
    p.equal q = false := by
  rw [add?, hp, hq] at hstop
  simp only [hfixed, Bool.true_and] at hstop
  split at hstop
  · cases hstop
  · next hne => exact Bool.eq_false_iff.mpr hne

/-! ## The branches of the runs -/

/-- The branch may stand for the run in the first round: it begins with the same rune as the
    members, and if there are several it is a sequence. -/
structure TextRun.StandsFor (branch : Tree) (run : TextRun) : Prop where
  reduced : branch.Reduced
  notChoice : branch.op ≠ .alternate
  several : 2 ≤ run.members.length → branch.op = .concat
  firstRune : ∀ t ∈ run.members, t.firstRune? = branch.firstRune?

/-- The branch may stand for the run in the second round: it begins with the same piece as the
    members, and if there are several it is a sequence and that piece no literal. -/
structure PieceRun.StandsFor (branch : Tree) (run : PieceRun) : Prop where
  reduced : branch.Reduced
  notChoice : branch.op ≠ .alternate
  several : 2 ≤ run.members.length → branch.op = .concat
  noRune : 2 ≤ run.members.length → branch.firstRune? = none
  lead : branch.leadingPiece? = run.lead

/-- After the first round, two neighbours do not begin with the same literal. -/
theorem PieceRun.Sound.lead_ne_literal {run : PieceRun} (hrun : run.Sound)
    (hmem : ∀ t ∈ run.members, t.Reduced) (hlen : 2 ≤ run.members.length)
    (htext : run.members.IsChain TextApart) {lead : Tree} (hlead : run.lead = some lead) :
    lead.op ≠ .literal := by
  intro hop
  obtain ⟨lead', hlead', -, hbegins⟩ := hrun.begins hlen
  obtain rfl : lead' = lead := Option.some.inj (hlead'.symm.trans hlead)
  match hm : run.members, hlen with
  | first :: second :: more, _ =>
    have hfirst : first.leadingPiece? = some lead' := by
      have hl := hrun.lead
      rw [hlead', hm, List.head?_cons, Option.bind_some] at hl
      exact hl.symm
    obtain ⟨p, hp, he⟩ := hbegins second (hm ▸ List.mem_cons_of_mem _ List.mem_cons_self)
    have hsame := firstRune?_of_equal hfirst hop hp he
    have hsome : first.firstRune? ≠ none := by
      have hfront := (leadingPiece?_eq_some hfirst).1
      have hreduced := kept_reduced.front (hmem first (hm ▸ List.mem_cons_self))
      rw [hfront] at hop
      rw [firstRune?, leadingText_of_front hop]
      intro hnone
      rw [Option.map_eq_none_iff, List.head?_eq_none_iff] at hnone
      exact hreduced.runes_ne_nil hop hnone
    obtain ⟨r, hr⟩ := Option.ne_none_iff_exists'.mp hsome
    rw [hm, List.isChain_cons_cons] at htext
    exact htext.1 r hr (hsame.trans hr)

section Rounds

/-- What is used of the choice of what is left: it is reduced as long as there is not too much. -/
def ReducedBelow (choice : List Tree → Tree) (depth : Nat) : Prop :=
  ∀ ts : List Tree, (∀ t ∈ ts, t.Reduced) → 2 ≤ ts.length → total massOf ts < depth →
    (choice ts).Reduced ∧ (choice ts).Compound

variable {choice : List Tree → Tree} {depth : Nat} (hchoice : ReducedBelow choice depth)

include hchoice

/-- What is left of branches that have lost something can be made a choice. -/
theorem ReducedBelow.of_map {f : Tree → Tree} {ts : List Tree} {n : Nat}
    (hf : ∀ t ∈ ts, (f t).Reduced) (hlen : 2 ≤ ts.length) (hn : 0 < n)
    (hlost : n + total massOf (ts.map f) ≤ total massOf ts) (hmass : total massOf ts ≤ depth) :
    (choice (ts.map f)).Reduced ∧ (choice (ts.map f)).Compound := by
  refine hchoice _ (fun u hu => ?_) (by rwa [List.length_map]) (by omega)
  obtain ⟨t, ht, rfl⟩ := List.mem_map.mp hu
  exact hf t ht

/-- The branch of a run of text is reduced, is no choice and begins as the run says.  What the
    members share is gone from each of them, so their rests weigh less than the next depth bears and
    make a reduced choice; the text in front of that is a literal of its own, or grows into the
    first literal. -/
theorem TextRun.Sound.standsFor {run : TextRun} (hrun : run.Sound)
    (hmem : ∀ t ∈ run.members, t.Reduced ∧ t.op ≠ .alternate)
    (hmass : total massOf run.members ≤ depth) : run.StandsFor (run.branch choice) := by
  rcases one_or_many hrun.ne_nil with ⟨only, hm⟩ | hlen
  · have honly := hmem only (hm ▸ List.mem_cons_self)
    rw [branch_one hm]
    refine ⟨honly.1, honly.2, fun hlen => ?_, fun t ht => ?_⟩
    · rw [hm] at hlen
      exact absurd hlen (by simp)
    · rw [hm] at ht
      rw [List.mem_singleton.mp ht]
  · have hne := hrun.shares hlen
    -- what the members share is gone from each of them, so there is less mass than the next depth
    -- bears
    have hlost := add_total_dropLeadingText_le massOf_weight hne hrun.ne_nil fun t ht =>
      (hrun.begins t ht).2
    rw [Nat.one_mul] at hlost
    obtain ⟨hreduced, hcomp⟩ := hchoice.of_map
      (fun t ht => dropLeadingText_reduced _ (hmem t ht).1) hlen (List.length_pos_iff.mpr hne)
      hlost hmass
    have hlit : (literal run.shared { foldCase := run.fold }).Reduced := literal_reduced hne _
    obtain ⟨rest, tail, he, -⟩ := sequence_pair
      (a := literal run.shared { foldCase := run.fold }) (show Op.literal ≠ .concat by decide)
      hreduced hcomp
    obtain ⟨hfold, hprefix⟩ :=
      leadingText_sequence_pair run.shared { foldCase := run.fold } hreduced hcomp
    rw [branch_many hlen]
    refine ⟨sequence_reduced (List.forall_mem_cons.mpr
      ⟨hlit, List.forall_mem_singleton.mpr hreduced⟩), ?_, fun _ => ?_, fun t ht => ?_⟩
    · rw [he]
      exact show Op.concat ≠ .alternate by decide
    · rw [he]
      rfl
    · rw [hrun.firstRune? ht, firstRune?_eq hne hprefix, hfold]

/-- The branch of a run of pieces is reduced, is no choice and begins with the piece of the run,
    which is no literal; so the choice of the rests stands after it as it is. -/
theorem PieceRun.Sound.standsFor {run : PieceRun} (hrun : run.Sound)
    (hmem : ∀ t ∈ run.members, t.Reduced ∧ t.op ≠ .alternate)
    (hmass : total massOf run.members ≤ depth) (htext : run.members.IsChain TextApart) :
    run.StandsFor (run.branch choice) := by
  rcases one_or_many hrun.ne_nil with ⟨only, hm⟩ | hlen
  · have honly := hmem only (hm ▸ List.mem_cons_self)
    have hshort : ¬2 ≤ run.members.length := by
      rw [hm]
      simp
    rw [branch_one hm]
    refine ⟨honly.1, honly.2, fun hlen => absurd hlen hshort, fun hlen => absurd hlen hshort, ?_⟩
    rw [hrun.lead, hm]
    rfl
  · obtain ⟨lead, hlead, hfixed, hbegins⟩ := hrun.begins hlen
    obtain ⟨hnotConcat, hnotEmpty, -⟩ := isFixedWidth_cases hfixed
    have hnotLiteral := hrun.lead_ne_literal (fun t ht => (hmem t ht).1) hlen htext hlead
    have hleadReduced : lead.Reduced :=
      hrun.kept_lead kept_reduced (fun t ht => (hmem t ht).1) hlead
    have hlost := add_total_dropLeadingPiece_le massOf_weight hrun.ne_nil hbegins
    obtain ⟨hreduced, hcomp⟩ := hchoice.of_map
      (fun t ht => dropLeadingPiece_reduced (hmem t ht).1) hlen
      (one_le_weigh_of_isFixedWidth hfixed) hlost hmass
    obtain ⟨hop, hfront⟩ := front_sequence_pair hnotConcat hnotLiteral hreduced hcomp
    rw [branch_many hlen hlead]
    refine ⟨sequence_reduced (List.forall_mem_cons.mpr
      ⟨hleadReduced, List.forall_mem_singleton.mpr hreduced⟩), ?_, fun _ => hop, fun _ => ?_, ?_⟩
    · rw [hop]
      decide
    · exact firstRune?_of_ne (by rwa [hfront])
    · rw [leadingPiece?, if_neg, hfront, hlead]
      rw [hop, hfront, not_or]
      exact ⟨by decide, hnotEmpty⟩

end Rounds

/-! ## Choices -/

/-- Branches for the runs of some trees are as few as none only if there are no trees. -/
theorem map_runs_ne_nil {ρ : Type} {start : Tree → ρ} {add? : ρ → Tree → Option ρ}
    {members : ρ → List Tree} {ts : List Tree} (h : (runs start add? ts).flatMap members = ts)
    (hts : ts ≠ []) (branch : ρ → Tree) : (runs start add? ts).map branch ≠ [] := by
  intro hnil
  rw [List.map_eq_nil_iff.mp hnil] at h
  exact hts h.symm

/-- One run of all weighs what all weigh; so no run weighs more than all. -/
theorem total_members_le {ρ : Type} {members : ρ → List Tree} {w : Label → Nat} {run : ρ}
    {rs : List ρ} (h : run ∈ rs) : total w (members run) ≤ total w (rs.flatMap members) := by
  induction rs with
  | nil => cases h
  | cons r rest ih =>
    rw [List.flatMap_cons, total_append]
    rcases List.mem_cons.mp h with rfl | h
    · omega
    · have := ih h
      omega

/-- A round that leaves one branch has put all of them into one run. -/
theorem members_of_map_runs {ρ : Type} {start : Tree → ρ} {add? : ρ → Tree → Option ρ}
    {members : ρ → List Tree} {ts : List Tree} (h : (runs start add? ts).flatMap members = ts)
    {branch : ρ → Tree} {t : Tree} (hone : (runs start add? ts).map branch = [t]) :
    ∃ run ∈ runs start add? ts, members run = ts ∧ branch run = t := by
  obtain ⟨run, hruns, ht⟩ := List.map_eq_singleton_iff.mp hone
  rw [hruns, List.flatMap_singleton] at h
  exact ⟨run, hruns ▸ List.mem_cons_self, h, ht⟩

/-- What holds of neighbours holds of those in two runs that follow one another. -/
theorem isChain_members {ρ : Type} {R : Tree → Tree → Prop} {members : ρ → List Tree}
    {before after : List ρ} {a b : ρ}
    (h : ((before ++ a :: b :: after).flatMap members).IsChain R) :
    (members a ++ members b).IsChain R := by
  rw [List.flatMap_append, List.flatMap_cons, List.flatMap_cons, ← List.append_assoc (members a)]
    at h
  exact h.right_of_append.left_of_append

/-- The first round does not add mass. -/
theorem total_texts_le (depth : Nat) (branches : List Tree) :
    total massOf ((runs TextRun.start TextRun.add? branches).map
      (TextRun.branch (choiceWithin depth))) ≤ total massOf branches := by
  have hlaw := choiceLaw_total massOf_weight
  have hle := hlaw.map_flatMap TextRun.members (TextRun.branch (choiceWithin depth))
    fun run hr => (hlaw.textBranch (fun _ hts => hlaw.choiceWithin depth hts)
      (TextRun.runs_sound branches run hr) fun _ _ => trivial).2
  rwa [TextRun.flatMap_members] at hle

/-- What the first round makes of reduced branches that are no choices. -/
theorem texts_reduced {depth : Nat} (hchoice : ReducedBelow (choiceWithin depth) depth)
    {flat : List Tree} (hflat : ∀ t ∈ flat, t.Reduced ∧ t.op ≠ .alternate)
    (hmass : total massOf flat ≤ depth) {texts : List Tree}
    (htexts : (runs TextRun.start TextRun.add? flat).map (TextRun.branch (choiceWithin depth))
      = texts) :
    (∀ t ∈ texts, t.Reduced ∧ t.op ≠ .alternate) ∧ total massOf texts ≤ depth ∧
      texts.IsChain TextApart ∧ ∀ t, texts = [t] → 2 ≤ flat.length → t.op = .concat := by
  have hmembers := TextRun.flatMap_members flat
  have hsound := TextRun.runs_sound flat
  have hrun : ∀ run ∈ runs TextRun.start TextRun.add? flat,
      run.StandsFor (run.branch (choiceWithin depth)) := fun run hr =>
    (hsound run hr).standsFor hchoice (fun t ht => hflat t (TextRun.members_subset hr t ht))
      (Nat.le_trans (total_members_le hr) (by rw [hmembers]; exact hmass))
  refine ⟨fun t ht => ?_, ?_, ?_, fun t ht hlen => ?_⟩
  · rw [← htexts] at ht
    obtain ⟨run, hr, rfl⟩ := List.mem_map.mp ht
    exact ⟨(hrun run hr).reduced, (hrun run hr).notChoice⟩
  · exact htexts ▸ Nat.le_trans (total_texts_le depth flat) hmass
  · rw [← htexts, List.isChain_map]
    refine (runs_chain (fun t => show (TextRun.start t).members = [t] from rfl)
      (fun _ _ _ h => by rw [(TextRun.add?_eq_some h).2.2]) flat).imp_of_mem_imp ?_
    rintro a b ha hb ⟨t, rest, hb', hstop⟩
    obtain ⟨first, hfirst⟩ := List.exists_mem_of_ne_nil a.members (hsound a ha).ne_nil
    rw [TextApart, ← (hrun a ha).firstRune first hfirst,
      ← (hrun b hb).firstRune t (hb' ▸ List.mem_cons_self)]
    exact (hsound a ha).textApart hfirst hstop
  · obtain ⟨run, hr, hall, rfl⟩ := members_of_map_runs hmembers (htexts.trans ht)
    exact (hrun run hr).several (hall ▸ hlen)

/-- Branches for two runs of the second round that follow one another share no beginning. -/
theorem PieceRun.apart_of_stop {choice : List Tree → Tree} {a b : PieceRun} (ha : a.Sound)
    (hb : b.Sound) (hfirst : a.StandsFor (a.branch choice))
    (hsecond : b.StandsFor (b.branch choice)) {t : Tree} {rest : List Tree}
    (ht : b.members = t :: rest) (hstop : a.add? t = none)
    (hchain : (a.members ++ b.members).IsChain TextApart) :
    Apart (a.branch choice) (b.branch choice) := by
  refine ⟨fun r hra hrb => ?_, fun p hp q hq hfixed => ?_⟩
  · -- a run of two or more begins with a piece that is no literal
    rcases one_or_many ha.ne_nil with ⟨u, hu⟩ | hlen
    · rcases one_or_many hb.ne_nil with ⟨v, hv⟩ | hlen
      · rw [branch_one hu] at hra
        rw [branch_one hv] at hrb
        rw [hu, hv] at hchain
        exact (List.isChain_cons_cons.mp hchain).1 r hra hrb
      · rw [hsecond.noRune hlen] at hrb
        cases hrb
    · rw [hfirst.noRune hlen] at hra
      cases hra
  · rw [hfirst.lead] at hp
    rw [hsecond.lead, hb.lead, ht] at hq
    exact equal_eq_false_of_stop hp hq hfixed hstop

/-- What the second round makes of the branches that the first one leaves: each is reduced and no
    choice, and no two neighbours share a beginning, a text as little as a piece.  One branch alone
    is a sequence, if there were several before. -/
theorem parts_reduced {depth : Nat} (hchoice : ReducedBelow (choiceWithin depth) depth)
    {texts : List Tree} (htexts : ∀ t ∈ texts, t.Reduced ∧ t.op ≠ .alternate)
    (hmass : total massOf texts ≤ depth) (hchain : texts.IsChain TextApart) {parts : List Tree}
    (hparts : (runs PieceRun.start PieceRun.add? texts).map (PieceRun.branch (choiceWithin depth))
      = parts) :
    (∀ t ∈ parts, t.Reduced ∧ t.op ≠ .alternate) ∧ parts.IsChain Apart ∧
      ∀ t, parts = [t] → 2 ≤ texts.length → t.op = .concat := by
  have hmembers := PieceRun.flatMap_members texts
  have hsound := PieceRun.runs_sound texts
  have hinside : ∀ run ∈ runs PieceRun.start PieceRun.add? texts,
      run.members.IsChain TextApart := by
    intro run hr
    obtain ⟨before, after, he⟩ := List.append_of_mem hr
    rw [he, List.flatMap_append, List.flatMap_cons] at hmembers
    rw [← hmembers] at hchain
    exact hchain.right_of_append.left_of_append
  have hrun : ∀ run ∈ runs PieceRun.start PieceRun.add? texts,
      run.StandsFor (run.branch (choiceWithin depth)) := fun run hr =>
    (hsound run hr).standsFor hchoice (fun t ht => htexts t (PieceRun.members_subset hr t ht))
      (Nat.le_trans (total_members_le hr) (by rw [hmembers]; exact hmass)) (hinside run hr)
  refine ⟨fun t ht => ?_, ?_, fun t ht hlen => ?_⟩
  · rw [← hparts] at ht
    obtain ⟨run, hr, rfl⟩ := List.mem_map.mp ht
    exact ⟨(hrun run hr).reduced, (hrun run hr).notChoice⟩
  · rw [← hparts, List.isChain_map, List.isChain_iff_forall_rel_of_append_cons_cons]
    intro a b before after he
    have ha : a ∈ runs PieceRun.start PieceRun.add? texts := by rw [he]; simp
    have hb : b ∈ runs PieceRun.start PieceRun.add? texts := by rw [he]; simp
    obtain ⟨t, rest, hb', hstop⟩ := List.isChain_iff_forall_rel_of_append_cons_cons.mp
      (runs_chain (fun t => show (PieceRun.start t).members = [t] from rfl)
        (fun _ _ _ h => by rw [(PieceRun.add?_eq_some h).1]) texts) he
    rw [← hmembers, he] at hchain
    exact PieceRun.apart_of_stop (hsound a ha) (hsound b hb) (hrun a ha) (hrun b hb) hb' hstop
      (isChain_members hchain)
  · obtain ⟨run, hr, hall, rfl⟩ := members_of_map_runs hmembers (hparts.trans ht)
    exact (hrun run hr).several (hall ▸ hlen)

/-- At a depth beyond their mass, a choice of at least two reduced branches is reduced, and a choice
    or a sequence. -/
theorem choiceWithin_reduced (depth : Nat) : ReducedBelow (choiceWithin depth) depth := by
  induction depth with
  | zero =>
    intro branches _ _ hmass
    exact absurd hmass (Nat.not_lt_zero _)
  | succ depth ih =>
    intro branches hreduced hlen hmass
    rw [choiceWithin_succ depth (by omega)]
    -- branches that are choices stand for their own branches, which are no fewer and weigh no more
    generalize hflat : branches.flatMap (spliced .alternate) = flat
    have hflatReduced : ∀ t ∈ flat, t.Reduced ∧ t.op ≠ .alternate := by
      intro t ht
      rw [← hflat] at ht
      obtain ⟨u, hu, htu⟩ := List.mem_flatMap.mp ht
      exact ⟨reduced_of_mem_spliced (hreduced u hu) htu,
        op_ne_of_mem_spliced rfl (hreduced u hu) htu⟩
    have hflatLen : 2 ≤ flat.length := hflat ▸
      Nat.le_trans hlen (length_le_flatMap_spliced rfl hreduced)
    have hflatMass : total massOf flat ≤ depth := by
      have hle := (choiceLaw_total massOf_weight).flatMap_spliced
        fun t (_ : t ∈ branches) => trivial
      rw [hflat] at hle
      omega
    rw [factored]
    generalize htexts :
      (runs TextRun.start TextRun.add? flat).map (TextRun.branch (choiceWithin depth)) = texts
    obtain ⟨htextsReduced, htextsMass, hchain, htextsOne⟩ :=
      texts_reduced ih hflatReduced hflatMass htexts
    generalize hparts :
      (runs PieceRun.start PieceRun.add? texts).map (PieceRun.branch (choiceWithin depth)) = parts
    obtain ⟨hpartsReduced, hapart, hpartsOne⟩ :=
      parts_reduced ih htextsReduced htextsMass hchain hparts
    have hflatNe : flat ≠ [] := List.ne_nil_of_length_pos (by omega)
    have htextsNe : texts ≠ [] := htexts ▸
      map_runs_ne_nil (TextRun.flatMap_members flat) hflatNe _
    have hpartsNe : parts ≠ [] := hparts ▸
      map_runs_ne_nil (PieceRun.flatMap_members texts) htextsNe _
    -- if one branch is left at the end, one of the rounds has put them all in one run, which makes
    -- a sequence
    rcases one_or_many hpartsNe with ⟨t, rfl⟩ | hlong
    · refine ⟨(hpartsReduced t List.mem_cons_self).1, Or.inr ?_⟩
      rcases one_or_many htextsNe with ⟨u, rfl⟩ | hlong
      · have hu : t = u := (List.cons.inj hparts).1.symm
        exact hu ▸ htextsOne u rfl hflatLen
      · exact hpartsOne t rfl hlong
    · rw [bare_of_two_le hlong]
      refine ⟨many_reduced rfl (fun t ht => (hpartsReduced t ht).1) hlong
        (fun t ht => (hpartsReduced t ht).2) (fun h => by cases h) fun _ => hapart, Or.inl rfl⟩

/-- A choice of reduced branches is reduced. -/
theorem choice_reduced {branches : List Tree} (hne : branches ≠ [])
    (h : ∀ t ∈ branches, t.Reduced) : (choice branches).Reduced := by
  match branches, hne, h with
  | [t], _, h =>
    rw [choice_singleton]
    exact h t List.mem_cons_self
  | a :: b :: more, _, h =>
    exact (choiceWithin_reduced _ _ h (by simp) (Nat.lt_succ_of_le (total_massOf_le _))).1

/-- A choice of at least two reduced branches is a choice or a sequence. -/
theorem choice_compound {branches : List Tree} (h : ∀ t ∈ branches, t.Reduced)
    (hlen : 2 ≤ branches.length) : (choice branches).Compound :=
  (choiceWithin_reduced _ _ h hlen (Nat.lt_succ_of_le (total_massOf_le _))).2

end RegexTree.Tree
