/-
  Collapsing is not stuck.

  On trees in which no operand is missing, `collapse` makes the sequence or the choice of its parts.
  The machine does it in one scan over positions, with the run under way remembered by where it
  begins, where the definition of choices cuts the list of branches into runs first; and its
  recursion has a number of steps that it must not use up.

  * Sequences: the machine pushes one part after the other and joins as it goes, from the left,
    where joining is defined from the right.  Both come to the same, since joining is associative
    (`joined_joined`, `foldl_pushSub_joinLiterals`).
  * The scan finds the runs of neighbours (`scan_eq_runs`): while it goes on, the branches are those
    of ended runs, then those of the run under way, then those to come (`scan_under`).  `Marks` says
    what the scan has to remember of a run for that, and both rounds are cases of it (`textMarks`,
    `pieceMarks`).
  * Choices: what a run has lost is smaller than the run, so the recursion comes to its end
    (`MakesChoice`, `collapseWithin_alternate`).

  What is stripped off a branch is never more than is there: the text that a run shares begins all
  of its members.
-/
import RegexTree.Machine.Collapse
import RegexTree.Proofs.Tree.ReducedChoice

namespace RegexTree.Machine

open RegexTree.Tree

/-! ## What a branch begins with -/

theorem front_eq (t : Tree) : front t = .ok t.front := by
  obtain ⟨l, subs⟩ := t
  by_cases hop : l.op = .concat
  · cases subs with
    | nil => simp [front, Tree.front]
    | cons first rest => simp [front, Tree.front, hop]
  · simp [front, Tree.front, hop]

theorem leadingString_eq (t : Tree) : leadingString t = .ok t.leadingText := by
  rw [leadingString, front_eq]
  rfl

theorem leadingRegexp?_eq (t : Tree) : leadingRegexp? t = .ok t.leadingPiece? := by
  rw [leadingRegexp?, leadingPiece?, front_eq]
  by_cases hop : t.op = .emptyMatch
  · rw [if_pos hop, if_pos (Or.inl hop)]
  · rw [if_neg hop, ok_bind, pure_eq_ok]
    congr 1
    exact if_congr (or_iff_right hop).symm rfl rfl

/-- Whether a piece has a fixed width can be asked where operands are there. -/
theorem isFixedWidth_eq {t : Tree} (ht : t.Everywhere HasOperand) :
    isFixedWidth t = .ok t.isFixedWidth := by
  rw [isFixedWidth, Tree.isFixedWidth]
  cases t.isOneRune with
  | true => rfl
  | false =>
    rw [if_neg Bool.false_ne_true, Bool.false_or]
    cases hop : t.op with
    | counted =>
      obtain ⟨operand, hsubs⟩ := ht.here (show t.label.op.arity = .one by
        rw [show t.label.op = .counted from hop]; rfl)
      rw [hsubs]
      by_cases hexact : t.label.min = t.label.max
      · simp [hexact]
      · simp [hexact]
    | _ => rfl

theorem equal_eq {t u : Tree} (ht : t.Everywhere HasOperand) (hu : u.Everywhere HasOperand) :
    equal t u = .ok (t.equal u) :=
  if_pos (isComparable_of_operands ht hu)

/-- No more runes are stripped off a literal than it has. -/
theorem stripLiteral_eq {n : Nat} {t : Tree} (h : t.op = .literal → n ≤ t.runes.length) :
    stripLiteral n t = .ok (dropRunes n t) := by
  rw [stripLiteral, dropRunes]
  by_cases hop : t.op = .literal
  · rw [if_pos hop, if_pos hop, drain_of_le (h hop), ok_bind, pure_eq_ok]
    obtain ⟨l, subs⟩ := t
    simp only [relabel, runes_node, List.drop_eq_nil_iff]
  · rw [if_neg hop, if_neg hop]

/-- A branch has the runes that it begins with to lose. -/
theorem removeLeadingString_eq {n : Nat} {t : Tree} (h : n ≤ t.leadingText.2.length) :
    removeLeadingString n t = .ok (dropLeadingText n t) := by
  have hfront : t.front.op = .literal → n ≤ t.front.runes.length := fun hop => by
    rwa [leadingText_of_front hop] at h
  obtain ⟨l, subs⟩ := t
  rw [removeLeadingString, dropLeadingText]
  by_cases hop : (node l subs).op = .concat
  · cases subs with
    | nil =>
      rw [if_neg (by simp), if_pos hop]
      refine (stripLiteral_eq (fun hlit => ?_)).trans (congrArg _ (dropRunes_of_ne (n := n) ?_))
      · rw [hop] at hlit
        cases hlit
      · rw [hop]
        decide
    | cons first rest =>
      rw [front_node_cons (show l.op = .concat from hop)] at hfront
      have hlen : 1 ≤ (first :: rest).length := Nat.succ_le_of_lt (Nat.succ_pos _)
      rw [if_pos ⟨hop, rfl⟩, if_pos hop]
      simp only [subs_node, label_node, List.getElem?_cons_zero, must_some, ok_bind,
        stripLiteral_eq hfront, drain_of_le hlen, pure_eq_ok]
      rfl
  · rw [front_of_ne hop] at hfront
    rw [if_neg (fun h => hop h.1), if_neg hop]
    exact stripLiteral_eq hfront

/-- The first piece is there to be removed. -/
theorem removeLeadingRegexp_eq {t p : Tree} (h : t.leadingPiece? = some p) :
    removeLeadingRegexp t = .ok (dropLeadingPiece t, p) := by
  obtain ⟨rfl, -, -⟩ := leadingPiece?_eq_some h
  obtain ⟨l, subs⟩ := t
  rw [removeLeadingRegexp, dropLeadingPiece]
  by_cases hop : (node l subs).op = .concat
  · cases subs with
    | nil =>
      rw [if_neg (by simp), if_pos hop, Tree.front, if_pos hop]
      rfl
    | cons first rest =>
      have hlen : 1 ≤ (first :: rest).length := Nat.succ_le_of_lt (Nat.succ_pos _)
      rw [if_pos ⟨hop, rfl⟩, if_pos hop, front_node_cons (show l.op = .concat from hop)]
      simp only [subs_node, label_node, List.getElem?_cons_zero, must_some, ok_bind,
        drain_of_le hlen, pure_eq_ok]
      rfl
  · rw [if_neg (fun h => hop h.1), if_neg hop, front_of_ne hop]

/-! ## Joining literals -/

/-- Literals may be joined from the left or from the right. -/
theorem joined_joined (t u v : Tree) : joined (joined t u) v = joined t (joined u v) := by
  obtain ⟨l, subs⟩ := t
  rw [joined_node, joined_node, joined_node, joined_runes, List.append_assoc]

theorem canJoin_joined_right (t u v : Tree) : canJoin t (joined u v) = canJoin t u := by
  simp only [canJoin, joined_op, joined_flags]

theorem pushSub_nil (op : Op) (t : Tree) : pushSub op [] t = [t] := rfl

/-- A part is joined to the last one if it can be, or stands after it. -/
theorem pushSub_snoc (op : Op) (parts : List Tree) (last t : Tree) :
    pushSub op (parts ++ [last]) t =
      if op = .concat ∧ canJoin last t then parts ++ [joined last t] else parts ++ [last, t] := by
  rw [pushSub, List.getLast?_concat]
  dsimp only
  rw [List.dropLast_concat, List.append_assoc]
  rfl

/-- Only the last part is looked at. -/
theorem pushSub_append {parts : List Tree} (h : parts ≠ []) (op : Op) (before : List Tree)
    (t : Tree) : pushSub op (before ++ parts) t = before ++ pushSub op parts t := by
  obtain ⟨init, last, rfl⟩ : ∃ init last, parts = init ++ [last] :=
    ⟨parts.dropLast, parts.getLast h, (List.dropLast_append_getLast h).symm⟩
  rw [← List.append_assoc, pushSub_snoc, pushSub_snoc]
  split
  · rw [List.append_assoc]
  · rw [List.append_assoc]

/-- A piece in front and a part at the end are put to the others in either order.  Only if there is
    nothing between them do they meet, and then joining is associative. -/
theorem consJoined_pushSub (t : Tree) (parts : List Tree) (x : Tree) :
    consJoined t (pushSub .concat parts x) = pushSub .concat (consJoined t parts) x := by
  -- two parts at the end are far enough apart that the front does not meet `x`
  rcases parts with _ | ⟨u, _ | ⟨v, rest⟩⟩
  · have hpush := pushSub_snoc .concat [] t x
    rw [List.nil_append] at hpush
    rw [pushSub_nil, consJoined, consJoined, hpush]
    cases hcan : canJoin t x <;> simp
  · have hpush := fun w => pushSub_snoc .concat [] w x
    simp only [List.nil_append, true_and] at hpush
    have hpair := pushSub_append (List.cons_ne_nil u []) .concat [t] x
    rw [List.singleton_append] at hpair
    cases hcan : canJoin t u with
    | true =>
      rw [consJoined_join hcan, hpush, hpush, canJoin_joined hcan]
      split
      · rw [consJoined_join (by rwa [canJoin_joined_right]), joined_joined]
      · exact consJoined_join hcan
    | false =>
      have happart : ∀ w : Tree, w.op = u.op → w.flags = u.flags → ∀ more,
          consJoined t (w :: more) = t :: w :: more := by
        intro w hop hflags more
        refine consJoined_apart fun v hv => ?_
        cases hv
        rw [← hcan, canJoin, canJoin, hop, hflags]
      rw [happart u rfl rfl, hpair, hpush]
      split
      · exact happart _ (joined_op u x) (joined_flags u x) []
      · exact happart u rfl rfl [x]
  · have htail : ∀ w : List Tree, pushSub .concat (w ++ v :: rest) x =
        w ++ pushSub .concat (v :: rest) x := fun w =>
      pushSub_append (List.cons_ne_nil v rest) .concat w x
    have hu := htail [u]
    have htu := htail [t, u]
    have hj := htail [joined t u]
    simp only [List.cons_append, List.nil_append] at hu htu hj
    rw [hu, consJoined, consJoined]
    split
    · exact hj.symm
    · exact htu.symm

/-- A part after others is pushed on what they were joined to. -/
theorem joinLiterals_concat (parts : List Tree) (x : Tree) :
    joinLiterals (parts ++ [x]) = pushSub .concat (joinLiterals parts) x := by
  induction parts with
  | nil => rfl
  | cons t rest ih =>
    rw [List.cons_append, joinLiterals_cons, joinLiterals_cons, ih, consJoined_pushSub]

/-- Pushing one part after the other joins them all, by induction on the parts to come. -/
theorem foldl_pushSub_joinLiterals (before parts : List Tree) :
    parts.foldl (pushSub .concat) (joinLiterals before) = joinLiterals (before ++ parts) := by
  induction parts generalizing before with
  | nil => rw [List.append_nil]; rfl
  | cons t rest ih =>
    rw [List.foldl_cons, ← joinLiterals_concat, ih, List.append_assoc]
    rfl

/-- Pushing parts one by one joins literals. -/
theorem foldl_pushSub_concat (parts : List Tree) :
    parts.foldl (pushSub .concat) [] = joinLiterals parts :=
  foldl_pushSub_joinLiterals [] parts

/-- Under another operation nothing is joined. -/
theorem foldl_pushSub_of_ne {op : Op} (h : op ≠ .concat) (before parts : List Tree) :
    parts.foldl (pushSub op) before = before ++ parts := by
  induction parts generalizing before with
  | nil => exact (List.append_nil before).symm
  | cons t rest ih =>
    have hpush : pushSub op before t = before ++ [t] := by
      rw [pushSub]
      split
      · exact if_neg fun hboth => h hboth.1
      · rfl
    rw [List.foldl_cons, hpush, ih, List.append_assoc]
    rfl

/-- The shared beginning and the rest are put in sequence. -/
theorem factored_eq {lead : Tree} (h : lead.op ≠ .concat) (rest : Tree) :
    factored lead rest = sequence [lead, rest] := by
  have hfold := foldl_pushSub_joinLiterals [lead] (spliced .concat rest)
  rw [factored, sequence_many (show 2 ≤ [lead, rest].length from Nat.le_refl 2), flatParts,
    List.flatMap_cons, spliced_of_ne h, List.flatMap_singleton]
  exact congrArg _ hfold

/-! ## Runs -/

section Scan

variable {μ ρ : Type} {start : Tree → ρ} {add? : ρ → Tree → Option ρ} {members : ρ → List Tree}
  {mark : ρ → μ} {markOf : Tree → Guarded μ} {share? : μ → μ → Guarded (Option μ)} {blank : μ}
  {branches : List Tree} {P : ρ → Prop}

/-- The scan remembers of each run the number of branches and the mark. -/
def summary (members : ρ → List Tree) (mark : ρ → μ) (run : ρ) : Nat × μ :=
  ((members run).length, mark run)

/-- How the marks of a scan go with the runs: the mark of a branch is that of the run of it alone,
    a run takes a branch just if the marks are shared, and a blank mark is shared with none. -/
structure Marks (start : Tree → ρ) (add? : ρ → Tree → Option ρ) (members : ρ → List Tree)
    (mark : ρ → μ) (markOf : Tree → Guarded μ) (share? : μ → μ → Guarded (Option μ)) (blank : μ)
    (branches : List Tree) (P : ρ → Prop) : Prop where
  members_start : ∀ t, members (start t) = [t]
  members_add : ∀ run t longer, add? run t = some longer → members longer = members run ++ [t]
  begins : ∀ t ∈ branches, P (start t)
  keeps : ∀ run, P run → ∀ t ∈ branches, ∀ longer, add? run t = some longer → P longer
  markOf_eq : ∀ t ∈ branches, markOf t = .ok (mark (start t))
  share?_eq : ∀ run, P run → ∀ t ∈ branches,
    share? (mark run) (mark (start t)) = .ok ((add? run t).map mark)
  share?_blank : ∀ t ∈ branches, share? blank (mark (start t)) = .ok none

variable (h : Marks start add? members mark markOf share? blank branches P)

/-- The scan where the branches `before` stand in ended runs, and `run` is under way. -/
def under (mark : ρ → μ) (ended : List (Nat × μ)) (before : List Tree)
    (run : ρ) : Scan μ :=
  ⟨ended, before.length, mark run⟩

/-- The run under way ends behind its members. -/
theorem cut_under {before : List Tree} {run : ρ} (hne : members run ≠ [])
    (ended : List (Nat × μ)) (m : μ) :
    (under mark ended before run).cut (before ++ members run).length m =
      .ok ⟨ended ++ [summary members mark run], (before ++ members run).length, m⟩ := by
  have hpos := List.length_pos_iff.mpr hne
  have hlt : before.length < (before ++ members run).length := by
    rw [List.length_append]
    omega
  have hsub : (before ++ members run).length - before.length = (members run).length := by
    rw [List.length_append, Nat.add_sub_cancel_left]
  rw [under, Scan.cut]
  dsimp only
  rw [if_pos hlt, lessen_of_le (Nat.le_of_lt hlt), hsub]
  rfl

include h

/-- A branch is added to the run under way, or the next run begins with it. -/
theorem pass_under {before rest : List Tree} {run : ρ} {t : Tree} (hrun : P run)
    (hne : members run ≠ []) (hall : branches = before ++ members run ++ t :: rest)
    (ended : List (Nat × μ)) :
    Scan.pass markOf share? blank branches (under mark ended before run)
        (before ++ members run).length =
      .ok (((add? run t).map (under mark ended before)).getD
        (under mark (ended ++ [summary members mark run]) (before ++ members run) (start t))) := by
  have hindex : branches[(before ++ members run).length]? = some t := by
    rw [hall, List.getElem?_append_right (Nat.le_refl _), Nat.sub_self]
    rfl
  obtain ⟨hin, -⟩ := List.getElem?_eq_some_iff.mp hindex
  have hmem : t ∈ branches := List.mem_of_getElem? hindex
  rw [Scan.pass, if_pos hin, hindex]
  simp only [must_some, ok_bind, h.markOf_eq t hmem]
  rw [show (under mark ended before run).mark = mark run from rfl,
    h.share?_eq run hrun t hmem, ok_bind]
  cases add? run t with
  | some longer => rfl
  | none => exact cut_under hne ended (mark (start t))

/-- From any place in the middle the scan finds the runs that are left; by induction on the branches
    to come. -/
theorem scan_under {before rest : List Tree} {run : ρ} (hrun : P run) (hne : members run ≠ [])
    (hall : branches = before ++ members run ++ rest) (ended : List (Nat × μ)) :
    ((List.range' (before ++ members run).length (rest.length + 1)).foldlM
        (Scan.pass markOf share? blank branches) (under mark ended before run) >>=
          fun s => Except.ok s.runs) =
      (.ok (ended ++ (runsFrom start add? run rest).map (summary members mark)) :
        Guarded (List (Nat × μ))) := by
  -- the invariant is `hall`: the members of the run stand just before what is still to be scanned,
  -- so the position of the scan is the number of branches before it
  induction rest generalizing before run ended with
  | nil =>
    have hend : ¬(before ++ members run).length < branches.length := by
      rw [hall, List.append_nil]
      exact Nat.lt_irrefl _
    rw [List.length_nil, List.range'_succ, List.foldlM_cons, Scan.pass, if_neg hend,
      cut_under hne]
    rfl
  | cons t rest ih =>
    have hmem : t ∈ branches := by
      rw [hall]
      exact List.mem_append_right _ List.mem_cons_self
    rw [List.length_cons, List.range'_succ, List.foldlM_cons, pass_under h hrun hne hall, ok_bind]
    cases hadd : add? run t with
    -- the branch is taken into the run, which ends one position further on
    | some longer =>
      have hmembers := h.members_add run t longer hadd
      have hlen : (before ++ members longer).length = (before ++ members run).length + 1 := by
        rw [hmembers, ← List.append_assoc, List.length_append]
        rfl
      have hnext := ih (h.keeps run hrun t hmem longer hadd) (by rw [hmembers]; simp)
        (show branches = before ++ members longer ++ rest by rw [hall, hmembers]; simp) ended
      rw [hlen] at hnext
      rw [runsFrom_add hadd]
      exact hnext
    -- the run ends here, and the branch begins the next one
    | none =>
      have hmembers := h.members_start t
      have hlen : (before ++ members run ++ members (start t)).length =
          (before ++ members run).length + 1 := by
        rw [hmembers, List.length_append]
        rfl
      have hnext := ih (h.begins t hmem) (by rw [hmembers]; simp)
        (show branches = before ++ members run ++ members (start t) ++ rest by
          rw [hall, hmembers]; simp)
        (ended ++ [summary members mark run])
      rw [hlen, List.append_assoc] at hnext
      rw [runsFrom_stop hadd]
      exact hnext

/-- The first branch begins the first run. -/
theorem pass_first {t : Tree} {rest : List Tree} (hall : branches = t :: rest) :
    Scan.pass markOf share? blank branches { mark := blank } 0 =
      .ok (under mark [] [] (start t)) := by
  have hmem : t ∈ branches := hall ▸ List.mem_cons_self
  have hindex : branches[0]? = some t := hall ▸ rfl
  have hin : 0 < branches.length := (List.getElem?_eq_some_iff.mp hindex).1
  rw [Scan.pass, if_pos hin, hindex, must_some, ok_bind, h.markOf_eq t hmem, ok_bind,
    h.share?_blank t hmem]
  rfl

/-- The scan finds the runs. -/
theorem scan_eq_runs :
    scan markOf share? blank branches =
      .ok ((runs start add? branches).map (summary members mark)) := by
  rw [scan, List.range_eq_range']
  cases hall : branches with
  | nil => rfl
  | cons t rest =>
    have hmem : t ∈ branches := hall ▸ List.mem_cons_self
    have hmembers := h.members_start t
    have hfrom := scan_under h (h.begins t hmem) (by rw [hmembers]; exact List.cons_ne_nil t [])
      (show branches = [] ++ members (start t) ++ rest by rw [hall, hmembers]; rfl) []
    rw [hmembers] at hfrom
    rw [← hall, hall, List.length_cons, List.range'_succ, List.foldlM_cons, ← hall,
      pass_first h hall, ok_bind]
    rw [hall] at hfrom ⊢
    exact hfrom

omit h in
/-- One branch is made of each run. -/
theorem gather_eq {branch : μ → List Tree → Guarded Tree} {branch' : ρ → Tree} {rs : List ρ}
    (hone : ∀ run t, members run = [t] → branch' run = t)
    (hmany : ∀ run ∈ rs, (members run).length ≠ 1 →
      branch (mark run) (members run) = .ok (branch' run)) :
    gather branch (rs.map (summary members mark)) (rs.flatMap members) =
      .ok (rs.map branch') := by
  induction rs with
  | nil => rfl
  | cons run rs ih =>
    obtain ⟨hrun, hrest⟩ := List.forall_mem_cons.mp hmany
    rw [List.map_cons, List.flatMap_cons, summary, gather]
    -- what is cut off by the length of the run is just the members of the run
    simp only [List.take_left, List.drop_left, ih hrest]
    by_cases hlen : (members run).length = 1
    · obtain ⟨t, ht⟩ := List.length_eq_one_iff.mp hlen
      rw [if_pos hlen, ht, List.map_cons, hone run t ht]
      rfl
    · rw [if_neg hlen, hrun hlen]
      rfl

/-- A round: the branches are scanned, and one branch is made of each run. -/
theorem round_eq {branch : μ → List Tree → Guarded Tree} {branch' : ρ → Tree}
    (hone : ∀ run t, members run = [t] → branch' run = t)
    (hmany : ∀ run ∈ runs start add? branches, (members run).length ≠ 1 →
      branch (mark run) (members run) = .ok (branch' run)) :
    (scan markOf share? blank branches >>= fun runs => gather branch runs branches) =
      .ok ((runs start add? branches).map branch') := by
  have hgather := gather_eq hone hmany
  rw [flatMap_runs h.members_start h.members_add] at hgather
  rw [scan_eq_runs h, ok_bind, hgather]

end Scan

/-- What is done to each of a list without being stuck is done to the list. -/
theorem mapM_eq {α β : Type} {f : α → Guarded β} {g : α → β} {l : List α}
    (h : ∀ a ∈ l, f a = .ok (g a)) : l.mapM f = .ok (l.map g) := by
  induction l with
  | nil => rfl
  | cons a rest ih =>
    obtain ⟨ha, hrest⟩ := List.forall_mem_cons.mp h
    rw [List.mapM_cons, ha, ih hrest]
    rfl

/-! ## The two rounds -/

/-- What two texts have in common is as long as they agree. -/
theorem length_takeWhile_zip (a b : List Nat) :
    ((a.zip b).takeWhile fun (x, y) => x == y).length = (commonPrefix a b).length := by
  fun_induction commonPrefix a b with
  | case1 x as bs ih => simp [ih]
  | case2 x as y bs hne => simp [hne]
  | case3 as bs hnil =>
    cases as with
    | nil => rfl
    | cons x as =>
      cases bs with
      | nil => rfl
      | cons y bs => exact absurd rfl (hnil x as y bs rfl)

/-- The runes that all branches of a run begin with are shared with a branch as far as both
    agree. -/
theorem shareText?_eq (run : TextRun) (t : Tree) :
    shareText? (run.fold, run.shared) t.leadingText =
      .ok ((run.add? t).map fun longer => (longer.fold, longer.shared)) := by
  have hprefix := commonPrefix_prefix_left run.shared t.leadingText.2
  rw [shareText?, TextRun.add?]
  by_cases hfold : t.leadingText.1 = run.fold
  · rw [if_pos hfold]
    dsimp only
    rw [length_takeWhile_zip]
    by_cases hnil : commonPrefix run.shared t.leadingText.2 = []
    · rw [hnil, if_neg (by simp), if_neg (by simp)]
      rfl
    · rw [if_pos (List.length_pos_iff.mpr hnil), if_pos ⟨hfold, hnil⟩,
        firstOf_of_le hprefix.length_le, ← List.prefix_iff_eq_take.mp hprefix]
      rfl
  · rw [if_neg hfold, if_neg fun hboth => hfold hboth.1]
    rfl

/-- The scan remembers of a run of text how it folds and what it shares. -/
theorem textMarks (branches : List Tree) :
    Marks TextRun.start TextRun.add? TextRun.members (fun run => (run.fold, run.shared))
      leadingString shareText? (false, []) branches fun _ => True where
  members_start _ := rfl
  members_add run t longer h := by rw [(TextRun.add?_eq_some h).2.2]
  begins _ _ := trivial
  keeps _ _ _ _ _ _ := trivial
  markOf_eq t _ := leadingString_eq t
  share?_eq run _ t _ := shareText?_eq run t
  share?_blank t _ := by
    rw [shareText?]
    split
    · simp
    · rfl

/-- A piece is shared if it is equal and has a fixed width. -/
theorem sharePiece?_eq {run : PieceRun} (hrun : ∀ lead ∈ run.lead, lead.Everywhere HasOperand)
    {t : Tree} (ht : t.Everywhere HasOperand) :
    sharePiece? run.lead t.leadingPiece? = .ok ((run.add? t).map PieceRun.lead) := by
  rw [PieceRun.add?]
  cases hlead : run.lead with
  | none => rfl
  | some lead =>
    cases hpiece : t.leadingPiece? with
    | none => rfl
    | some piece =>
      have hleadFull := hrun lead hlead
      have hpieceFull : piece.Everywhere HasOperand :=
        (leadingPiece?_eq_some hpiece).1 ▸ kept_operands.front ht
      rw [sharePiece?, isFixedWidth_eq hleadFull]
      dsimp only
      rw [ok_bind]
      cases lead.isFixedWidth with
      | false => rfl
      | true =>
        rw [if_pos rfl, equal_eq hleadFull hpieceFull]
        cases lead.equal piece with
        | false => rfl
        | true => rfl

/-- The scan remembers of a run of pieces the piece. -/
theorem pieceMarks {branches : List Tree} (h : ∀ t ∈ branches, t.Everywhere HasOperand) :
    Marks PieceRun.start PieceRun.add? PieceRun.members PieceRun.lead leadingRegexp? sharePiece?
      none branches fun run => ∀ lead ∈ run.lead, lead.Everywhere HasOperand where
  members_start _ := rfl
  members_add run t longer h := by rw [(PieceRun.add?_eq_some h).1]
  begins t ht lead hlead := (leadingPiece?_eq_some hlead).1 ▸ kept_operands.front (h t ht)
  keeps run hrun t _ longer hadd := by
    rw [(PieceRun.add?_eq_some hadd).1]
    exact hrun
  markOf_eq t _ := leadingRegexp?_eq t
  share?_eq run hrun t ht := sharePiece?_eq hrun (h t ht)
  share?_blank _ _ := rfl

section Branches

variable {collapse : List Tree → Guarded Tree} {choice : List Tree → Tree}

/-- The branch of a run of text is made, if the choice of the rests is. -/
theorem textBranch_eq {run : TextRun} (hrun : run.Sound) (hlen : 2 ≤ run.members.length)
    (hcollapse : collapse (run.members.map (dropLeadingText run.shared.length)) =
      .ok (choice (run.members.map (dropLeadingText run.shared.length)))) :
    textBranch collapse (run.fold, run.shared) run.members = .ok (run.branch choice) := by
  have hbegins := fun t ht => (hrun.begins t ht).2
  have hstripped : run.members.mapM (removeLeadingString run.shared.length) =
      .ok (run.members.map (dropLeadingText run.shared.length)) :=
    mapM_eq fun t ht => removeLeadingString_eq (hbegins t ht).length_le
  have hop : (literal run.shared { foldCase := run.fold }).op ≠ .concat := Op.noConfusion
  rw [TextRun.branch_many hlen, ← factored_eq hop]
  obtain ⟨first, rest, hm⟩ := List.exists_cons_of_ne_nil hrun.ne_nil
  have hshared := hbegins first (hm ▸ List.mem_cons_self)
  have hfirst : run.members[0]? = some first := hm ▸ rfl
  rw [textBranch, hfirst, must_some, ok_bind, leadingString_eq, ok_bind]
  dsimp only
  rw [firstOf_of_le hshared.length_le, ← List.prefix_iff_eq_take.mp hshared, ok_bind, hstripped,
    ok_bind, hcollapse]
  rfl

/-- The branch of a run of pieces is made, if the choice of the rests is. -/
theorem pieceBranch_eq {run : PieceRun} (hrun : run.Sound) (hlen : 2 ≤ run.members.length)
    (hcollapse : collapse (run.members.map dropLeadingPiece) =
      .ok (choice (run.members.map dropLeadingPiece))) :
    pieceBranch collapse run.members = .ok (run.branch choice) := by
  obtain ⟨lead, hlead, hfixed, hbegins⟩ := hrun.begins hlen
  have hsplit : run.members.mapM removeLeadingRegexp =
      .ok (run.members.map fun t => (dropLeadingPiece t, t.front)) :=
    mapM_eq fun t ht => by
      obtain ⟨piece, hpiece, -⟩ := hbegins t ht
      rw [removeLeadingRegexp_eq hpiece, (leadingPiece?_eq_some hpiece).1]
  rw [PieceRun.branch_many hlen hlead, ← factored_eq (isFixedWidth_cases hfixed).1]
  obtain ⟨first, rest, hm⟩ := List.exists_cons_of_ne_nil hrun.ne_nil
  have hfront : lead = first.front := by
    have hl := hrun.lead
    rw [hlead, hm] at hl
    exact (leadingPiece?_eq_some hl.symm).1
  rw [pieceBranch, hsplit, ok_bind, List.map_map]
  rw [show Prod.fst ∘ (fun t : Tree => (dropLeadingPiece t, t.front)) = dropLeadingPiece from rfl,
    hcollapse, ok_bind, hm, hfront]
  rfl

/-- What `collapse` makes of branches that weigh less than `depth` is their choice. -/
def MakesChoice (collapse : List Tree → Guarded Tree) (choice : List Tree → Tree) (depth : Nat) :
    Prop :=
  ∀ branches : List Tree, (∀ t ∈ branches, t.Everywhere HasOperand) →
    total massOf branches < depth → collapse branches = .ok (choice branches)

/-- The first round makes the branches of all its runs. -/
theorem texts_eq {depth : Nat} (hmake : MakesChoice collapse choice depth)
    {branches : List Tree} (h : ∀ t ∈ branches, t.Everywhere HasOperand)
    (hmass : total massOf branches ≤ depth) :
    (scan leadingString shareText? (false, []) branches >>= fun runs =>
        gather (textBranch collapse) runs branches) =
      .ok ((runs TextRun.start TextRun.add? branches).map (TextRun.branch choice)) := by
  refine round_eq (textMarks branches) (fun _ _ => TextRun.branch_one) fun run hr hlen => ?_
  have hsound := TextRun.runs_sound branches run hr
  have hlong : 2 ≤ run.members.length := by
    have hpos := List.length_pos_iff.mpr hsound.ne_nil
    omega
  -- the members have lost a rune at least
  have hdropped := add_total_dropLeadingText_le massOf_weight (hsound.shares hlong) hsound.ne_nil
    fun t ht => (hsound.begins t ht).2
  have hpos := List.length_pos_iff.mpr (hsound.shares hlong)
  have hrunMass : total massOf run.members ≤ total massOf branches := by
    rw [← TextRun.flatMap_members branches]
    exact total_members_le hr
  refine textBranch_eq hsound hlong (hmake _ (fun t ht => ?_) (by omega))
  obtain ⟨u, hu, rfl⟩ := List.mem_map.mp ht
  exact kept_operands.dropLeadingText (h u (TextRun.members_subset hr u hu)) _

/-- The second round does, too. -/
theorem pieces_eq {depth : Nat} (hmake : MakesChoice collapse choice depth)
    {branches : List Tree} (h : ∀ t ∈ branches, t.Everywhere HasOperand)
    (hmass : total massOf branches ≤ depth) :
    (scan leadingRegexp? sharePiece? none branches >>= fun runs =>
        gather (fun _ => pieceBranch collapse) runs branches) =
      .ok ((runs PieceRun.start PieceRun.add? branches).map (PieceRun.branch choice)) := by
  refine round_eq (pieceMarks h) (fun _ _ => PieceRun.branch_one) fun run hr hlen => ?_
  have hsound := PieceRun.runs_sound branches run hr
  have hlong : 2 ≤ run.members.length := by
    have hpos := List.length_pos_iff.mpr hsound.ne_nil
    omega
  obtain ⟨lead, hlead, hfixed, hbegins⟩ := hsound.begins hlong
  -- a piece of fixed width weighs something
  have hdropped := add_total_dropLeadingPiece_le massOf_weight hsound.ne_nil hbegins
  have hpos := one_le_weigh_of_isFixedWidth hfixed
  have hrunMass : total massOf run.members ≤ total massOf branches := by
    rw [← PieceRun.flatMap_members branches]
    exact total_members_le hr
  refine pieceBranch_eq hsound hlong (hmake _ (fun t ht => ?_) (by omega))
  obtain ⟨u, hu, rfl⟩ := List.mem_map.mp ht
  exact kept_operands.dropLeadingPiece (h u (PieceRun.members_subset hr u hu))

/-- Both rounds together, if what is left of the branches makes choices. -/
theorem factor_eq {depth : Nat} (hmake : MakesChoice collapse (choiceWithin depth) depth)
    {branches : List Tree} (h : ∀ t ∈ branches, t.Everywhere HasOperand)
    (hmass : total massOf branches ≤ depth) :
    factor collapse branches = .ok (Tree.factored (choiceWithin depth) branches) := by
  rw [factor, Tree.factored]
  by_cases hlen : branches.length < 2
  · rw [if_pos hlen]
    rcases branches with _ | ⟨t, _ | ⟨u, rest⟩⟩
    · rfl
    · rfl
    · exact absurd hlen (by simp)
  · rw [if_neg hlen]
    generalize htexts :
      (runs TextRun.start TextRun.add? branches).map (TextRun.branch (choiceWithin depth)) = texts
    have hround := texts_eq hmake h hmass
    have htextsFull : ∀ t ∈ texts, t.Everywhere HasOperand := by
      intro t ht
      rw [← htexts] at ht
      obtain ⟨run, hr, rfl⟩ := List.mem_map.mp ht
      have hlaw := kept_operands.choiceLaw
      exact (hlaw.textBranch (fun ts hts => hlaw.choiceWithin depth hts)
        (TextRun.runs_sound branches run hr) fun t ht => h t (TextRun.members_subset hr t ht)).1
    have htextsMass : total massOf texts ≤ depth := by
      have hle := total_texts_le depth branches
      rw [htexts] at hle
      exact Nat.le_trans hle hmass
    rw [htexts] at hround
    rw [← bind_assoc, hround, ok_bind, pieces_eq hmake htextsFull htextsMass]

end Branches

/-! ## Sequences and choices -/

/-- No operand is missing in what is taken apart, if none is in what it stood in. -/
theorem operands_of_spliced {op : Op} {subs : List Tree} (h : ∀ t ∈ subs, t.Everywhere HasOperand) :
    ∀ t ∈ subs.flatMap (spliced op), t.Everywhere HasOperand := by
  intro t ht
  obtain ⟨u, hu, htu⟩ := List.mem_flatMap.mp ht
  by_cases hop : u.op = op
  · rw [spliced_of_op hop] at htu
    exact (h u hu).below htu
  · rw [spliced_of_ne hop, List.mem_singleton] at htu
    exact htu ▸ h u hu

/-- At a depth beyond their mass, branches collapse to their choice. -/
theorem collapseWithin_alternate (depth : Nat) :
    MakesChoice (collapseWithin depth .alternate) (choiceWithin depth) depth := by
  induction depth with
  | zero =>
    intro branches _ hmass
    exact absurd hmass (Nat.not_lt_zero _)
  | succ depth ih =>
    intro branches hfull hmass
    by_cases hone : branches.length = 1
    · obtain ⟨t, rfl⟩ := List.length_eq_one_iff.mp hone
      rfl
    · -- splicing does not add mass, so the parts of the branches still fit the smaller depth
      have hflatMass : total massOf (branches.flatMap (spliced .alternate)) ≤ depth := by
        have hle := (choiceLaw_total massOf_weight).flatMap_spliced
          fun t (_ : t ∈ branches) => trivial
        omega
      have hfactor := factor_eq ih (operands_of_spliced hfull) hflatMass
      have hcollapse := collapseWithin.eq_3 .alternate branches depth fun t ht =>
        hone (by rw [ht]; rfl)
      rw [choiceWithin_succ depth hone, hcollapse, foldl_pushSub_of_ne (by decide),
        List.nil_append, if_pos rfl, hfactor]
      rfl

/-- Branches collapse to their choice. -/
theorem collapse_alternate {branches : List Tree} (h : ∀ t ∈ branches, t.Everywhere HasOperand) :
    collapse .alternate branches = .ok (choice branches) :=
  collapseWithin_alternate _ branches h (Nat.lt_succ_of_le (total_massOf_le branches))

/-- Pieces collapse to their sequence. -/
theorem collapse_concat {pieces : List Tree} (h : pieces ≠ []) :
    collapse .concat pieces = .ok (sequence pieces) := by
  rcases pieces with _ | ⟨t, _ | ⟨u, rest⟩⟩
  · exact absurd rfl h
  · rfl
  · rw [collapse, collapseWithin, foldl_pushSub_concat, if_neg (by decide)]
    · exact congrArg Except.ok (sequence_many (show 2 ≤ (t :: u :: rest).length by simp)).symm
    · intro only honly
      cases honly

end RegexTree.Machine
