/-
  Trees under other capture numbers.

  `raised k` adds `k` to the number of every capture and changes nothing else.  A pattern that
  stands in a group is read to the tree of the pattern under the numbers that are free there, so
  everything that the reader does with trees has to commute with raising.

  Sequences and choices are made in the same way under other numbers (`raised_sequence`,
  `raised_choice`): nothing that takes trees apart or puts them together looks at the numbers, and
  equality compares them only with one another (`equal_raised`).  The lemmas follow the definitions,
  from what a label keeps (operation, flags, runes, bounds, names) over what branches begin with to
  the runs of a choice, one for each function in between; in a name the function comes first if
  raising is moved out of its argument, and `raised` comes first if it is moved in.

  There are two places where it is no mere rewriting.  A run remembers a piece of its members, so
  the run over raised branches is the raised run, and that needs the scan for runs to commute with
  any map that the test for joining respects (`runs_map`).  And normal form has to be the same under
  other numbers (`normal_raised`), for the trees that raising is applied to are known to be normal
  and those that come of it are put together further.
-/
import RegexTree.Proofs.Tree.Choice
import RegexTree.Proofs.Tree.NormalForm
import RegexTree.Tree.Repetition

namespace RegexTree

namespace Label

/-- The label, with a higher number if it is that of a capture. -/
def raised (k : Nat) (l : Label) : Label := if l.op = .capture then { l with cap := l.cap + k } else l

variable (k : Nat) (l : Label)

@[simp] theorem op_raised : (l.raised k).op = l.op := by
  rw [raised]
  split <;> rfl

@[simp] theorem flags_raised : (l.raised k).flags = l.flags := by
  rw [raised]
  split <;> rfl

@[simp] theorem runes_raised : (l.raised k).runes = l.runes := by
  rw [raised]
  split <;> rfl

@[simp] theorem min_raised : (l.raised k).min = l.min := by
  rw [raised]
  split <;> rfl

@[simp] theorem max_raised : (l.raised k).max = l.max := by
  rw [raised]
  split <;> rfl

@[simp] theorem name_raised : (l.raised k).name = l.name := by
  rw [raised]
  split <;> rfl

variable {l}

theorem raised_of_ne (h : l.op ≠ .capture) : l.raised k = l := if_neg h

theorem cap_raised (h : l.op = .capture) : (l.raised k).cap = l.cap + k := by
  rw [raised, if_pos h]

/-- Numbers that are raised alike agree just if they did before. -/
theorem agrees_raised (l m : Label) : (l.raised k).agrees (m.raised k) = l.agrees m := by
  rw [agrees, agrees, op_raised, op_raised]
  by_cases hop : l.op = m.op
  · cases h : l.op
    case capture =>
      have hcap : (l.cap + k == m.cap + k) = (l.cap == m.cap) := by
        rw [Bool.eq_iff_iff, beq_iff_eq, beq_iff_eq]
        omega
      simp only [cap_raised k h, cap_raised k (hop.symm.trans h), hcap, name_raised]
    all_goals simp only [flags_raised, runes_raised, min_raised, max_raised]
  · rw [beq_eq_false_iff_ne.mpr hop]
    rfl

end Label

namespace Tree

open Assembly (bare asDot)

/-- The tree with the number of every capture higher by `k`. -/
def raised (k : Nat) : Tree → Tree := fold fun l _ parts => node (l.raised k) parts

section

variable (k : Nat)

@[simp] theorem raised_node (l : Label) (subs : List Tree) :
    (node l subs).raised k = node (l.raised k) (subs.map (raised k)) := fold_node _ l subs

@[simp] theorem label_raised (t : Tree) : (t.raised k).label = t.label.raised k := by
  obtain ⟨l, subs⟩ := t
  rw [raised_node]
  rfl

@[simp] theorem subs_raised (t : Tree) : (t.raised k).subs = t.subs.map (raised k) := by
  obtain ⟨l, subs⟩ := t
  rw [raised_node]
  rfl

@[simp] theorem op_raised (t : Tree) : (t.raised k).op = t.op := by
  rw [op, label_raised, Label.op_raised]
  rfl

@[simp] theorem flags_raised (t : Tree) : (t.raised k).flags = t.flags := by
  rw [flags, label_raised, Label.flags_raised]
  rfl

@[simp] theorem runes_raised (t : Tree) : (t.raised k).runes = t.runes := by
  rw [runes, label_raised, Label.runes_raised]
  rfl

theorem raised_zero (t : Tree) : t.raised 0 = t := by
  induction t using induct with
  | step l subs ih =>
    have hl : l.raised 0 = l := by
      rw [Label.raised]
      split <;> rfl
    rw [raised_node, hl, List.map_congr_left ih, List.map_id']

/-- A node without children that is no capture has no number. -/
theorem raised_leaf {l : Label} (h : l.op ≠ .capture) : (node l []).raised k = node l [] := by
  rw [raised_node, Label.raised_of_ne k h]
  rfl

/-- Under a node that is no capture only the children are raised. -/
theorem raised_many {l : Label} (h : l.op ≠ .capture) (subs : List Tree) :
    (node l subs).raised k = node l (subs.map (raised k)) := by
  rw [raised_node, Label.raised_of_ne k h]

/-- Changes of a label that make no capture and are made to none. -/
theorem raised_relabel {f : Label → Label} {t : Tree} (h : t.op ≠ .capture)
    (hf : (f t.label).op ≠ .capture) : (t.relabel f).raised k = (t.raised k).relabel f := by
  obtain ⟨l, subs⟩ := t
  rw [label_node] at hf
  rw [op_node] at h
  rw [raised_node, relabel, relabel, raised_node, Label.raised_of_ne k h, Label.raised_of_ne k hf]

/-- Trees are equal under other numbers just if they are, by induction on the first: adding the same
    to two numbers does not make them equal. -/
theorem equal_raised (t u : Tree) : (t.raised k).equal (u.raised k) = t.equal u := by
  induction t using induct generalizing u with
  | step l subs ih =>
    obtain ⟨m, subs'⟩ := u
    have hall : ∀ ts us : List Tree, (∀ t ∈ ts, t ∈ subs) →
        allMatch ((ts.map (raised k)).map equal) (us.map (raised k)) =
          allMatch (ts.map equal) us := by
      intro ts
      induction ts with
      | nil =>
        intro us _
        cases us with
        | nil => rfl
        | cons u us => rfl
      | cons t ts ihts =>
        intro us hts
        obtain ⟨ht, hts⟩ := List.forall_mem_cons.mp hts
        cases us with
        | nil => rfl
        | cons u us =>
          simp only [List.map_cons, allMatch]
          rw [ih t ht u, ihts us hts]
    rw [raised_node, raised_node, equal_node, equal_node, label_node, label_node,
      Label.agrees_raised, Label.op_raised, subs_node, subs_node]
    split
    · rfl
    · rw [← List.map_take, ← List.map_take, ← List.map_take, ← List.map_take]
      rw [hall _ _ fun t ht => List.mem_of_mem_take ht]
    · rw [hall subs subs' fun _ ht => ht]

/-! ## Repetitions -/

/-- Repetitions stand on one another as they did. -/
theorem repeatHeight_raised (t : Tree) : (t.raised k).repeatHeight = t.repeatHeight := by
  induction t using induct with
  | step l subs ih =>
    rw [raised_node, repeatHeight, fold_node, fold_node, Label.op_raised, List.map_map]
    exact congrArg (if l.op.isRepeat then 1 + ·.headD 0 else 0) (List.map_congr_left ih)

theorem fitsBudget_raised (t : Tree) : (t.raised k).fitsBudget = t.fitsBudget := by
  induction t using induct with
  | step l subs ih =>
    have hsubs : (subs.map (raised k)).map fitsBudget = subs.map fitsBudget := by
      rw [List.map_map]
      exact List.map_congr_left ih
    rw [fitsBudget] at hsubs
    rw [raised_node, fitsBudget, fold_node, fold_node, hsubs, Label.op_raised, Label.max_raised,
      Label.copyCount, Label.copyCount, Label.max_raised, Label.min_raised]

/-! ## Sequences -/

/-- What a tree is spliced to is raised with it. -/
theorem spliced_raised (op : Op) (t : Tree) :
    spliced op (t.raised k) = (spliced op t).map (raised k) := by
  rw [spliced, spliced, op_raised, subs_raised]
  split
  · rfl
  · rfl

theorem flatMap_spliced_raised (op : Op) (ts : List Tree) :
    (ts.map (raised k)).flatMap (spliced op) = (ts.flatMap (spliced op)).map (raised k) := by
  rw [List.flatMap_map, List.map_flatMap]
  exact List.flatMap_congr fun t _ => spliced_raised k op t

/-- A literal that is joined to another one has no number. -/
theorem joined_raised {t : Tree} (h : t.op = .literal) (u : Tree) :
    joined (t.raised k) (u.raised k) = (joined t u).raised k := by
  have hne : t.op ≠ .capture := by
    rw [h]
    decide
  rw [joined, joined, runes_raised]
  exact (raised_relabel k hne hne).symm

theorem canJoin_raised (t u : Tree) : canJoin (t.raised k) (u.raised k) = canJoin t u := by
  simp only [canJoin, op_raised, flags_raised]

/-- Raised literals are joined at the same places, by induction on the list. -/
theorem joinLiterals_raised (ts : List Tree) :
    joinLiterals (ts.map (raised k)) = (joinLiterals ts).map (raised k) := by
  induction ts with
  | nil => rfl
  | cons t rest ih =>
    rw [List.map_cons, joinLiterals_cons, joinLiterals_cons, ih]
    cases joinLiterals rest with
    | nil => rfl
    | cons u more =>
      rw [List.map_cons, consJoined, consJoined, canJoin_raised]
      split
      · next h => rw [List.map_cons, joined_raised k (canJoin_iff.mp h).1]
      · rw [List.map_cons, List.map_cons]

theorem bare_raised {op : Op} (h : op ≠ .capture) (ts : List Tree) :
    bare op (ts.map (raised k)) = (bare op ts).raised k := by
  rcases ts with _ | ⟨t, _ | ⟨u, rest⟩⟩
  · exact (raised_many k h []).symm
  · rfl
  · exact (raised_many k h (t :: u :: rest)).symm

/-- A sequence is made in the same way under other numbers. -/
theorem raised_sequence (ts : List Tree) :
    (sequence ts).raised k = sequence (ts.map (raised k)) := by
  rcases ts with _ | ⟨t, _ | ⟨u, rest⟩⟩
  · exact raised_leaf k (by decide)
  · rfl
  · rw [sequence_many (by simp), sequence_many (by simp), flatParts, flatParts,
      flatMap_spliced_raised, joinLiterals_raised, bare_raised k (by decide)]

/-- A class and the dot for it have no number. -/
theorem raised_asDot (t : Tree) : (asDot t).raised k = asDot (t.raised k) := by
  rw [asDot, asDot, op_raised, runes_raised]
  split
  · next hop =>
    have hne : t.op ≠ .capture := by
      rw [hop]
      decide
    split
    · exact raised_relabel k hne (by rintro ⟨⟩)
    split
    · exact raised_relabel k hne (by rintro ⟨⟩)
    · rfl
  · rfl

/-! ## What branches begin with -/

theorem front_raised (t : Tree) : (t.raised k).front = t.front.raised k := by
  rw [front, front, op_raised, subs_raised]
  split
  · cases t.subs with
    | nil => rfl
    | cons first rest => rfl
  · rfl

theorem leadingText_raised (t : Tree) : (t.raised k).leadingText = t.leadingText := by
  rw [leadingText, leadingText, front_raised, op_raised, flags_raised, runes_raised]

theorem dropRunes_raised (n : Nat) (t : Tree) :
    dropRunes n (t.raised k) = (dropRunes n t).raised k := by
  by_cases hop : t.op = .literal
  · have hne : t.op ≠ .capture := by
      rw [hop]
      decide
    rw [dropRunes, dropRunes, op_raised, if_pos hop, if_pos hop]
    refine (raised_relabel k hne ?_).symm
    dsimp only
    split <;> decide
  · rw [dropRunes_of_ne hop, dropRunes_of_ne (by rwa [op_raised])]

theorem remaining_raised {l : Label} (h : l.op ≠ .capture) (ts : List Tree) :
    remaining l (ts.map (raised k)) = (remaining l ts).raised k := by
  rcases ts with _ | ⟨t, _ | ⟨u, rest⟩⟩
  · exact (raised_leaf k (by decide)).symm
  · rfl
  · exact (raised_many k h (t :: u :: rest)).symm

/-- A branch leaves the same without its text, raised. -/
theorem dropLeadingText_raised (n : Nat) (t : Tree) :
    dropLeadingText n (t.raised k) = (dropLeadingText n t).raised k := by
  by_cases hop : t.op = .concat
  · obtain ⟨l, subs⟩ := t
    rw [op_node] at hop
    have hne : l.op ≠ .capture := by
      rw [hop]
      decide
    rw [raised_many k hne]
    cases subs with
    | nil =>
      have hnil : dropLeadingText n (node l []) = node l [] := if_pos hop
      rw [List.map_nil, hnil, raised_leaf k hne]
    | cons first rest =>
      rw [List.map_cons, dropLeadingText_concat hop, dropLeadingText_concat hop, dropRunes_raised,
        op_raised]
      split
      · exact remaining_raised k hne rest
      · rw [raised_many k hne, List.map_cons]
  · rw [dropLeadingText_of_ne hop, dropLeadingText_of_ne (by rwa [op_raised]), dropRunes_raised]

theorem leadingPiece?_raised (t : Tree) :
    (t.raised k).leadingPiece? = t.leadingPiece?.map (raised k) := by
  rw [leadingPiece?, leadingPiece?, front_raised, op_raised, op_raised]
  split
  · rfl
  · rfl

/-- A branch leaves the same without its first piece, raised. -/
theorem dropLeadingPiece_raised (t : Tree) :
    dropLeadingPiece (t.raised k) = (dropLeadingPiece t).raised k := by
  by_cases hop : t.op = .concat
  · have hne : t.label.op ≠ .capture := by
      rw [show t.label.op = .concat from hop]
      decide
    rw [dropLeadingPiece, dropLeadingPiece, op_raised, if_pos hop, if_pos hop, label_raised,
      Label.raised_of_ne k hne, subs_raised, ← List.map_tail, remaining_raised k hne]
  · rw [dropLeadingPiece_of_ne hop, dropLeadingPiece_of_ne (by rwa [op_raised])]
    exact (raised_leaf k (by decide)).symm

theorem isOneRune_raised (t : Tree) : (t.raised k).isOneRune = t.isOneRune := by
  rw [isOneRune, isOneRune, op_raised, runes_raised]

/-- Pieces of a fixed width have no captures, so they stay what they are. -/
theorem isFixedWidth_raised (t : Tree) : (t.raised k).isFixedWidth = t.isFixedWidth := by
  have hhead : (t.subs.map (raised k)).head?.any isOneRune = t.subs.head?.any isOneRune := by
    cases t.subs with
    | nil => rfl
    | cons first rest => exact isOneRune_raised k first
  rw [isFixedWidth, isFixedWidth, isOneRune_raised, op_raised, label_raised, Label.min_raised,
    Label.max_raised, subs_raised, hhead]

/-- A tree is as large under other numbers, so choices are made to the same depth. -/
theorem mass_raised (t : Tree) : (t.raised k).mass = t.mass := by
  induction t using induct with
  | step l subs ih =>
    have hsubs : (subs.map (raised k)).map mass = subs.map mass := by
      rw [List.map_map]
      exact List.map_congr_left ih
    rw [mass] at hsubs
    rw [raised_node, mass, fold_node, fold_node, hsubs, Label.op_raised, Label.runes_raised]

/-! ## Normal form -/

/-- Neighbours that share no beginning share none under other numbers. -/
theorem apart_raised {t u : Tree} (h : Apart t u) : Apart (t.raised k) (u.raised k) := by
  constructor
  · rw [firstRune?, firstRune?, leadingText_raised, leadingText_raised]
    exact h.text
  · intro p hp q hq hfixed
    rw [leadingPiece?_raised] at hp hq
    obtain ⟨lead, hlead, rfl⟩ := Option.map_eq_some_iff.mp hp
    obtain ⟨piece, hpiece, rfl⟩ := Option.map_eq_some_iff.mp hq
    rw [isFixedWidth_raised] at hfixed
    rw [equal_raised]
    exact h.piece lead hlead piece hpiece hfixed

/-- A node in normal form stays in it, since none of its conditions looks at a number. -/
theorem normalNode_raised {l : Label} {subs : List Tree} (h : NormalNode l subs) :
    NormalNode (l.raised k) (subs.map (raised k)) where
  notMarker := by
    rw [Label.op_raised]
    exact h.notMarker
  fits := by
    rw [Label.op_raised, List.length_map]
    exact h.fits
  notNested harity t ht := by
    rw [Label.op_raised] at harity ⊢
    obtain ⟨u, hu, rfl⟩ := List.mem_map.mp ht
    rw [op_raised]
    exact h.notNested harity u hu
  unjoinable hop := by
    rw [Label.op_raised] at hop
    refine (List.isChain_map _).mpr ((h.unjoinable hop).imp fun t u hcan => ?_)
    rw [canJoin_raised]
    exact hcan
  factored hop := by
    rw [Label.op_raised] at hop
    exact (List.isChain_map _).mpr ((h.factored hop).imp fun _ _ hapart => apart_raised k hapart)
  bounds hop := by
    rw [Label.op_raised] at hop
    rw [Label.min_raised, Label.max_raised]
    exact h.bounds hop
  text hop := by
    rw [Label.op_raised] at hop
    rw [Label.runes_raised]
    exact h.text hop
  ranges hop := by
    rw [Label.op_raised] at hop
    rw [Label.runes_raised]
    exact h.ranges hop

/-- A tree stays in normal form under other numbers. -/
theorem normal_raised {t : Tree} (h : t.Normal) : (t.raised k).Normal := by
  induction t using induct with
  | step l subs ih =>
    rw [raised_node]
    refine everywhere_node.mpr ⟨normalNode_raised k h.here, fun t ht => ?_⟩
    obtain ⟨u, hu, rfl⟩ := List.mem_map.mp ht
    exact ih u hu (h.below hu)

/-! ## Choices -/

/-- The run of the same branches under other numbers. -/
def TextRun.raised (run : TextRun) : TextRun :=
  { run with members := run.members.map (Tree.raised k) }

def PieceRun.raised (run : PieceRun) : PieceRun :=
  { lead := run.lead.map (Tree.raised k), members := run.members.map (Tree.raised k) }

omit k in
/-- Trees that are changed are cut into the runs that are changed accordingly, if that is how runs
    begin and grow. -/
theorem runs_map {ρ : Type} {start : Tree → ρ} {add? : ρ → Tree → Option ρ} {f : Tree → Tree}
    {g : ρ → ρ} (hstart : ∀ t, start (f t) = g (start t))
    (hadd : ∀ run t, add? (g run) (f t) = (add? run t).map g) (ts : List Tree) :
    runs start add? (ts.map f) = (runs start add? ts).map g := by
  have hfrom : ∀ rest run, runsFrom start add? (g run) (rest.map f) =
      (runsFrom start add? run rest).map g := by
    intro rest
    induction rest with
    | nil => exact fun _ => rfl
    | cons t rest ih =>
      intro run
      have hadd := hadd run t
      rw [List.map_cons]
      cases h : add? run t with
      | some longer =>
        rw [h] at hadd
        rw [runsFrom_add hadd, runsFrom_add h, ih]
      | none =>
        rw [h] at hadd
        rw [runsFrom_stop hadd, runsFrom_stop h, hstart, ih, List.map_cons]
  cases ts with
  | nil => rfl
  | cons t rest => rw [List.map_cons, runs_cons, runs_cons, hstart, hfrom]

/-- Raised branches are cut into raised runs of text. -/
theorem TextRun.runs_raised (ts : List Tree) :
    runs TextRun.start TextRun.add? (ts.map (Tree.raised k)) =
      (runs TextRun.start TextRun.add? ts).map (raised k) := by
  refine runs_map (fun t => ?_) (fun run t => ?_) ts
  · rw [start, leadingText_raised]
    rfl
  · simp only [add?, leadingText_raised, raised]
    split
    · simp [raised]
    · rfl

/-- Raised branches are cut into raised runs of pieces, each of which remembers a raised piece. -/
theorem PieceRun.runs_raised (ts : List Tree) :
    runs PieceRun.start PieceRun.add? (ts.map (Tree.raised k)) =
      (runs PieceRun.start PieceRun.add? ts).map (raised k) := by
  refine runs_map (fun t => ?_) (fun run t => ?_) ts
  · rw [start, leadingPiece?_raised]
    rfl
  · rw [add?, add?, leadingPiece?_raised]
    dsimp only [raised]
    cases run.lead with
    | none => rfl
    | some lead =>
      cases t.leadingPiece? with
      | none => rfl
      | some piece =>
        dsimp only [Option.map_some]
        rw [isFixedWidth_raised, equal_raised]
        split
        · simp [raised]
        · rfl

section Factored

variable {choice : List Tree → Tree}
  (hchoice : ∀ ts, choice (ts.map (Tree.raised k)) = (choice ts).raised k)

include hchoice

/-- A run makes the raised branch, if choices of the rests are raised. -/
theorem TextRun.branch_raised (run : TextRun) :
    (run.raised k).branch choice = (run.branch choice).raised k := by
  have hrest := hchoice (run.members.map (dropLeadingText run.shared.length))
  have hdrop : (run.members.map (dropLeadingText run.shared.length)).map (Tree.raised k) =
      (run.members.map (Tree.raised k)).map (dropLeadingText run.shared.length) := by
    rw [List.map_map, List.map_map]
    exact List.map_congr_left fun t _ => (dropLeadingText_raised k _ t).symm
  rw [hdrop] at hrest
  have hmany : sequence [literal run.shared { foldCase := run.fold },
        choice ((run.members.map (Tree.raised k)).map (dropLeadingText run.shared.length))] =
      (sequence [literal run.shared { foldCase := run.fold },
        choice (run.members.map (dropLeadingText run.shared.length))]).raised k := by
    rw [raised_sequence, hrest, List.map_cons, List.map_singleton, literal, raised_leaf k (by rintro ⟨⟩)]
  obtain ⟨fold, shared, members⟩ := run
  rcases members with _ | ⟨t, _ | ⟨u, rest⟩⟩
  · exact hmany
  · rfl
  · exact hmany

/-- A run of pieces makes the raised branch, if choices of the rests are raised. -/
theorem PieceRun.branch_raised (run : PieceRun) :
    (run.raised k).branch choice = (run.branch choice).raised k := by
  have hrest := hchoice (run.members.map dropLeadingPiece)
  have hdrop : (run.members.map dropLeadingPiece).map (Tree.raised k) =
      (run.members.map (Tree.raised k)).map dropLeadingPiece := by
    rw [List.map_map, List.map_map]
    exact List.map_congr_left fun t _ => (dropLeadingPiece_raised k t).symm
  rw [hdrop] at hrest
  have hmany : ∀ lead, sequence [lead.raised k,
        choice ((run.members.map (Tree.raised k)).map dropLeadingPiece)] =
      (sequence [lead, choice (run.members.map dropLeadingPiece)]).raised k := by
    intro lead
    rw [raised_sequence, hrest]
    rfl
  obtain ⟨lead, members⟩ := run
  rcases members with _ | ⟨t, _ | ⟨u, rest⟩⟩
  · cases lead with
    | none => exact hrest
    | some lead => exact hmany lead
  · rfl
  · cases lead with
    | none => exact hrest
    | some lead => exact hmany lead

/-- Both rounds, one after the other. -/
theorem factored_raised (ts : List Tree) :
    factored choice (ts.map (Tree.raised k)) = (factored choice ts).map (Tree.raised k) := by
  have htexts : ((runs TextRun.start TextRun.add? ts).map (TextRun.raised k)).map
        (TextRun.branch choice) =
      ((runs TextRun.start TextRun.add? ts).map (TextRun.branch choice)).map (Tree.raised k) := by
    rw [List.map_map, List.map_map]
    exact List.map_congr_left fun run _ => TextRun.branch_raised k hchoice run
  rw [factored, factored, TextRun.runs_raised, htexts, PieceRun.runs_raised, List.map_map,
    List.map_map]
  exact List.map_congr_left fun run _ => PieceRun.branch_raised k hchoice run

end Factored

/-- Choices of any depth, by induction on the depth. -/
theorem choiceWithin_raised (depth : Nat) (ts : List Tree) :
    choiceWithin depth (ts.map (raised k)) = (choiceWithin depth ts).raised k := by
  induction depth generalizing ts with
  | zero => exact (raised_many k (by decide) ts).symm
  | succ depth ih =>
    by_cases hone : ts.length = 1
    · obtain ⟨t, rfl⟩ := List.length_eq_one_iff.mp hone
      rfl
    · rw [choiceWithin_succ depth hone, choiceWithin_succ depth (by rwa [List.length_map]),
        flatMap_spliced_raised, factored_raised k ih, bare_raised k (by decide)]

/-- A choice is made in the same way under other numbers. -/
theorem raised_choice (ts : List Tree) : (choice ts).raised k = choice (ts.map (raised k)) := by
  have hmass : (ts.map (raised k)).map mass = ts.map mass := by
    rw [List.map_map]
    exact List.map_congr_left fun t _ => mass_raised k t
  rw [choice, choice, hmass, choiceWithin_raised]

end

end Tree

end RegexTree
