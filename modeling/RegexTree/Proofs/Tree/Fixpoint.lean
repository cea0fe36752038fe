/-
  What is in normal form is made again of its own parts.

  A tree in normal form is a sequence of pieces that cannot be joined, or a choice of branches none
  of which shares a beginning with the next.  Put together again, from the same parts or from equal
  ones, it comes out as it was: nothing is joined, since no two neighbours can be, and no run is
  longer than one branch (`sequence_of_unjoinable`, `choice_of_apart`).

  Equal parts are the general case, since a printed form is read to parts that are equal to the old
  ones and not the same.  So what a branch begins with is shown to be the same for equal branches
  first (`leadingText_of_equal`, `leadingPiece_of_equal`), and that two neighbours are apart is a
  property of what they are equal to (`Apart.of_equal`).

  For the choice it takes one fact on runs: in a list in which no element joins the run of the one
  before it, all runs have one member (`runs_of_chain`).
-/
import RegexTree.Proofs.Tree.NormalForm

namespace RegexTree

open Assembly (bare)

namespace Tree

/-! ## What equal trees share -/

section Equal

variable {t u : Tree} (h : t.equal u = true)

include h

theorem op_of_equal : t.op = u.op := Label.op_of_agrees (equal_iff_reads.mp h).1

/-- The children of equal trees are equal if all of them are read. -/
theorem subs_of_equal (ht : t.label.reads t.subs = t.subs) (hu : u.label.reads u.subs = u.subs) :
    List.Forall₂ (fun a b => a.equal b = true) t.subs u.subs := by
  have hreads := (equal_iff_reads.mp h).2
  rwa [ht, hu] at hreads

theorem subs_of_equal_of_many (harity : t.op.arity = .many) :
    List.Forall₂ (fun a b => a.equal b = true) t.subs u.subs :=
  have harity' : u.op.arity = .many := op_of_equal h ▸ harity
  subs_of_equal h (Label.reads_many harity _) (Label.reads_many harity' _)

/-- Equal literals have the same runes, and both fold or neither does. -/
theorem literal_of_equal (hop : t.op = .literal) :
    t.flags.foldCase = u.flags.foldCase ∧ t.runes = u.runes :=
  Label.literal_of_agrees (equal_iff_reads.mp h).1 hop

/-- Equal repetitions are equally greedy. -/
theorem nonGreedy_of_equal (hop : t.op.isRepeat = true) :
    t.flags.nonGreedy = u.flags.nonGreedy :=
  Label.nonGreedy_of_agrees (equal_iff_reads.mp h).1 hop

/-- What is equal to a class that is written as a dot is one. -/
theorem dotClass_of_equal (hdot : t.DotClass) : u.DotClass := by
  have hrunes : t.runes = u.runes :=
    Label.charClass_of_agrees (equal_iff_reads.mp h).1 hdot.1
  exact ⟨op_of_equal h ▸ hdot.1, hrunes ▸ hdot.2⟩

/-- Equal branches have equal first pieces. -/
theorem front_of_equal : t.front.equal u.front = true := by
  have hop := op_of_equal h
  by_cases hconcat : t.op = .concat
  · have hsubs := subs_of_equal_of_many h (by rw [hconcat]; rfl)
    obtain ⟨l, subs⟩ := t
    obtain ⟨m, subs'⟩ := u
    rw [op_node, op_node] at hop
    rw [op_node] at hconcat
    rw [subs_node, subs_node] at hsubs
    cases hsubs with
    | nil => simpa [front] using h
    | cons hfirst _ =>
      rw [front_node_cons hconcat, front_node_cons (hop ▸ hconcat)]
      exact hfirst
  · rw [front_of_ne hconcat, front_of_ne (hop ▸ hconcat)]
    exact h

/-- Equal branches begin with the same text. -/
theorem leadingText_of_equal : t.leadingText = u.leadingText := by
  have hfront := front_of_equal h
  have hop := op_of_equal hfront
  by_cases hlit : t.front.op = .literal
  · obtain ⟨hfold, hrunes⟩ := literal_of_equal hfront hlit
    rw [leadingText_of_front hlit, leadingText_of_front (hop ▸ hlit), hfold, hrunes]
  · rw [leadingText_of_ne hlit, leadingText_of_ne (hop ▸ hlit)]

theorem isOneRune_of_equal : t.isOneRune = u.isOneRune := by
  have hop := op_of_equal h
  by_cases hlit : t.op = .literal
  · rw [isOneRune, isOneRune, ← hop, hlit, (literal_of_equal h hlit).2]
  · rw [isOneRune, isOneRune, ← hop]
    cases hcase : t.op <;> first | rfl | exact absurd hcase hlit

/-- Both have a fixed width or none has. -/
theorem isFixedWidth_of_equal : t.isFixedWidth = u.isFixedWidth := by
  have hop := op_of_equal h
  obtain ⟨hagree, hsubs⟩ := equal_iff_reads.mp h
  rw [isFixedWidth, isFixedWidth, ← hop, isOneRune_of_equal h]
  congr 1
  by_cases hcount : t.op = .counted
  · have hone : t.label.op.arity = .one := by
      rw [show t.label.op = .counted from hcount]
      rfl
    rw [Label.reads_one hone, Label.reads_one (Label.op_of_agrees hagree ▸ hone)] at hsubs
    obtain ⟨hmin, hmax⟩ := Label.bounds_of_agrees hagree hcount
    rw [hcount, hmin, hmax]
    dsimp only
    congr 1
    generalize t.subs = ts at hsubs
    generalize u.subs = us at hsubs
    rcases ts with _ | ⟨a, ts⟩
    · rcases us with _ | ⟨b, us⟩
      · rfl
      · cases hsubs
    · rcases us with _ | ⟨b, us⟩
      · cases hsubs
      · exact isOneRune_of_equal (List.forall₂_cons.mp hsubs).1
  · cases hcase : t.op <;> first | rfl | exact absurd hcase hcount

/-- Equal branches begin with equal pieces, if they have a first piece. -/
theorem leadingPiece_of_equal {q : Tree} (hq : u.leadingPiece? = some q) :
    ∃ p, t.leadingPiece? = some p ∧ p.equal q = true := by
  obtain ⟨rfl, hne, hfront⟩ := leadingPiece?_eq_some hq
  have hfronts := front_of_equal h
  refine ⟨t.front, if_neg ?_, hfronts⟩
  rw [op_of_equal h, op_of_equal hfronts]
  exact not_or.mpr ⟨hne, hfront⟩

end Equal

/-- Branches that are equal to branches without a common beginning have none either. -/
theorem Apart.of_equal {a b c d : Tree} (hac : a.equal c = true) (hbd : b.equal d = true)
    (h : Apart a b) : Apart c d := by
  refine ⟨fun r hr => ?_, fun p hp q hq hfixed => ?_⟩
  · rw [firstRune?, ← leadingText_of_equal hac] at hr
    rw [firstRune?, ← leadingText_of_equal hbd]
    exact h.text r hr
  · obtain ⟨p', hp', hpe⟩ := leadingPiece_of_equal hac hp
    obtain ⟨q', hq', hqe⟩ := leadingPiece_of_equal hbd hq
    rw [← isFixedWidth_of_equal hpe] at hfixed
    rw [Bool.eq_false_iff]
    intro hpq
    refine Bool.false_ne_true ((h.piece p' hp' q' hq' hfixed).symm.trans ?_)
    exact equal_trans hpe (equal_trans hpq (equal_symm hqe))

/-! ## Sequences -/

/-- Where nothing is nested, splicing changes nothing. -/
theorem flatMap_spliced_of_ne {op : Op} {pieces : List Tree} (h : ∀ t ∈ pieces, t.op ≠ op) :
    pieces.flatMap (spliced op) = pieces := by
  induction pieces with
  | nil => rfl
  | cons t rest ih =>
    obtain ⟨ht, hrest⟩ := List.forall_mem_cons.mp h
    rw [List.flatMap_cons, spliced_of_ne ht, ih hrest]
    rfl

/-- Pieces that are no sequences and of which no two neighbours can be joined are the sequence. -/
theorem sequence_of_unjoinable {pieces : List Tree} (hlen : 2 ≤ pieces.length)
    (hne : ∀ t ∈ pieces, t.op ≠ .concat) (h : Unjoinable pieces) :
    sequence pieces = branching .concat pieces := by
  rw [sequence_many hlen, flatParts, flatMap_spliced_of_ne hne, joinLiterals_eq_self h,
    bare_of_two_le hlen]

/-! ## Choices -/

/-- Neighbours that a run does not take are runs of their own. -/
theorem runs_of_chain {ρ : Type} {start : Tree → ρ} {add? : ρ → Tree → Option ρ} {ts : List Tree}
    (h : ts.IsChain fun a b => add? (start a) b = none) : runs start add? ts = ts.map start := by
  cases ts with
  | nil => rfl
  | cons t rest =>
    rw [runs_cons, List.map_cons]
    induction rest generalizing t with
    | nil => rfl
    | cons u more ih =>
      obtain ⟨hstop, hmore⟩ := List.isChain_cons_cons.mp h
      rw [runsFrom_stop hstop, ih u hmore, List.map_cons]

/-- The run of a branch ends before one that begins with no text in common. -/
theorem Apart.text_stops {a b : Tree} (h : Apart a b) :
    TextRun.add? (TextRun.start a) b = none := by
  rw [TextRun.add?]
  refine if_neg ?_
  rintro ⟨hfold, hne⟩
  refine hne (commonPrefix_eq_nil_iff.mpr fun r hr hr' => ?_)
  refine h.text (a.leadingText.1, r) ?_ ?_
  · exact Option.map_eq_some_iff.mpr ⟨r, hr, rfl⟩
  · exact Option.map_eq_some_iff.mpr ⟨r, hr', by rw [hfold]; rfl⟩

/-- The run of a branch ends before one that begins with another piece. -/
theorem Apart.piece_stops {a b : Tree} (h : Apart a b) :
    PieceRun.add? (PieceRun.start a) b = none := by
  rw [PieceRun.add?]
  split
  · next lead piece hlead hpiece =>
    refine if_neg fun hboth => ?_
    rw [Bool.and_eq_true] at hboth
    rw [h.piece lead hlead piece hpiece hboth.1] at hboth
    exact Bool.false_ne_true hboth.2
  · rfl

/-- Branches none of which shares a beginning with the next are left as they are by both rounds,
    since every run has one member. -/
theorem factored_of_apart (choice : List Tree → Tree) {branches : List Tree}
    (h : branches.IsChain Apart) : factored choice branches = branches := by
  have htext : runs TextRun.start TextRun.add? branches = branches.map TextRun.start :=
    runs_of_chain (h.imp fun _ _ => Apart.text_stops)
  have hpiece : runs PieceRun.start PieceRun.add? branches = branches.map PieceRun.start :=
    runs_of_chain (h.imp fun _ _ => Apart.piece_stops)
  have hsame : branches.map (TextRun.branch choice ∘ TextRun.start) = branches :=
    List.map_id branches
  rw [factored, htext, List.map_map, hsame, hpiece, List.map_map]
  exact List.map_id branches

/-- Branches that are no choices and of which no two neighbours begin alike are the choice. -/
theorem choice_of_apart {branches : List Tree} (hlen : 2 ≤ branches.length)
    (hne : ∀ t ∈ branches, t.op ≠ .alternate) (h : branches.IsChain Apart) :
    choice branches = branching .alternate branches := by
  rw [choice, choiceWithin_succ _ (by omega), flatMap_spliced_of_ne hne, factored_of_apart _ h,
    bare_of_two_le hlen]

end Tree

end RegexTree
