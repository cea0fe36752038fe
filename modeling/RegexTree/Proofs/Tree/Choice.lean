/-
  Choices: what taking out shared beginnings keeps.

  A choice is factored in rounds: neighbours that begin with the same text are put under that text,
  then neighbours that begin with the same piece under that piece, and what is left of the branches
  is a choice again, one deeper.  Whatever is proved of choices goes through that recursion, and
  this module goes through it once.

  * The runs of both rounds are described first: the members of a run share what the run says
    (`TextRun.Sound`, `PieceRun.Sound`), in the order in which they stood, and none is lost
    (`flatMap_members`).  A run of one member is that branch; a longer one is what it shares before
    the choice of the rests.
  * A `ChoiceLaw` is a relation between lists of branches that a single splice, a single shared text
    and a single shared piece respect, and that may be used on a part of a list.  Then the whole
    choice respects it, at any depth (`ChoiceLaw.choiceWithin`).

  So a new fact about choices takes a proof for each of the fields and no induction.
  `Kept.choiceLaw` makes one of a property that the parts of branches keep: what is made of them
  keeps it too.
-/
import RegexTree.Proofs.Tree.Leading
import RegexTree.Proofs.Tree.Runs

namespace RegexTree.Tree

open Assembly (bare)

/-! ## Common beginnings -/

/-- What two texts have in common begins the first. -/
theorem commonPrefix_prefix_left (a b : List Nat) : commonPrefix a b <+: a := by
  fun_induction commonPrefix a b with
  | case1 a as bs ih => exact List.cons_prefix_cons.mpr ⟨rfl, ih⟩
  | case2 => exact List.nil_prefix
  | case3 => exact List.nil_prefix

theorem commonPrefix_prefix_right (a b : List Nat) : commonPrefix a b <+: b := by
  fun_induction commonPrefix a b with
  | case1 a as bs ih => exact List.cons_prefix_cons.mpr ⟨rfl, ih⟩
  | case2 => exact List.nil_prefix
  | case3 => exact List.nil_prefix

/-- Two lists have no common beginning just if their first members differ. -/
theorem commonPrefix_eq_nil_iff {a b : List Nat} :
    commonPrefix a b = [] ↔ ∀ r ∈ a.head?, r ∉ b.head? := by
  cases a with
  | nil => simp [commonPrefix]
  | cons r as =>
    cases b with
    | nil => simp [commonPrefix]
    | cons q bs =>
      by_cases h : r = q
      · simp [commonPrefix, h]
      · simpa [commonPrefix, h] using Ne.symm h

/-- A run has one member, or at least two. -/
theorem one_or_many {members : List Tree} (h : members ≠ []) :
    (∃ t, members = [t]) ∨ 2 ≤ members.length := by
  match members with
  | [] => exact absurd rfl h
  | [t] => exact Or.inl ⟨t, rfl⟩
  | _ :: _ :: _ => exact Or.inr (by simp)

/-! ## Runs of the first round -/

namespace TextRun

/-- All members begin with the shared runes, of which there are some if there are two members. -/
structure Sound (run : TextRun) : Prop where
  begins : ∀ t ∈ run.members, t.leadingText.1 = run.fold ∧ run.shared <+: t.leadingText.2
  shares : 2 ≤ run.members.length → run.shared ≠ []
  alone : ∀ t, run.members = [t] → run.shared = t.leadingText.2
  ne_nil : run.members ≠ []

/-- A run of one branch says what that branch begins with. -/
theorem start_sound (t : Tree) : (start t).Sound := by
  refine ⟨fun u hu => ?_, fun h => absurd h (by simp [start]), fun u hu => ?_,
    List.cons_ne_nil t []⟩
  · rw [List.mem_singleton.mp hu]
    exact ⟨rfl, List.prefix_refl _⟩
  · cases hu
    rfl

/-- A branch joins the run if it begins with some of its text, folded alike; then the run says what
    is left in common. -/
theorem add?_eq_some {run longer : TextRun} {t : Tree} (h : run.add? t = some longer) :
    t.leadingText.1 = run.fold ∧ commonPrefix run.shared t.leadingText.2 ≠ [] ∧
      longer = ⟨run.fold, commonPrefix run.shared t.leadingText.2, run.members ++ [t]⟩ := by
  rw [add?] at h
  split at h
  · next hc =>
    cases h
    exact ⟨hc.1, hc.2, rfl⟩
  · cases h

/-- A run that a branch has joined is still about all of its members. -/
theorem add?_sound {run longer : TextRun} {t : Tree} (hrun : run.Sound)
    (h : run.add? t = some longer) : longer.Sound := by
  obtain ⟨hfold, hne, rfl⟩ := add?_eq_some h
  refine ⟨fun u hu => ?_, fun _ => hne, fun u hu => ?_, by simp⟩
  · rcases List.mem_append.mp hu with hu | hu
    · obtain ⟨hf, hp⟩ := hrun.begins u hu
      exact ⟨hf, (commonPrefix_prefix_left _ _).trans hp⟩
    · rw [List.mem_singleton.mp hu]
      exact ⟨hfold, commonPrefix_prefix_right _ _⟩
  · have hlen := congrArg List.length hu
    rw [List.length_append, List.length_singleton, List.length_singleton] at hlen
    exact absurd (List.length_eq_zero_iff.mp (Nat.succ.inj hlen)) hrun.ne_nil

theorem runs_sound (ts : List Tree) : ∀ run ∈ runs start add? ts, run.Sound :=
  runs_induct (fun t _ => start_sound t) fun _ _ _ _ hrun h => add?_sound hrun h

/-- The members of the runs are the branches in their order. -/
theorem flatMap_members (ts : List Tree) : (runs start add? ts).flatMap members = ts :=
  flatMap_runs (fun _ => rfl) (fun _ _ _ h => by rw [(add?_eq_some h).2.2]) ts

theorem members_subset {ts : List Tree} {run : TextRun} (h : run ∈ runs start add? ts) :
    ∀ t ∈ run.members, t ∈ ts := fun t ht => by
  rw [← flatMap_members ts]
  exact List.mem_flatMap.mpr ⟨run, h, ht⟩

/-- The branch of a run of one member is that member. -/
theorem branch_one {choice : List Tree → Tree} {run : TextRun} {t : Tree} (h : run.members = [t]) :
    run.branch choice = t := by
  rw [branch, h]

/-- A run of several members is its text before the choice of the rests. -/
theorem branch_of_ne {choice : List Tree → Tree} {run : TextRun} (h : run.members.length ≠ 1) :
    run.branch choice =
      sequence [literal run.shared { foldCase := run.fold },
        choice (run.members.map (dropLeadingText run.shared.length))] := by
  rw [branch]
  split
  · next ho =>
    rw [ho] at h
    exact absurd rfl h
  · rfl

theorem branch_many {choice : List Tree → Tree} {run : TextRun} (h : 2 ≤ run.members.length) :
    run.branch choice =
      sequence [literal run.shared { foldCase := run.fold },
        choice (run.members.map (dropLeadingText run.shared.length))] :=
  branch_of_ne (by omega)

end TextRun

/-! ## Runs of the second round -/

namespace PieceRun

/-- If there are two members, all begin with a piece of fixed width that is equal to the shared
    one. -/
structure Sound (run : PieceRun) : Prop where
  lead : run.lead = run.members.head?.bind leadingPiece?
  begins : 2 ≤ run.members.length → ∃ lead, run.lead = some lead ∧ lead.isFixedWidth = true ∧
    ∀ t ∈ run.members, ∃ piece, t.leadingPiece? = some piece ∧
      (piece = lead ∨ lead.equal piece = true)
  ne_nil : run.members ≠ []

/-- A run of one branch says the piece that it begins with. -/
theorem start_sound (t : Tree) : (start t).Sound :=
  ⟨rfl, fun h => absurd h (by simp [start]), List.cons_ne_nil t []⟩

/-- A branch joins the run if it begins with an equal piece of a fixed width, and the run says the
    same as before. -/
theorem add?_eq_some {run longer : PieceRun} {t : Tree} (h : run.add? t = some longer) :
    longer = { run with members := run.members ++ [t] } ∧
      ∃ lead piece, run.lead = some lead ∧ t.leadingPiece? = some piece ∧
        lead.isFixedWidth = true ∧ lead.equal piece = true := by
  rw [add?] at h
  split at h
  · next lead piece hl hp =>
    split at h
    · next hc =>
      rw [Bool.and_eq_true] at hc
      cases h
      exact ⟨rfl, lead, piece, hl, hp, hc⟩
    · cases h
  · cases h

/-- Then it is about the new member too. -/
theorem add?_sound {run longer : PieceRun} {t : Tree} (hrun : run.Sound)
    (h : run.add? t = some longer) : longer.Sound := by
  obtain ⟨rfl, lead, piece, hlead, hpiece, hfixed, hequal⟩ := add?_eq_some h
  obtain ⟨first, more, hm⟩ := List.exists_cons_of_ne_nil hrun.ne_nil
  refine ⟨?_, fun _ => ⟨lead, hlead, hfixed, fun u hu => ?_⟩, by simp⟩
  · rw [hrun.lead, hm]
    rfl
  · rcases List.mem_append.mp hu with hu | hu
    · -- a run of one member shares the piece that the member begins with
      rcases Nat.lt_or_ge run.members.length 2 with hlen | hlen
      · rw [hm] at hlen hu
        obtain rfl : more = [] := List.length_eq_zero_iff.mp (by rw [List.length_cons] at hlen; omega)
        have hl := hrun.lead
        rw [hlead, hm] at hl
        rw [List.mem_singleton.mp hu]
        exact ⟨lead, hl.symm, Or.inl rfl⟩
      · obtain ⟨lead', hl, -, hall⟩ := hrun.begins hlen
        rw [hlead] at hl
        cases hl
        exact hall u hu
    · rw [List.mem_singleton.mp hu]
      exact ⟨piece, hpiece, Or.inr hequal⟩

/-- The shared piece is the front of a member, and keeps what the front does. -/
theorem Sound.kept_lead {Q : Tree → Prop} (hQ : KeptByParts Q) {run : PieceRun}
    (hrun : run.Sound) (h : ∀ t ∈ run.members, Q t) {lead : Tree} (hlead : run.lead = some lead) :
    Q lead := by
  have hl := hrun.lead
  rw [hlead] at hl
  obtain ⟨first, hfirst, hpiece⟩ := Option.bind_eq_some_iff.mp hl.symm
  rw [(leadingPiece?_eq_some hpiece).1]
  exact hQ.front (h first (List.mem_of_head? hfirst))

theorem runs_sound (ts : List Tree) : ∀ run ∈ runs start add? ts, run.Sound :=
  runs_induct (fun t _ => start_sound t) fun _ _ _ _ hrun h => add?_sound hrun h

theorem flatMap_members (ts : List Tree) : (runs start add? ts).flatMap members = ts :=
  flatMap_runs (fun _ => rfl) (fun _ _ _ h => by rw [(add?_eq_some h).1]) ts

theorem members_subset {ts : List Tree} {run : PieceRun} (h : run ∈ runs start add? ts) :
    ∀ t ∈ run.members, t ∈ ts := fun t ht => by
  rw [← flatMap_members ts]
  exact List.mem_flatMap.mpr ⟨run, h, ht⟩

theorem branch_one {choice : List Tree → Tree} {run : PieceRun} {t : Tree}
    (h : run.members = [t]) : run.branch choice = t := by
  rw [branch, h]

/-- A run of several members is its piece before the choice of the rests. -/
theorem branch_of_ne {choice : List Tree → Tree} {run : PieceRun} (h : run.members.length ≠ 1) :
    run.branch choice =
      match run.lead with
      | some lead => sequence [lead, choice (run.members.map dropLeadingPiece)]
      | none => choice (run.members.map dropLeadingPiece) := by
  rw [branch]
  split
  · next ho =>
    rw [ho] at h
    exact absurd rfl h
  · rfl

theorem branch_many {choice : List Tree → Tree} {run : PieceRun} {lead : Tree}
    (h : 2 ≤ run.members.length) (hlead : run.lead = some lead) :
    run.branch choice = sequence [lead, choice (run.members.map dropLeadingPiece)] := by
  rw [branch_of_ne (by omega), hlead]

end PieceRun

/-! ## Choices at any depth -/

/-- A choice of several branches is spliced, factored with choices one less deep and put under one
    node. -/
theorem choiceWithin_succ (depth : Nat) {branches : List Tree} (h : branches.length ≠ 1) :
    choiceWithin (depth + 1) branches =
      bare .alternate
        (factored (choiceWithin depth) (branches.flatMap (spliced .alternate))) := by
  match branches, h with
  | [], _ => rfl
  | a :: b :: rest, _ => rfl

/-- `R ts us` says that the branches `us` may stand for the branches `ts`.  Putting lists of
    branches one after the other keeps that, a choice may stand for its branches and they for it,
    and a sequence for branches that begin alike.  `Q` is what has to hold of the branches. -/
structure ChoiceLaw (Q : Tree → Prop) (R : List Tree → List Tree → Prop) : Prop where
  kept : Kept Q
  refl : ∀ ts, R ts ts
  trans : ∀ {ts us vs}, R ts us → R us vs → R ts vs
  append : ∀ {ts us ts' us'}, R ts us → R ts' us' → R (ts ++ ts') (us ++ us')
  splice : ∀ l subs, l.op = .alternate → Q (node l subs) → R [node l subs] subs
  gather : ∀ branches, (∀ t ∈ branches, Q t) → R branches [branching .alternate branches]
  text : ∀ (fold : Bool) (shared : List Nat) (ts : List Tree) (rest : Tree), shared ≠ [] →
    (∀ t ∈ ts, Q t ∧ t.leadingText.1 = fold ∧ shared <+: t.leadingText.2) → ts ≠ [] →
    Q rest → R (ts.map (dropLeadingText shared.length)) [rest] →
    R ts [sequence [literal shared { foldCase := fold }, rest]]
  piece : ∀ (lead : Tree) (ts : List Tree) (rest : Tree), lead.isFixedWidth = true →
    (∀ t ∈ ts, Q t ∧ ∃ p, t.leadingPiece? = some p ∧ (p = lead ∨ lead.equal p = true)) →
    ts ≠ [] → Q lead → Q rest → R (ts.map dropLeadingPiece) [rest] →
    R ts [sequence [lead, rest]]

namespace ChoiceLaw

variable {Q : Tree → Prop} {R : List Tree → List Tree → Prop} (hR : ChoiceLaw Q R)

include hR

/-- Splicing nested choices respects the law, one branch after the other. -/
theorem flatMap_spliced {branches : List Tree} (h : ∀ t ∈ branches, Q t) :
    R branches (branches.flatMap (spliced .alternate)) := by
  induction branches with
  | nil => exact hR.refl []
  | cons t rest ih =>
    obtain ⟨ht, hrest⟩ := List.forall_mem_cons.mp h
    suffices hone : R [t] (spliced .alternate t) from hR.append hone (ih hrest)
    by_cases hop : t.op = .alternate
    · rw [spliced_of_op hop]
      obtain ⟨l, subs⟩ := t
      exact hR.splice l subs hop ht
    · rw [spliced_of_ne hop]
      exact hR.refl [t]

/-- If the law holds of each run and its branch, it holds of all of them in a row. -/
theorem map_flatMap {ρ : Type} (members : ρ → List Tree) (branch : ρ → Tree) {runs : List ρ}
    (h : ∀ run ∈ runs, R (members run) [branch run]) :
    R (runs.flatMap members) (runs.map branch) := by
  induction runs with
  | nil => exact hR.refl []
  | cons run rest ih =>
    obtain ⟨hrun, hrest⟩ := List.forall_mem_cons.mp h
    exact hR.append hrun (ih hrest)

/-- Putting branches under one node respects the law. -/
theorem bare {branches : List Tree} (h : ∀ t ∈ branches, Q t) :
    R branches [Assembly.bare .alternate branches] := by
  match branches, h with
  | [], h => exact hR.gather [] h
  | [t], _ => exact hR.refl [t]
  | a :: b :: rest, h => exact hR.gather _ h

section Factored

variable {choice : List Tree → Tree}
  (hchoice : ∀ ts, (∀ t ∈ ts, Q t) → Q (choice ts) ∧ R ts [choice ts])

include hchoice

/-- A run of the first round and the branch that is made of it are in the relation, and what is kept
    of the members is kept of that. -/
theorem textBranch {run : TextRun} (hrun : run.Sound) (h : ∀ t ∈ run.members, Q t) :
    Q (run.branch choice) ∧ R run.members [run.branch choice] := by
  rcases one_or_many hrun.ne_nil with ⟨only, hm⟩ | hlen
  · rw [TextRun.branch_one hm, hm]
    exact ⟨h only (hm ▸ List.mem_cons_self), hR.refl [only]⟩
  · have hdrop : ∀ t ∈ run.members.map (dropLeadingText run.shared.length), Q t := by
      intro t ht
      obtain ⟨u, hu, rfl⟩ := List.mem_map.mp ht
      exact hR.kept.dropLeadingText (h u hu) _
    obtain ⟨hq, hr⟩ := hchoice _ hdrop
    obtain ⟨first, hfirst⟩ := List.exists_mem_of_ne_nil run.members hrun.ne_nil
    have hlit := hR.kept.leadingText (h first hfirst) (hrun.shares hlen) (hrun.begins first hfirst).2
    rw [(hrun.begins first hfirst).1] at hlit
    rw [TextRun.branch_many hlen]
    refine ⟨hR.kept.sequence (List.forall_mem_cons.mpr ⟨hlit, List.forall_mem_singleton.mpr hq⟩),
      hR.text run.fold run.shared _ _ (hrun.shares hlen) (fun t ht => ?_) hrun.ne_nil hq hr⟩
    exact ⟨h t ht, hrun.begins t ht⟩

/-- A run of the second round and the branch that is made of it are in the relation, too. -/
theorem pieceBranch {run : PieceRun} (hrun : run.Sound) (h : ∀ t ∈ run.members, Q t) :
    Q (run.branch choice) ∧ R run.members [run.branch choice] := by
  rcases one_or_many hrun.ne_nil with ⟨only, hm⟩ | hlen
  · rw [PieceRun.branch_one hm, hm]
    exact ⟨h only (hm ▸ List.mem_cons_self), hR.refl [only]⟩
  · obtain ⟨lead, hlead, hfixed, hbegins⟩ := hrun.begins hlen
    have hdrop : ∀ t ∈ run.members.map dropLeadingPiece, Q t := by
      intro t ht
      obtain ⟨u, hu, rfl⟩ := List.mem_map.mp ht
      exact hR.kept.dropLeadingPiece (h u hu)
    obtain ⟨hq, hr⟩ := hchoice _ hdrop
    have hqlead : Q lead := hrun.kept_lead hR.kept.toKeptByParts h hlead
    rw [PieceRun.branch_many hlen hlead]
    refine ⟨hR.kept.sequence (List.forall_mem_cons.mpr ⟨hqlead, List.forall_mem_singleton.mpr hq⟩),
      hR.piece lead _ _ hfixed (fun t ht => ⟨h t ht, hbegins t ht⟩) hrun.ne_nil hqlead hq hr⟩

/-- Both rounds, one after the other. -/
theorem factored {branches : List Tree} (h : ∀ t ∈ branches, Q t) :
    (∀ t ∈ factored choice branches, Q t) ∧ R branches (factored choice branches) := by
  rw [Tree.factored]
  generalize htexts : (runs TextRun.start TextRun.add? branches).map (TextRun.branch choice) = texts
  have hround1 : (∀ t ∈ texts, Q t) ∧ R branches texts := by
    have hrun := fun run (hr : run ∈ runs TextRun.start TextRun.add? branches) =>
      hR.textBranch hchoice (TextRun.runs_sound branches run hr)
        fun t ht => h t (TextRun.members_subset hr t ht)
    constructor
    · intro t ht
      rw [← htexts] at ht
      obtain ⟨run, hr, rfl⟩ := List.mem_map.mp ht
      exact (hrun run hr).1
    · have := hR.map_flatMap _ _ fun run hr => (hrun run hr).2
      rwa [TextRun.flatMap_members, htexts] at this
  -- the second round goes on with the branches that the first one leaves
  have hrun := fun run (hr : run ∈ runs PieceRun.start PieceRun.add? texts) =>
    hR.pieceBranch hchoice (PieceRun.runs_sound texts run hr)
      fun t ht => hround1.1 t (PieceRun.members_subset hr t ht)
  constructor
  · intro t ht
    obtain ⟨run, hr, rfl⟩ := List.mem_map.mp ht
    exact (hrun run hr).1
  · have := hR.map_flatMap _ _ fun run hr => (hrun run hr).2
    rw [PieceRun.flatMap_members] at this
    exact hR.trans hround1.2 this

end Factored

/-- At any depth the choice may stand for its branches. -/
theorem choiceWithin (depth : Nat) {branches : List Tree} (h : ∀ t ∈ branches, Q t) :
    Q (choiceWithin depth branches) ∧ R branches [choiceWithin depth branches] := by
  induction depth generalizing branches with
  | zero => exact ⟨hR.kept.many _ _ rfl h, hR.gather branches h⟩
  | succ depth ih =>
    by_cases hone : branches.length = 1
    · obtain ⟨t, rfl⟩ := List.length_eq_one_iff.mp hone
      exact ⟨h t List.mem_cons_self, hR.refl [t]⟩
    · have hspliced : ∀ t ∈ branches.flatMap (spliced .alternate), Q t := by
        intro t ht
        obtain ⟨u, hu, htu⟩ := List.mem_flatMap.mp ht
        by_cases hop : u.op = .alternate
        · rw [spliced_of_op hop] at htu
          exact hR.kept.branches u (h u hu) hop t htu
        · rw [spliced_of_ne hop, List.mem_singleton] at htu
          exact htu ▸ h u hu
      obtain ⟨hq, hr⟩ := hR.factored (fun ts hts => ih hts) hspliced
      rw [choiceWithin_succ depth hone]
      exact ⟨hR.kept.bare rfl hq, hR.trans (hR.flatMap_spliced h) (hR.trans hr (hR.bare hq))⟩

/-- The choice may stand for its branches. -/
theorem choice {branches : List Tree} (h : ∀ t ∈ branches, Q t) :
    Q (choice branches) ∧ R branches [choice branches] :=
  hR.choiceWithin _ h

end ChoiceLaw

/-- A choice keeps what sequences and choices keep. -/
theorem Kept.choiceLaw {Q : Tree → Prop} (hQ : Kept Q) : ChoiceLaw Q fun _ _ => True where
  kept := hQ
  refl _ := trivial
  trans _ _ := trivial
  append _ _ := trivial
  splice _ _ _ _ := trivial
  gather _ _ := trivial
  text _ _ _ _ _ _ _ _ _ := trivial
  piece _ _ _ _ _ _ _ _ _ := trivial

end RegexTree.Tree
