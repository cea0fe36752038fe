/-
  Choices in normal form.

  `choice` offers branches in their order: choices among them are taken apart, a choice of one
  branch is that branch, and beginnings that neighbouring branches share are taken out of them,
  as in `abc|abd` to `ab(?:c|d)`.  That happens in two rounds, over neighbours only, so that the
  order in which branches are tried stays the same:

  1. runs of branches that begin with the same runes (`TextRun`);
  2. runs of branches that begin with the same piece of fixed width (`PieceRun`).

  What is left of the branches of a run is again a choice.  It is smaller, since it lacks at least
  one rune or piece of each branch (`mass`), and that bounds the recursion.
-/
import RegexTree.Tree.Leading
import RegexTree.Tree.Sequence

namespace RegexTree.Tree

/-! ## Runs of neighbours -/

section Runs

variable {ρ : Type}

/-- The runs of the trees after a run that is under way: each tree is added to the last run if
    that takes it, otherwise it begins the next. -/
def runsFrom (start : Tree → ρ) (add? : ρ → Tree → Option ρ) : ρ → List Tree → List ρ
  | run, [] => [run]
  | run, t :: rest =>
    match add? run t with
    | some longer => runsFrom start add? longer rest
    | none => run :: runsFrom start add? (start t) rest

/-- The trees cut into runs. -/
def runs (start : Tree → ρ) (add? : ρ → Tree → Option ρ) : List Tree → List ρ
  | [] => []
  | t :: rest => runsFrom start add? (start t) rest

end Runs

/-- The longest common beginning of two lists. -/
def commonPrefix : List Nat → List Nat → List Nat
  | a :: as, b :: bs => if a = b then a :: commonPrefix as bs else []
  | _, _ => []

/-! ## The first round: literals -/

/-- Neighbouring branches that all begin with the runes `shared`. -/
structure TextRun where
  fold : Bool
  shared : List Nat
  members : List Tree

namespace TextRun

/-- The run of one branch. -/
def start (t : Tree) : TextRun := ⟨t.leadingText.1, t.leadingText.2, [t]⟩

/-- The run with one more branch, if that leaves it a rune to share. -/
def add? (run : TextRun) (t : Tree) : Option TextRun :=
  let shared := commonPrefix run.shared t.leadingText.2
  if t.leadingText.1 = run.fold ∧ shared ≠ [] then
    some { run with shared, members := run.members ++ [t] }
  else none

/-- The branch that stands for the run: the shared runes, then what is left of the members. -/
def branch (choice : List Tree → Tree) (run : TextRun) : Tree :=
  match run.members with
  | [only] => only
  | members =>
    sequence [literal run.shared { foldCase := run.fold },
      choice (members.map (dropLeadingText run.shared.length))]

end TextRun

/-! ## The second round: pieces -/

/-- Neighbouring branches that all begin with a piece equal to `lead`. -/
structure PieceRun where
  lead : Option Tree
  members : List Tree

namespace PieceRun

/-- The run of one branch. -/
def start (t : Tree) : PieceRun := ⟨t.leadingPiece?, [t]⟩

/-- The run with one more branch, if that begins with the same piece of fixed width. -/
def add? (run : PieceRun) (t : Tree) : Option PieceRun :=
  match run.lead, t.leadingPiece? with
  | some lead, some piece =>
    if lead.isFixedWidth && lead.equal piece then
      some { run with members := run.members ++ [t] }
    else none
  | _, _ => none

/-- The branch that stands for the run: the shared piece, then what is left of the members. -/
def branch (choice : List Tree → Tree) (run : PieceRun) : Tree :=
  match run.members with
  | [only] => only
  | members =>
    let rest := choice (members.map dropLeadingPiece)
    match run.lead with
    | some lead => sequence [lead, rest]
    | none => rest

end PieceRun

/-! ## Choices -/

/-- The branches with shared beginnings taken out, given how the rest becomes a choice. -/
def factored (choice : List Tree → Tree) (branches : List Tree) : List Tree :=
  let texts := (runs TextRun.start TextRun.add? branches).map (TextRun.branch choice)
  (runs PieceRun.start PieceRun.add? texts).map (PieceRun.branch choice)

/-- How much there is to take out of a tree: its runes, and the other nodes that are neither
    empty nor a mere list of children. -/
def mass : Tree → Nat :=
  fold fun l _ parts =>
    parts.foldr (· + ·) 0 +
      match l.op with
      | .literal => l.runes.length
      | .emptyMatch | .concat | .alternate => 0
      | _ => 1

/-- The choice among the branches, with shared beginnings taken out down to a depth. -/
def choiceWithin : (depth : Nat) → List Tree → Tree
  | 0, branches => branching .alternate branches
  | depth + 1, branches =>
    match branches with
    | [only] => only
    | _ =>
      match factored (choiceWithin depth) (branches.flatMap (spliced .alternate)) with
      | [only] => only
      | parts => branching .alternate parts

/-- The choice among the branches. -/
def choice (branches : List Tree) : Tree :=
  choiceWithin ((branches.map mass).foldr (· + ·) 0 + 1) branches

@[simp] theorem choice_singleton (t : Tree) : choice [t] = t := by
  rw [choice, choiceWithin]

end RegexTree.Tree
