/-
  Putting pieces and branches together.

  `collapse` makes one node of the pieces of a branch or of the branches of a group.  The parts of
  nodes of the same operation are taken in their place, neighbouring literals are joined, and a
  single part is left as it is.

  What neighbouring branches share is found by a scan over their positions, which remembers where
  the run under way begins and what its branches have in common (`Scan`); the branches of each run
  are then taken off the list by their number (`gather`).  There are two such rounds, for a text
  that literals begin with and for a first piece.  What is left of the branches of a run is
  collapsed in turn, and the depth of that recursion is the number of nodes and runes in all
  branches, which the machine must not use up.

  The trees may be any: a node without the operand that its operation reads has no answer when it is
  compared or asked for its width.
-/
import RegexTree.Machine.Fault
import RegexTree.Parse.Assembly

namespace RegexTree.Machine

/-- The parts with one more.  In a sequence, a literal that follows a literal which folds alike is
    added to that. -/
def pushSub (op : Op) (parts : List Tree) (sub : Tree) : List Tree :=
  match parts.getLast? with
  | some last =>
    if op = .concat ∧ Tree.canJoin last sub then parts.dropLast ++ [Tree.joined last sub]
    else parts ++ [sub]
  | none => parts ++ [sub]

/-! ## What a branch begins with -/

/-- The first piece of a sequence, or the tree itself. -/
def front (t : Tree) : Guarded Tree :=
  if t.op = .concat ∧ t.subs.isEmpty = false then must t.subs[0]? else .ok t

/-- Whether the literal that a branch begins with folds, and its runes. -/
def leadingString (t : Tree) : Guarded (Bool × List Nat) := do
  let first ← front t
  return if first.op = .literal then (first.flags.foldCase, first.runes) else (false, [])

/-- The first piece of a branch; the empty match has none. -/
def leadingRegexp? (t : Tree) : Guarded (Option Tree) :=
  if t.op = .emptyMatch then .ok none
  else do
    let first ← front t
    return if first.op = .emptyMatch then none else some first

/-- The tree matches in at most one way and captures nothing. -/
def isFixedWidth (t : Tree) : Guarded Bool :=
  if t.isOneRune then .ok true
  else
    match t.op with
    | .beginLine | .endLine | .beginText | .endText | .wordBoundary | .noWordBoundary => .ok true
    | .counted =>
      if t.label.min = t.label.max then do return (← must t.subs[0]?).isOneRune else .ok false
    | _ => .ok false

/-- The trees are equal, if comparing them finds every operand. -/
def equal (t u : Tree) : Guarded Bool :=
  if t.isComparable u then .ok (t.equal u) else .error .stuck

/-- The literal without its first `n` runes. -/
def stripLiteral (n : Nat) (t : Tree) : Guarded Tree :=
  if t.op = .literal then do
    let runes ← drain n t.runes
    return t.relabel fun l => { l with op := if runes = [] then .emptyMatch else .literal, runes }
  else .ok t

/-- A branch without the first `n` runes of the literal that it begins with. -/
def removeLeadingString (n : Nat) (t : Tree) : Guarded Tree :=
  if t.op = .concat ∧ t.subs.isEmpty = false then do
    let first ← stripLiteral n (← must t.subs[0]?)
    let rest ← drain 1 t.subs
    return if first.op = .emptyMatch then Tree.remaining t.label rest
      else .node t.label (first :: rest)
  else stripLiteral n t

/-- What follows the first piece of a branch, and the piece. -/
def removeLeadingRegexp (t : Tree) : Guarded (Tree × Tree) :=
  if t.op = .concat ∧ t.subs.isEmpty = false then do
    let piece ← must t.subs[0]?
    return (Tree.remaining t.label (← drain 1 t.subs), piece)
  else .ok (.empty, t)

/-! ## Runs of neighbours -/

/-- A scan over branches, up to some position.  A run has a number of branches, and a mark of what
    these begin with. -/
structure Scan (μ : Type) where
  /-- The runs that have ended, in their order. -/
  runs : List (Nat × μ) := []
  /-- The position where the run under way begins. -/
  start : Nat := 0
  /-- What the branches of the run under way begin with. -/
  mark : μ

section

variable {μ : Type}

/-- A run begins at position `i`, and the one under way ends there if it has a branch. -/
def Scan.cut (s : Scan μ) (i : Nat) (mark : μ) : Guarded (Scan μ) := do
  let runs ← (
    if s.start < i then do return s.runs ++ [(← lessen i s.start, s.mark)] else return s.runs)
  return { runs, start := i, mark }

/-- The scan one branch further.  `markOf` tells what a branch begins with, and `share?` the mark
    that a run has with one more branch, if it takes that.  After the last branch the run ends. -/
def Scan.pass (markOf : Tree → Guarded μ) (share? : μ → μ → Guarded (Option μ)) (blank : μ)
    (branches : List Tree) (s : Scan μ) (i : Nat) : Guarded (Scan μ) :=
  if i < branches.length then do
    let mark ← markOf (← must branches[i]?)
    match ← share? s.mark mark with
    | some shared => return { s with mark := shared }
    | none => s.cut i mark
  else s.cut i blank

/-- The runs of the branches, by their number of branches and their marks. -/
def scan (markOf : Tree → Guarded μ) (share? : μ → μ → Guarded (Option μ)) (blank : μ)
    (branches : List Tree) : Guarded (List (Nat × μ)) := do
  let s ← (List.range (branches.length + 1)).foldlM (Scan.pass markOf share? blank branches)
    { mark := blank }
  return s.runs

/-- The branches with one branch for each of the runs.  A run of one stays as it is. -/
def gather (branch : μ → List Tree → Guarded Tree) :
    List (Nat × μ) → List Tree → Guarded (List Tree)
  | [], _ => return []
  | (length, mark) :: runs, branches => do
    let group := branches.take length
    let first ← (if length = 1 then return group else do return [← branch mark group])
    return first ++ (← gather branch runs (branches.drop length))

end

/-! ## Taking out what branches share -/

/-- The beginning that branches share, and what is left of them, in one sequence. -/
def factored (lead rest : Tree) : Tree :=
  Assembly.bare .concat ((Tree.spliced .concat rest).foldl (pushSub .concat) [lead])

/-- The mark of a run with one more branch, if they have a rune in common: the runes that all begin
    with. -/
def shareText? (run branch : Bool × List Nat) : Guarded (Option (Bool × List Nat)) :=
  if branch.1 = run.1 then
    let same := ((run.2.zip branch.2).takeWhile fun (a, b) => a == b).length
    if 0 < same then do return some (run.1, ← firstOf same run.2) else return none
  else return none

/-- The mark of a run with one more branch, if that begins with the same piece of fixed width. -/
def sharePiece? (run branch : Option Tree) : Guarded (Option (Option Tree)) :=
  match run, branch with
  | some lead, some piece => do
    let same ← (do if ← isFixedWidth lead then equal lead piece else return false)
    return if same then some run else none
  | _, _ => return none

section

variable (collapse : List Tree → Guarded Tree)

/-- The branch for branches that begin with as many runes in common as the mark has. -/
def textBranch (mark : Bool × List Nat) (group : List Tree) : Guarded Tree := do
  let (_, runes) ← leadingString (← must group[0]?)
  let lead := Tree.literal (← firstOf mark.2.length runes) { foldCase := mark.1 }
  let stripped ← group.mapM (removeLeadingString mark.2.length)
  return factored lead (← collapse stripped)

/-- The branch for branches that begin with the same piece. -/
def pieceBranch (group : List Tree) : Guarded Tree := do
  let split ← group.mapM removeLeadingRegexp
  let rest ← collapse (split.map (·.1))
  return match split.head? with
    | some (_, lead) => factored lead rest
    | none => rest

/-- The branches with shared beginnings taken out, first literals and then pieces. -/
def factor (branches : List Tree) : Guarded (List Tree) :=
  if branches.length < 2 then .ok branches
  else do
    let runs ← scan leadingString shareText? (false, []) branches
    let branches ← gather (textBranch collapse) runs branches
    let runs ← scan leadingRegexp? sharePiece? none branches
    gather (fun _ => pieceBranch collapse) runs branches

end

/-- The node with operation `op` for the parts, by a recursion no deeper than `depth`.  A sequence
    or a choice of one part is that part. -/
def collapseWithin : (depth : Nat) → Op → List Tree → Guarded Tree
  | 0, _, _ => .error .stuck
  | depth + 1, op, subs =>
    match subs with
    | [only] => .ok only
    | _ => do
      let parts := (subs.flatMap (Tree.spliced op)).foldl (pushSub op) []
      let parts ← (if op = .alternate then factor (collapseWithin depth op) parts else return parts)
      return if op = .concat ∨ op = .alternate then Assembly.bare op parts
        else Tree.branching op parts

/-- The node with operation `op` for the parts, such as the pieces of a sequence or the branches of
    a choice. -/
def collapse (op : Op) (subs : List Tree) : Guarded Tree :=
  collapseWithin ((subs.map Tree.mass).foldr (· + ·) 0 + 1) op subs

end RegexTree.Machine
