/-
  Sequences in normal form.

  `sequence` puts pieces one after the other: sequences among them are taken apart, neighbouring
  literals that fold alike are joined into one, and a sequence of one piece is that piece.  A
  sequence of no pieces is the empty match.  A literal that is joined to another keeps its flags, so
  which flags a joined literal has depends on its first part; none of them but folding is looked at
  by what matches or compares.
-/
import RegexTree.Tree.Basic

namespace RegexTree.Tree

/-- The pieces that a tree contributes to a node with operation `op`: its children if it has that
    operation itself, otherwise just the tree. -/
def spliced (op : Op) (t : Tree) : List Tree := if t.op = op then t.subs else [t]

/-- Both are literals, and both fold or neither does. -/
def canJoin (a b : Tree) : Bool :=
  a.op == .literal && b.op == .literal && a.flags.foldCase == b.flags.foldCase

/-- The first literal with the runes of the second after its own. -/
def joined (a b : Tree) : Tree := a.relabel fun l => { l with runes := l.runes ++ b.runes }

/-- A piece in front of pieces that are joined already. -/
def consJoined (t : Tree) : List Tree → List Tree
  | [] => [t]
  | u :: rest => if canJoin t u then joined t u :: rest else t :: u :: rest

/-- The pieces with neighbouring literals joined. -/
def joinLiterals (pieces : List Tree) : List Tree := pieces.foldr consJoined []

/-- The pieces in sequence. -/
def sequence : List Tree → Tree
  | [] => empty
  | [only] => only
  | pieces =>
    match joinLiterals (pieces.flatMap (spliced .concat)) with
    | [only] => only
    | parts => branching .concat parts

@[simp] theorem sequence_nil : sequence [] = empty := rfl

@[simp] theorem sequence_singleton (t : Tree) : sequence [t] = t := rfl

end RegexTree.Tree
