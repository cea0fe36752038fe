/-
  What a branch of a choice begins with, and what is left without it.

  Two branches can share a beginning in two ways: both begin with a literal, and the literals have
  runes in common; or both begin with the same piece, whatever it is.  A piece may be taken out of
  the branches only if it matches in at most one way (`isFixedWidth`), so that the branches are
  still tried in their order.
-/
import RegexTree.Tree.Equal

namespace RegexTree.Tree

/-! ## Literals -/

/-- The first piece of a sequence, or the tree itself. -/
def front (t : Tree) : Tree := if t.op = .concat then t.subs.headD t else t

/-- The runes of the literal that a branch begins with, and whether it folds.  A branch that
    begins with something else has no runes there. -/
def leadingText (t : Tree) : Bool × List Nat :=
  if t.front.op = .literal then (t.front.flags.foldCase, t.front.runes) else (false, [])

/-- A literal without its first `n` runes; without any it becomes the empty match, and keeps its
    flags.  Other trees stay as they are. -/
def dropRunes (n : Nat) (t : Tree) : Tree :=
  if t.op = .literal then
    t.relabel fun l =>
      { l with op := if l.runes.length ≤ n then .emptyMatch else .literal, runes := l.runes.drop n }
  else t

/-- What is left of a sequence when only the pieces `rest` remain. -/
def remaining (l : Label) : List Tree → Tree
  | [] => empty
  | [only] => only
  | rest => node l rest

/-- A branch without the first `n` runes of the literal that it begins with. -/
def dropLeadingText (n : Nat) (t : Tree) : Tree :=
  if t.op = .concat then
    match t.subs with
    | [] => t
    | first :: rest =>
      if (dropRunes n first).op = .emptyMatch then remaining t.label rest
      else node t.label (dropRunes n first :: rest)
  else dropRunes n t

/-! ## Pieces -/

/-- The first piece of a branch; the empty match has none. -/
def leadingPiece? (t : Tree) : Option Tree :=
  if t.op = .emptyMatch ∨ t.front.op = .emptyMatch then none else some t.front

/-- A branch without its first piece. -/
def dropLeadingPiece (t : Tree) : Tree :=
  if t.op = .concat then remaining t.label t.subs.tail else empty

/-- The tree matches exactly one rune. -/
def isOneRune (t : Tree) : Bool :=
  match t.op with
  | .literal => t.runes.length == 1
  | .charClass | .anyCharNotNL | .anyChar => true
  | _ => false

/-- The tree matches in at most one way and captures nothing: it is one rune, an assertion, or one
    rune counted exactly. -/
def isFixedWidth (t : Tree) : Bool :=
  isOneRune t ||
    match t.op with
    | .beginLine | .endLine | .beginText | .endText | .wordBoundary | .noWordBoundary => true
    | .counted => t.label.min == t.label.max && t.subs.head?.any isOneRune
    | _ => false

end RegexTree.Tree
