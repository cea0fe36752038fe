/-
  How pieces become trees.

  The reader of patterns decides which pieces a pattern has and in which groups they stand; an
  assembly decides what to make of them: of a class, of the pieces of a branch and of the branches
  of a group.

  * `Assembly.normal` makes trees in normal form, and is the one that `parse` uses.  A class of one
    rune becomes a literal, and so does one of two runes that fold to each other; a branch that is a
    class of all runes, or of all but the newline, becomes a dot.
  * `Assembly.plain` keeps every piece as it was written, which is the measure for what the normal
    form may change.
-/
import RegexTree.Tree.Choice
import RegexTree.Unicode.Fold

namespace RegexTree

/-- What is made of the parts of a pattern. -/
structure Assembly where
  /-- A class of runes. -/
  charClass : Flags → Ranges → Tree
  /-- A branch from its pieces. -/
  branch : List Tree → Tree
  /-- A choice from its branches. -/
  choice : List Tree → Tree

namespace Assembly

/-- A class of one rune is a literal that does not fold, and a class of two that are an orbit is a
    literal that folds; the smaller rune stands for both. -/
def classPiece (flags : Flags) (ranges : Ranges) : Tree :=
  match ranges with
  | [a] =>
    if a.lo = a.hi then .literal [a.lo] { flags with foldCase := false }
    else if a.lo + 1 = a.hi ∧ Unicode.isFoldPair a.lo a.hi then
      .literal [a.lo] { flags with foldCase := true }
    else .charClass ranges flags
  | [a, b] =>
    if a.lo = a.hi ∧ b.lo = b.hi ∧ Unicode.isFoldPair a.lo b.lo then
      .literal [a.lo] { flags with foldCase := true }
    else .charClass ranges flags
  | _ => .charClass ranges flags

/-- A branch that is a class of all runes, or of all but the newline, is a dot. -/
def asDot (t : Tree) : Tree :=
  if t.op = .charClass then
    if t.runes = Ranges.full.runes then t.relabel fun l => { l with op := .anyChar, runes := [] }
    else if t.runes = Ranges.fullButNewline.runes then
      t.relabel fun l => { l with op := .anyCharNotNL, runes := [] }
    else t
  else t

/-- Trees in normal form. -/
def normal : Assembly where
  charClass := classPiece
  branch := fun pieces => asDot (.sequence pieces)
  choice := .choice

/-- A node over parts, unless there is only one. -/
def bare (op : Op) : List Tree → Tree
  | [only] => only
  | parts => .branching op parts

/-- Trees of the pieces as they are written. -/
def plain : Assembly where
  charClass := fun flags ranges => .charClass ranges flags
  branch := fun pieces => if pieces = [] then .empty else bare .concat pieces
  choice := bare .alternate

end Assembly

end RegexTree
