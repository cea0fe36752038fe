/-
  The compact form of a tree: each node as the name of its operation, then what it holds in braces.

  A sequence of the letter a and a star over b, for instance, is `cat{lit{a}star{lit{b}}}`.  Of the
  flags only those are shown that the operation reads: that a literal folds, that a repetition is
  lazy, that an anchor was written as a dollar sign.  A literal is shown as folding only if folding
  changes one of its runes.
-/
import RegexTree.Numeral
import RegexTree.Tree.Basic
import RegexTree.Unicode.Fold

namespace RegexTree

/-- The short name of an operation. -/
def Op.shortName : Op → String
  | .noMatch => "no"
  | .emptyMatch => "emp"
  | .literal => "lit"
  | .charClass => "cc"
  | .anyCharNotNL => "dnl"
  | .anyChar => "dot"
  | .beginLine => "bol"
  | .endLine => "eol"
  | .beginText => "bot"
  | .endText => "eot"
  | .wordBoundary => "wb"
  | .noWordBoundary => "nwb"
  | .capture => "cap"
  | .star => "star"
  | .plus => "plus"
  | .quest => "que"
  | .counted => "rep"
  | .concat => "cat"
  | .alternate => "alt"
  | .leftParen => "lpar"
  | .verticalBar => "vbar"

namespace Label

/-- The name that a node has in a dump.  A repetition that prefers fewer iterations has an n in
    front; a literal tells whether it holds more than one rune, and whether folding matters. -/
def dumpName (l : Label) : String :=
  match l.op with
  | .star | .plus | .quest | .counted => (if l.flags.nonGreedy then "n" else "") ++ l.op.shortName
  | .literal =>
    (if l.runes.length > 1 then "str" else "lit") ++
      (if l.flags.foldCase && l.runes.any (fun r => Unicode.simpleFold r != r) then "fold" else "")
  | op => op.shortName

/-- A code point as a dump shows it. -/
def dumpRune (r : Nat) : String := "0x" ++ String.ofList (Numeral.hex r)

/-- The ranges of a class as a dump shows them; an end without a partner stands alone. -/
def dumpRanges : List Nat → List String
  | lo :: hi :: rest =>
    (if lo = hi then dumpRune lo else dumpRune lo ++ "-" ++ dumpRune hi) :: dumpRanges rest
  | [lo] => [dumpRune lo]
  | [] => []

/-- What stands between the braces of a node, given the dumps of its children. -/
def dumpBody (l : Label) (dumps : List String) : String :=
  match l.op with
  | .endText => if l.flags.wasDollar then "" else "\\z"
  | .literal => String.ofList (l.runes.map fun r => (scalar? r).getD '\uFFFD')
  | .concat | .alternate => String.join dumps
  | .star | .plus | .quest => dumps.headD ""
  | .counted =>
    String.ofList (Numeral.signed l.min) ++ "," ++ String.ofList (Numeral.signed l.max) ++ " " ++
      dumps.headD ""
  | .capture => (match l.name with | some name => name ++ ":" | none => "") ++ dumps.headD ""
  | .charClass => " ".intercalate (dumpRanges l.runes)
  | _ => ""

end Label

namespace Tree

/-- The compact form of the tree. -/
def dump : Tree → String :=
  fold fun l _ dumps => l.dumpName ++ "\x7b" ++ l.dumpBody dumps ++ "\x7d"

theorem dump_node (l : Label) (subs : List Tree) :
    (node l subs).dump = l.dumpName ++ "\x7b" ++ l.dumpBody (subs.map dump) ++ "\x7d" :=
  fold_node _ l subs

end Tree

end RegexTree
