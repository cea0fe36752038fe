/-
  Trees as patterns in Perl syntax.

  The printed form of a tree that the reader made can be read again, and nearly always gives an
  equal tree; the exception is a branch that factoring has left as a class of all runes, which is
  read as a dot.  Every flag that matters is written into the text, so it reads back under
  `Flags.perl` whatever flags the tree was made under.  A rune is written as itself if it is
  printable, with a backslash if it has a meaning of its own, and otherwise by its code.

  A node is put in a group where its text would be taken apart by what stands around it: the operand
  of a repetition unless it is one piece, and a choice in a sequence.  Trees that no reader makes
  are printed as well, though not in a form that could be read.
-/
import RegexTree.Numeral
import RegexTree.Tree.Basic
import RegexTree.Unicode.Property

namespace RegexTree

namespace Print

/-- The characters that stand for themselves only after a backslash. -/
def metaChars : List Char := "\\.+*?()|[]\x7b\x7d^$".toList

/-- A rune by its code: a letter for the common controls, else two hexadecimal digits, else as
    many as it takes, in braces. -/
def coded (r : Nat) : List Char :=
  if r = 0x07 then ['\\', 'a']
  else if r = 0x0C then ['\\', 'f']
  else if r = 0x0A then ['\\', 'n']
  else if r = 0x0D then ['\\', 'r']
  else if r = 0x09 then ['\\', 't']
  else if r = 0x0B then ['\\', 'v']
  else if r < 0x100 then '\\' :: 'x' :: Numeral.hexPair r
  else '\\' :: 'x' :: '{' :: Numeral.hex r ++ ['}']

/-- A rune of a pattern.  With `force` a printable rune has a backslash even where it has no
    meaning of its own. -/
def escaped (r : Nat) (force : Bool) : List Char :=
  match scalar? r with
  | some c =>
    if Unicode.isPrint r then
      if force || metaChars.contains c then ['\\', c] else [c]
    else coded r
  | none => coded r

/-- An end of a range within brackets. -/
def rangeEnd (r : Nat) : List Char := escaped r (r == '-'.toNat)

/-- A range within brackets. -/
def range (r : Range) : List Char :=
  if r.lo = r.hi then rangeEnd r.lo else rangeEnd r.lo ++ '-' :: rangeEnd r.hi

/-- The class that matches nothing, as the complement of all. -/
def nothing : List Char := "[^\\x00-\\x\x7b10ffff\x7d]".toList

/-- The class reaches from the first rune to the last and leaves out something between. -/
def spansAll (runes : List Nat) : Bool :=
  runes.head? == some 0 && runes.getLast? == some maxRune && 2 < runes.length

/-- What lies between the ranges of a class that spans all. -/
def gaps (runes : List Nat) : Ranges :=
  (Ranges.ofRunes runes.tail.dropLast).map fun r => ⟨r.lo + 1, r.hi - 1⟩

/-- A class in brackets.  One that spans all is written as the complement of its gaps. -/
def charClass (runes : List Nat) : List Char :=
  if runes.length % 2 ≠ 0 then "[invalid char class]".toList
  else if runes.isEmpty then nothing
  else if spansAll runes then '[' :: '^' :: (gaps runes).flatMap range ++ [']']
  else '[' :: (Ranges.ofRunes runes).flatMap range ++ [']']

/-- A text as a group of its own. -/
def grouped (text : List Char) : List Char := "(?:".toList ++ text ++ [')']

/-- The bounds of a counted repetition. -/
def bounds (min max : Int) : List Char :=
  '{' :: Numeral.signed min ++
    (if max = min then [] else ',' :: (if 0 ≤ max then Numeral.signed max else [])) ++ ['}']

/-- The sign of a repetition. -/
def operator (l : Label) : List Char :=
  (match l.op with
    | .star => ['*']
    | .plus => ['+']
    | .quest => ['?']
    | _ => bounds l.min l.max) ++
  (if l.flags.nonGreedy then ['?'] else [])

/-- A repetition needs its operand in a group: the sign would bind to the last part of it. -/
def needsGroup (t : Tree) : Bool :=
  t.op.isRepeat || t.op == .concat || t.op == .alternate ||
    (t.op == .literal && 1 < t.runes.length)

/-- The operand of a repetition, with its text. -/
def operand (subs : List Tree) (texts : List (List Char)) : List Char :=
  match subs, texts with
  | t :: _, text :: _ => if needsGroup t then grouped text else text
  | _, _ => []

/-- The pieces of a sequence, with their texts; a choice among them is put into a group. -/
def pieces (subs : List Tree) (texts : List (List Char)) : List Char :=
  (List.zipWith (fun (t : Tree) text => if t.op = .alternate then grouped text else text)
    subs texts).flatten

/-- A node, given its children and their texts. -/
def node (l : Label) (subs : List Tree) (texts : List (List Char)) : List Char :=
  match l.op with
  | .noMatch => nothing
  | .emptyMatch => "(?:)".toList
  | .literal =>
    let text := l.runes.flatMap (escaped · false)
    if l.flags.foldCase then "(?i:".toList ++ text ++ [')'] else text
  | .charClass => charClass l.runes
  | .anyCharNotNL => "(?-s:.)".toList
  | .anyChar => "(?s:.)".toList
  | .beginLine => "(?m:^)".toList
  | .endLine => "(?m:$)".toList
  | .beginText => "\\A".toList
  | .endText => if l.flags.wasDollar then "(?-m:$)".toList else "\\z".toList
  | .wordBoundary => "\\b".toList
  | .noWordBoundary => "\\B".toList
  | .capture =>
    (match l.name with
      | some name => "(?P<".toList ++ name.toList ++ ['>']
      | none => ['(']) ++
    (match subs, texts with
      | t :: _, text :: _ => if t.op = .emptyMatch then [] else text
      | _, _ => []) ++ [')']
  | .star | .plus | .quest | .counted => operand subs texts ++ operator l
  | .concat => pieces subs texts
  | .alternate => ['|'].intercalate texts
  | .leftParen => "<lpar>".toList
  | .verticalBar => "<vbar>".toList

end Print

namespace Tree

/-- The characters of the pattern that a tree is printed as. -/
def printed : Tree → List Char := fold Print.node

/-- The pattern that a tree is printed as. -/
def print (t : Tree) : String := String.ofList t.printed

theorem printed_node (l : Label) (subs : List Tree) :
    (node l subs).printed = Print.node l subs (subs.map printed) :=
  fold_node _ l subs

end Tree

end RegexTree
