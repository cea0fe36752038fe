/-
  Flags: how a pattern is to be read, and what a node of a tree remembers of it.

  The same ten switches serve both purposes.  Eight of them choose a dialect, and there are two
  usual choices (`Flags.perl`, `Flags.posix`); the last two are marks that only nodes carry: that an
  anchor was written as a dollar sign, and that a tree has been simplified.

  `bits` numbers the switches from the lowest bit on, in the order of the fields, and `ofBits` reads
  such a number back.  A node has the flags that were in force where it was read, so most of what it
  remembers does not matter to what it matches; which flags do is said where trees are compared.
-/

namespace RegexTree

/-- The switches of the reader, and the marks of a node. -/
structure Flags where
  /-- Letters stand for all members of their fold orbit. -/
  foldCase : Bool := false
  /-- The whole pattern is a literal text. -/
  literal : Bool := false
  /-- Negated classes may match a newline. -/
  classNL : Bool := false
  /-- `.` matches a newline. -/
  dotNL : Bool := false
  /-- `^` and `$` match at the ends of the text only. -/
  oneLine : Bool := false
  /-- Repetitions prefer fewer iterations. -/
  nonGreedy : Bool := false
  /-- Perl extensions: `(?i)`, `(?P<n>…)`, `\d`, `\A`, `\Q…\E`, a lazy `?`. -/
  perlX : Bool := false
  /-- `\p{Name}` and `\pN`. -/
  unicodeGroups : Bool := false
  /-- The node is an end of text that was written `$`. -/
  wasDollar : Bool := false
  /-- The tree below the node is simplified. -/
  simple : Bool := false
  deriving DecidableEq, Repr, Inhabited

namespace Flags

/-- POSIX syntax: no extension at all. -/
def posix : Flags := {}

/-- Perl syntax, as far as it is supported. -/
def perl : Flags := { classNL := true, oneLine := true, perlX := true, unicodeGroups := true }

/-- The switches in the order of their bits, lowest first. -/
def switches (f : Flags) : List Bool :=
  [f.foldCase, f.literal, f.classNL, f.dotNL, f.oneLine,
    f.nonGreedy, f.perlX, f.unicodeGroups, f.wasDollar, f.simple]

/-- The flags as one number. -/
def bits (f : Flags) : Nat := f.switches.foldr (fun b n => b.toNat + 2 * n) 0

/-- The flags that a number names; bits beyond the tenth are dropped. -/
def ofBits (n : Nat) : Flags where
  foldCase := n.testBit 0
  literal := n.testBit 1
  classNL := n.testBit 2
  dotNL := n.testBit 3
  oneLine := n.testBit 4
  nonGreedy := n.testBit 5
  perlX := n.testBit 6
  unicodeGroups := n.testBit 7
  wasDollar := n.testBit 8
  simple := n.testBit 9

/-- Both kinds of newline are matched: in negated classes and by `.`. -/
def hasMatchNL (f : Flags) : Bool := f.classNL && f.dotNL

/-- Every switch of `perl` is on. -/
def hasPerl (f : Flags) : Bool := f.classNL && f.oneLine && f.perlX && f.unicodeGroups

/-- No switch is on. -/
def isPosix (f : Flags) : Bool := f == posix

/-- Only the fold switch is kept. -/
def foldOnly (f : Flags) : Flags := { foldCase := f.foldCase }

example : perl.bits = 212 := by decide

end Flags

end RegexTree
