/-
  Patterns with settings: what is to be read, and how.

  A builder collects the flags and the limit that a pattern is read with, beginning with those of
  Perl, and `build` reads it.  Each setting is one flag that is switched on or off, or the inverse
  of one where the flag says the opposite.
-/
import RegexTree.Pattern

namespace RegexTree.Pattern

/-- A pattern that is to be read, with the settings collected so far. -/
structure Builder where
  pattern : String
  flags : Flags := .perl
  nestLimit : Nat := defaultNestLimit

namespace Builder

/-- Letters stand for all of their case. -/
def caseInsensitive (b : Builder) (yes : Bool) : Builder :=
  { b with flags := { b.flags with foldCase := yes } }

/-- `.` matches a newline. -/
def dotMatchesNewline (b : Builder) (yes : Bool) : Builder :=
  { b with flags := { b.flags with dotNL := yes } }

/-- `^` and `$` match at every line. -/
def multiLine (b : Builder) (yes : Bool) : Builder :=
  { b with flags := { b.flags with oneLine := !yes } }

/-- Repetitions prefer fewer iterations, and more with a question mark. -/
def swapGreed (b : Builder) (yes : Bool) : Builder :=
  { b with flags := { b.flags with nonGreedy := yes } }

/-- The pattern is a literal text. -/
def literal (b : Builder) (yes : Bool) : Builder :=
  { b with flags := { b.flags with literal := yes } }

/-- Perl extensions are allowed. -/
def perlExtensions (b : Builder) (yes : Bool) : Builder :=
  { b with flags := { b.flags with perlX := yes } }

/-- `\p{Name}` is allowed. -/
def unicodeGroups (b : Builder) (yes : Bool) : Builder :=
  { b with flags := { b.flags with unicodeGroups := yes } }

/-- All flags at once. -/
def withFlags (b : Builder) (flags : Flags) : Builder := { b with flags }

/-- How deep groups and repetitions may stand in one another. -/
def withNestLimit (b : Builder) (nestLimit : Nat) : Builder := { b with nestLimit }

/-- Reads the pattern. -/
def build (b : Builder) : Except Error Pattern := parsePattern b.pattern b.flags b.nestLimit

end Builder

end RegexTree.Pattern
