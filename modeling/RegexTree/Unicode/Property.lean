/-
  Properties and groups by name: `\p{Name}`, `\d` and `[:name:]`.

  Only some of the names of Unicode are known, each for one table.  The groups that a letter or a
  name between colons stands for are in ASCII, and each is a short list of ranges; a capital letter
  stands for all that is not in the group.

  `isPrint` says which runes a printed pattern shows as themselves.
-/
import RegexTree.Unicode.Alphabetic
import RegexTree.Unicode.Blank
import RegexTree.Unicode.LetterCase
import RegexTree.Unicode.Numeric

namespace RegexTree.Unicode

/-- The runes of the property that `\p{Name}` names. -/
def property? : (name : String) → Option Ranges
  | "Any" => some Ranges.full
  | "Alphabetic" => some alphabetic
  | "Cc" => some control
  | "Lowercase" => some lowercase
  | "N" => some numeric
  | "Uppercase" => some uppercase
  | "White_Space" => some whiteSpace
  | _ => none

/-- `\d`: the decimal digits. -/
def digits : Ranges := [⟨0x30, 0x39⟩]

/-- `\s`: blank, tab, line feed, form feed, carriage return. -/
def spaces : Ranges := [⟨0x09, 0x0a⟩, ⟨0x0c, 0x0d⟩, ⟨0x20, 0x20⟩]

/-- `\w`: letters, digits and the underscore. -/
def wordRunes : Ranges := [⟨0x30, 0x39⟩, ⟨0x41, 0x5a⟩, ⟨0x5f, 0x5f⟩, ⟨0x61, 0x7a⟩]

/-- The runes of the group that a letter names after a backslash.  The capital letter stands for
    all other runes, which the switch in front tells. -/
def perlGroup? : (letter : Char) → Option (Bool × Ranges)
  | 'd' => some (false, digits)
  | 's' => some (false, spaces)
  | 'w' => some (false, wordRunes)
  | 'D' => some (true, digits)
  | 'S' => some (true, spaces)
  | 'W' => some (true, wordRunes)
  | _ => none

/-- The runes of the group that `[:name:]` names. -/
def posixGroup? : (name : String) → Option Ranges
  | "alnum" => some [⟨0x30, 0x39⟩, ⟨0x41, 0x5a⟩, ⟨0x61, 0x7a⟩]
  | "alpha" => some [⟨0x41, 0x5a⟩, ⟨0x61, 0x7a⟩]
  | "ascii" => some [⟨0x00, 0x7f⟩]
  | "blank" => some [⟨0x09, 0x09⟩, ⟨0x20, 0x20⟩]
  | "cntrl" => some [⟨0x00, 0x1f⟩, ⟨0x7f, 0x7f⟩]
  | "digit" => some digits
  | "graph" => some [⟨0x21, 0x7e⟩]
  | "lower" => some [⟨0x61, 0x7a⟩]
  | "print" => some [⟨0x20, 0x7e⟩]
  | "punct" => some [⟨0x21, 0x2f⟩, ⟨0x3a, 0x40⟩, ⟨0x5b, 0x60⟩, ⟨0x7b, 0x7e⟩]
  | "space" => some [⟨0x09, 0x0d⟩, ⟨0x20, 0x20⟩]
  | "upper" => some [⟨0x41, 0x5a⟩]
  | "word" => some wordRunes
  | "xdigit" => some [⟨0x30, 0x39⟩, ⟨0x41, 0x46⟩, ⟨0x61, 0x66⟩]
  | _ => none

/-- `c` shows as itself in print: it is the blank, or neither white space nor a control. -/
def isPrint (c : Nat) : Bool := c == 0x20 || !(control.has c || whiteSpace.has c)

end RegexTree.Unicode
