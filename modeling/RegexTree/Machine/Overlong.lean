/-
  Escapes with more digits than the machine can count.

  An escape `\x{...}` may have any number of digits, as long as they write a rune: zeros may stand in
  front.  The machine counts the digits in 32 bits with a sign, and is stuck at the digit for which
  that is too small (`bracedHex`).  The readers of texts do not count, and read on.

  What is here says of the readers of texts alone where reading comes to such an escape.  There is a
  predicate for each reader on the way, from the escape itself to the pattern, and it follows that
  reader: a bracket comes to such an escape if one of its items has it and the items before it are
  read, and so does a run over the tokens.  `HasOverlong` asks less, and only that such digits stand
  somewhere in the text, whatever they are there.
-/
import RegexTree.Parse.State

namespace RegexTree.Machine

open Parse (State Setting)

/-- Hexadecimal digits of a rune, nearly all of them zeros in front, that are one too many to be
    counted in 32 bits with a sign. -/
structure Overlong (digits : List Char) : Prop where
  length : digits.length = 0x80000000
  rune : ∃ r ≤ maxRune, Numeral.ofHex? digits = some r

/-- Somewhere in the text a brace is opened after `\x`, and too many digits follow. -/
def HasOverlong (text : List Char) : Prop :=
  ∃ digits, Overlong digits ∧ '\\' :: 'x' :: '{' :: digits <:+: text

/-- The text begins with an escape that has too many digits. -/
def OverlongRune (text : List Char) : Prop :=
  ∃ digits, Overlong digits ∧ '\\' :: 'x' :: '{' :: digits <+: text

/-- One end of the range at the start of a text is such an escape. -/
def OverlongRange (opening text : List Char) : Prop :=
  OverlongRune text ∨ ∃ lo, readBracketRune opening text = .ok lo ∧
    rangeGoesOn lo.2 = true ∧ OverlongRune lo.2.tail

/-- The item at the start of a text is a range with such an escape. -/
def OverlongItem (flags : Flags) (opening text : List Char) : Prop :=
  (readNamedGroup? text).or (readGroupEscape? flags text) = none ∧ OverlongRange opening text

/-- There is an item to be read: the bracket does not end, and no stray hyphen is in the way. -/
def ItemFollows (flags : Flags) (first : Bool) (text : List Char) : Prop :=
  ¬(!first && text.head? == some ']') = true ∧ ¬(!first && strayHyphen flags text) = true

/-- Reading the items of a bracket comes to one with such an escape. -/
inductive OverlongItems (flags : Flags) (opening : List Char) :
    (first : Bool) → (text : List Char) → Prop where
  | here {first : Bool} {text : List Char} (hnext : ItemFollows flags first text)
      (h : OverlongItem flags opening text) : OverlongItems flags opening first text
  | later {first : Bool} {text : List Char} {found : BracketItem × List Char}
      (hnext : ItemFollows flags first text) (hitem : readItem flags opening text = .ok found)
      (h : OverlongItems flags opening false found.2) : OverlongItems flags opening first text

/-- Reading a bracket comes to such an escape.  The text begins after the opening bracket. -/
def OverlongBracket (flags : Flags) (text : List Char) : Prop :=
  OverlongItems flags ('[' :: text) true (splitCaret text).2

/-- The token at the start of a text is such an escape, or a bracket that comes to one. -/
inductive OverlongToken (flags : Flags) : List Char → Prop where
  | rune {text : List Char} (h : OverlongRune text) : OverlongToken flags text
  | bracket {text : List Char} (h : OverlongBracket flags text) : OverlongToken flags ('[' :: text)

/-- Reading the rest of a pattern comes to such a token. -/
inductive OverlongRun (setting : Setting) : State → List Char → Prop where
  | here {s : State} {text : List Char} (h : OverlongToken s.flags text) : OverlongRun setting s text
  | later {s next : State} {c : Char} {tail rest : List Char} {token : Token}
      (hread : readToken s.flags c tail = .ok (token, rest))
      (happly : s.apply setting (c :: tail) rest token = .ok next)
      (h : OverlongRun setting next rest) : OverlongRun setting s (c :: tail)

/-- Reading a pattern comes to an escape that has too many digits. -/
def OverlongPattern (pattern : String) (flags : Flags) (nestLimit : Nat) : Prop :=
  flags.literal = false ∧
    OverlongRun ⟨.normal, nestLimit, pattern.toList⟩ { flags } pattern.toList

end RegexTree.Machine
