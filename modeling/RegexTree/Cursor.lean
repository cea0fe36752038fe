/-
  A cursor over a text, with positions in UTF-8 bytes.

  A cursor cuts its text in two, before and after it.  Positions count the bytes that the characters
  before the cursor take in UTF-8, so that a position is a number that can be remembered and gone
  back to (`moveTo?`), and the text between two of them be shown (`since?`).  A position inside of a
  character is none: cutting a text there has no value (`splitBytes?`).

  All operations that may fail give an option.  A cursor moves by characters (`pop?`), by a text
  that stands there (`skip?`), or by a number of bytes, which is the number of characters as long as
  these are ASCII (`skipAscii?`).

  The machine moves such a cursor over a pattern; the readers of texts do without one and pass on
  what is left.
-/

namespace RegexTree

/-- A text with a place in it. -/
structure Cursor where
  /-- The characters before the cursor, in their order. -/
  before : List Char
  /-- The characters after the cursor. -/
  rest : List Char
  deriving DecidableEq, Repr

namespace Cursor

/-- The number of bytes that characters take in UTF-8. -/
def byteCount (text : List Char) : Nat := text.foldr (fun c n => c.utf8Size + n) 0

/-- The text cut after `n` bytes, if that is between two of its characters or at an end. -/
def splitBytes? : (n : Nat) → List Char → Option (List Char × List Char)
  | 0, text => some ([], text)
  | _ + 1, [] => none
  | n + 1, c :: text =>
    if c.utf8Size ≤ n + 1 then
      (splitBytes? (n + 1 - c.utf8Size) text).map fun (before, after) => (c :: before, after)
    else none

/-- A cursor at the start of a text. -/
def ofText (text : List Char) : Cursor := ⟨[], text⟩

/-- The whole text. -/
def text (c : Cursor) : List Char := c.before ++ c.rest

/-- The position of the cursor. -/
def pos (c : Cursor) : Nat := byteCount c.before

/-- There is a character at the cursor. -/
def more (c : Cursor) : Bool := !c.rest.isEmpty

/-- The character at the cursor. -/
def peek? (c : Cursor) : Option Char := c.rest.head?

/-- The cursor `n` characters further on. -/
def advance (c : Cursor) (n : Nat) : Cursor := ⟨c.before ++ c.rest.take n, c.rest.drop n⟩

/-- The character at the cursor, and the cursor after it. -/
def pop? (c : Cursor) : Option (Char × Cursor) := c.peek?.map fun ch => (ch, c.advance 1)

/-- The text after the cursor begins with `s`. -/
def lookingAt (c : Cursor) (s : List Char) : Bool := s.isPrefixOf c.rest

/-- The cursor after `n` characters of ASCII, if they are there. -/
def skipAscii? (c : Cursor) (n : Nat) : Option Cursor :=
  if n ≤ c.rest.length ∧ (c.rest.take n).all (·.toNat < 128) then some (c.advance n) else none

/-- The cursor after `s`, if that is there. -/
def skip? (c : Cursor) (s : List Char) : Option Cursor :=
  if c.lookingAt s then some (c.advance s.length) else none

/-- The cursor at another position of its text. -/
def moveTo? (c : Cursor) (pos : Nat) : Option Cursor :=
  (splitBytes? pos c.text).map fun (before, rest) => ⟨before, rest⟩

/-- The text from a position to the cursor, if the position is at or before it. -/
def since? (c : Cursor) (start : Nat) : Option (List Char) :=
  (splitBytes? start c.before).map (·.2)

@[simp] theorem text_ofText (text : List Char) : (ofText text).text = text := rfl

end Cursor

end RegexTree
