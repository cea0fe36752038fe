/-
  Reading at a cursor.

  Each reader takes the cursor where it begins and gives the cursor after what it took.  A reader
  that may find that it does not apply gives nothing, and leaves it to the caller to take the cursor
  back.

  What is read are runes (escapes, with octal or hexadecimal digits), counts and groups of
  characters.  Numbers are added up in 32 bits: a code point without a sign and never more than one
  digit beyond the largest rune, a count with a sign and up to a bound from which on it is just too
  large.  The digits in braces are counted as well, and that count has no bound but its 32 bits
  (`bracedHex`).

  A name is found by looking for what ends it in the rest of the text, and is cut out by its
  position.
-/
import RegexTree.Flags
import RegexTree.Machine.Buffer
import RegexTree.Syntax.Count
import RegexTree.Syntax.Escape
import RegexTree.Unicode.Property

namespace RegexTree.Machine

open Numeral (isDecimal isOctal hexDigit?)

/-! ## Escapes -/

/-- There is an octal digit at the cursor. -/
def atOctalDigit (c : Cursor) : Guarded Bool :=
  if c.more then do return isOctal (← peek c) else return false

/-- The number `r` with up to `n` more octal digits. -/
def octal : (n r : Nat) → (c : Cursor) → Guarded (Nat × Cursor)
  | 0, r, c => return (r, c)
  | n + 1, r, c => do
    if ← atOctalDigit c then
      let (d, c) ← pop c
      octal n (← lessen (← word ((← word (r * 8)) + d.toNat)) '0'.toNat) c
    else return (r, c)

/-- The number `r`, of which `digits` hexadecimal digits were read, with those up to a closing
    brace.  All that is asked of the digits is whether there are any, but they are counted. -/
def bracedHex :
    (steps : Nat) → (r : Nat) → (digits : Int) → (c : Cursor) → Guarded (Option Nat × Cursor)
  | 0, _, _, _ => .error .stuck
  | steps + 1, r, digits, c =>
    if c.more then do
      let (ch, c) ← pop c
      if ch = '}' then return (if digits = 0 then none else some r, c)
      else
        match hexDigit? ch with
        | none => return (none, c)
        | some d =>
          let r ← word ((← word (r * 16)) + d)
          if maxRune < r then return (none, c)
          else bracedHex steps r (← signed (digits + 1)) c
    else return (none, c)

/-- The rune of the hexadecimal digits after `\x`: two of them, or any number in braces. -/
def hexEscape (c : Cursor) : Guarded (Option Nat × Cursor) :=
  if c.more then do
    let (ch, c) ← pop c
    if ch = '{' then bracedHex (c.rest.length + 1) 0 0 c
    else if c.more then
      let (ch', c) ← pop c
      match hexDigit? ch, hexDigit? ch' with
      | some x, some y => return (some (← word ((← word (x * 16)) + y)), c)
      | _, _ => return (none, c)
    else return (none, c)
  else return (none, c)

/-- The rune of an escape, of which `ch` is the character after the backslash. -/
def escapeRune (ch : Char) (c : Cursor) : Guarded (Option Nat × Cursor) := do
  let lone ← (if '1' ≤ ch ∧ ch ≤ '7' then do return !(← atOctalDigit c) else return false)
  if lone then return (none, c)
  else if isOctal ch then
    let (r, c) ← octal 2 (← lessen ch.toNat '0'.toNat) c
    return (some r, c)
  else if ch = 'x' then hexEscape c
  else
    match namedControl? ch with
    | some r => return (some r, c)
    | none => return (if isPunctuation ch then some ch.toNat else none, c)

/-- The rune of an escape; the cursor is on the backslash. -/
def escape (c : Cursor) : Guarded (Nat × Cursor) := do
  let start := c.pos
  let c ← skipAscii c 1
  if c.more then
    let (ch, c) ← pop c
    let (r, c) ← escapeRune ch c
    match r with
    | some r => return (r, c)
    | none => failSince .invalidEscape c start
  else fail .trailingBackslash []

/-! ## Counts -/

/-- The number `n` with more decimal digits, or -1 if that is too large. -/
def accumulate (n : Int) : (digits : List Char) → Guarded Int
  | [] => return n
  | d :: digits =>
    if 100000000 ≤ n then return -1
    else do accumulate (← signed ((← signed (n * 10)) + (← lessen d.toNat '0'.toNat))) digits

/-- The numeral at the cursor, without superfluous zeros in front; -1 if it is too large. -/
def numeral? (c : Cursor) : Guarded (Option (Int × Cursor)) :=
  let length := (c.rest.takeWhile isDecimal).length
  if length = 0 ∨ (2 ≤ length ∧ c.lookingAt ['0']) then return none
  else do
    let digits ← upTo length c.rest
    let c ← skipAscii c length
    return some (← accumulate 0 digits, c)

/-- The end of a count. -/
def closeCount? (min max : Int) (c : Cursor) : Guarded (Option (Int × Int × Cursor)) :=
  if c.lookingAt ['}'] then do return some (min, max, ← skipAscii c 1) else return none

/-- A count: `{n}`, `{n,}` or `{n,m}`.  The lower bound is -1 if a number is too large, the upper one
    if there is none. -/
def count? (c : Cursor) : Guarded (Option (Int × Int × Cursor)) :=
  if c.lookingAt ['{'] then do
    let c ← skipAscii c 1
    match ← numeral? c with
    | none => return none
    | some (min, c) =>
      if c.lookingAt [','] then
        let c ← skipAscii c 1
        if c.lookingAt ['}'] then closeCount? min (-1) c
        else
          match ← numeral? c with
          | none => return none
          | some (max, c) => closeCount? (if max < 0 then -1 else min) max c
      else closeCount? min min c
  else return none

/-! ## Groups and properties -/

/-- A name without the caret in front, and whether there is one. -/
def stripCaret (name : List Char) : Bool × List Char :=
  if name.head? = some '^' then (true, name.tail) else (false, name)

/-- The runes of a group and whether the others are meant, by the name as it stands in the text,
    `[:name:]` or `[:^name:]`. -/
def posixGroup? (name : List Char) : Option (Bool × Ranges) :=
  let inner := (name.drop 2).take (name.length - 4)
  (Unicode.posixGroup? (String.ofList (stripCaret inner).2)).map ((stripCaret inner).1, ·)

/-- The group `[:name:]` at the cursor, if there is a `:]` to close it. -/
def namedGroup? (c : Cursor) : Guarded (Option ((Bool × Ranges) × Cursor)) := do
  match find? [':', ']'] (← beyond 2 c.rest) with
  | none => return none
  | some i =>
    let name ← upTo (i + 4) c.rest
    match posixGroup? name with
    | none => fail .invalidCharRange name
    | some group => return some (group, ← skipText c name)

/-- The name of a property at the cursor: one character, a text in braces, or nothing at the end.
    `start` is where the escape begins. -/
def propertyName (c : Cursor) (start : Nat) : Guarded (List Char × Cursor) :=
  if c.lookingAt ['{'] then
    match find? ['}'] c.rest with
    | none => do fail .invalidCharRange (← beyond start c.text)
    | some i => do
      let braced ← upTo (i + 1) c.rest
      let name ← beyond 1 (← upTo i c.rest)
      return (name, ← skipText c braced)
  else if c.more then do
    let start := c.pos
    let (_, c) ← pop c
    return (← since c start, c)
  else return ([], c)

/-- The property `\p` or `\P` at the cursor, if there is one and the flags allow it. -/
def property? (flags : Flags) (c : Cursor) : Guarded (Option ((Bool × Ranges) × Cursor)) :=
  if flags.unicodeGroups && (c.lookingAt ['\\', 'p'] || c.lookingAt ['\\', 'P']) then do
    let start := c.pos
    let capital := c.lookingAt ['\\', 'P']
    let c ← skipAscii c 2
    let (name, c) ← propertyName c start
    let shown ← since c start
    match Unicode.property? (String.ofList (stripCaret name).2) with
    | none => fail .invalidCharRange shown
    | some table => return some ((capital != (stripCaret name).1, table), c)
  else return none

/-- The group that an escape stands for, by the whole of the escape. -/
def perlGroupOf? (escape : List Char) : Option (Bool × Ranges) :=
  if escape.length = 2 then escape.getLast?.bind Unicode.perlGroup? else none

/-- The group `\d`, `\s`, `\w` or a negated one at the cursor, if there is one and the flags allow
    it. -/
def perlGroup? (flags : Flags) (c : Cursor) : Guarded (Option ((Bool × Ranges) × Cursor)) :=
  if flags.perlX && c.lookingAt ['\\'] then
    match (Cursor.splitBytes? 2 c.rest).bind fun split => perlGroupOf? split.1 with
    | none => return none
    | some group => do return some (group, ← skipAscii c 2)
  else return none

/-- The group or property that an escape at the cursor stands for, if there is one. -/
def groupEscape? (flags : Flags) (c : Cursor) : Guarded (Option ((Bool × Ranges) × Cursor)) := do
  match ← property? flags c with
  | some found => return some found
  | none => perlGroup? flags c

end RegexTree.Machine
