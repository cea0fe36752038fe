/-
  The steps of the machine.

  A step reads one token at the cursor and does at once what the token says: it pushes a piece,
  opens or closes a group, ends a branch, puts the top of the stack under an operator or sets flags.
  It gives the parser and the cursor after it, and where a repetition begins if it was one, since a
  second sign after that is an error that shows both.

  `run` takes steps until the text is used up, and `Machine.parsePattern` makes the tree of what is
  on the stack then.  The number of steps is bounded by the length of the text, and coming to that
  bound would be as bad as any other operation without a value.
-/
import RegexTree.Machine.Stack

namespace RegexTree.Machine

namespace Parser

/-! ## Groups with flags or a name -/

/-- The letters after `(?` up to a colon or a parenthesis; the group begins at `start`. -/
def switches (p : Parser) (start : Nat) :
    (steps : Nat) → (flags : Flags) → (off seen : Bool) → (c : Cursor) → Guarded (Parser × Cursor)
  | 0, _, _, _, _ => .error .stuck
  | steps + 1, flags, off, seen, c =>
    if c.more then do
      let (ch, c) ← pop c
      match flags.switched? (!off) ch with
      | some flags => p.switches start steps flags off true c
      | none =>
        if ch = '-' then
          if off then failSince .invalidPerlOp c start
          else p.switches start steps flags true false c
        else if ch = ':' ∨ ch = ')' then
          if off && !seen then failSince .invalidPerlOp c start
          else
            let p ← (if ch = ':' then p.openGroup false none c else return p)
            return ({ p with flags }, c)
        else failSince .invalidPerlOp c start
    else failSince .invalidPerlOp c start

/-- A named group, whose name begins after `skipped` bytes. -/
def namedCapture (p : Parser) (skipped : Nat) (c : Cursor) : Guarded (Parser × Cursor) :=
  match find? ['>'] c.rest with
  | none => fail .invalidNamedCapture c.rest
  | some i => do
    let shown ← upTo (i + 1) c.rest
    let name ← beyond skipped (← upTo i c.rest)
    if !isCaptureName name || p.names.any (·.1 == String.ofList name) then
      fail .invalidNamedCapture shown
    else
      let c ← skipText c shown
      return (← p.openGroup true (some (String.ofList name)) c, c)

/-- A group that begins with `(?`. -/
def specialGroup (p : Parser) (c : Cursor) : Guarded (Parser × Cursor) :=
  let bytes := Cursor.byteCount c.rest
  if 4 < bytes ∧ c.lookingAt ['(', '?', 'P', '<'] then p.namedCapture 4 c
  else if 3 < bytes ∧ c.lookingAt ['(', '?', '<'] then p.namedCapture 3 c
  else do
    let start := c.pos
    let c ← skipAscii c 2
    p.switches start (c.rest.length + 1) p.flags false false c

/-! ## Escapes -/

/-- Pushes the characters before the position `stop` as literals. -/
def literals (stop : Nat) : (steps : Nat) → Parser → (c : Cursor) → Guarded (Parser × Cursor)
  | 0, _, _ => .error .stuck
  | steps + 1, p, c =>
    if c.pos < stop then do
      let (ch, c) ← pop c
      literals stop steps (← p.literal ch.toNat) c
    else return (p, c)

/-- The text quoted by `\Q`, up to `\E` or the end. -/
def quoted (p : Parser) (c : Cursor) : Guarded (Parser × Cursor) := do
  let stop := (find? ['\\', 'E'] c.rest).map (c.pos + ·)
  let (p, c) ← literals (stop.getD (Cursor.byteCount c.text)) (c.rest.length + 1) p c
  return (p, ← (if stop.isSome then skipText c ['\\', 'E'] else return c))

/-- The escapes of Perl syntax that are not escapes within brackets. -/
def perlEscape? (p : Parser) (c : Cursor) : Guarded (Option (Parser × Cursor)) := do
  match (← beyond 1 c.rest).head? with
  | none => return none
  | some ch =>
    if ch = 'C' then fail .invalidEscape (← upTo 2 c.rest)
    else if ch = 'Q' then return some (← p.quoted (← skipAscii c 2))
    else
      match assertion? ch with
      | none => return none
      | some op => do
        let c ← skipAscii c 2
        return some (← p.pushOp op id, c)

/-- An escape that is one within brackets, too: a group, a property or a rune. -/
def plainEscape (p : Parser) (c : Cursor) : Guarded (Parser × Cursor) := do
  match ← groupEscape? p.flags c with
  | some (group, c) => return (← p.pushClass (← appendGroup p.flags [] group), c)
  | none =>
    let (r, c) ← escape c
    return (← p.literal r, c)

/-- A backslash outside of brackets. -/
def backslash (p : Parser) (c : Cursor) : Guarded (Parser × Cursor) := do
  match ← (if p.flags.perlX then p.perlEscape? c else return none) with
  | some done => return done
  | none => p.plainEscape c

/-! ## One token -/

/-- A token that is no repetition sign and no brace. -/
def piece (p : Parser) (c : Cursor) (ch : Char) : Guarded (Parser × Cursor) :=
  if ch = '(' then
    if p.flags.perlX && c.lookingAt ['(', '?'] then p.specialGroup c
    else do
      let c ← skipAscii c 1
      return (← p.openGroup true none c, c)
  else if ch = '|' then do
    let c ← skipAscii c 1
    return (← p.verticalBar, c)
  else if ch = ')' then do
    let c ← skipAscii c 1
    return (← p.rightParen c, c)
  else if ch = '^' then do
    let c ← skipAscii c 1
    return (← p.pushOp (if p.flags.oneLine then .beginText else .beginLine) id, c)
  else if ch = '$' then do
    let c ← skipAscii c 1
    if p.flags.oneLine then
      return (← p.pushOp .endText fun l => { l with flags := { l.flags with wasDollar := true } }, c)
    else return (← p.pushOp .endLine id, c)
  else if ch = '.' then do
    let c ← skipAscii c 1
    return (← p.pushOp (if p.flags.dotNL then .anyChar else .anyCharNotNL) id, c)
  else if ch = '[' then do
    let (runes, c) ← readClass p.flags c
    return (← p.pushClass runes, c)
  else if ch = '\\' then p.backslash c
  else do
    let (ch, c) ← pop c
    return (← p.literal ch.toNat, c)

/-- A brace: a count if it is one, otherwise itself. -/
def brace (p : Parser) (c : Cursor) (last : Option Nat) :
    Guarded (Parser × Cursor × Option Nat) := do
  let before := c.pos
  match ← count? c with
  | none =>
    let c ← skipAscii (← rewind c before) 1
    return (← p.literal '{'.toNat, c, none)
  | some (min, max, c) =>
    if min < 0 ∨ maxRepeat < min ∨ maxRepeat < max ∨ (0 ≤ max ∧ max < min) then
      failSince .invalidRepeatSize c before
    else
      let (p, c) ← p.quantify c .counted min max before last
      return (p, c, some before)

/-- One token at the cursor.  `last` is where the token before it begins, if that was a repetition;
    so is what is given back. -/
def step (p : Parser) (c : Cursor) (last : Option Nat) :
    Guarded (Parser × Cursor × Option Nat) := do
  let ch ← peek c
  match sign? ch with
  | some op => do
    let (p, after) ← p.quantify (← skipAscii c 1) op 0 0 c.pos last
    return (p, after, some c.pos)
  | none =>
    if ch = '{' then p.brace c last
    else do
      let (p, c) ← p.piece c ch
      return (p, c, none)

/-- Steps up to the end of the text. -/
def run : (steps : Nat) → Parser → (c : Cursor) → (last : Option Nat) → Guarded Parser
  | 0, _, _, _ => .error .stuck
  | steps + 1, p, c, last =>
    if c.more then do
      let (p, c, last) ← p.step c last
      run steps p c last
    else return p

end Parser

/-- Reads a pattern under flags and a limit on nesting, which is a number of 32 bits. -/
def parsePattern (pattern : String) (flags : Flags) (nestLimit : UInt32) : Guarded Pattern :=
  let text := pattern.toList
  if flags.literal then .ok ⟨.literal (runesOf text) flags, 0, []⟩
  else do
    let p ← Parser.run (text.length + 1) { flags, nestLimit := nestLimit.toNat } (.ofText text) none
    let p ← p.finish
    match p.stack with
    | [root] => return ⟨root, p.captures, p.names⟩
    | _ => fail .missingParen text

end RegexTree.Machine
