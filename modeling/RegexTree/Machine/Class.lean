/-
  Reading classes.

  A class in brackets is read item by item into a buffer: a group with a name or a backslash, or a
  range of one or two runes.  Where letters stand for all of their case a range brings all that
  folds into it, and so does a group.  After the last item the buffer is cleaned, and negated if
  there was a caret; without the flag for it a negated class leaves the newline out, too.

  The first closing bracket after the opening one or after the caret is a rune of the class.  A
  hyphen that stands for itself is only taken at the ends of a class, unless the syntax is Perl's.

  The errors show the range or the class from its beginning, so the position of that is passed on.
-/
import RegexTree.Machine.Reader

namespace RegexTree.Machine

/-- The buffer with the runes of a group.  If letters stand for all of their case, the group is
    closed under that first; only then is it negated. -/
def appendGroup (flags : Flags) (buffer : List Nat) (group : Bool × Ranges) :
    Guarded (List Nat) :=
  if flags.foldCase then do
    let folded ← appendFoldedClass [] group.2.runes
    appendMaybeNegated buffer (← cleanClass folded) group.1
  else appendMaybeNegated buffer group.2.runes group.1

/-- One rune within brackets.  `start` is where the class begins. -/
def classRune (c : Cursor) (start : Nat) : Guarded (Nat × Cursor) :=
  if c.more then
    if c.lookingAt ['\\'] then escape c
    else do
      let (ch, c) ← pop c
      return (ch.toNat, c)
  else failSince .missingBracket c start

/-- The buffer with the rune or the range at the cursor. -/
def classRange (flags : Flags) (buffer : List Nat) (c : Cursor) (start : Nat) :
    Guarded (List Nat × Cursor) := do
  let rangeStart := c.pos
  let (lo, c) ← classRune c start
  let (hi, c) ← (
    if c.lookingAt ['-'] ∧ ¬c.lookingAt ['-', ']'] ∧ 2 ≤ Cursor.byteCount c.rest then do
      let c ← skipAscii c 1
      let (hi, c) ← classRune c start
      if hi < lo then failSince .invalidCharRange c rangeStart else return (hi, c)
    else return (lo, c))
  let buffer ←
    (if flags.foldCase then appendFoldedRange buffer lo hi else appendRange buffer lo hi)
  return (buffer, c)

/-- The group or property at the cursor that stands within brackets, if there is one. -/
def classGroup? (flags : Flags) (c : Cursor) : Guarded (Option ((Bool × Ranges) × Cursor)) := do
  let named ← (if c.lookingAt ['[', ':'] then namedGroup? c else return none)
  match named with
  | some found => return some found
  | none => groupEscape? flags c

/-- The buffer with the next item of a class. -/
def classItem (flags : Flags) (buffer : List Nat) (c : Cursor) (start : Nat) :
    Guarded (List Nat × Cursor) := do
  match ← classGroup? flags c with
  | some (group, c) => return (← appendGroup flags buffer group, c)
  | none => classRange flags buffer c start

/-- The buffer with the items up to the closing bracket, which stands at the cursor then.  In first
    position a bracket and a hyphen are items. -/
def classItems (flags : Flags) (start : Nat) :
    (steps : Nat) → (first : Bool) → (buffer : List Nat) → (c : Cursor) →
    Guarded (List Nat × Cursor)
  | 0, _, _, _ => .error .stuck
  | steps + 1, first, buffer, c =>
    if !first && c.lookingAt [']'] then return (buffer, c)
    else if !first && !flags.perlX && c.lookingAt ['-'] && !c.lookingAt ['-', ']'] then do
      let probe ← skipAscii c 1
      let probe ← (if probe.more then do return (← pop probe).2 else return probe)
      failSince .invalidCharRange probe c.pos
    else do
      let (buffer, c) ← classItem flags buffer c start
      classItems flags start steps false buffer c

/-- The runes of the class at the cursor. -/
def readClass (flags : Flags) (c : Cursor) : Guarded (List Nat × Cursor) := do
  let start := c.pos
  let c ← skipAscii c 1
  let negated := c.lookingAt ['^']
  let c ← (if negated then skipAscii c 1 else return c)
  let listed := if negated && !flags.classNL then [newline, newline] else []
  let (buffer, c) ← classItems flags start (c.rest.length + 1) true listed c
  let c ← skipAscii c 1
  let buffer ← cleanClass buffer
  let buffer ← (if negated then negateClass buffer else return buffer)
  return (buffer, c)

end RegexTree.Machine
