/-
  The stack of the parser.

  Pieces are pushed as they are read; a bar or an opening parenthesis leaves a marker.  At a bar, at
  a closing parenthesis and at the end, what stands above the nearest marker is collapsed.  Two
  literals at the top are joined when the next piece is pushed, and not before, so that a repetition
  takes the newest piece alone.

  The newest entry of the stack stands first.  Besides the stack the parser has the flags in force,
  the number and the names of the captures, and the number of groups that are open; a marker of a
  group keeps the flags from before it and the number and name of its capture.

  An operator takes its operand off the top, after three checks: that it does not stand on another
  operator where that is not allowed, that it is not stacked too deep, and that the copies do not
  become too many (`repeatIsValid`).
-/
import RegexTree.Machine.Collapse
import RegexTree.Machine.Class
import RegexTree.Pattern

namespace RegexTree.Machine

/-- What the parser remembers of the pattern. -/
structure Parser where
  /-- The flags in force. -/
  flags : Flags
  /-- How deep groups and repetitions may stand in one another. -/
  nestLimit : Nat
  stack : List Tree := []
  /-- The number of captures that were opened. -/
  captures : Nat := 0
  /-- The names of captures with their numbers. -/
  names : List (String × Nat) := []
  /-- The number of groups that are open. -/
  depth : Nat := 0

namespace Parser

/-! ## Pushing -/

/-- Joins the top two entries if both are literals that fold alike.  With a rune to come next the top
    entry stays, and holds just that; then nothing is left to push, and the answer is yes. -/
def maybeConcat (next : Option (Nat × Flags)) (stack : List Tree) : Guarded (Bool × List Tree) :=
  if stack.length < 2 then .ok (false, stack)
  else do
    let top ← must stack[0]?
    let below ← must stack[1]?
    if Tree.canJoin below top then
      let stack := Tree.joined below top :: stack.drop 2
      match next with
      | some (r, flags) =>
        return (true, top.relabel (fun l => { l with runes := [r], flags }) :: stack)
      | none => return (false, stack)
    else return (false, stack)

/-- The class holds just a rune and its only fold partner. -/
def isFoldLiteral : (runes : List Nat) → Guarded Bool
  | [a, a', b, b'] => .ok (a == a' && b == b' && Unicode.isFoldPair a b)
  | [a, b] => do return (← word (a + 1)) == b && Unicode.isFoldPair a b
  | _ => .ok false

/-- The rune and the flags of the literal that stands for a class, if one does. -/
def classLiteral? (flags : Flags) (t : Tree) : Guarded (Option (Nat × Flags)) :=
  if t.op = .charClass then do
    let single ← (
      if t.runes.length = 2 then do return (← must t.runes[0]?) == (← must t.runes[1]?)
      else return false)
    if single then return some (← must t.runes[0]?, { flags with foldCase := false })
    else if ← isFoldLiteral t.runes then
      return some (← must t.runes[0]?, { flags with foldCase := true })
    else return none
  else .ok none

/-- Pushes an entry.  Where a literal stands for a class, that is pushed, or joins the others. -/
def push (p : Parser) (t : Tree) : Guarded Parser := do
  match ← classLiteral? p.flags t with
  | some (r, flags) =>
    let (merged, stack) ← maybeConcat (some (r, flags)) p.stack
    if merged then return { p with stack }
    else
      let t := t.relabel fun l => { l with op := .literal, runes := l.runes.take 1, flags }
      return { p with stack := t :: stack }
  | none =>
    let (_, stack) ← maybeConcat none p.stack
    return { p with stack := t :: stack }

/-- Pushes the literal of one rune. -/
def literal (p : Parser) (r : Nat) : Guarded Parser := p.push (Parse.State.literalPiece p.flags r)

/-- Pushes a node without operands, and changes its label where it stands. -/
def pushOp (p : Parser) (op : Op) (f : Label → Label) : Guarded Parser := do
  let p ← p.push (.leaf op p.flags)
  let top ← must p.stack[0]?
  return { p with stack := ← replace p.stack 0 (top.relabel f) }

/-- Pushes a class. -/
def pushClass (p : Parser) (runes : List Nat) : Guarded Parser :=
  p.push (.node { op := .charClass, flags := p.flags, runes } [])

/-! ## Repetition -/

/-- The number `n` of open groups with the repetitions that stand on one another at the root, up to
    the limit. -/
def repeatChain (limit : Nat) : (steps n : Nat) → Tree → Guarded Nat
  | 0, _, _ => .error .stuck
  | steps + 1, n, t =>
    if t.op.isRepeat ∧ n < limit then do
      repeatChain limit steps (← word (n + 1)) (← must t.subs[0]?)
    else .ok n

/-- Every test holds of `n`; the first that does not is the last that is tried. -/
def allHold : List (Int → Guarded Bool) → (n : Int) → Guarded Bool
  | [], _ => .ok true
  | test :: tests, n => do if ← test n then allHold tests n else return false

/-- Counted repetitions inside one another come to no more than `n` copies. -/
def repeatIsValid : Tree → (n : Int) → Guarded Bool :=
  Tree.fold fun l _ tests n =>
    if l.op = .counted then
      if l.max = 0 then .ok true
      else
        let m := if l.max < 0 then l.min else l.max
        if n < m then .ok false
        else do allHold tests (← (if 0 < m then quotient n m else return n))
    else allHold tests n

/-- The question mark that may follow a sign in Perl syntax. -/
def turn (p : Parser) (c : Cursor) : Guarded (Bool × Cursor) :=
  if p.flags.perlX && c.lookingAt ['?'] then do return (true, ← skipAscii c 1)
  else return (false, c)

/-- Puts the top entry under a repetition.  The sign begins at `before` and ends at the cursor; the
    one just before it, if there is one, begins at `last`. -/
def overTop (p : Parser) (c : Cursor) (q : Quantifier) (before : Nat) (last : Option Nat) :
    Guarded Parser :=
  match if p.flags.perlX then last else none with
  | some last => failSince .invalidRepeatOp c last
  | none =>
    match p.stack with
    | [] => failSince .missingRepeatArgument c before
    | operand :: stack =>
      if operand.op.isMarker then failSince .missingRepeatArgument c before
      else do
        let height ← repeatChain p.nestLimit (p.nestLimit + 1) p.depth operand
        if p.nestLimit ≤ height then fail .nestingDepth c.text
        else
          let flags := { p.flags with nonGreedy := p.flags.nonGreedy != q.turned }
          let t := Tree.node { op := q.op, flags, min := q.min, max := q.max } [operand]
          let fits ← (
            if q.op = .counted ∧ (2 ≤ q.min ∨ 2 ≤ q.max) then repeatIsValid t maxRepeat
            else return true)
          if fits then return { p with stack := t :: stack }
          else failSince .invalidRepeatSize c before

/-- A repetition sign, which begins at `before` and ends at the cursor. -/
def quantify (p : Parser) (c : Cursor) (op : Op) (min max : Int) (before : Nat)
    (last : Option Nat) : Guarded (Parser × Cursor) := do
  let (turned, c) ← p.turn c
  return (← p.overTop c ⟨op, min, max, turned⟩ before last, c)

/-! ## Sequences and choices -/

/-- The entries above the nearest marker, oldest first, and the others. -/
def splitOff (stack : List Tree) : Guarded (List Tree × List Tree) := do
  let count := (stack.takeWhile fun t => !t.op.isMarker).length
  return ((← firstOf count stack).reverse, ← drain count stack)

/-- Everything above the nearest marker becomes one sequence. -/
def concat (p : Parser) : Guarded Parser := do
  let (_, stack) ← maybeConcat none p.stack
  let (subs, stack) ← splitOff stack
  let p := { p with stack }
  if subs.isEmpty then p.push .empty else p.push (← collapse .concat subs)

/-- Everything above the nearest marker becomes one choice.  All but the newest branch are cleaned
    already. -/
def alternate (p : Parser) : Guarded Parser := do
  let (subs, stack) ← splitOff p.stack
  let p := { p with stack }
  match subs.getLast? with
  | some last => do p.push (← collapse .alternate (subs.dropLast ++ [← cleanAlt last]))
  | none => p.push (.leaf .noMatch {})

/-- Swaps a branch with the bar below it, if there is one; the branch below the bar is cleaned. -/
def swapVerticalBar (p : Parser) : Guarded (Bool × Parser) :=
  if p.stack.length < 2 then .ok (false, p)
  else do
    let bar ← must p.stack[1]?
    if bar.op = .verticalBar then
      let stack ← (
        if 3 ≤ p.stack.length then do replace p.stack 2 (← cleanAlt (← must p.stack[2]?))
        else return p.stack)
      let top ← must stack[0]?
      let stack ← replace (← replace stack 0 bar) 1 top
      return (true, { p with stack })
    else return (false, p)

/-- The branches above the nearest marker become one choice, after the last of them is swapped with
    the bar below it and the bar is dropped. -/
def finish (p : Parser) : Guarded Parser := do
  let p ← p.concat
  let (swapped, p) ← p.swapVerticalBar
  (if swapped then { p with stack := p.stack.drop 1 } else p).alternate

/-- A bar: the branch before it ends. -/
def verticalBar (p : Parser) : Guarded Parser := do
  let p ← p.concat
  let (swapped, p) ← p.swapVerticalBar
  if swapped then return p else p.pushOp .verticalBar id

/-! ## Groups -/

/-- A closing parenthesis. -/
def rightParen (p : Parser) (c : Cursor) : Guarded Parser := do
  let p ← p.finish
  match p.stack with
  | body :: paren :: stack =>
    if paren.op = .leftParen then
      let p := { p with stack, depth := ← lessen p.depth 1, flags := paren.flags }
      if paren.label.cap = 0 then p.push body
      else p.push (.node { paren.label with op := .capture } (paren.subs ++ [body]))
    else fail .unexpectedParen c.text
  | _ => fail .unexpectedParen c.text

/-- An opening parenthesis.  A group that captures gets the next number, and may have a name. -/
def openGroup (p : Parser) (capture : Bool) (name : Option String) (c : Cursor) :
    Guarded Parser :=
  if p.nestLimit ≤ p.depth then fail .nestingDepth c.text
  else do
    let depth ← word (p.depth + 1)
    let captures := if capture then p.captures + 1 else p.captures
    let cap := if capture then captures else 0
    let names := p.names ++ name.toList.map fun name => (name, cap)
    { p with depth, captures, names }.pushOp .leftParen fun l => { l with cap, name }

end Parser

end RegexTree.Machine
