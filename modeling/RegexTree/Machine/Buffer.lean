/-
  Classes in a buffer.

  The ends of the ranges of a class stand in one flat list, those of the newest range last.  While a
  class is read its ranges may overlap and come in any order: appending a range only tries to widen
  one of the last two.  `cleanClass` sorts and merges them, in one pass that writes to the list that
  it reads, and `negateClass` overwrites the list with its gaps in the same way.

  What is written to is always a place of the list, and the ends are numbers of 32 bits, to which
  one is added or from which it is taken on the way.  All of that is checked (`replace`, `word`,
  `lessen`), so that a buffer that is not in order makes the machine stuck and gives no wrong class.
-/
import RegexTree.Machine.Fault
import RegexTree.Tree.Basic
import RegexTree.Unicode.Fold

namespace RegexTree.Machine

open Unicode (simpleFold firstFold lastFold walkBound)

/-! ## Adding ranges -/

/-- The buffer with the pair `i` entries before its end widened to hold `[lo, hi]`, if there is such
    a pair and it overlaps or abuts the new one. -/
def widen (buffer : List Nat) (lo hi i : Nat) : Guarded (Option (List Nat)) :=
  if buffer.length < i then .ok none
  else do
    let k ← lessen buffer.length i
    let rlo ← must buffer[k]?
    let rhi ← must buffer[k + 1]?
    if lo ≤ (← word (rhi + 1)) then
      if rlo ≤ (← word (hi + 1)) then
        let buffer ← (if lo < rlo then replace buffer k lo else .ok buffer)
        let buffer ← (if rhi < hi then replace buffer (k + 1) hi else .ok buffer)
        return some buffer
      else return none
    else return none

/-- The buffer with `[lo, hi]`: one of the last two pairs is widened if that touches it. -/
def appendRange (buffer : List Nat) (lo hi : Nat) : Guarded (List Nat) := do
  match ← widen buffer lo hi 2 with
  | some widened => return widened
  | none =>
    match ← widen buffer lo hi 4 with
    | some widened => return widened
    | none => return buffer ++ [lo, hi]

/-- The buffer with every range of a class. -/
def appendClass (buffer table : List Nat) : Guarded (List Nat) :=
  (Ranges.ofRunes table).foldlM (fun buffer r => appendRange buffer r.lo r.hi) buffer

/-- The buffer with the members of an orbit, from `f` on until the walk is back at `c`. -/
def appendOrbit (c : Nat) : (steps f : Nat) → (buffer : List Nat) → Guarded (List Nat)
  | 0, _, _ => .error .stuck
  | steps + 1, f, buffer =>
    if f = c then .ok buffer
    else do appendOrbit c steps (simpleFold f) (← appendRange buffer f f)

/-- The buffer with a rune and all that folds to it. -/
def appendFolds (buffer : List Nat) (c : Nat) : Guarded (List Nat) := do
  appendOrbit c walkBound (simpleFold c) (← appendRange buffer c c)

/-- The buffer with `[lo, hi]` and all that folds to a member of it.  Only the part between the
    smallest and the largest rune that share an orbit is gone through one by one. -/
def appendFoldedRange (buffer : List Nat) (lo hi : Nat) : Guarded (List Nat) :=
  if (lo ≤ firstFold ∧ lastFold ≤ hi) ∨ hi < firstFold ∨ lastFold < lo then
    appendRange buffer lo hi
  else do
    let buffer ← (if lo < firstFold then appendRange buffer lo (firstFold - 1) else .ok buffer)
    let buffer ← (if lastFold < hi then appendRange buffer (lastFold + 1) hi else .ok buffer)
    let lo := max lo firstFold
    let hi := min hi lastFold
    (List.range' lo (hi + 1 - lo)).foldlM appendFolds buffer

/-- The buffer with every range of a class and all that folds into it. -/
def appendFoldedClass (buffer table : List Nat) : Guarded (List Nat) :=
  (Ranges.ofRunes table).foldlM (fun buffer r => appendFoldedRange buffer r.lo r.hi) buffer

/-! ## Clean classes -/

/-- The order in which the ranges of a class are merged: by where they begin, the longer first. -/
def comesFirst (a b : Range) : Bool := a.lo < b.lo || (a.lo == b.lo && b.hi ≤ a.hi)

/-- The merged ranges with one more, which begins no earlier than they do. -/
def merge (buffer : List Nat) (r : Range) : Guarded (List Nat) :=
  match buffer.getLast? with
  | none => .ok [r.lo, r.hi]
  | some last => do
    if r.lo ≤ (← word (last + 1)) then
      return if last < r.hi then buffer.dropLast ++ [r.hi] else buffer
    else return buffer ++ [r.lo, r.hi]

/-- The class sorted, without ranges that overlap or abut. -/
def cleanClass (buffer : List Nat) : Guarded (List Nat) :=
  ((Ranges.ofRunes buffer).mergeSort comesFirst).foldlM merge []

/-! ## Complements -/

/-- The buffer with the gap before a range of a clean class, if there is one.  `next` is the first rune
    after the ranges before that. -/
def appendGap (state : List Nat × Nat) (r : Range) : Guarded (List Nat × Nat) := do
  let buffer ← (
    if state.2 < r.lo then do appendRange state.1 state.2 (← lessen r.lo 1) else .ok state.1)
  return (buffer, ← word (r.hi + 1))

/-- The buffer with the runes that a clean class leaves out. -/
def appendNegatedClass (buffer table : List Nat) : Guarded (List Nat) := do
  let (buffer, next) ← (Ranges.ofRunes table).foldlM appendGap (buffer, 0)
  if next ≤ maxRune then appendRange buffer next maxRune else return buffer

/-- A clean class that is being replaced by its complement: the gaps before the pair under way are
    in the first `written` entries. -/
structure Negation where
  buffer : List Nat
  written : Nat := 0
  /-- The first rune after the pairs that were read. -/
  next : Nat := 0

/-- Reads the pair at `i`, and writes the gap before it. -/
def Negation.pass (n : Negation) (i : Nat) : Guarded Negation := do
  let lo ← must n.buffer[i]?
  let hi ← must n.buffer[i + 1]?
  if n.next < lo then
    let buffer ← replace n.buffer n.written n.next
    let buffer ← replace buffer (n.written + 1) (← lessen lo 1)
    return ⟨buffer, n.written + 2, ← word (hi + 1)⟩
  else return { n with next := ← word (hi + 1) }

/-- The complement of a clean class, in its place. -/
def negateClass (buffer : List Nat) : Guarded (List Nat) := do
  let n ← ((List.range ((buffer.length + 1) / 2)).map (2 * ·)).foldlM Negation.pass { buffer }
  let kept := n.buffer.take n.written
  return if n.next ≤ maxRune then kept ++ [n.next, maxRune] else kept

/-- The buffer with a class or, if that is negated, with its complement. -/
def appendMaybeNegated (buffer table : List Nat) (negated : Bool) : Guarded (List Nat) :=
  if negated then appendNegatedClass buffer table else appendClass buffer table

/-! ## Finished branches -/

/-- A class that is a whole branch is cleaned; if it leaves out nothing, or only the newline, it is
    a dot. -/
def cleanAlt (t : Tree) : Guarded Tree :=
  if t.op ≠ .charClass then .ok t
  else do
    let runes ← cleanClass t.runes
    return t.relabel fun l =>
      if runes = [0, maxRune] then { l with op := .anyChar, runes := [] }
      else if runes = [0, newline - 1, newline + 1, maxRune] then
        { l with op := .anyCharNotNL, runes := [] }
      else { l with runes }

end RegexTree.Machine
