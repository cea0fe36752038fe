/-
  What a tree matches: an ordered list of results.

  A `Spot` is a place in a text together with what the captures took on the way there.  A
  `Matcher` takes a spot to the spots where a match that begins there can end, the preferred one
  first; a spot may come up more than once.  `Tree.results` gives the matcher of a tree:

  * a choice tries its branches from left to right, a sequence matches its pieces one after the
    other;
  * a repetition that prefers more iterations offers those with more of them first, a lazy one
    those with fewer;
  * an iteration of an unbounded repetition that is not required must take at least one
    character, which is also what makes `star` terminate;
  * `x{n,m}` is n copies of x and then up to m - n more, `x{n,}` is n copies of x and then `x*`;
  * the rune of a literal that folds matches its whole fold orbit.

  What an operation does not read does not matter: other fields of the label, and children beyond
  the first where there is one operand.
-/
import RegexTree.Cursor
import RegexTree.Tree.Basic
import RegexTree.Unicode.Fold
import RegexTree.Unicode.Property

namespace RegexTree

/-- A place in a text, and what the captures took on the way there. -/
structure Spot where
  cursor : Cursor
  /-- What each capture took last, by its number: where that begins and where it ends.  Captures
      without an entry took nothing. -/
  spans : List (Option (Nat × Nat)) := []
  deriving DecidableEq, Repr

namespace Spot

/-- How many characters are left. -/
def left (s : Spot) : Nat := s.cursor.rest.length

/-- The spans with that of one capture set. -/
def record : List (Option (Nat × Nat)) → (cap : Nat) → Nat × Nat → List (Option (Nat × Nat))
  | [], 0, span => [some span]
  | [], cap + 1, span => none :: record [] cap span
  | _ :: rest, 0, span => some span :: rest
  | first :: rest, cap + 1, span => first :: record rest cap span

end Spot

/-- The spots where a match that begins at a spot can end, the preferred one first. -/
abbrev Matcher := Spot → List Spot

namespace Matcher

/-- The match of nothing at all. -/
def fail : Matcher := fun _ => []

/-- The match of the empty text. -/
def stay : Matcher := fun s => [s]

/-- The match of one character with a rune that is accepted. -/
def oneRune (accepts : Nat → Bool) : Matcher := fun s =>
  match s.cursor.peek? with
  | some c => if accepts c.toNat then [{ s with cursor := s.cursor.advance 1 }] else []
  | none => []

/-- The match of the empty text where the place is right. -/
def place (holds : Cursor → Bool) : Matcher := fun s => if holds s.cursor then [s] else []

/-- One match and then another. -/
def both (m n : Matcher) : Matcher := fun s => (m s).flatMap n

/-- Matches one after the other. -/
def inOrder : List Matcher → Matcher
  | [] => stay
  | m :: rest => both m (inOrder rest)

/-- The matches of one after the matches of another. -/
def firstOf (ms : List Matcher) : Matcher := fun s => ms.flatMap (· s)

/-- Going on or staying, in the order of preference. -/
def prefer (lazy : Bool) (more : List Spot) (s : Spot) : List Spot :=
  if lazy then s :: more else more ++ [s]

/-- Any number of matches, each of which takes at least one character. -/
def star (lazy : Bool) (m : Matcher) (s : Spot) : List Spot :=
  prefer lazy (((m s).filter fun t => t.left < s.left).attach.flatMap fun t => star lazy m t.1) s
termination_by s.left
decreasing_by
  have h := (List.mem_filter.mp t.2).2
  simpa using h

/-- Up to `n` matches. -/
def atMost (lazy : Bool) (m : Matcher) : (n : Nat) → Matcher
  | 0 => stay
  | n + 1 => fun s => prefer lazy ((m s).flatMap (atMost lazy m n)) s

/-- Exactly `n` matches. -/
def exactly (m : Matcher) : (n : Nat) → Matcher
  | 0 => stay
  | n + 1 => both m (exactly m n)

/-- At least one match. -/
def plus (lazy : Bool) (m : Matcher) : Matcher := both m (star lazy m)

/-- From `min` to `max` matches; an upper bound below the lower one sets no bound. -/
def counted (min max : Int) (lazy : Bool) (m : Matcher) : Matcher :=
  both (exactly m min.toNat)
    (if max < min then star lazy m else atMost lazy m (max - min).toNat)

/-- A match that is remembered as what a capture took. -/
def captured (cap : Nat) (m : Matcher) : Matcher := fun s =>
  (m s).map fun t => { t with spans := Spot.record t.spans cap (s.cursor.pos, t.cursor.pos) }

end Matcher

/-! ## Places -/

namespace Cursor

/-- The place is the start of the text, or comes after a newline. -/
def isLineStart (c : Cursor) : Bool := c.before.getLast?.all (·.toNat == newline)

/-- The place is the end of the text, or comes before a newline. -/
def isLineEnd (c : Cursor) : Bool := c.rest.head?.all (·.toNat == newline)

/-- Of the characters before and after the place just one belongs to a word. -/
def isWordBoundary (c : Cursor) : Bool :=
  c.before.getLast?.any (Unicode.wordRunes.has ·.toNat)
    != c.rest.head?.any (Unicode.wordRunes.has ·.toNat)

end Cursor

/-! ## Trees -/

/-- The rune of a literal stands for `c`. -/
def readsAs (fold : Bool) (r c : Nat) : Bool := c == r || (fold && (Unicode.orbit r).contains c)

open Matcher in
/-- The matcher of a node, given those of its children. -/
def Label.results (l : Label) (ms : List Matcher) : Matcher :=
  match l.op with
  | .noMatch | .leftParen | .verticalBar => fail
  | .emptyMatch => stay
  | .literal => inOrder (l.runes.map fun r => oneRune (readsAs l.flags.foldCase r))
  | .charClass => oneRune (Ranges.ofRunes l.runes).has
  | .anyCharNotNL => oneRune (· != newline)
  | .anyChar => oneRune fun _ => true
  | .beginLine => place Cursor.isLineStart
  | .endLine => place Cursor.isLineEnd
  | .beginText => place (·.before.isEmpty)
  | .endText => place (·.rest.isEmpty)
  | .wordBoundary => place Cursor.isWordBoundary
  | .noWordBoundary => place fun c => !c.isWordBoundary
  | .capture => captured l.cap (ms.headD fail)
  | .star => star l.flags.nonGreedy (ms.headD fail)
  | .plus => plus l.flags.nonGreedy (ms.headD fail)
  | .quest => atMost l.flags.nonGreedy (ms.headD fail) 1
  | .counted => counted l.min l.max l.flags.nonGreedy (ms.headD fail)
  | .concat => inOrder ms
  | .alternate => firstOf ms

namespace Tree

/-- The matcher of a tree. -/
def results : Tree → Matcher := fold fun l _ ms => l.results ms

theorem results_node (l : Label) (subs : List Tree) :
    (node l subs).results = l.results (subs.map results) :=
  fold_node _ l subs

end Tree

end RegexTree
