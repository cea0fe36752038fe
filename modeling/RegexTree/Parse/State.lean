/-
  What is known of a pattern that is read up to some place.

  The branches and pieces of the innermost open group are in a `Level`, newest first; those around
  it are kept in the `OpenGroup`s, innermost first, each with the flags from before it and the
  number and name of its capture.  With them go the flags in force, how many captures there are and
  what they are called, and where the last token began if it was a repetition.

  A token is applied to the state by `apply`, which is where all errors arise that depend on what
  was read before: a name that is used twice, groups or repetitions that are nested too deep, a
  parenthesis that closes nothing, a repetition of nothing or of a repetition, and too many copies.
  `run` reads tokens and applies them until the text is used up.
-/
import RegexTree.Parse.Assembly
import RegexTree.Syntax.Token
import RegexTree.Tree.Repetition

namespace RegexTree.Parse

/-- The parts of one group, or of the whole pattern. -/
structure Level where
  /-- The branches that a bar ended. -/
  branches : List Tree := []
  /-- The pieces of the branch under way. -/
  pieces : List Tree := []

namespace Level

/-- One more piece. -/
def push (level : Level) (t : Tree) : Level := { level with pieces := t :: level.pieces }

/-- The branches with the one under way, in the order in which they were read. -/
def allBranches (a : Assembly) (level : Level) : List Tree :=
  (a.branch level.pieces.reverse :: level.branches).reverse

/-- The branch under way ends at a bar. -/
def bar (a : Assembly) (level : Level) : Level :=
  { branches := a.branch level.pieces.reverse :: level.branches }

/-- The tree of the whole level. -/
def finish (a : Assembly) (level : Level) : Tree := a.choice (level.allBranches a)

end Level

/-- A group that is open. -/
structure OpenGroup where
  /-- What was read before the group on its level. -/
  outer : Level
  /-- The flags in force before the group; they hold again after it. -/
  flags : Flags
  /-- The number and name of the capture, if the group captures. -/
  capture : Option (Nat × Option String)

/-- The piece that a group makes of what is in it. -/
def OpenGroup.piece (group : OpenGroup) (body : Tree) : Tree :=
  match group.capture with
  | none => body
  | some (cap, name) => .node { op := .capture, flags := group.flags, cap, name } [body]

/-- What is known of the pattern so far. -/
structure State where
  /-- The flags in force. -/
  flags : Flags
  level : Level := {}
  groups : List OpenGroup := []
  /-- The number of captures that were opened. -/
  captures : Nat := 0
  /-- The names of captures with their numbers, in the order of their numbers. -/
  names : List (String × Nat) := []
  /-- Where the last token begins, if it was a repetition. -/
  lastRepeat : Option (List Char) := none

/-- What stays the same while one pattern is read. -/
structure Setting where
  assembly : Assembly
  /-- How deep groups and repetitions may stand in one another. -/
  nestLimit : Nat
  pattern : List Char

namespace State

/-- An error that shows the whole pattern. -/
def wholeError (setting : Setting) (code : ErrorCode) : Error := .toEnd code setting.pattern

/-- The pieces of the branch under way, and one more. -/
def push (s : State) (t : Tree) : State := { s with level := s.level.push t }

/-- Opens a group.  The flags given hold inside. -/
def openGroup (setting : Setting) (s : State) (flags : Flags)
    (capture : Option (Nat × Option String)) : Except Error State :=
  if setting.nestLimit ≤ s.groups.length then .error (wholeError setting .nestingDepth)
  else .ok { s with
    flags
    level := {}
    groups := ⟨s.level, s.flags, capture⟩ :: s.groups }

/-- Opens a group that captures, under the next number.  Names may not be used twice. -/
def openCapture (setting : Setting) (s : State) (start rest : List Char) (name : Option String) :
    Except Error State :=
  if name.any fun name => s.names.any (·.1 == name) then
    .error (.between .invalidNamedCapture start rest)
  else
    openGroup setting
      { s with
        captures := s.captures + 1
        names := s.names ++ name.toList.map fun name => (name, s.captures + 1) }
      s.flags (some (s.captures + 1, name))

/-- Closes the innermost group; what is in it becomes a piece of the level around it. -/
def closeGroup (setting : Setting) (s : State) : Except Error State :=
  match s.groups with
  | [] => .error (wholeError setting .unexpectedParen)
  | group :: groups =>
    .ok { s with
      flags := group.flags
      level := group.outer.push (group.piece (s.level.finish setting.assembly))
      groups }

/-- Puts the last piece under a repetition.  `start` is where the sign begins, `rest` the text
    after it. -/
def quantify (setting : Setting) (s : State) (start rest : List Char) (q : Quantifier) :
    Except Error State :=
  match if s.flags.perlX then s.lastRepeat else none with
  | some last => .error (.between .invalidRepeatOp last rest)
  | none =>
    match s.level.pieces with
    | [] => .error (.between .missingRepeatArgument start rest)
    | operand :: pieces =>
      let t := Tree.node
        { op := q.op
          flags := { s.flags with nonGreedy := s.flags.nonGreedy != q.turned }
          min := q.min
          max := q.max } [operand]
      if setting.nestLimit ≤ s.groups.length + operand.repeatHeight then
        .error (wholeError setting .nestingDepth)
      else if q.op = .counted ∧ (2 ≤ q.min ∨ 2 ≤ q.max) ∧ t.fitsBudget maxRepeat = false then
        .error (.between .invalidRepeatSize start rest)
      else .ok { s with level := { s.level with pieces := t :: pieces } }

/-- A literal piece of one rune.  Where letters stand for all of their case, the smallest member of
    the orbit is taken for each. -/
def literalPiece (flags : Flags) (r : Nat) : Tree :=
  .literal [if flags.foldCase then Unicode.minFold r else r] flags

/-- What a token does to the state, but for `lastRepeat`. -/
def effect (setting : Setting) (s : State) (start rest : List Char) :
    Token → Except Error State
  | .capture name => s.openCapture setting start rest name
  | .group flags => s.openGroup setting flags none
  | .setFlags flags => .ok { s with flags }
  | .bar => .ok { s with level := s.level.bar setting.assembly }
  | .close => s.closeGroup setting
  | .simple piece => .ok (s.push piece)
  | .text runes => .ok (runes.foldl (fun s r => s.push (literalPiece s.flags r)) s)
  | .bracket b => .ok (s.push (setting.assembly.charClass s.flags (b.ranges s.flags)))
  | .repetition q => s.quantify setting start rest q

/-- The state after a token.  `start` is where the token begins, `rest` the text after it. -/
def apply (setting : Setting) (s : State) (start rest : List Char) (token : Token) :
    Except Error State :=
  match s.effect setting start rest token with
  | .error e => .error e
  | .ok next =>
    .ok { next with lastRepeat := match token with | .repetition _ => some start | _ => none }

/-- The state after the whole of a text. -/
def run (setting : Setting) (s : State) (text : List Char) : Except Error State :=
  match text with
  | [] => .ok s
  | c :: tail =>
    match _h : readToken s.flags c tail with
    | .error e => .error e
    | .ok (token, rest) =>
      match s.apply setting (c :: tail) rest token with
      | .error e => .error e
      | .ok next => next.run setting rest
termination_by text.length
decreasing_by
  have := (readToken_suffix _h).length_le
  simp only [List.length_cons]
  omega

end State

end RegexTree.Parse
