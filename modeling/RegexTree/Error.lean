/-
  Syntax errors: what is wrong with a pattern, and the part of it that shows it.

  An error has a code, and its wording is a function of the code alone (`ErrorCode.message`).  What
  it shows is a text; for nearly all errors that is what stands in the pattern from some place on,
  up to another place (`Error.between`) or to the end (`Error.toEnd`).  A place is given as the text
  from there to the end, so both are cut out of the pattern without counting.
-/

namespace RegexTree

/-- What is wrong with a pattern. -/
inductive ErrorCode where
  /-- Never reported by the reader, which tells a bad range from a missing bracket. -/
  | invalidCharClass
  | invalidCharRange
  | invalidEscape
  | invalidNamedCapture
  | invalidPerlOp
  | invalidRepeatOp
  | invalidRepeatSize
  | missingBracket
  | missingParen
  | missingRepeatArgument
  | trailingBackslash
  | unexpectedParen
  | nestingDepth
  deriving DecidableEq, Repr, Inhabited

/-- The cause in words. -/
def ErrorCode.message : ErrorCode → String
  | .invalidCharClass => "invalid character class"
  | .invalidCharRange => "invalid character class range"
  | .invalidEscape => "invalid escape sequence"
  | .invalidNamedCapture => "invalid named capture"
  | .invalidPerlOp => "invalid or unsupported Perl syntax"
  | .invalidRepeatOp => "invalid nested repetition operator"
  | .invalidRepeatSize => "invalid repeat count"
  | .missingBracket => "missing closing ]"
  | .missingParen => "missing closing )"
  | .missingRepeatArgument => "missing argument to repetition operator"
  | .trailingBackslash => "trailing backslash at end of expression"
  | .unexpectedParen => "unexpected )"
  | .nestingDepth => "expression nests too deeply"

/-- A syntax error: its cause and an excerpt of the pattern. -/
structure Error where
  code : ErrorCode
  /-- The part of the pattern that shows the error; empty for a trailing backslash. -/
  expr : String
  deriving DecidableEq, Repr, Inhabited

/-- The whole message. -/
def Error.message (e : Error) : String :=
  "error parsing regexp: " ++ e.code.message ++ ": `" ++ e.expr ++ "`"

/-- What lies between two places of one pattern.  A place is given by the text from there to the
    end of the pattern, so `rest` is a tail of `start`. -/
def excerpt (start rest : List Char) : String :=
  String.ofList (start.take (start.length - rest.length))

/-- An error that shows the pattern from `start` up to `rest`. -/
def Error.between (code : ErrorCode) (start rest : List Char) : Error :=
  ⟨code, excerpt start rest⟩

/-- An error that shows the pattern from `start` to its end. -/
def Error.toEnd (code : ErrorCode) (start : List Char) : Error :=
  ⟨code, String.ofList start⟩

theorem excerpt_append (read rest : List Char) :
    excerpt (read ++ rest) rest = String.ofList read := by
  simp [excerpt]

end RegexTree
