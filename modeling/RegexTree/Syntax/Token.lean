/-
  Tokens: what a pattern is made of.

  Reading a token needs the flags in force and nothing else of what was read before: no token
  depends on the groups that are open or on the pieces that are there.  What a token does to those
  is told by `State.apply`.  So the syntax of patterns and the bookkeeping of groups can be studied
  apart.

  A token takes at least one character (`readToken_suffix`), and which token it is depends on the
  first one: a sign of repetition, a bar, a parenthesis, an anchor or a dot, a bracket, a brace that
  may open a count, a backslash, or anything else, which is a rune of a literal.

  Some signs are tokens only in some syntaxes.  Without the flag for Perl's there are no groups with
  a question mark, no lazy repetitions, and after a backslash no anchor, no quoted text and no group
  of runes but a property, which has a flag of its own.
-/
import RegexTree.Syntax.Bracket
import RegexTree.Syntax.Count
import RegexTree.Tree.Basic

namespace RegexTree

/-- A repetition sign: `*`, `+`, `?` or a count. -/
structure Quantifier where
  op : Op
  min : Int := 0
  max : Int := 0
  /-- A question mark follows, which turns the preference for more iterations round. -/
  turned : Bool := false
  deriving DecidableEq, Repr

/-- A token of a pattern. -/
inductive Token where
  /-- Opens a group that captures. -/
  | capture (name : Option String)
  /-- Opens a group that does not capture; the flags hold inside. -/
  | group (flags : Flags)
  /-- The flags hold from here to the end of the group. -/
  | setFlags (flags : Flags)
  | bar
  | close
  /-- An assertion or a dot. -/
  | simple (piece : Tree)
  /-- Runes that stand for themselves. -/
  | text (runes : List Nat)
  | bracket (bracket : Bracket)
  | repetition (quantifier : Quantifier)

/-! ## Groups with flags or a name -/

/-- The flags with the switch that a letter names turned on or off.  The letter m turns off what
    keeps the anchors to the ends of the text. -/
def Flags.switched? (f : Flags) (on : Bool) : (letter : Char) → Option Flags
  | 'i' => some { f with foldCase := on }
  | 'm' => some { f with oneLine := !on }
  | 's' => some { f with dotNL := on }
  | 'U' => some { f with nonGreedy := on }
  | _ => none

/-- The letters after `(?` up to a colon or a parenthesis.  After a hyphen, letters turn switches
    off; there may be one hyphen, and a letter has to follow it.  `seen` tells whether there was a
    letter since the start or the hyphen. -/
def readSwitches (start : List Char) (flags : Flags) (off seen : Bool) :
    List Char → Except Error (Token × List Char)
  | [] => .error (.between .invalidPerlOp start [])
  | c :: rest =>
    match flags.switched? (!off) c with
    | some flags => readSwitches start flags off true rest
    | none =>
      if c = '-' ∧ off = false then readSwitches start flags true false rest
      else if c = ':' ∧ (off && !seen) = false then .ok (.group flags, rest)
      else if c = ')' ∧ (off && !seen) = false then .ok (.setFlags flags, rest)
      else .error (.between .invalidPerlOp start rest)

/-- Captures are named by letters, digits and underscores of ASCII. -/
def isCaptureName (name : List Char) : Bool :=
  !name.isEmpty && name.all fun c => c == '_' || c.isAlphanum

/-- A named group.  `text` begins after the opening angle. -/
def readNamedCapture (start text : List Char) : Except Error (Token × List Char) :=
  match splitAt? ['>'] text with
  | none => .error (.toEnd .invalidNamedCapture start)
  | some (name, rest) =>
    if isCaptureName name then .ok (.capture (some (String.ofList name)), rest)
    else .error (.between .invalidNamedCapture start rest)

/-- A group that begins with `(?`.  `text` begins after that.  An opening angle at the end of the
    pattern begins no name. -/
def readSpecialGroup (flags : Flags) (text : List Char) : Except Error (Token × List Char) :=
  let start := '(' :: '?' :: text
  match text with
  | 'P' :: '<' :: c :: rest => readNamedCapture start (c :: rest)
  | '<' :: c :: rest => readNamedCapture start (c :: rest)
  | _ => readSwitches start flags false false text

/-! ## Escapes outside of brackets -/

/-- The assertion that a letter names after a backslash. -/
def assertion? : Char → Option Op
  | 'A' => some .beginText
  | 'b' => some .wordBoundary
  | 'B' => some .noWordBoundary
  | 'z' => some .endText
  | _ => none

/-- The text quoted by `\Q`, up to `\E` or the end, and the text after it. -/
def readQuoted (text : List Char) : List Char × List Char :=
  (splitAt? ['\\', 'E'] text).getD (text, [])

/-- The escapes of Perl syntax that are not escapes within brackets. -/
def readPerlEscape? (flags : Flags) : List Char → Option (Except Error (Token × List Char))
  | 'C' :: _ => some (.error ⟨.invalidEscape, "\\C"⟩)
  | 'Q' :: rest => some (.ok (.text (runesOf (readQuoted rest).1), (readQuoted rest).2))
  | c :: rest => (assertion? c).map fun op => .ok (.simple (.leaf op flags), rest)
  | [] => none

/-- An escape outside of brackets.  The text begins after the backslash. -/
def readBackslash (flags : Flags) (text : List Char) : Except Error (Token × List Char) :=
  match if flags.perlX then readPerlEscape? flags text else none with
  | some result => result
  | none =>
    match readGroupEscape? flags ('\\' :: text) with
    | some (.ok (item, rest)) => .ok (.bracket { items := [item] }, rest)
    | some (.error e) => .error e
    | none =>
      match readEscape text with
      | .ok (r, rest) => .ok (.text [r], rest)
      | .error e => .error e

/-! ## Tokens -/

/-- A repetition sign, with the question mark that may follow it in Perl syntax. -/
def withTurn (flags : Flags) (q : Quantifier) (rest : List Char) : Token × List Char :=
  if flags.perlX && rest.head? == some '?' then
    (.repetition { q with turned := true }, rest.tail)
  else (.repetition q, rest)

/-- The piece for an anchor or a dot. -/
def simplePiece? (flags : Flags) : Char → Option Tree
  | '^' => some (.leaf (if flags.oneLine then .beginText else .beginLine) flags)
  | '$' =>
    some (if flags.oneLine then .leaf .endText { flags with wasDollar := true }
      else .leaf .endLine flags)
  | '.' => some (.leaf (if flags.dotNL then .anyChar else .anyCharNotNL) flags)
  | _ => none

/-- The operation of a repetition sign. -/
def sign? : Char → Option Op
  | '*' => some .star
  | '+' => some .plus
  | '?' => some .quest
  | _ => none

/-- A brace: a count if it is one, otherwise itself. -/
def readBrace (flags : Flags) (text : List Char) : Except Error (Token × List Char) :=
  match readCount? text with
  | none => .ok (.text ['{'.toNat], text)
  | some (count, rest) =>
    if count.isTooLarge then .error (.between .invalidRepeatSize ('{' :: text) rest)
    else .ok (withTurn flags ⟨.counted, count.min, count.upper, false⟩ rest)

/-- An opening parenthesis. -/
def readOpening (flags : Flags) (text : List Char) : Except Error (Token × List Char) :=
  if flags.perlX && text.head? == some '?' then readSpecialGroup flags text.tail
  else .ok (.capture none, text)

/-- The token that begins with `c`, and the text after it.  `text` is what follows `c`. -/
def readToken (flags : Flags) (c : Char) (text : List Char) : Except Error (Token × List Char) :=
  if c = '(' then readOpening flags text
  else if c = '|' then .ok (.bar, text)
  else if c = ')' then .ok (.close, text)
  else if c = '[' then
    match readBracket flags text with
    | .ok (b, rest) => .ok (.bracket b, rest)
    | .error e => .error e
  else if c = '{' then readBrace flags text
  else if c = '\\' then readBackslash flags text
  else
    match simplePiece? flags c, sign? c with
    | some piece, _ => .ok (.simple piece, text)
    | none, some op => .ok (withTurn flags { op } text)
    | none, none => .ok (.text [c.toNat], text)

/-- A character that begins nothing else stands for itself. -/
theorem readToken_text {c : Char}
    (h : ∀ d ∈ ['(', '|', ')', '[', '{', '\\', '^', '$', '.', '*', '+', '?'], c ≠ d)
    (flags : Flags) (text : List Char) : readToken flags c text = .ok (.text [c.toNat], text) := by
  simp only [List.forall_mem_cons] at h
  obtain ⟨h1, h2, h3, h4, h5, h6, h7, h8, h9, h10, h11, h12, -⟩ := h
  rw [readToken, if_neg h1, if_neg h2, if_neg h3, if_neg h4, if_neg h5, if_neg h6]
  simp [simplePiece?, sign?]

/-! ## What is left is a suffix -/

theorem suffix_of_readSwitches {start : List Char} {flags : Flags} {off seen : Bool}
    {text rest : List Char} {token : Token}
    (h : readSwitches start flags off seen text = .ok (token, rest)) : rest <:+ text := by
  fun_induction readSwitches start flags off seen text with
  | case1 => cases h
  | case2 _ _ _ _ _ _ _ ih => exact (ih h).trans (List.suffix_cons _ _)
  | case3 _ _ _ _ _ _ _ ih => exact (ih h).trans (List.suffix_cons _ _)
  | case4 =>
    cases h
    exact List.suffix_cons _ _
  | case5 =>
    cases h
    exact List.suffix_cons _ _
  | case6 => cases h

theorem suffix_of_readNamedCapture {start text rest : List Char} {token : Token}
    (h : readNamedCapture start text = .ok (token, rest)) : rest <:+ text := by
  unfold readNamedCapture at h
  split at h
  · cases h
  · next hs =>
    split at h
    · cases h
      exact suffix_of_splitAt? hs
    · cases h

theorem suffix_of_readSpecialGroup {flags : Flags} {text rest : List Char} {token : Token}
    (h : readSpecialGroup flags text = .ok (token, rest)) : rest <:+ text := by
  unfold readSpecialGroup at h
  dsimp only at h
  split at h
  · exact (suffix_of_readNamedCapture h).trans
      ((List.suffix_cons _ _).trans (List.suffix_cons _ _))
  · exact (suffix_of_readNamedCapture h).trans (List.suffix_cons _ _)
  · exact suffix_of_readSwitches h

theorem readQuoted_suffix (text : List Char) : (readQuoted text).2 <:+ text := by
  unfold readQuoted
  cases h : splitAt? ['\\', 'E'] text with
  | none => exact List.nil_suffix
  | some p => exact suffix_of_splitAt? h

theorem suffix_of_readPerlEscape? {flags : Flags} {text rest : List Char} {token : Token}
    (h : readPerlEscape? flags text = some (.ok (token, rest))) : rest <:+ text := by
  unfold readPerlEscape? at h
  split at h
  · cases h
  · cases h
    exact (readQuoted_suffix _).trans (List.suffix_cons _ _)
  · obtain ⟨_, _, he⟩ := Option.map_eq_some_iff.mp h
    cases he
    exact List.suffix_cons _ _
  · cases h

/-- An escape for a group is the bracket with that group in it. -/
theorem readBackslash_group {flags : Flags} {tail : List Char}
    {result : Except Error (BracketItem × List Char)}
    (hperl : (if flags.perlX then readPerlEscape? flags tail else none) = none)
    (hgroup : readGroupEscape? flags ('\\' :: tail) = some result) :
    readBackslash flags tail =
      result.map fun found => (.bracket { items := [found.1] }, found.2) := by
  rw [readBackslash, hperl]
  dsimp only
  rw [hgroup]
  cases result with
  | error e => rfl
  | ok found => rfl

/-- Any other escape is for a rune. -/
theorem readBackslash_rune {flags : Flags} {tail : List Char}
    (hperl : (if flags.perlX then readPerlEscape? flags tail else none) = none)
    (hgroup : readGroupEscape? flags ('\\' :: tail) = none) :
    readBackslash flags tail =
      readEscape tail >>= fun found => .ok (.text [found.1], found.2) := by
  rw [readBackslash, hperl]
  dsimp only
  rw [hgroup]
  cases readEscape tail with
  | error e => rfl
  | ok found => rfl

theorem suffix_of_readBackslash {flags : Flags} {text rest : List Char} {token : Token}
    (h : readBackslash flags text = .ok (token, rest)) : rest <:+ text := by
  unfold readBackslash at h
  split at h
  · next hp =>
    subst h
    split at hp
    · exact suffix_of_readPerlEscape? hp
    · cases hp
  · split at h
    · next hg =>
      cases h
      exact (consumed_of_readGroupEscape? hg).2
    · cases h
    · split at h
      · next he =>
        cases h
        exact (consumed_of_readEscape he).isSuffix
      · cases h

theorem withTurn_suffix (flags : Flags) (q : Quantifier) (rest : List Char) :
    (withTurn flags q rest).2 <:+ rest := by
  unfold withTurn
  split
  · exact List.tail_suffix rest
  · exact List.suffix_refl rest

theorem suffix_of_readBrace {flags : Flags} {text rest : List Char} {token : Token}
    (h : readBrace flags text = .ok (token, rest)) : rest <:+ text := by
  unfold readBrace at h
  split at h
  · cases h
    exact List.suffix_refl _
  · next count tail hc =>
    split at h
    · cases h
    · injection h with h
      have hw := withTurn_suffix flags ⟨.counted, count.min, count.upper, false⟩ tail
      rw [h] at hw
      exact hw.trans (suffix_of_readCount? hc)

/-- Reading a token takes the character that it begins with, and leaves a suffix of the rest. -/
theorem readToken_suffix {flags : Flags} {c : Char} {text rest : List Char} {token : Token}
    (h : readToken flags c text = .ok (token, rest)) : rest <:+ text := by
  unfold readToken at h
  split at h
  · unfold readOpening at h
    split at h
    · exact (suffix_of_readSpecialGroup h).trans (List.tail_suffix text)
    · cases h
      exact List.suffix_refl _
  split at h
  · cases h
    exact List.suffix_refl _
  split at h
  · cases h
    exact List.suffix_refl _
  split at h
  · split at h
    · next hb =>
      cases h
      exact suffix_of_readBracket hb
    · cases h
  split at h
  · exact suffix_of_readBrace h
  split at h
  · exact suffix_of_readBackslash h
  split at h
  · cases h
    exact List.suffix_refl _
  · next op _ _ =>
    injection h with h
    have hw := withTurn_suffix flags { op } text
    rw [h] at hw
    exact hw
  · cases h
    exact List.suffix_refl _

end RegexTree
