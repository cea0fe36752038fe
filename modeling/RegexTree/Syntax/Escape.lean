/-
  Escapes that stand for one rune: `\n`, `\.`, `\101`, `\x41`, `\x{1F600}`.

  A sign of punctuation with a backslash before it stands for itself, some letters for control
  characters, one to three octal digits and two hexadecimal ones for a number.  In braces there may
  be any number of hexadecimal digits, zeros in front among them, as long as what they write is a
  code point; that the machine counts them, in a type of fixed width, is told in
  `Machine.bracedHex`.  Everything else is no escape, and the error shows the escape as far as it
  was read.

  A digit from 1 to 7 that no octal digit follows might be a reference back to a capture.  Those are
  not supported, so it is no escape either.
-/
import RegexTree.Error
import RegexTree.Numeral
import RegexTree.Rune
import RegexTree.Syntax.Delimited

namespace RegexTree

/-- The rune of hexadecimal digits up to a closing brace, given the number that the digits before
    them write, if there were any.  The text that is left is that after the last character looked
    at, whether there is a rune or not. -/
def readBracedHex (seen : Option Nat) : List Char → Option Nat × List Char
  | [] => (none, [])
  | '}' :: rest => (seen, rest)
  | c :: rest =>
    match Numeral.hexDigit? c with
    | none => (none, rest)
    | some d =>
      if maxRune < seen.getD 0 * 16 + d then (none, rest)
      else readBracedHex (some (seen.getD 0 * 16 + d)) rest

/-- The rune of the hexadecimal digits after `\x`: two of them, or any number in braces. -/
def readHex : List Char → Option Nat × List Char
  | '{' :: rest => readBracedHex none rest
  | c :: d :: rest =>
    (match Numeral.hexDigit? c, Numeral.hexDigit? d with
      | some x, some y => some (x * 16 + y)
      | _, _ => none, rest)
  | _ => (none, [])

/-- The control character that a letter names after a backslash. -/
def namedControl? : Char → Option Nat
  | 'a' => some 0x07
  | 'f' => some 0x0C
  | 'n' => some 0x0A
  | 'r' => some 0x0D
  | 't' => some 0x09
  | 'v' => some 0x0B
  | _ => none

/-- An ASCII character that is neither a letter nor a digit; after a backslash it is itself. -/
def isPunctuation (c : Char) : Bool := c.toNat < 128 && !c.isAlphanum

/-- The rune of an escape, of which `c` is the character after the backslash and `rest` the text
    after that.  Up to three octal digits are a rune, but a lone digit from 1 to 7 would refer
    back to a capture, which is not supported. -/
def readEscapeRune (c : Char) (rest : List Char) : Option Nat × List Char :=
  if Numeral.isOctal c then
    if c ≠ '0' ∧ (rest.head?.any Numeral.isOctal) = false then (none, rest)
    else
      let digits := (rest.take 2).takeWhile Numeral.isOctal
      (some (Numeral.ofOctal (c :: digits)), rest.drop digits.length)
  else if c = 'x' then readHex rest
  else
    match namedControl? c with
    | some r => (some r, rest)
    | none => (if isPunctuation c then some c.toNat else none, rest)

/-- The rune of an escape, and the text after it.  The text begins after the backslash. -/
def readEscape (text : List Char) : Except Error (Nat × List Char) :=
  match text with
  | [] => .error ⟨.trailingBackslash, ""⟩
  | c :: rest =>
    match readEscapeRune c rest with
    | (some r, rest) => .ok (r, rest)
    | (none, rest) => .error (.between .invalidEscape ('\\' :: text) rest)

theorem readBracedHex_suffix (seen : Option Nat) (text : List Char) :
    (readBracedHex seen text).2 <:+ text := by
  fun_induction readBracedHex seen text with
  | case1 => exact List.suffix_refl _
  | case2 => exact List.suffix_cons _ _
  | case3 => exact List.suffix_cons _ _
  | case4 => exact List.suffix_cons _ _
  | case5 _ _ _ _ _ _ _ ih => exact ih.trans (List.suffix_cons _ _)

theorem readHex_suffix (text : List Char) : (readHex text).2 <:+ text := by
  unfold readHex
  split
  · exact (readBracedHex_suffix _ _).trans (List.suffix_cons _ _)
  · exact (List.suffix_cons _ _).trans (List.suffix_cons _ _)
  · exact List.nil_suffix

theorem readEscapeRune_suffix (c : Char) (rest : List Char) :
    (readEscapeRune c rest).2 <:+ rest := by
  unfold readEscapeRune
  split
  · split
    · exact List.suffix_refl _
    · exact List.drop_suffix _ _
  · split
    · exact readHex_suffix rest
    · split
      · exact List.suffix_refl _
      · exact List.suffix_refl _

theorem consumed_of_readEscape {text rest : List Char} {r : Nat}
    (h : readEscape text = .ok (r, rest)) : Consumed text rest := by
  unfold readEscape at h
  split at h
  · cases h
  · next c tail =>
    have hs := readEscapeRune_suffix c tail
    split at h
    · next he =>
      cases h
      rw [he] at hs
      exact .of_cons hs
    · cases h

end RegexTree
