/-
  Runes: the code points that patterns and trees speak of.

  A rune is a natural number.  The reader of patterns only makes runes up to `maxRune`, surrogates
  included (`\x{d800}` is a rune, although no text holds it); a tree put together by hand may hold
  any number.  `scalar?` says which runes are characters, and those are the ones that a text can
  have and a matcher tries.
-/

namespace RegexTree

/-- The largest code point. -/
def maxRune : Nat := 0x10FFFF

/-- The newline, which `.` and negated classes treat specially. -/
def newline : Nat := 10

/-- The character with this code point; surrogates and numbers beyond `maxRune` have none. -/
def scalar? (r : Nat) : Option Char :=
  if h : r.isValidChar then some (Char.ofNatAux r h) else none

/-- The rune of a character is a code point. -/
theorem toNat_le_maxRune (c : Char) : c.toNat ≤ maxRune := by
  have h : c.toNat < 0x110000 := by
    rcases c.valid with h | ⟨-, h⟩
    · exact Nat.lt_trans h (by decide)
    · exact h
  exact Nat.le_of_lt_succ h

/-- The runes of a text. -/
def runesOf (text : List Char) : List Nat := text.map Char.toNat

end RegexTree
