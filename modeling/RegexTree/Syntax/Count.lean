/-
  Counts: `{n}`, `{n,}` and `{n,m}`.

  The numbers are decimal numerals of any length without superfluous zeros in front.  Text that does
  not have one of the three forms is no count at all, and the brace stands for itself.

  A count that has the form may be too large, or have its bounds out of order (`Count.isTooLarge`).
  That is an error, and is found after the count was read; so reading it does not depend on the size
  of its numbers.
-/
import RegexTree.Numeral

namespace RegexTree

/-- How often a counted repetition may happen. -/
structure Count where
  min : Nat
  /-- The upper bound, if there is one. -/
  max : Option Nat
  deriving DecidableEq, Repr

/-- The largest number that a count may hold, and the largest number of copies that counted
    repetitions inside one another may come to. -/
def maxRepeat : Nat := 1000

namespace Count

/-- A number of the count is too large, or its bounds are in the wrong order. -/
def isTooLarge (count : Count) : Bool :=
  maxRepeat < count.min || count.max.any fun max => maxRepeat < max || max < count.min

/-- The upper bound as a node holds it. -/
def upper (count : Count) : Int :=
  match count.max with
  | some max => max
  | none => -1

end Count

/-- The numeral at the start of the text, and the text after it. -/
def readNumeral? (text : List Char) : Option (Nat × List Char) :=
  match text.takeWhile Numeral.isDecimal with
  | [] => none
  | '0' :: _ :: _ => none
  | digits => some (Numeral.ofDecimal digits, text.dropWhile Numeral.isDecimal)

/-- The count at the start of the text, which begins after the opening brace, and the text after
    the closing one. -/
def readCount? (text : List Char) : Option (Count × List Char) :=
  match readNumeral? text with
  | some (n, '}' :: rest) => some (⟨n, some n⟩, rest)
  | some (n, ',' :: '}' :: rest) => some (⟨n, none⟩, rest)
  | some (n, ',' :: more) =>
    match readNumeral? more with
    | some (m, '}' :: rest) => some (⟨n, some m⟩, rest)
    | _ => none
  | _ => none

theorem suffix_of_readNumeral? {text rest : List Char} {n : Nat}
    (h : readNumeral? text = some (n, rest)) : rest <:+ text := by
  unfold readNumeral? at h
  split at h
  · cases h
  · cases h
  · cases h
    exact List.dropWhile_suffix _

theorem suffix_of_readCount? {text rest : List Char} {count : Count}
    (h : readCount? text = some (count, rest)) : rest <:+ text := by
  unfold readCount? at h
  split at h
  · next hn =>
    cases h
    exact (List.suffix_cons _ _).trans (suffix_of_readNumeral? hn)
  · next hn =>
    cases h
    exact ((List.suffix_cons _ _).trans (List.suffix_cons _ _)).trans (suffix_of_readNumeral? hn)
  · next hn =>
    split at h
    · next hm =>
      cases h
      exact ((List.suffix_cons _ _).trans (suffix_of_readNumeral? hm)).trans
        ((List.suffix_cons _ _).trans (suffix_of_readNumeral? hn))
    · cases h
  · cases h

example : readCount? ['2', ',', '5', '}', 'x'] = some (⟨2, some 5⟩, ['x']) := by decide

example : readCount? ['0', '2', '}'] = none := by decide

end RegexTree
