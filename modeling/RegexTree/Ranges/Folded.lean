/-
  Ranges closed under case folding.

  Where letters stand for all of their case, a range brings the orbits of all its runes.  They are
  added rune by rune, but only for the part of the range in which runes fold at all; if the range
  has all of that part, or nothing of it, the range is added as it is.  A table is closed range by
  range and cleaned.
-/
import RegexTree.Ranges.Basic
import RegexTree.Unicode.Fold

namespace RegexTree.Ranges

open Unicode

/-- `x` with `c` and all that folds to it. -/
def addOrbit (x : Ranges) (c : Nat) : Ranges :=
  addAll x ((orbit c).map Range.single)

/-- `x` with the runes of `r` and all that fold to one of them. -/
def addFolded (x : Ranges) (r : Range) : Ranges :=
  (casedRunes.filter r.has).foldl addOrbit (x.add r)

/-- `x` closed under case folding, as a clean list. -/
def folded (x : Ranges) : Ranges := clean (x.foldl addFolded [])

example : clean (addFolded [] (Range.single 0x6b)) =
    [⟨0x4b, 0x4b⟩, ⟨0x6b, 0x6b⟩, ⟨0x212a, 0x212a⟩] := by
  decide +kernel

end RegexTree.Ranges
