/-
  Simple case folding, as a walk round an orbit.

  Runes that are equal up to letter case form an orbit of at most four.  `simpleFold` steps to
  the next member and from the last back to the first, so that a rune alone in its orbit stays.
  `orbit` collects the walk, and `minFold` is the member that stands for all of them.
-/
import RegexTree.Unicode.CaseMap
import RegexTree.Unicode.IrregularOrbits

namespace RegexTree.Unicode

/-- The smallest rune that shares its orbit. -/
def firstFold : Nat := 0x41

/-- The largest rune that shares its orbit. -/
def lastFold : Nat := 0x1E943

/-- `c` lies where runes may share an orbit. -/
def inFoldSpan (c : Nat) : Bool := firstFold ≤ c && c ≤ lastFold

/-- The partner of `c` under letter case: its small letter if that has `c` as its capital, else
    its capital if that has `c` as its small letter, else `c` itself. -/
def casePartner (c : Nat) : Nat :=
  if lower c ≠ c ∧ upper (lower c) = c then lower c
  else if upper c ≠ c ∧ lower (upper c) = c then upper c
  else c

/-- The next member of the fold orbit of `c`. -/
def simpleFold (c : Nat) : Nat :=
  if inFoldSpan c then (irregularNext? c).getD (casePartner c) else c

/-- The members met from `c` on until the walk is back at `home`, at most `steps` of them. -/
def walk (home : Nat) : (steps : Nat) → (c : Nat) → List Nat
  | 0, _ => []
  | steps + 1, c => if c = home then [] else c :: walk home steps (simpleFold c)

/-- More steps than any orbit needs to close. -/
def walkBound : Nat := 8

/-- The other members of the fold orbit of `c`, in the order of the walk. -/
def orbit (c : Nat) : List Nat := walk c walkBound (simpleFold c)

/-- The smallest member of the fold orbit of `c`. -/
def minFold (c : Nat) : Nat := (orbit c).foldl min c

/-- `a` and `b` are the two members of one orbit. -/
def isFoldPair (a b : Nat) : Bool := a != b && simpleFold a == b && simpleFold b == a

/-- Every rune that may share its orbit: those of the irregular orbits and those that a case
    mapping moves. -/
def casedRunes : List Nat :=
  irregularOrbits.flatten ++ lowerRuns.flatMap CaseRun.members ++ upperRuns.flatMap CaseRun.members

example : simpleFold 0x4b = 0x6b ∧ simpleFold 0x6b = 0x212a ∧ simpleFold 0x212a = 0x4b := by decide

example : orbit 0x61 = [0x41] ∧ minFold 0x61 = 0x41 := by decide

end RegexTree.Unicode
