/-
  Sets of runes as lists of ranges.

  While a class is being read its ranges are collected newest first (`add`); they may overlap and
  come in any order, and a range that touches one of the newest two is joined to it.  `clean` turns
  such a list into the one list that is sorted, disjoint and without abutting neighbours.
  `complement` and `runes` expect a clean list: the first takes the gaps between the ranges, the
  second writes the ends of the ranges one after the other, which is how a label holds a class.

  What a list of ranges means is `has`: every operation is described by what it does to that.
-/
import RegexTree.Rune

namespace RegexTree

/-- The runes from `lo` to `hi`, both included. -/
structure Range where
  lo : Nat
  hi : Nat
  deriving DecidableEq, Repr, Inhabited

namespace Range

/-- The range of one rune. -/
def single (c : Nat) : Range := ⟨c, c⟩

/-- `c` lies in the range. -/
def has (r : Range) (c : Nat) : Bool := r.lo ≤ c && c ≤ r.hi

/-- The ranges overlap or abut, so that one range covers both without covering more. -/
def touches (a b : Range) : Bool := a.lo ≤ b.hi + 1 && b.lo ≤ a.hi + 1

/-- The smallest range that covers both. -/
def hull (a b : Range) : Range := ⟨min a.lo b.lo, max a.hi b.hi⟩

/-- The ends are in order and are code points. -/
def Valid (r : Range) : Prop := r.lo ≤ r.hi ∧ r.hi ≤ maxRune

instance (r : Range) : Decidable r.Valid := inferInstanceAs (Decidable (_ ∧ _))

theorem has_iff {r : Range} {c : Nat} : r.has c = true ↔ r.lo ≤ c ∧ c ≤ r.hi := by
  simp [has]

theorem touches_iff {a b : Range} :
    a.touches b = true ↔ a.lo ≤ b.hi + 1 ∧ b.lo ≤ a.hi + 1 := by
  simp [touches]

theorem has_hull {a b : Range} (h : a.touches b = true) (c : Nat) :
    (a.hull b).has c = (a.has c || b.has c) := by
  rw [touches_iff] at h
  rw [Bool.eq_iff_iff, Bool.or_eq_true, has_iff, has_iff, has_iff]
  simp only [hull]
  omega

end Range

/-- A set of runes, as the ranges it is made of. -/
abbrev Ranges := List Range

namespace Ranges

/-- `c` lies in one of the ranges. -/
def has (x : Ranges) (c : Nat) : Bool := x.any (·.has c)

/-- Every range is valid. -/
def Valid (x : Ranges) : Prop := ∀ r ∈ x, r.Valid

/-- `x` with the range `r`: one of the last two ranges is widened if it touches `r`, otherwise
    `r` becomes a range of its own.  The newest range stands first. -/
def add : Ranges → Range → Ranges
  | [], r => [r]
  | [a], r => if r.touches a then [r.hull a] else [r, a]
  | a :: b :: rest, r =>
    if r.touches a then r.hull a :: b :: rest
    else if r.touches b then a :: r.hull b :: rest
    else r :: a :: b :: rest

/-- `x` with every range of `y`. -/
def addAll (x y : Ranges) : Ranges := y.foldl add x

/-- A clean list with one more range: ranges left of it stay, ranges that it touches are taken
    into it. -/
def insert (r : Range) : Ranges → Ranges
  | [] => [r]
  | a :: rest =>
    if r.touches a then insert (r.hull a) rest
    else if r.lo < a.lo then r :: a :: rest
    else a :: insert r rest

/-- The clean list of the same runes: sorted, disjoint, no two neighbours abutting. -/
def clean (x : Ranges) : Ranges := x.foldr insert []

/-- The runes from `next` on that a clean list, all of it at or after `next`, leaves out. -/
def gapsFrom (next : Nat) : Ranges → Ranges
  | [] => if next ≤ maxRune then [⟨next, maxRune⟩] else []
  | r :: rest =>
    if next < r.lo then ⟨next, r.lo - 1⟩ :: gapsFrom (r.hi + 1) rest
    else gapsFrom (r.hi + 1) rest

/-- The runes that a clean list leaves out, as a clean list. -/
def complement (x : Ranges) : Ranges := gapsFrom 0 x

/-- The ends of the ranges, one after the other. -/
def runes (x : Ranges) : List Nat := x.flatMap fun r => [r.lo, r.hi]

/-- The ranges whose ends stand one after the other; a last end without a partner is left out. -/
def ofRunes : List Nat → Ranges
  | lo :: hi :: rest => ⟨lo, hi⟩ :: ofRunes rest
  | _ => []

/-- The whole of the runes. -/
def full : Ranges := [⟨0, maxRune⟩]

/-- All runes but the newline. -/
def fullButNewline : Ranges := [⟨0, newline - 1⟩, ⟨newline + 1, maxRune⟩]

theorem has_nil (c : Nat) : has [] c = false := rfl

theorem has_cons (r : Range) (x : Ranges) (c : Nat) :
    has (r :: x) c = (r.has c || has x c) := rfl

@[simp] theorem ofRunes_runes (x : Ranges) : ofRunes (runes x) = x := by
  induction x with
  | nil => rfl
  | cons r rest ih =>
    have h : runes (r :: rest) = r.lo :: r.hi :: runes rest := rfl
    rw [h, ofRunes, ih]

example : clean [⟨40, 40⟩, ⟨15, 30⟩, ⟨6, 8⟩, ⟨0, 5⟩, ⟨10, 20⟩] = [⟨0, 8⟩, ⟨10, 30⟩, ⟨40, 40⟩] := by
  decide

example : complement (complement [⟨0x30, 0x39⟩, ⟨0x61, 0x7a⟩]) = [⟨0x30, 0x39⟩, ⟨0x61, 0x7a⟩] := by
  decide

end Ranges

end RegexTree
