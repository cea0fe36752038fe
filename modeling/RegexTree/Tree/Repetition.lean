/-
  How deep repetitions stand on one another, and how many copies they come to.

  Both are limited when a repetition is read.  The height counts the repetitions that stand directly
  on one another at the root.  The copies are those that writing out all counted repetitions would
  make on the way to a leaf, and the check divides what is allowed by the copies of each count on
  the way down, until a count is met that never happens.
-/
import RegexTree.Tree.Basic

namespace RegexTree

/-- The number of copies of its operand that a counted repetition makes: its upper bound, or the
    lower one if there is no upper. -/
def Label.copyCount (l : Label) : Nat := if l.max < 0 then l.min.toNat else l.max.toNat

namespace Tree

/-- The number of repetitions that stand directly on one another at the root. -/
def repeatHeight : Tree → Nat :=
  fold fun l _ heights => if l.op.isRepeat then 1 + heights.headD 0 else 0

/-- Counted repetitions inside one another come to no more than `budget` copies.  One that never
    happens makes none, whatever is in it; otherwise each takes its share of the budget. -/
def fitsBudget : Tree → (budget : Nat) → Bool :=
  fold fun l _ fits budget =>
    if l.op = .counted then
      if l.max = 0 then true
      else if budget < l.copyCount then false
      else fits.all (· (if l.copyCount = 0 then budget else budget / l.copyCount))
    else fits.all (· budget)

end Tree

end RegexTree
