/-
  Equality of trees, up to what cannot change a match.

  Two trees are equal when they have the same shape and their labels agree.  Labels agree when they
  have the same operation and the same in those fields that the operation reads: most flags are not
  among them, so trees that were read under different flags can be equal.

  Children that an operation does not read are passed over.  An operand that is missing is another
  matter: `equal` has an answer for it, but comparing would look for it, and `isComparable` says
  whether all operands that are looked for are there.  Comparing goes from left to right and stops
  at the first difference, so not every operand is.
-/
import RegexTree.Tree.Basic

namespace RegexTree

/-- The labels have the same operation and agree in the fields that it reads. -/
def Label.agrees (a b : Label) : Bool :=
  a.op == b.op &&
    match a.op with
    | .endText => a.flags.wasDollar == b.flags.wasDollar
    | .literal => a.flags.foldCase == b.flags.foldCase && a.runes == b.runes
    | .charClass => a.runes == b.runes
    | .star | .plus | .quest => a.flags.nonGreedy == b.flags.nonGreedy
    | .counted => a.flags.nonGreedy == b.flags.nonGreedy && a.min == b.min && a.max == b.max
    | .capture => a.cap == b.cap && a.name == b.name
    | _ => true

namespace Tree

/-- Two lists have the same length, and each test of the first holds of the tree beside it. -/
def allMatch : List (Tree → Bool) → List Tree → Bool
  | [], [] => true
  | test :: tests, t :: ts => test t && allMatch tests ts
  | _, _ => false

/-- The trees have the same shape, as far as their operations read it, and labels that agree. -/
def equal : Tree → Tree → Bool :=
  fold fun l _ tests other =>
    l.agrees other.label &&
      match l.op.arity with
      | .leaf => true
      | .one => allMatch (tests.take 1) (other.subs.take 1)
      | .many => allMatch tests other.subs

theorem equal_node (l : Label) (subs : List Tree) (other : Tree) :
    (node l subs).equal other =
      (l.agrees other.label &&
        match l.op.arity with
        | .leaf => true
        | .one => allMatch ((subs.map equal).take 1) (other.subs.take 1)
        | .many => allMatch (subs.map equal) other.subs) := by
  rw [equal, fold_node]

/-- Each test of the first list holds of the tree beside it, up to the first pair of trees that
    are not equal. -/
def reachedAll : List Tree → List (Tree → Bool) → List Tree → Bool
  | s :: ss, test :: tests, t :: ts => test t && (!s.equal t || reachedAll ss tests ts)
  | _, _, _ => true

/-- Comparing the two trees, from left to right and up to the first difference, finds every
    operand that it comes to. -/
def isComparable : Tree → Tree → Bool :=
  fold fun l subs tests other =>
    !l.agrees other.label ||
      match l.op.arity, tests, other.subs with
      | .leaf, _, _ => true
      | .one, test :: _, t :: _ => test t
      | .one, _, _ => false
      | .many, tests, ts => subs.length != ts.length || reachedAll subs tests ts

end Tree

end RegexTree
