/-
  Trees of regular expressions.

  A node is a `Label` over its children.  All labels have the same fields, whatever the
  operation, so that a caller who builds or relabels nodes by hand loses nothing; which of the
  fields and children an operation reads is fixed by `Op.arity` and by the functions that walk
  the tree.  Nothing here asks a tree to be well formed: a star without a child and a parenthesis
  marker are trees too, and every function has an answer for them.

  Functions on trees are folds.  `fold f t` computes `f` at each node from its label, its
  children and the results at the children (`fold_node`), and `Tree.induct` is the induction that
  goes with it.
-/
import RegexTree.Flags
import RegexTree.Ranges.Basic

namespace RegexTree

/-- What a node does. -/
inductive Op where
  /-- Matches nothing at all. -/
  | noMatch
  /-- Matches the empty text. -/
  | emptyMatch
  /-- Matches the runes of the label, one after the other. -/
  | literal
  /-- Matches one rune within the ranges of the label. -/
  | charClass
  | anyCharNotNL
  | anyChar
  | beginLine
  | endLine
  | beginText
  | endText
  | wordBoundary
  | noWordBoundary
  /-- Matches its child and remembers where. -/
  | capture
  | star
  | plus
  | quest
  /-- Matches its child from `min` to `max` times; a `max` of -1 sets no bound. -/
  | counted
  /-- Matches its children in sequence. -/
  | concat
  /-- Matches one of its children, the first that can. -/
  | alternate
  /-- Marks an open group in a row of pieces; in no finished tree. -/
  | leftParen
  /-- Marks a bar in a row of pieces; in no finished tree. -/
  | verticalBar
  deriving DecidableEq, Repr, Inhabited

/-- Which of its children an operation reads: none, the first, or all. -/
inductive Arity where
  | leaf
  | one
  | many
  deriving DecidableEq, Repr

namespace Op

/-- How many children the operation reads. -/
def arity : Op → Arity
  | .capture | .star | .plus | .quest | .counted => .one
  | .concat | .alternate => .many
  | _ => .leaf

/-- The operation only marks a place while groups are open. -/
def isMarker : Op → Bool
  | .leftParen | .verticalBar => true
  | _ => false

/-- The operation repeats its child. -/
def isRepeat : Op → Bool
  | .star | .plus | .quest | .counted => true
  | _ => false

theorem arity_of_isRepeat {op : Op} (h : op.isRepeat = true) : op.arity = .one := by
  cases op <;> first | rfl | cases h

/-- Operations that read different children are different. -/
theorem ne_of_arity {op other : Op} {arity : Arity} (h : op.arity = arity)
    (hother : other.arity ≠ arity) : op ≠ other := by
  rintro rfl
  exact hother h

theorem ne_of_isRepeat {op other : Op} (h : op.isRepeat = true) (hother : other.isRepeat = false) :
    op ≠ other := by
  rintro rfl
  exact Bool.false_ne_true (hother.symm.trans h)

theorem isRepeat_of_arity {op : Op} (h : op.arity ≠ .one) : op.isRepeat = false :=
  Bool.eq_false_iff.mpr fun hrepeat => h (arity_of_isRepeat hrepeat)

end Op

/-- The fields of a node. -/
structure Label where
  op : Op
  flags : Flags := {}
  /-- The runes of a literal, or the ends of the ranges of a class. -/
  runes : List Nat := []
  min : Int := 0
  max : Int := 0
  /-- The number of a capture, from 1 on. -/
  cap : Nat := 0
  name : Option String := none
  deriving DecidableEq, Repr, Inhabited

/-- A node and what is below it. -/
inductive Tree where
  | node (label : Label) (subs : List Tree)
  deriving Inhabited, Repr

namespace Tree

/-! ## Parts of a tree -/

/-- The label of the root. -/
def label : Tree → Label
  | node l _ => l

/-- The children of the root. -/
def subs : Tree → List Tree
  | node _ subs => subs

/-- The operation of the root. -/
def op (t : Tree) : Op := t.label.op

/-- The flags of the root. -/
def flags (t : Tree) : Flags := t.label.flags

/-- The runes of the root. -/
def runes (t : Tree) : List Nat := t.label.runes

/-- The tree with the label of its root changed. -/
def relabel (f : Label → Label) : Tree → Tree
  | node l subs => node (f l) subs

@[simp] theorem label_node (l : Label) (subs : List Tree) : (node l subs).label = l := rfl
@[simp] theorem subs_node (l : Label) (subs : List Tree) : (node l subs).subs = subs := rfl
@[simp] theorem op_node (l : Label) (subs : List Tree) : (node l subs).op = l.op := rfl
@[simp] theorem flags_node (l : Label) (subs : List Tree) : (node l subs).flags = l.flags := rfl
@[simp] theorem runes_node (l : Label) (subs : List Tree) : (node l subs).runes = l.runes := rfl

/-! ## Building trees -/

/-- A node without children that has nothing but an operation and flags. -/
def leaf (op : Op) (flags : Flags) : Tree := node { op, flags } []

/-- The match of the empty text. -/
def empty : Tree := leaf .emptyMatch {}

/-- The runes of a literal text, under the flags given. -/
def literal (runes : List Nat) (flags : Flags) : Tree :=
  node { op := .literal, flags, runes } []

/-- The class of the runes in the ranges. -/
def charClass (ranges : Ranges) (flags : Flags) : Tree :=
  node { op := .charClass, flags, runes := ranges.runes } []

/-- An operation over children, with nothing else in its label. -/
def branching (op : Op) (subs : List Tree) : Tree := node { op } subs

/-! ## Folds -/

section Fold

variable {α : Type}

mutual

/-- The result of `f` at the root, from the label, the children and the results at them. -/
def fold (f : Label → List Tree → List α → α) : Tree → α
  | node l subs => f l subs (foldAll f subs)

/-- The results at each of a list of trees. -/
def foldAll (f : Label → List Tree → List α → α) : List Tree → List α
  | [] => []
  | t :: rest => fold f t :: foldAll f rest

end

theorem foldAll_eq_map (f : Label → List Tree → List α → α) (ts : List Tree) :
    foldAll f ts = ts.map (fold f) := by
  induction ts with
  | nil => rfl
  | cons t rest ih => simp [foldAll, ih]

theorem fold_node (f : Label → List Tree → List α → α) (l : Label) (subs : List Tree) :
    fold f (node l subs) = f l subs (subs.map (fold f)) := by
  rw [fold, foldAll_eq_map]

end Fold

/-- Induction over trees: what holds of a node whenever it holds of the children holds of all. -/
theorem induct {P : Tree → Prop}
    (step : ∀ l subs, (∀ t ∈ subs, P t) → P (node l subs)) (t : Tree) : P t := by
  refine Tree.rec (motive_1 := P) (motive_2 := fun ts => ∀ t ∈ ts, P t) ?_ ?_ ?_ t
  · intro l subs ih
    exact step l subs ih
  · intro t ht
    cases ht
  · intro t rest ht hrest u hu
    rcases List.mem_cons.mp hu with rfl | hu
    · exact ht
    · exact hrest u hu

/-- The nodes of the tree with the number of their children, a node before its children and
    those from left to right. -/
def preorder : Tree → List (Label × Nat) :=
  fold fun l subs parts => (l, subs.length) :: parts.flatten

theorem preorder_node (l : Label) (subs : List Tree) :
    (node l subs).preorder = (l, subs.length) :: (subs.map preorder).flatten :=
  fold_node _ l subs

/-- Every operand that a walk over the tree reads is there: the operations of one child have a
    child, and so on below. -/
def isComplete : Tree → Bool :=
  fold fun l _ parts =>
    match l.op.arity with
    | .leaf => true
    | .one => parts.head? == some true
    | .many => parts.all id

end Tree

end RegexTree
