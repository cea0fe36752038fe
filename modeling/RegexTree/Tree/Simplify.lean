/-
  Trees without counted repetition.

  `simplify` writes `x{n,m}` as n copies of x followed by m - n optional ones, each inside the one
  before it, and `x{n,}` with a star or a plus at the end.  A repetition of a repetition of the same
  kind becomes one, and a repetition of the empty text becomes the empty text.  What matches, and in
  which order of preference, stays the same but for one case: where a plus over a plus becomes one,
  results are lost in which a later round takes nothing and sets a capture.

  The root of a simplified tree is marked, and a marked tree is not simplified again.
-/
import RegexTree.Tree.Sequence

namespace RegexTree.Tree

/-- The tree under a star, plus or quest, unless that changes nothing: the empty text repeated is
    the empty text, and a repetition of the same kind repeated is itself. -/
def repeated (op : Op) (flags : Flags) (t : Tree) : Tree :=
  if t.op = .emptyMatch then t
  else if t.op = op ∧ t.flags.nonGreedy = flags.nonGreedy then t
  else node { op, flags := { flags with simple := false } } [t]

/-- The parts in sequence, sequences among them taken apart.  Literals stay apart: the copies of a
    repeated literal remain as they are. -/
def inSequence (parts : List Tree) : Tree := branching .concat (parts.flatMap (spliced .concat))

/-- `n + 1` optional copies of `t`, each following the one before it only if that is there. -/
def optional (flags : Flags) (t : Tree) : (n : Nat) → Tree
  | 0 => repeated .quest flags t
  | n + 1 => repeated .quest flags (inSequence [t, optional flags t n])

/-- The parts that `x{min,max}` is made of, if `max` is a bound. -/
def copies (min max : Int) (flags : Flags) (t : Tree) : List Tree :=
  List.replicate min.toNat t ++
    (if min < max then [optional flags t (max - min - 1).toNat] else [])

/-- `t` repeated from `min` to `max` times, without a counted repetition at the root. -/
def counted (min max : Int) (flags : Flags) (t : Tree) : Tree :=
  if min = 0 ∧ max = 0 then empty
  else if t.op = .emptyMatch then t
  else if max = -1 then
    if min = 0 then repeated .star flags t
    else if min = 1 then repeated .plus flags t
    else inSequence (List.replicate (min - 1).toNat t ++ [repeated .plus flags t])
  else if min = 1 ∧ max = 1 then t
  else
    match copies min max flags t with
    | [] => leaf .noMatch {}
    | [only] => only
    | parts => inSequence parts

/-- A node over simplified children. -/
def unrollNode (l : Label) (subs unrolled : List Tree) : Tree :=
  match l.op with
  | .capture | .concat | .alternate =>
    node { op := l.op, flags := l.flags, cap := l.cap, name := l.name } unrolled
  | .star | .plus | .quest => repeated l.op l.flags (unrolled.headD empty)
  | .counted => counted l.min l.max l.flags (unrolled.headD empty)
  | _ => node l subs

/-- The tree with every repetition made of copies, stars, pluses and quests. -/
def unroll : Tree → Tree := fold unrollNode

theorem unroll_node (l : Label) (subs : List Tree) :
    (node l subs).unroll = unrollNode l subs (subs.map unroll) :=
  fold_node _ l subs

/-- The tree without counted repetition, with its root marked as simple. -/
def simplify (t : Tree) : Tree :=
  if t.flags.simple then t
  else t.unroll.relabel fun l => { l with flags := { l.flags with simple := true } }

/-- Every operand that `unroll` reads is there.  The operand of a repetition that never happens
    is not read, and a capture may be without one. -/
def isUnrollable : Tree → Bool :=
  fold fun l _ parts =>
    match l.op with
    | .capture | .concat | .alternate => parts.all id
    | .star | .plus | .quest => parts.head? == some true
    | .counted => l.min == 0 && l.max == 0 || parts.head? == some true
    | _ => true

end RegexTree.Tree
