/-
  The captures of a tree.

  They are listed in preorder, each with its number and its name if it has one.  The largest number
  and the list of names by number are computed from the nodes, and so they have an answer for trees
  whose captures are not numbered from 1 on, too.
-/
import RegexTree.Tree.Basic

namespace RegexTree.Tree

/-- The numbers and names of the captures, in preorder. -/
def captures (t : Tree) : List (Nat × Option String) :=
  t.preorder.filterMap fun (l, _) => if l.op = .capture then some (l.cap, l.name) else none

/-- The largest number of a capture, or 0 if there is none. -/
def maxCap (t : Tree) : Nat := (t.captures.map (·.1)).foldl max 0

/-- The names of the captures by number, from 0 to `maxCap`.  Number 0, numbers without a capture
    and captures without a name have none; of two captures with one number the later counts. -/
def capNames (t : Tree) : List (Option String) :=
  t.captures.foldl (fun names (cap, name) => names.set cap name)
    (List.replicate (t.maxCap + 1) none)

end RegexTree.Tree
