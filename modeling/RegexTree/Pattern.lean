/-
  Patterns: what reading one gives.

  A pattern is a tree with the table of its captures: how many there are, and which have a name.
  `parsePattern` reads a text under flags and a limit on nesting, and gives a pattern or a syntax
  error; `parse` is the same without the table and with the usual limit.  With the flag for it the
  whole text is one literal, and nothing in it is a sign.

  `parseWith` is `parsePattern` for any assembly of trees.
-/
import RegexTree.Parse.State
import RegexTree.Tree.Simplify

namespace RegexTree

/-- A pattern that was read. -/
structure Pattern where
  /-- The tree, in normal form. -/
  root : Tree
  /-- The number of captures. -/
  captures : Nat
  /-- The names of captures with their numbers, in the order of their numbers. -/
  names : List (String × Nat)

namespace Pattern

/-- The number of the capture with a name. -/
def nameIndex? (p : Pattern) (name : String) : Option Nat := p.names.lookup name

/-- The names of the captures by number, from 0 to the number of captures. -/
def capNames (p : Pattern) : List (Option String) :=
  p.names.foldl (fun names (name, cap) => names.set cap (some name))
    (List.replicate (p.captures + 1) none)

/-- The tree without counted repetition. -/
def simplified (p : Pattern) : Tree := p.root.simplify

end Pattern

/-- How deep groups and repetitions may stand in one another if nothing else is said. -/
def defaultNestLimit : Nat := 1000

/-- Reads a pattern, and makes of its parts what the assembly says.  A literal pattern is one
    literal, whatever is in it. -/
def parseWith (assembly : Assembly) (pattern : String) (flags : Flags)
    (nestLimit : Nat) : Except Error Pattern :=
  if flags.literal then
    .ok ⟨.literal (runesOf pattern.toList) flags, 0, []⟩
  else
    let setting : Parse.Setting := ⟨assembly, nestLimit, pattern.toList⟩
    match Parse.State.run setting { flags } pattern.toList with
    | .error e => .error e
    | .ok s =>
      if s.groups.isEmpty then .ok ⟨s.level.finish assembly, s.captures, s.names⟩
      else .error (.toEnd .missingParen pattern.toList)

/-- Reads a pattern under flags and a limit on nesting. -/
def parsePattern (pattern : String) (flags : Flags) (nestLimit : Nat) : Except Error Pattern :=
  parseWith .normal pattern flags nestLimit

/-- The tree of a pattern, under the usual limit on nesting. -/
def parse (pattern : String) (flags : Flags) : Except Error Tree :=
  (parsePattern pattern flags defaultNestLimit).map (·.root)

end RegexTree
