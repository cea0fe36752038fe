/-
  Case folding, looked up step by step.

  The irregular orbits stand in one table of steps, in the order of the runes that the steps start
  from, so that a search can halve the part of the table where a rune may be.  A rune that is not in
  the table goes to its small letter or to its capital, if that is a single rune and leads back
  (`partner?`).  A mapping to several runes has none that it could lead to.

  The least member of an orbit is found by walking round it.  The walk stops where it began, or
  after as many steps as the largest orbit has members.
-/
import RegexTree.Machine.Fault
import RegexTree.Unicode.Fold

namespace RegexTree.Machine

open Unicode (CaseRun mapThrough lowerRuns upperRuns inFoldSpan)

/-! ## Searching a table -/

/-- The place of the last entry with a key up to `key`, among the `size` entries from `base` on;
    `base` itself if there is none. -/
def lastUpTo (table : List (Nat × Nat)) (key base size : Nat) : Guarded Nat :=
  if size ≤ 1 then .ok base
  else do
    let middle ← must table[base + size / 2]?
    lastUpTo table key (if key < middle.1 then base else base + size / 2) (size - size / 2)
termination_by size
decreasing_by omega

/-- The place of a key in a table that is in the order of its keys. -/
def search (table : List (Nat × Nat)) (key : Nat) : Guarded (Option Nat) :=
  if table.length = 0 then .ok none
  else do
    let i ← lastUpTo table key 0 table.length
    let entry ← must table[i]?
    return if entry.1 = key then some i else none

/-- The value of a key in a table that is in the order of its keys. -/
def lookUp (table : List (Nat × Nat)) (key : Nat) : Guarded (Option Nat) := do
  match ← search table key with
  | some i => return some (← must table[i]?).2
  | none => return none

/-! ## Letter case -/

/-- The runes that a mapping to small letters takes to several runes. -/
def severalLower : List Nat := [
    0x130]

/-- The runes that a mapping to capitals takes to several runes. -/
def severalUpper : List Nat := [
    0xdf, 0x149, 0x1f0, 0x390, 0x3b0, 0x587, 0x1e96, 0x1e97, 0x1e98, 0x1e99, 0x1e9a, 0x1f50, 0x1f52,
    0x1f54, 0x1f56, 0x1f80, 0x1f81, 0x1f82, 0x1f83, 0x1f84, 0x1f85, 0x1f86, 0x1f87, 0x1f88, 0x1f89,
    0x1f8a, 0x1f8b, 0x1f8c, 0x1f8d, 0x1f8e, 0x1f8f, 0x1f90, 0x1f91, 0x1f92, 0x1f93, 0x1f94, 0x1f95,
    0x1f96, 0x1f97, 0x1f98, 0x1f99, 0x1f9a, 0x1f9b, 0x1f9c, 0x1f9d, 0x1f9e, 0x1f9f, 0x1fa0, 0x1fa1,
    0x1fa2, 0x1fa3, 0x1fa4, 0x1fa5, 0x1fa6, 0x1fa7, 0x1fa8, 0x1fa9, 0x1faa, 0x1fab, 0x1fac, 0x1fad,
    0x1fae, 0x1faf, 0x1fb2, 0x1fb3, 0x1fb4, 0x1fb6, 0x1fb7, 0x1fbc, 0x1fc2, 0x1fc3, 0x1fc4, 0x1fc6,
    0x1fc7, 0x1fcc, 0x1fd2, 0x1fd3, 0x1fd6, 0x1fd7, 0x1fe2, 0x1fe3, 0x1fe4, 0x1fe6, 0x1fe7, 0x1ff2,
    0x1ff3, 0x1ff4, 0x1ff6, 0x1ff7, 0x1ffc, 0xfb00, 0xfb01, 0xfb02, 0xfb03, 0xfb04, 0xfb05, 0xfb06,
    0xfb13, 0xfb14, 0xfb15, 0xfb16, 0xfb17]

/-- Where a case mapping takes a rune, if it takes it to a single rune. -/
def single? (several : List Nat) (runs : List CaseRun) (r : Nat) : Option Nat :=
  if several.contains r then none else some (mapThrough runs r)

/-- The small letter of a rune, if it is a single rune. -/
def lower? : Nat → Option Nat := single? severalLower lowerRuns

/-- The capital of a rune, if it is a single rune. -/
def upper? : Nat → Option Nat := single? severalUpper upperRuns

/-- The other rune that one mapping leads to, if the other mapping leads back from there. -/
def partner? (there back : Nat → Option Nat) (r : Nat) : Option Nat := do
  let other ← there r
  if other ≠ r ∧ back other = some r then some other else none

/-! ## Folding -/

/-- The steps from a member of an irregular orbit to the next. -/
def orbitSteps : List (Nat × Nat) := [
    (0x4b, 0x6b), (0x53, 0x73), (0x6b, 0x212a), (0x73, 0x17f), (0xb5, 0x39c), (0xc5, 0xe5),
    (0xdf, 0x1e9e), (0xe5, 0x212b), (0x130, 0x130), (0x131, 0x131), (0x17f, 0x53), (0x1c4, 0x1c5),
    (0x1c5, 0x1c6), (0x1c6, 0x1c4), (0x1c7, 0x1c8), (0x1c8, 0x1c9), (0x1c9, 0x1c7), (0x1ca, 0x1cb),
    (0x1cb, 0x1cc), (0x1cc, 0x1ca), (0x1f1, 0x1f2), (0x1f2, 0x1f3), (0x1f3, 0x1f1), (0x345, 0x399),
    (0x390, 0x1fd3), (0x392, 0x3b2), (0x395, 0x3b5), (0x398, 0x3b8), (0x399, 0x3b9), (0x39a, 0x3ba),
    (0x39c, 0x3bc), (0x3a0, 0x3c0), (0x3a1, 0x3c1), (0x3a3, 0x3c2), (0x3a6, 0x3c6), (0x3a9, 0x3c9),
    (0x3b0, 0x1fe3), (0x3b2, 0x3d0), (0x3b5, 0x3f5), (0x3b8, 0x3d1), (0x3b9, 0x1fbe),
    (0x3ba, 0x3f0), (0x3bc, 0xb5), (0x3c0, 0x3d6), (0x3c1, 0x3f1), (0x3c2, 0x3c3), (0x3c3, 0x3a3),
    (0x3c6, 0x3d5), (0x3c9, 0x2126), (0x3d0, 0x392), (0x3d1, 0x3f4), (0x3d5, 0x3a6), (0x3d6, 0x3a0),
    (0x3f0, 0x39a), (0x3f1, 0x3a1), (0x3f4, 0x398), (0x3f5, 0x395), (0x412, 0x432), (0x414, 0x434),
    (0x41e, 0x43e), (0x421, 0x441), (0x422, 0x442), (0x42a, 0x44a), (0x432, 0x1c80),
    (0x434, 0x1c81), (0x43e, 0x1c82), (0x441, 0x1c83), (0x442, 0x1c84), (0x44a, 0x1c86),
    (0x462, 0x463), (0x463, 0x1c87), (0x1c80, 0x412), (0x1c81, 0x414), (0x1c82, 0x41e),
    (0x1c83, 0x421), (0x1c84, 0x1c85), (0x1c85, 0x422), (0x1c86, 0x42a), (0x1c87, 0x462),
    (0x1c88, 0xa64a), (0x1e60, 0x1e61), (0x1e61, 0x1e9b), (0x1e9b, 0x1e60), (0x1e9e, 0xdf),
    (0x1f80, 0x1f88), (0x1f81, 0x1f89), (0x1f82, 0x1f8a), (0x1f83, 0x1f8b), (0x1f84, 0x1f8c),
    (0x1f85, 0x1f8d), (0x1f86, 0x1f8e), (0x1f87, 0x1f8f), (0x1f88, 0x1f80), (0x1f89, 0x1f81),
    (0x1f8a, 0x1f82), (0x1f8b, 0x1f83), (0x1f8c, 0x1f84), (0x1f8d, 0x1f85), (0x1f8e, 0x1f86),
    (0x1f8f, 0x1f87), (0x1f90, 0x1f98), (0x1f91, 0x1f99), (0x1f92, 0x1f9a), (0x1f93, 0x1f9b),
    (0x1f94, 0x1f9c), (0x1f95, 0x1f9d), (0x1f96, 0x1f9e), (0x1f97, 0x1f9f), (0x1f98, 0x1f90),
    (0x1f99, 0x1f91), (0x1f9a, 0x1f92), (0x1f9b, 0x1f93), (0x1f9c, 0x1f94), (0x1f9d, 0x1f95),
    (0x1f9e, 0x1f96), (0x1f9f, 0x1f97), (0x1fa0, 0x1fa8), (0x1fa1, 0x1fa9), (0x1fa2, 0x1faa),
    (0x1fa3, 0x1fab), (0x1fa4, 0x1fac), (0x1fa5, 0x1fad), (0x1fa6, 0x1fae), (0x1fa7, 0x1faf),
    (0x1fa8, 0x1fa0), (0x1fa9, 0x1fa1), (0x1faa, 0x1fa2), (0x1fab, 0x1fa3), (0x1fac, 0x1fa4),
    (0x1fad, 0x1fa5), (0x1fae, 0x1fa6), (0x1faf, 0x1fa7), (0x1fb3, 0x1fbc), (0x1fbc, 0x1fb3),
    (0x1fbe, 0x345), (0x1fc3, 0x1fcc), (0x1fcc, 0x1fc3), (0x1fd3, 0x390), (0x1fe3, 0x3b0),
    (0x1ff3, 0x1ffc), (0x1ffc, 0x1ff3), (0x2126, 0x3a9), (0x212a, 0x4b), (0x212b, 0xc5),
    (0xa64a, 0xa64b), (0xa64b, 0x1c88), (0xfb05, 0xfb06), (0xfb06, 0xfb05)]

/-- The next member of the fold orbit of a rune. -/
def nextFold (r : Nat) : Guarded Nat :=
  if !inFoldSpan r then .ok r
  else do
    match ← lookUp orbitSteps r with
    | some next => return next
    | none =>
      if (scalar? r).isNone then return r
      else return (partner? lower? upper? r <|> partner? upper? lower? r).getD r

/-- The most members that an orbit has. -/
def maxOrbit : Nat := 4

/-- The least of the runes that a walk meets from `f` on until it is back at `r`, and of `least`. -/
def leastFrom (r : Nat) : (steps f least : Nat) → Guarded Nat
  | 0, _, least => .ok least
  | steps + 1, f, least =>
    if f = r then .ok least else do leastFrom r steps (← nextFold f) (min least f)

/-- The smallest member of the fold orbit of a rune. -/
def leastFold (r : Nat) : Guarded Nat :=
  if !inFoldSpan r then .ok r else do leastFrom r maxOrbit (← nextFold r) r

end RegexTree.Machine
