/-
  The Unicode property White_Space and the general category Cc: the runes that a printed
  pattern does not show as themselves, the blank apart.
-/
import RegexTree.Ranges.Basic

namespace RegexTree.Unicode

/-- White_Space: blanks and line ends. -/
def whiteSpace : Ranges := [
    ⟨0x9, 0xd⟩, ⟨0x20, 0x20⟩, ⟨0x85, 0x85⟩, ⟨0xa0, 0xa0⟩, ⟨0x1680, 0x1680⟩, ⟨0x2000, 0x200a⟩,
    ⟨0x2028, 0x2029⟩, ⟨0x202f, 0x202f⟩, ⟨0x205f, 0x205f⟩, ⟨0x3000, 0x3000⟩]

/-- Cc: control characters. -/
def control : Ranges := [
    ⟨0x0, 0x1f⟩, ⟨0x7f, 0x9f⟩]

end RegexTree.Unicode
