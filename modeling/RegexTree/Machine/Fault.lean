/-
  Operations that may have no value.

  The machine reads a pattern the way a program does: it moves a cursor over the text, keeps a stack
  and buffers, takes things out of them by their index, and counts in numbers of 32 bits.  All of
  that is partial.  Where an operation has no value the machine is `stuck`, which is not the same as
  finding an error in the pattern.

  The operations are here, each with the condition under which it has a value: arithmetic of 32 bits
  without and with a sign (`word`, `signed`, `lessen`, `quotient`), lists that are written to and
  cut by an index (`replace`, `firstOf`, `drain`), texts that are cut at a position in bytes
  (`upTo`, `beyond`), and moves of the cursor.  Everything else of the machine is made of them, so
  that being stuck is never left out of account.
-/
import RegexTree.Cursor
import RegexTree.Error
import RegexTree.Syntax.Delimited

namespace RegexTree.Machine

/-- Why there is no result. -/
inductive Fault where
  /-- An operation had no value, or a loop did not come to its end. -/
  | stuck
  /-- The pattern has an error. -/
  | invalid (e : Error)
  deriving DecidableEq, Repr

/-- What the machine computes, if it is not stuck and the pattern has no error. -/
abbrev Guarded (α : Type) := Except Fault α

section

variable {α : Type}

/-- The value that has to be there. -/
def must : Option α → Guarded α
  | some a => .ok a
  | none => .error .stuck

/-- Ends with an error that shows a part of the pattern. -/
def fail (code : ErrorCode) (shown : List Char) : Guarded α :=
  .error (.invalid ⟨code, String.ofList shown⟩)

@[simp] theorem ok_bind {β : Type} (a : α) (f : α → Guarded β) : (Except.ok a >>= f) = f a := rfl

@[simp] theorem error_bind {β : Type} (e : Fault) (f : α → Guarded β) :
    ((Except.error e : Guarded α) >>= f) = .error e := rfl

@[simp] theorem pure_eq_ok (a : α) : (pure a : Guarded α) = .ok a := rfl

@[simp] theorem must_some (a : α) : must (some a) = .ok a := rfl

end

/-! ## Numbers of 32 bits -/

/-- The number, if it fits without a sign. -/
def word (n : Nat) : Guarded Nat := if n < 0x100000000 then .ok n else .error .stuck

/-- The number, if it fits with a sign. -/
def signed (n : Int) : Guarded Int :=
  if -0x80000000 ≤ n ∧ n < 0x80000000 then .ok n else .error .stuck

/-- The difference, if that is not below zero. -/
def lessen (a b : Nat) : Guarded Nat := if b ≤ a then .ok (a - b) else .error .stuck

/-- The quotient, rounded towards zero, if the divisor is not zero. -/
def quotient (a b : Int) : Guarded Int := if b = 0 then .error .stuck else signed (a.tdiv b)

theorem word_of_lt {n : Nat} (h : n < 0x100000000) : word n = .ok n := if_pos h

theorem signed_of_mem {n : Int} (h : -0x80000000 ≤ n ∧ n < 0x80000000) : signed n = .ok n := if_pos h

theorem lessen_of_le {a b : Nat} (h : b ≤ a) : lessen a b = .ok (a - b) := if_pos h

/-! ## Entries of lists -/

section

variable {α : Type}

/-- The list with another entry in a place, if it has that place. -/
def replace (l : List α) (i : Nat) (a : α) : Guarded (List α) :=
  if i < l.length then .ok (l.set i a) else .error .stuck

/-- The first `n` entries, if there are as many. -/
def firstOf (n : Nat) (l : List α) : Guarded (List α) :=
  if n ≤ l.length then .ok (l.take n) else .error .stuck

/-- What is left of a list without its first `n` entries, if there are as many. -/
def drain (n : Nat) (l : List α) : Guarded (List α) :=
  if n ≤ l.length then .ok (l.drop n) else .error .stuck

theorem replace_of_lt {l : List α} {i : Nat} (h : i < l.length) (a : α) :
    replace l i a = .ok (l.set i a) := if_pos h

theorem firstOf_of_le {n : Nat} {l : List α} (h : n ≤ l.length) : firstOf n l = .ok (l.take n) :=
  if_pos h

theorem drain_of_le {n : Nat} {l : List α} (h : n ≤ l.length) : drain n l = .ok (l.drop n) :=
  if_pos h

end

/-! ## Parts of a text, in bytes -/

/-- The first `n` bytes of a text, if they end between two characters. -/
def upTo (n : Nat) (text : List Char) : Guarded (List Char) :=
  must ((Cursor.splitBytes? n text).map (·.1))

/-- A text without its first `n` bytes, if they end between two characters. -/
def beyond (n : Nat) (text : List Char) : Guarded (List Char) :=
  must ((Cursor.splitBytes? n text).map (·.2))

/-- The number of bytes before the first occurrence of `stop`. -/
def find? (stop text : List Char) : Option Nat :=
  (splitAt? stop text).map fun (before, _) => Cursor.byteCount before

/-! ## The cursor -/

/-- The character at the cursor. -/
def peek (c : Cursor) : Guarded Char := must c.peek?

/-- The character at the cursor, and the cursor after it. -/
def pop (c : Cursor) : Guarded (Char × Cursor) := must c.pop?

/-- The cursor after `n` characters of ASCII. -/
def skipAscii (c : Cursor) (n : Nat) : Guarded Cursor := must (c.skipAscii? n)

/-- The cursor after the text `s`. -/
def skipText (c : Cursor) (s : List Char) : Guarded Cursor := must (c.skip? s)

/-- The cursor at an earlier position. -/
def rewind (c : Cursor) (pos : Nat) : Guarded Cursor := must (c.moveTo? pos)

/-- The text from a position to the cursor. -/
def since (c : Cursor) (start : Nat) : Guarded (List Char) := must (c.since? start)

/-- Ends with an error that shows the text from a position to the cursor. -/
def failSince {α : Type} (code : ErrorCode) (c : Cursor) (start : Nat) : Guarded α := do
  fail code (← since c start)

end RegexTree.Machine
