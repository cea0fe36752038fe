/-
  Cursors as places in a text.

  A reader of texts says of what is left where it stands; a cursor knows what is before it too.
  `Cursor.place` puts the cursor where a given rest of the text is left.  At such places every
  operation of the cursor has a value, and the value is again such a place: looking and taking need
  that something is left (`peek_place`, `pop_place`), skipping that the characters are there and,
  since it counts in bytes, that they are ASCII (`skipAscii_place`), and going back that the
  position is one of an earlier place (`rewind_place`).

  Positions are counted in bytes, and a text is cut at a position by counting the bytes of its
  characters; a position between the bytes of a character would be no place.  All positions that the
  machine remembers are those of places (`pos_place`), and cutting there gives the characters before
  and after (`splitBytes?_append`), so that what is shown between two of them is what stands between
  the places (`since_place`).

  With that each reader of the machine is a function of the text that is left, and is compared with
  the reader of texts at that.
-/
import RegexTree.Machine.Fault

namespace RegexTree

namespace Cursor

/-- The place in a text where `rest` is left of it. -/
def place (text rest : List Char) : Cursor := ⟨text.take (text.length - rest.length), rest⟩

@[simp] theorem rest_place (text rest : List Char) : (place text rest).rest = rest := rfl

theorem place_append (before rest : List Char) : place (before ++ rest) rest = ⟨before, rest⟩ := by
  simp [place]

theorem text_place {text rest : List Char} (h : rest <:+ text) : (place text rest).text = text := by
  obtain ⟨before, rfl⟩ := h
  rw [place_append]
  rfl

/-- The position of a place is the number of bytes before it. -/
theorem pos_place (before rest : List Char) :
    (place (before ++ rest) rest).pos = byteCount before := by
  rw [place_append]
  rfl

/-- Moving on by some characters is the place after them. -/
theorem advance_place {text rest : List Char} (taken : List Char) (h : taken ++ rest <:+ text) :
    (place text (taken ++ rest)).advance taken.length = place text rest := by
  obtain ⟨before, rfl⟩ := h
  rw [place_append, ← List.append_assoc, place_append]
  simp [advance]

theorem more_cons (text : List Char) (c : Char) (rest : List Char) :
    (place text (c :: rest)).more = true := rfl

theorem more_nil (text : List Char) : ¬(place text []).more = true := Bool.false_ne_true

/-- What stands at a place begins what is left. -/
theorem lookingAt_place (text rest s : List Char) :
    (place text rest).lookingAt s = s.isPrefixOf rest := rfl

/-- Looking at a text is looking at its first character and at the rest. -/
theorem lookingAt_cons (text s : List Char) (d c : Char) (rest : List Char) :
    (place text (c :: rest)).lookingAt (d :: s) = (d == c && (place text rest).lookingAt s) := rfl

theorem lookingAt_nil (text rest : List Char) : (place text rest).lookingAt [] = true := rfl

/-- The text at a place begins with a character. -/
theorem lookingAt_one (text rest : List Char) (c : Char) :
    (place text rest).lookingAt [c] = (rest.head? == some c) := by
  cases rest with
  | nil => rfl
  | cons d rest =>
    rw [lookingAt_cons, lookingAt_nil, Bool.and_true, List.head?_cons, Bool.eq_iff_iff, beq_iff_eq,
      beq_iff_eq, Option.some_inj, eq_comm]

theorem lookingAt_self (text rest : List Char) (c : Char) :
    (place text (c :: rest)).lookingAt [c] = true := by
  rw [lookingAt_one, List.head?_cons, beq_self_eq_true]

theorem lookingAt_two (text rest : List Char) (c d : Char) :
    (place text (c :: d :: rest)).lookingAt [c, d] = true := by
  rw [lookingAt_cons, lookingAt_self, Bool.and_true, beq_self_eq_true]

theorem lookingAt_ne {c : Char} {rest : List Char} (text : List Char) (h : rest.head? ≠ some c) :
    ¬(place text rest).lookingAt [c] = true := by
  rw [lookingAt_one, beq_iff_eq]
  exact h

/-! ## Bytes -/

@[simp] theorem byteCount_nil : byteCount [] = 0 := rfl

@[simp] theorem byteCount_cons (c : Char) (text : List Char) :
    byteCount (c :: text) = c.utf8Size + byteCount text := rfl

theorem byteCount_append (a b : List Char) : byteCount (a ++ b) = byteCount a + byteCount b := by
  induction a with
  | nil => exact (Nat.zero_add _).symm
  | cons c a ih => rw [List.cons_append, byteCount_cons, byteCount_cons, ih, Nat.add_assoc]

theorem length_le_byteCount (text : List Char) : text.length ≤ byteCount text := by
  induction text with
  | nil => exact Nat.le_refl 0
  | cons c text ih =>
    have := c.utf8Size_pos
    rw [List.length_cons, byteCount_cons]
    omega

/-- A text is cut between two of its characters. -/
theorem splitBytes?_append (before rest : List Char) :
    splitBytes? (byteCount before) (before ++ rest) = some (before, rest) := by
  induction before with
  | nil => exact splitBytes?.eq_1 rest
  | cons c before ih =>
    have hpos := c.utf8Size_pos
    obtain ⟨n, hn⟩ : ∃ n, byteCount (c :: before) = n + 1 :=
      ⟨byteCount (c :: before) - 1, by rw [byteCount_cons]; omega⟩
    have hsub : n + 1 - c.utf8Size = byteCount before := by
      rw [← hn, byteCount_cons]
      omega
    rw [hn, List.cons_append, splitBytes?, if_pos (by rw [← hn, byteCount_cons]; omega), hsub, ih]
    rfl

/-- The characters of ASCII are those that take one byte. -/
theorem utf8Size_le_one_iff {c : Char} : c.utf8Size ≤ 1 ↔ c.toNat < 128 := by
  have hone : c.utf8Size ≤ 1 ↔ c.utf8Size = 1 := by
    have := c.utf8Size_pos
    omega
  rw [hone, Char.utf8Size_eq_one_iff, UInt32.le_iff_toNat_le]
  exact Nat.lt_succ_iff.symm

/-- Characters of ASCII are bytes. -/
theorem byteCount_of_ascii {text : List Char} (h : ∀ c ∈ text, c.toNat < 128) :
    byteCount text = text.length := by
  induction text with
  | nil => rfl
  | cons c text ih =>
    obtain ⟨hc, htext⟩ := List.forall_mem_cons.mp h
    have hsize : c.utf8Size = 1 := Nat.le_antisymm (utf8Size_le_one_iff.mpr hc) c.utf8Size_pos
    rw [byteCount_cons, List.length_cons, hsize, ih htext, Nat.add_comm]

end Cursor

namespace Machine

open Cursor

variable {text start rest : List Char}

theorem upTo_append (a b : List Char) : upTo (byteCount a) (a ++ b) = .ok a := by
  rw [upTo, splitBytes?_append]
  rfl

theorem beyond_append (a b : List Char) : beyond (byteCount a) (a ++ b) = .ok b := by
  rw [beyond, splitBytes?_append]
  rfl

/-! ## Moving on -/

/-- There is a character to look at where one is left. -/
theorem peek_place (text : List Char) (c : Char) (rest : List Char) :
    peek (place text (c :: rest)) = .ok c := rfl

theorem pop_place {c : Char} (h : c :: rest <:+ text) :
    pop (place text (c :: rest)) = .ok (c, place text rest) :=
  congrArg (fun p => Except.ok (c, p)) (advance_place [c] h)

/-- Skipping some characters of one byte each is the place after them. -/
theorem skipAscii_place (taken : List Char) (h : taken ++ rest <:+ text)
    (hascii : ∀ c ∈ taken, c.toNat < 128) :
    skipAscii (place text (taken ++ rest)) taken.length = .ok (place text rest) := by
  rw [skipAscii, skipAscii?, if_pos, advance_place taken h]
  · rfl
  · rw [rest_place, List.take_left, List.length_append, List.all_eq_true]
    exact ⟨Nat.le_add_right _ _, fun c hc => decide_eq_true (hascii c hc)⟩

theorem skipAscii_one {c : Char} (h : c :: rest <:+ text) (hc : c.toNat < 128) :
    skipAscii (place text (c :: rest)) 1 = .ok (place text rest) :=
  skipAscii_place [c] h (List.forall_mem_singleton.mpr hc)

theorem skipAscii_two {c d : Char} (h : c :: d :: rest <:+ text) (hc : c.toNat < 128)
    (hd : d.toNat < 128) : skipAscii (place text (c :: d :: rest)) 2 = .ok (place text rest) :=
  skipAscii_place [c, d] h (List.forall_mem_cons.mpr ⟨hc, List.forall_mem_singleton.mpr hd⟩)

/-- Skipping a text that is there is the place after it. -/
theorem skipText_place {s : List Char} (h : s ++ rest <:+ text) :
    skipText (place text (s ++ rest)) s = .ok (place text rest) := by
  rw [skipText, skip?, if_pos, advance_place s h]
  · rfl
  · exact List.isPrefixOf_iff_prefix.mpr (List.prefix_append s rest)

/-- Going back to the position of a place is that place. -/
theorem rewind_place (hstart : start <:+ text) (hrest : rest <:+ text) :
    rewind (place text rest) (place text start).pos = .ok (place text start) := by
  obtain ⟨before, rfl⟩ := hstart
  rw [rewind, moveTo?, text_place hrest, pos_place, splitBytes?_append, place_append]
  rfl

/-! ## Looking back -/

/-- What stands between two places is what was left at the first and is not at the second. -/
theorem since_place (hstart : start <:+ text) (hrest : rest <:+ start) :
    since (place text rest) (place text start).pos =
      .ok (start.take (start.length - rest.length)) := by
  obtain ⟨taken, rfl⟩ := hrest
  obtain ⟨before, rfl⟩ := hstart
  rw [since, since?, pos_place, ← List.append_assoc, place_append, splitBytes?_append]
  simp

/-- An error that looks back to an earlier place shows the text between the places. -/
theorem failSince_place {α : Type} {code : ErrorCode} (hstart : start <:+ text)
    (hrest : rest <:+ start) :
    (failSince code (place text rest) (place text start).pos : Guarded α) =
      .error (.invalid (.between code start rest)) := by
  rw [failSince, since_place hstart hrest]
  rfl

/-- All from the position of a place on is what is left there. -/
theorem beyond_pos (hstart : start <:+ text) : beyond (place text start).pos text = .ok start := by
  obtain ⟨before, rfl⟩ := hstart
  rw [pos_place, beyond_append]

end Machine

end RegexTree
