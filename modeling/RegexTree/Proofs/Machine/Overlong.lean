/-
  Where reading comes to an escape with too many digits.

  The predicates follow the readers, so each comes apart as its reader does: a bracket at its first
  item (`overlongItems_iff`) and a run at its first token (`overlongRun_iff`).  The machine is stuck
  under just these conditions, which is proved beside what it reads; with the equivalences here the
  two come apart in step.

  A pattern that comes to such an escape has too many digits somewhere
  (`OverlongPattern.hasOverlong`), and is longer than the digits that can be counted
  (`HasOverlong.lt_length`).  So patterns of less than 2 ^ 31 characters are not concerned.  There
  are others, since zeros write a rune, however many there are (`overlong_zeros`).

  The converse of the first does not hold, which is why there is more than one predicate: digits may
  stand in quoted text, or after an error that ends the reading, and there the machine does not
  count them.
-/
import RegexTree.Machine.Overlong

namespace RegexTree.Machine

open Numeral (hexDigit? ofHex?)
open Parse (State Setting)

variable {text : List Char}

/-! ## Digits -/

/-- One more digit. -/
theorem ofHex?_concat (digits : List Char) (c : Char) :
    ofHex? (digits ++ [c]) =
      (ofHex? digits).bind fun n => (hexDigit? c).map (n * 16 + ·) := by
  rw [ofHex?, List.foldlM_append]
  cases h : ofHex? digits with
  | none =>
    rw [← ofHex?, h]
    rfl
  | some n =>
    rw [← ofHex?, h]
    simp

/-- Digits that follow do not make the number smaller. -/
theorem exists_ofHex?_of_append {digits more : List Char} {r : Nat}
    (h : ofHex? (digits ++ more) = some r) : ∃ n ≤ r, ofHex? digits = some n := by
  induction more generalizing digits with
  | nil => exact ⟨r, Nat.le_refl r, by rwa [List.append_nil] at h⟩
  | cons c more ih =>
    rw [List.append_cons] at h
    obtain ⟨n, hn, hdigits⟩ := ih h
    rw [ofHex?_concat, Option.bind_eq_some_iff] at hdigits
    obtain ⟨k, hk, hc⟩ := hdigits
    obtain ⟨d, -, rfl⟩ := Option.map_eq_some_iff.mp hc
    exact ⟨k, by omega, hk⟩

theorem ofHex?_zeros (n : Nat) : ofHex? (List.replicate n '0') = some 0 := by
  induction n with
  | zero => rfl
  | succ n ih =>
    rw [List.replicate_succ', ofHex?_concat, ih]
    rfl

/-- As many zeros are too many digits, and write a rune. -/
theorem overlong_zeros : Overlong (List.replicate 0x80000000 '0') :=
  ⟨List.length_replicate, 0, Nat.zero_le _, ofHex?_zeros _⟩

/-! ## Somewhere in the text -/

theorem HasOverlong.of_suffix {rest : List Char} (h : HasOverlong rest) (hrest : rest <:+ text) :
    HasOverlong text := by
  obtain ⟨digits, hlong, hin⟩ := h
  exact ⟨digits, hlong, hin.trans hrest.isInfix⟩

/-- Such a text is longer than the machine can count. -/
theorem HasOverlong.lt_length (h : HasOverlong text) : 0x80000000 < text.length := by
  obtain ⟨digits, hlong, hin⟩ := h
  have hle := hin.length_le
  rw [List.length_cons, List.length_cons, List.length_cons, hlong.length] at hle
  omega

/-! ## Escapes -/

/-- After an opening brace it is the digits that decide. -/
theorem overlongRune_brace {rest : List Char} :
    OverlongRune ('\\' :: 'x' :: '{' :: rest) ↔ ∃ digits, Overlong digits ∧ digits <+: rest :=
  exists_congr fun _ => and_congr_right fun _ => List.prefix_append_right_inj ['\\', 'x', '{']

/-- Only an escape `\x{` can have too many digits. -/
theorem OverlongRune.exists_eq (h : OverlongRune text) :
    ∃ digits rest, Overlong digits ∧ text = '\\' :: 'x' :: '{' :: (digits ++ rest) := by
  obtain ⟨digits, hlong, rest, rfl⟩ := h
  exact ⟨digits, rest, hlong, rfl⟩

theorem not_overlongRune_nil : ¬OverlongRune [] := fun h => by
  obtain ⟨digits, rest, -, he⟩ := h.exists_eq
  cases he

/-- An escape that begins with too many digits has them. -/
theorem OverlongRune.hasOverlong (h : OverlongRune text) : HasOverlong text := by
  obtain ⟨digits, hlong, hin⟩ := h
  exact ⟨digits, hlong, hin.isInfix⟩

/-! ## Brackets -/

section

variable {flags : Flags} {opening : List Char}

theorem OverlongRange.hasOverlong (h : OverlongRange opening text) : HasOverlong text := by
  rcases h with hlow | ⟨lo, hlo, -, hhigh⟩
  · exact hlow.hasOverlong
  · exact hhigh.hasOverlong.of_suffix
      ((List.tail_suffix _).trans (consumed_of_readBracketRune hlo).isSuffix)

/-- Where an item has too many digits there is an item. -/
theorem OverlongItems.itemFollows {first : Bool} (h : OverlongItems flags opening first text) :
    ItemFollows flags first text := by
  cases h with
  | here hnext => exact hnext
  | later hnext => exact hnext

/-- The items come to such an escape at the first of them, or at one of the others. -/
theorem overlongItems_iff {first : Bool} (hnext : ItemFollows flags first text) :
    OverlongItems flags opening first text ↔
      OverlongItem flags opening text ∨ ∃ found, readItem flags opening text = .ok found ∧
        OverlongItems flags opening false found.2 := by
  constructor
  · intro h
    cases h with
    | here _ h => exact Or.inl h
    | later _ hitem h => exact Or.inr ⟨_, hitem, h⟩
  · rintro (h | ⟨found, hitem, h⟩)
    · exact .here hnext h
    · exact .later hnext hitem h

theorem OverlongItems.hasOverlong {first : Bool} (h : OverlongItems flags opening first text) :
    HasOverlong text := by
  induction h with
  | here _ h => exact h.2.hasOverlong
  | later _ hitem _ ih => exact ih.of_suffix (consumed_of_readItem hitem).isSuffix

theorem OverlongToken.hasOverlong (h : OverlongToken flags text) : HasOverlong text := by
  cases h with
  | rune h => exact h.hasOverlong
  | @bracket rest h =>
    exact (OverlongItems.hasOverlong h).of_suffix
      ((splitCaret_suffix rest).trans (List.suffix_cons '[' rest))

/-- A bracket is read as a bracket. -/
theorem overlongToken_bracket :
    OverlongToken flags ('[' :: text) ↔ OverlongBracket flags text := by
  refine ⟨fun h => ?_, .bracket⟩
  cases h with
  | rune h =>
    obtain ⟨digits, rest, -, he⟩ := h.exists_eq
    cases he
  | bracket h => exact h

/-- Whatever follows a backslash, too many digits make it an escape. -/
theorem overlongToken_backslash :
    OverlongToken flags ('\\' :: text) ↔ OverlongRune ('\\' :: text) := by
  refine ⟨fun h => ?_, .rune⟩
  cases h with
  | rune h => exact h

/-- A token that begins with any other sign has no such escape. -/
theorem not_overlongToken {c : Char} (hbracket : c ≠ '[') (hslash : c ≠ '\\') :
    ¬OverlongToken flags (c :: text) := fun h => by
  cases h with
  | rune h =>
    obtain ⟨digits, rest, -, he⟩ := h.exists_eq
    exact hslash (List.cons.inj he).1
  | bracket => exact hbracket rfl

end

/-! ## Runs -/

section

variable {setting : Setting} {s : State}

/-- A run comes to such an escape at its first token, or at one of the others. -/
theorem overlongRun_iff {c : Char} {tail : List Char} :
    OverlongRun setting s (c :: tail) ↔
      OverlongToken s.flags (c :: tail) ∨ ∃ token rest next,
        readToken s.flags c tail = .ok (token, rest) ∧
          s.apply setting (c :: tail) rest token = .ok next ∧ OverlongRun setting next rest := by
  constructor
  · intro h
    cases h with
    | here h => exact Or.inl h
    | later hread happly h => exact Or.inr ⟨_, _, _, hread, happly, h⟩
  · rintro (h | ⟨token, rest, next, hread, happly, h⟩)
    · exact .here h
    · exact .later hread happly h

theorem not_overlongRun_nil : ¬OverlongRun setting s [] := fun h => by
  cases h with
  | here h =>
    cases h with
    | rune h => exact not_overlongRune_nil h

/-- A run comes to them at one of its tokens. -/
theorem OverlongRun.hasOverlong (h : OverlongRun setting s text) : HasOverlong text := by
  induction h with
  | here h => exact h.hasOverlong
  | later hread _ _ ih =>
    exact ih.of_suffix ((readToken_suffix hread).trans (List.suffix_cons _ _))

end

/-- A pattern in which reading comes to such an escape has its digits somewhere. -/
theorem OverlongPattern.hasOverlong {pattern : String} {flags : Flags} {nestLimit : Nat}
    (h : OverlongPattern pattern flags nestLimit) : HasOverlong pattern.toList :=
  h.2.hasOverlong

end RegexTree.Machine
