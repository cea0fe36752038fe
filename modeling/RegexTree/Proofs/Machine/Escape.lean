/-
  The machine reads escapes as they are read from a text, if it can count their digits.

  An escape is a sign, up to three octal digits, two hexadecimal digits, or any number of them in
  braces, as long as they write a rune: zeros in front do not count for the rune.  The number itself
  never grows too large, since it is compared with the largest rune at each digit; octal digits come
  to 511 at most (`octal_place`).

  But the machine counts the digits in braces in 32 bits with a sign, and is stuck when it comes to
  the digit with the number 2 ^ 31 (`bracedHex_stuck`).  That is the one place where it is stuck: up
  to there it reads what is read of the text (`bracedHex_place`), and so it does with every other
  escape (`escapeRune_place`).  The two together are `escape_agrees`, which is what all other
  readers cite.

  Both directions need the digits that were read before the cursor, since it is those and the ones
  to come that are too many; the induction is on the loop, and on the digits to come, with the
  number and the count of the digits that were read as what the loop holds (`bracedHex_digit`).
-/
import RegexTree.Machine.Reader
import RegexTree.Proofs.Machine.Agree
import RegexTree.Proofs.Machine.Overlong
import RegexTree.Proofs.Syntax.Signs
import Mathlib.Algebra.Group.Nat.Defs

namespace RegexTree.Machine

open Cursor
open Numeral (isDecimal isOctal hexDigit? ofHex?)

variable {text : List Char}

/-! ## Octal digits -/

theorem toNat_of_isOctal {c : Char} (h : isOctal c = true) : 48 ≤ c.toNat ∧ c.toNat ≤ 55 := by
  rw [isOctal, Bool.and_eq_true, decide_eq_true_eq, decide_eq_true_eq] at h
  exact h

/-- There is an octal digit at a place if what is left begins with one. -/
theorem atOctalDigit_place (text rest : List Char) :
    atOctalDigit (place text rest) = .ok (rest.head?.any isOctal) := by
  cases rest with
  | nil => rfl
  | cons c rest => rfl

/-- As many octal digits are read as there are, up to a number of them. -/
theorem octal_place {n r : Nat} {rest : List Char} (hrest : rest <:+ text)
    (hr : (r + 1) * 8 ^ n ≤ 2 ^ 16) :
    octal n r (place text rest) =
      .ok (Nat.ofDigitChars 8 ((rest.take n).takeWhile isOctal) r,
        place text (rest.drop ((rest.take n).takeWhile isOctal).length)) := by
  -- `hr` bounds the number whatever the `n` digits are that may still come
  induction n generalizing r rest with
  | zero => rfl
  | succ n ih =>
    rw [octal, atOctalDigit_place]
    cases rest with
    | nil => rfl
    | cons c rest =>
      rw [ok_bind, List.head?_cons, Option.any_some, List.take_succ_cons]
      cases hc : isOctal c with
      | false =>
        rw [List.takeWhile_cons_of_neg (by rw [hc]; exact Bool.false_ne_true)]
        rfl
      | true =>
        obtain ⟨hlow, hhigh⟩ := toNat_of_isOctal hc
        have hpow : 0 < 8 ^ n := Nat.pos_of_ne_zero (by simp)
        have hstep : (r * 8 + 8) * 8 ^ n ≤ 2 ^ 16 := by
          rw [Nat.pow_succ, Nat.mul_comm (8 ^ n), ← Nat.mul_assoc] at hr
          rwa [show r * 8 + 8 = (r + 1) * 8 by omega]
        have hsmall : r * 8 + 8 ≤ 2 ^ 16 := Nat.le_trans (Nat.le_mul_of_pos_right _ hpow) hstep
        have hzero : '0'.toNat = 48 := rfl
        rw [if_pos rfl, pop_place hrest, ok_bind]
        dsimp only
        rw [word_of_lt (by omega), ok_bind, word_of_lt (by omega), ok_bind,
          lessen_of_le (by omega), ok_bind,
          ih ((List.suffix_cons _ _).trans hrest)
            (Nat.le_trans (Nat.mul_le_mul_right _ (by omega)) hstep),
          List.takeWhile_cons_of_pos hc, Nat.ofDigitChars_cons]
        have hvalue : r * 8 + c.toNat - '0'.toNat = 8 * r + (c.toNat - '0'.toNat) := by omega
        rw [hvalue]
        rfl

/-! ## Hexadecimal digits -/

theorem hexDigit?_close : hexDigit? '}' = none := by decide

section

variable {steps r : Nat} {rest : List Char}

/-- The brace that closes ends the digits. -/
theorem bracedHex_close (hrest : '}' :: rest <:+ text) (digits : Nat) :
    bracedHex (steps + 1) r digits (place text ('}' :: rest)) =
      .ok (if digits = 0 then none else some r, place text rest) := by
  rw [bracedHex, if_pos (more_cons text '}' rest), pop_place hrest, ok_bind]
  dsimp only
  rw [if_pos rfl]
  simp only [Int.natCast_eq_zero]
  rfl

/-- A digit that is read: it is counted, or there is no number for the count. -/
theorem bracedHex_digit {d : Nat} {c : Char} (hrest : c :: rest <:+ text)
    (hd : hexDigit? c = some d) (hr : r * 16 + d ≤ maxRune) (digits : Nat) :
    bracedHex (steps + 1) r digits (place text (c :: rest)) =
      if digits + 1 < 0x80000000 then
        bracedHex steps (r * 16 + d) (digits + 1 : Nat) (place text rest)
      else .error .stuck := by
  have hclose : c ≠ '}' := by
    rintro rfl
    cases hexDigit?_close.symm.trans hd
  have hmax : maxRune = 1114111 := rfl
  rw [bracedHex, if_pos (more_cons text c rest), pop_place hrest, ok_bind]
  dsimp only
  rw [if_neg hclose, hd]
  dsimp only
  rw [word_of_lt (by omega), ok_bind, word_of_lt (by omega), ok_bind,
    if_neg (Nat.not_lt.mpr hr)]
  split
  · rw [signed_of_mem (by omega)]
    rfl
  · next hmany =>
    rw [show signed ((digits : Int) + 1) = .error .stuck from if_neg (by omega)]
    rfl

/-- Any other character, and a digit that would write too large a number, ends the reading.  It is
    not counted. -/
theorem bracedHex_refused {c : Char} (hrest : c :: rest <:+ text) (hclose : c ≠ '}')
    (hr : r ≤ maxRune) (hlarge : ∀ d, hexDigit? c = some d → maxRune < r * 16 + d) (digits : Int) :
    bracedHex (steps + 1) r digits (place text (c :: rest)) = .ok (none, place text rest) := by
  have hmax : maxRune = 1114111 := rfl
  rw [bracedHex, if_pos (more_cons text c rest), pop_place hrest, ok_bind]
  dsimp only
  rw [if_neg hclose]
  cases hd : hexDigit? c with
  | none => rfl
  | some d =>
    have hlt := hexDigit?_lt hd
    dsimp only
    rw [word_of_lt (by omega), ok_bind, word_of_lt (by omega), ok_bind, if_pos (hlarge d hd)]
    rfl

end

/-- The loop over digits in braces reads what is read of the text, as long as the digits that were
    read and those to come are not too many.  By induction on the text that is left: the count is
    the number of digits before the cursor, and the number is what they write. -/
theorem bracedHex_place {steps r : Nat} (seen : List Char) {rest : List Char}
    (hrest : rest <:+ text) (hsteps : rest.length < steps) (hseen : ofHex? seen = some r)
    (hr : r ≤ maxRune) (hfew : seen.length < 0x80000000)
    (hfree : ∀ more, more <+: rest → ¬Overlong (seen ++ more)) :
    bracedHex steps r seen.length (place text rest) =
      .ok ((readBracedHex (if seen = [] then none else some r) rest).1,
        place text (readBracedHex (if seen = [] then none else some r) rest).2) := by
  -- `hr` keeps the number small enough for one more digit
  induction steps generalizing r seen rest with
  | zero => cases hsteps
  | succ steps ih =>
    cases rest with
    | nil => rfl
    | cons c rest =>
      by_cases hclose : c = '}'
      · subst hclose
        simp only [bracedHex_close hrest, List.length_eq_zero_iff]
        rfl
      have hgetD : (if seen = [] then none else some r).getD 0 = r := by
        split
        · next h =>
          subst h
          exact Option.some.inj hseen
        · rfl
      rw [readBracedHex.eq_3 _ _ _ hclose, hgetD]
      by_cases hread : ∃ d, hexDigit? c = some d ∧ r * 16 + d ≤ maxRune
      · obtain ⟨d, hd, hle⟩ := hread
        have hdigits : ofHex? (seen ++ [c]) = some (r * 16 + d) := by
          rw [ofHex?_concat, hseen, Option.bind_some, hd]
          rfl
        have hlen : (seen ++ [c]).length = seen.length + 1 := List.length_append
        -- this digit can be counted, or it would be the one that is too many
        have hcount : (seen ++ [c]).length < 0x80000000 := by
          refine Nat.lt_of_not_le fun hmany => ?_
          refine hfree [c] ((List.prefix_cons_inj c).mpr List.nil_prefix) ⟨?_, _, hle, hdigits⟩
          omega
        have hnext := ih (seen ++ [c]) ((List.suffix_cons c rest).trans hrest)
          (Nat.lt_of_succ_lt_succ hsteps) hdigits hle hcount fun more hmore => by
            rw [← List.append_cons]
            exact hfree (c :: more) ((List.prefix_cons_inj c).mpr hmore)
        rw [if_neg (List.append_ne_nil_of_right_ne_nil _ (List.cons_ne_nil c []))] at hnext
        rw [bracedHex_digit hrest hd hle, ← hlen, if_pos hcount, hnext, hd]
        dsimp only
        rw [if_neg (Nat.not_lt.mpr hle)]
      · have hlarge : ∀ d, hexDigit? c = some d → maxRune < r * 16 + d := fun d hd =>
          Nat.lt_of_not_le fun hle => hread ⟨d, hd, hle⟩
        rw [bracedHex_refused hrest hclose hr hlarge]
        cases hd : hexDigit? c with
        | none => rfl
        | some d =>
          dsimp only
          rw [if_pos (hlarge d hd)]

/-- If those that were read and the ones to come are too many, the loop is stuck.  It goes on until
    then, since zeros and digits that write a rune are no reason to stop. -/
theorem bracedHex_stuck {steps r : Nat} (seen : List Char) {more rest : List Char}
    (hrest : more ++ rest <:+ text) (hsteps : (more ++ rest).length < steps)
    (hseen : ofHex? seen = some r) (hfew : seen.length < 0x80000000)
    (hlong : Overlong (seen ++ more)) :
    bracedHex steps r seen.length (place text (more ++ rest)) = .error .stuck := by
  -- a digit that is read is no longer to come, but they are the same digits as before
  induction more generalizing steps r seen with
  | nil =>
    rw [List.append_nil] at hlong
    exact absurd hlong.length (Nat.ne_of_lt hfew)
  | cons c more ih =>
    cases steps with
    | zero => cases hsteps
    | succ steps =>
      rw [List.append_cons] at hlong
      obtain ⟨n, hn, hall⟩ := hlong.rune
      obtain ⟨k, hk, hdigits⟩ := exists_ofHex?_of_append hall
      have hlen : (seen ++ [c]).length = seen.length + 1 := List.length_append
      obtain ⟨d, hd, rfl⟩ : ∃ d, hexDigit? c = some d ∧ r * 16 + d = k := by
        rw [ofHex?_concat, hseen, Option.bind_some] at hdigits
        exact Option.map_eq_some_iff.mp hdigits
      have hcons : c :: (more ++ rest) <:+ text := hrest
      rw [List.cons_append, bracedHex_digit hcons hd (Nat.le_trans hk hn), ← hlen]
      split
      · next hcount =>
        exact ih _ ((List.suffix_cons c _).trans hrest) (Nat.lt_of_succ_lt_succ hsteps) hdigits
          hcount hlong
      · rfl

/-! ## Escapes -/

/-- Hexadecimal digits are read as they are of a text, unless they are too many: none in braces was
    read at the start, so the digits to come are all there are. -/
theorem hexEscape_place {rest : List Char} (hrest : rest <:+ text)
    (hfree : ¬OverlongRune ('\\' :: 'x' :: rest)) :
    hexEscape (place text rest) = .ok ((readHex rest).1, place text (readHex rest).2) := by
  rw [hexEscape]
  cases rest with
  | nil => rfl
  | cons c rest =>
    have htail := (List.suffix_cons c rest).trans hrest
    rw [if_pos (more_cons text c rest), pop_place hrest, ok_bind]
    dsimp only
    by_cases hbrace : c = '{'
    · subst hbrace
      rw [if_pos rfl]
      refine bracedHex_place [] htail (Nat.lt_succ_self rest.length) rfl (Nat.zero_le _) (by decide)
        fun more hmore hlong => hfree (overlongRune_brace.mpr ⟨more, hlong, hmore⟩)
    · rw [if_neg hbrace]
      cases rest with
      | nil =>
        rw [readHex]
        · rfl
        · rintro _ ⟨rfl, -⟩
          exact hbrace rfl
        · rintro _ _ _ ⟨-, ⟨⟩⟩
      | cons d rest =>
        rw [if_pos (more_cons text d rest), pop_place htail, ok_bind]
        dsimp only
        rw [readHex]
        · cases hx : hexDigit? c with
          | none => rfl
          | some x =>
            cases hy : hexDigit? d with
            | none => rfl
            | some y =>
              have := hexDigit?_lt hx
              have := hexDigit?_lt hy
              dsimp only
              rw [word_of_lt (by omega), ok_bind, word_of_lt (by omega)]
              rfl
        · rintro rfl
          exact hbrace rfl

/-- The digits from 1 on are the octal digits but for the zero. -/
theorem one_le_iff_isOctal {c : Char} : '1' ≤ c ∧ c ≤ '7' ↔ isOctal c = true ∧ c ≠ '0' := by
  have hle : ∀ {a b : Char}, a ≤ b ↔ a.toNat ≤ b.toNat := fun {a b} => Iff.rfl
  have heq : c = '0' ↔ c.toNat = '0'.toNat := Char.toNat_inj.symm
  have hzero : '0'.toNat = 48 := rfl
  have hone : '1'.toNat = 49 := rfl
  rw [isOctal, Bool.and_eq_true, decide_eq_true_eq, decide_eq_true_eq, Ne, heq, hle, hle, hle]
  omega

/-- A digit that may not stand alone does so. -/
theorem loneDigit_place (c : Char) (text rest : List Char) :
    (if '1' ≤ c ∧ c ≤ '7' then do return !(← atOctalDigit (place text rest))
      else return false : Guarded Bool) =
      .ok (decide (isOctal c = true ∧ c ≠ '0' ∧ rest.head?.any isOctal = false)) := by
  rw [atOctalDigit_place]
  by_cases hc : isOctal c = true ∧ c ≠ '0'
  · rw [if_pos (one_le_iff_isOctal.mpr hc)]
    cases rest.head?.any isOctal <;> simp [hc]
  · rw [if_neg fun h => hc (one_le_iff_isOctal.mp h)]
    simp only [← and_assoc, hc, false_and, decide_false]
    rfl

/-- After the letter for them there are hexadecimal digits. -/
theorem escapeRune_x (rest : List Char) :
    escapeRune 'x' (place text rest) = hexEscape (place text rest) := by
  rw [escapeRune, loneDigit_place]
  rfl

/-- Every form of an escape is read as it is of a text, unless its digits are too many. -/
theorem escapeRune_place {c : Char} {rest : List Char} (hrest : rest <:+ text)
    (hfree : ¬OverlongRune ('\\' :: c :: rest)) :
    escapeRune c (place text rest) =
      .ok ((readEscapeRune c rest).1, place text (readEscapeRune c rest).2) := by
  rw [readEscapeRune]
  by_cases hoctal : isOctal c = true
  · have hzero : '0'.toNat = 48 := rfl
    obtain ⟨hlow, hhigh⟩ := toNat_of_isOctal hoctal
    rw [escapeRune, loneDigit_place, ok_bind, if_pos hoctal, if_pos hoctal]
    by_cases h : c ≠ '0' ∧ rest.head?.any isOctal = false
    · rw [if_pos h, if_pos (decide_eq_true ⟨hoctal, h⟩)]
      rfl
    · rw [if_neg h, if_neg fun hlone => h (of_decide_eq_true hlone).2, lessen_of_le (by omega),
        ok_bind, octal_place hrest (by omega), ok_bind]
      dsimp only
      rw [Numeral.ofOctal, Nat.ofDigitChars_cons, Nat.mul_zero, Nat.zero_add]
      rfl
  · rw [if_neg hoctal]
    by_cases hx : c = 'x'
    · subst hx
      rw [escapeRune_x, if_pos rfl]
      exact hexEscape_place hrest hfree
    · rw [escapeRune, loneDigit_place, ok_bind,
        if_neg fun hlone => hoctal (of_decide_eq_true hlone).1, if_neg hoctal, if_neg hx, if_neg hx]
      cases namedControl? c with
      | none => rfl
      | some r => rfl

/-- An escape with more digits than can be counted is not read. -/
theorem escape_stuck {rest : List Char} (h : OverlongRune rest) (hrest : rest <:+ text) :
    escape (place text rest) = .error .stuck := by
  obtain ⟨digits, rest, hlong, rfl⟩ := h.exists_eq
  have hx := (List.suffix_cons '\\' _).trans hrest
  have hbrace := (List.suffix_cons 'x' _).trans hx
  have hdigits := (List.suffix_cons '{' _).trans hbrace
  have hstuck := bracedHex_stuck [] hdigits (Nat.lt_succ_self _) rfl (by decide) hlong
  rw [escape]
  dsimp only
  rw [skipAscii_one hrest (by decide), ok_bind, if_pos (more_cons text _ _), pop_place hx, ok_bind]
  dsimp only
  rw [escapeRune_x, hexEscape, if_pos (more_cons text _ _), pop_place hbrace, ok_bind]
  dsimp only
  rw [if_pos rfl]
  exact congrArg (fun m : Guarded (Option Nat × Cursor) => m >>= _) hstuck

/-- The machine reads an escape as it is read from the text after the backslash, or is stuck at its
    digits. -/
theorem escape_agrees {rest : List Char} (hrest : '\\' :: rest <:+ text) :
    AgreeUnless (OverlongRune ('\\' :: rest)) (Placed text)
      (escape (place text ('\\' :: rest))) (readEscape rest) := by
  refine ⟨fun hlong => escape_stuck hlong hrest, fun hfree => ?_⟩
  have htail := (List.suffix_cons '\\' rest).trans hrest
  rw [escape]
  dsimp only
  rw [skipAscii_one hrest (by decide), ok_bind]
  cases rest with
  | nil => exact .error _
  | cons c rest =>
    have hsuffix := (List.suffix_cons c rest).trans htail
    have hleft := readEscapeRune_suffix c rest
    rw [if_pos (more_cons text c rest), pop_place htail, ok_bind]
    dsimp only
    rw [escapeRune_place hsuffix hfree, ok_bind]
    dsimp only
    rw [readEscape]
    cases he : readEscapeRune c rest with
    | mk r left =>
      rw [he] at hleft
      cases r with
      | some r => exact .ok rfl
      | none =>
        dsimp only
        rw [failSince_place hrest ((hleft.trans (List.suffix_cons c rest)).trans
          (List.suffix_cons '\\' _))]
        exact .error _

end RegexTree.Machine
