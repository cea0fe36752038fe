/-
  A printed rune reads back.

  `Print.escaped` writes a rune as itself or as an escape: a sign of the syntax with a backslash
  before it, some control characters by a letter, and what cannot be printed by its number, in two
  hexadecimal digits or in braces.  Either way the text says where it ends, so that what is read is
  the rune and nothing of what follows.

  What is common to the escapes is put down in `EscapeOf`: after the backslash comes a character
  that begins no group, no quotation and no reference, and the reader of escapes takes just the text
  and gives the rune.  The four forms have it (`coded_cases`, `escapeOf_punctuation`,
  `escapeOf_hexPair`, `escapeOf_braced`).  For numbers in braces that is an induction on the digits
  (`readBracedHex_hex`).

  It holds outside of brackets (`readToken_escaped`) and within (`rangeEnd_rangeEnd`), where a few
  more signs are escaped.
-/
import RegexTree.Syntax.Token
import RegexTree.Tree.Print

namespace RegexTree

/-! ## Hexadecimal digits -/

theorem hexDigit?_digitChar {d : Nat} (h : d < 16) : Numeral.hexDigit? d.digitChar = some d := by
  have hall : ∀ d < 16, Numeral.hexDigit? d.digitChar = some d := by decide
  exact hall d h

theorem digitChar_ne_brace {d : Nat} (h : d < 16) : d.digitChar ≠ '{' ∧ d.digitChar ≠ '}' := by
  have hall : ∀ d < 16, d.digitChar ≠ '{' ∧ d.digitChar ≠ '}' := by decide
  exact hall d h

/-- Two digits, the first of which may be zero. -/
theorem hexPair_eq {r : Nat} (h : r < 256) :
    Numeral.hexPair r = [(r / 16).digitChar, (r % 16).digitChar] := by
  rw [Numeral.hexPair, Numeral.hex]
  split
  · next hsmall =>
    rw [Nat.toDigits_of_lt_base hsmall, Nat.div_eq_of_lt hsmall, Nat.mod_eq_of_lt hsmall]
    rfl
  · next hlarge =>
    rw [Nat.toDigits_of_base_le (by decide) (Nat.le_of_not_lt hlarge),
      Nat.toDigits_of_lt_base (by omega)]
    rfl

theorem readHex_hexPair {r : Nat} (h : r < 256) (rest : List Char) :
    readHex (Numeral.hexPair r ++ rest) = (some r, rest) := by
  have hhigh : r / 16 < 16 := by omega
  have hlow : r % 16 < 16 := by omega
  rw [hexPair_eq h, List.cons_append, List.singleton_append, readHex]
  · rw [hexDigit?_digitChar hhigh, hexDigit?_digitChar hlow]
    show (some (r / 16 * 16 + r % 16), rest) = (some r, rest)
    rw [Nat.div_add_mod']
  · exact (digitChar_ne_brace hhigh).1

/-- One more digit. -/
theorem readBracedHex_digit {seen : Option Nat} {d : Nat} (hd : d < 16)
    (hle : seen.getD 0 * 16 + d ≤ maxRune) (rest : List Char) :
    readBracedHex seen (d.digitChar :: rest) = readBracedHex (some (seen.getD 0 * 16 + d)) rest := by
  rw [readBracedHex]
  · rw [hexDigit?_digitChar hd]
    exact if_neg (Nat.not_lt.mpr hle)
  · exact (digitChar_ne_brace hd).2

/-- The digits of a number read as the number, before whatever follows. -/
theorem readBracedHex_hex {r : Nat} (h : r ≤ maxRune) (rest : List Char) :
    readBracedHex none (Numeral.hex r ++ rest) = readBracedHex (some r) rest := by
  induction r using Nat.strongRecOn generalizing rest with
  | _ r ih =>
    rw [Numeral.hex]
    by_cases hsmall : r < 16
    · rw [Nat.toDigits_of_lt_base hsmall, List.singleton_append,
        readBracedHex_digit hsmall (by simpa using h)]
      simp
    · have hdiv : r / 16 < r := by omega
      have hshort := ih (r / 16) hdiv (by omega) ((r % 16).digitChar :: rest)
      rw [Nat.toDigits_of_base_le (by decide) (Nat.le_of_not_lt hsmall), List.append_assoc,
        List.singleton_append, ← Numeral.hex, hshort,
        readBracedHex_digit (by omega) (by simp only [Option.getD_some]; omega)]
      simp only [Option.getD_some, Nat.div_add_mod']

/-! ## Escapes -/

/-- The letter stands for no assertion, group or quotation after a backslash. -/
def isPlainEscape (c : Char) : Bool :=
  !(['A', 'b', 'B', 'z', 'C', 'Q', 'p', 'P', 'd', 's', 'w', 'D', 'S', 'W'].contains c)

/-- After a backslash the text stands for the rune, whatever follows. -/
structure EscapeOf (text : List Char) (r : Nat) : Prop where
  letter : ∃ c more, text = c :: more ∧ isPlainEscape c = true
  read : ∀ rest, readEscape (text ++ rest) = .ok (r, rest)

/-- A sign with a backslash before it stands for itself. -/
theorem escapeOf_punctuation {c : Char} (h : isPunctuation c = true) : EscapeOf [c] c.toNat := by
  have halnum : c.isAlphanum = false := by
    simp only [isPunctuation, Bool.and_eq_true, Bool.not_eq_true'] at h
    exact h.2
  have hne : ∀ d : Char, d.isAlphanum = true → c ≠ d := by
    rintro d hd rfl
    rw [hd] at halnum
    cases halnum
  have hoctal : Numeral.isOctal c = false := by
    rw [Bool.eq_false_iff]
    intro ho
    simp only [Numeral.isOctal, Bool.and_eq_true, decide_eq_true_eq, Char.le_def,
      UInt32.le_iff_toNat_le] at ho
    simp only [Char.isAlphanum, Char.isDigit, Bool.or_eq_false_iff, Bool.and_eq_false_iff,
      decide_eq_false_iff_not, ge_iff_le, UInt32.le_iff_toNat_le] at halnum
    have h7 : ('7' : Char).val.toNat ≤ 57 := by decide
    have h0 : ('0' : Char).val.toNat = 48 := by decide
    rcases halnum.2 with hlow | hhigh
    · exact hlow (Nat.le_trans (Nat.le_of_eq h0.symm) ho.1)
    · exact hhigh (Nat.le_trans ho.2 h7)
  refine ⟨⟨c, [], rfl, ?_⟩, fun rest => ?_⟩
  · simp [isPlainEscape, hne]
  · rw [List.singleton_append, readEscape, readEscapeRune, hoctal]
    simp [namedControl?, hne, h]

theorem escapeOf_hexPair {r : Nat} (h : r < 256) : EscapeOf ('x' :: Numeral.hexPair r) r where
  letter := ⟨'x', _, rfl, by decide⟩
  read rest := by
    rw [List.cons_append, readEscape, readEscapeRune, if_neg (by decide), if_pos rfl,
      readHex_hexPair h]

/-- Any code point may be written in braces. -/
theorem escapeOf_braced {r : Nat} (h : r ≤ maxRune) :
    EscapeOf ('x' :: '{' :: Numeral.hex r ++ ['}']) r where
  letter := ⟨'x', _, rfl, by decide⟩
  read rest := by
    have hread : readHex ('{' :: (Numeral.hex r ++ '}' :: rest)) = (some r, rest) := by
      rw [readHex, readBracedHex_hex h]
      rfl
    rw [List.append_assoc, List.cons_append, List.cons_append, List.singleton_append, readEscape,
      readEscapeRune, if_neg (by decide), if_pos rfl, hread]

/-- A rune by its code is an escape. -/
theorem coded_cases {r : Nat} (h : r ≤ maxRune) :
    ∃ text, Print.coded r = '\\' :: text ∧ EscapeOf text r := by
  have hcontrol : ∀ (c : Char) (n : Nat), isPlainEscape c = true →
      (∀ rest, readEscape (c :: rest) = .ok (n, rest)) → EscapeOf [c] n := fun c n hc hread =>
    ⟨⟨c, [], rfl, hc⟩, hread⟩
  unfold Print.coded
  split
  · next hr => exact ⟨['a'], rfl, hr ▸ hcontrol 'a' 0x07 (by decide) fun _ => rfl⟩
  split
  · next hr => exact ⟨['f'], rfl, hr ▸ hcontrol 'f' 0x0C (by decide) fun _ => rfl⟩
  split
  · next hr => exact ⟨['n'], rfl, hr ▸ hcontrol 'n' 0x0A (by decide) fun _ => rfl⟩
  split
  · next hr => exact ⟨['r'], rfl, hr ▸ hcontrol 'r' 0x0D (by decide) fun _ => rfl⟩
  split
  · next hr => exact ⟨['t'], rfl, hr ▸ hcontrol 't' 0x09 (by decide) fun _ => rfl⟩
  split
  · next hr => exact ⟨['v'], rfl, hr ▸ hcontrol 'v' 0x0B (by decide) fun _ => rfl⟩
  split
  · next hr => exact ⟨_, rfl, escapeOf_hexPair hr⟩
  · exact ⟨_, rfl, escapeOf_braced h⟩

/-! ## Printed runes -/

/-- A rune that is a character is that character. -/
theorem toNat_of_scalar? {r : Nat} {c : Char} (h : scalar? r = some c) : c.toNat = r := by
  unfold scalar? at h
  by_cases hr : r.isValidChar
  · rw [dif_pos hr] at h
    cases h
    rfl
  · rw [dif_neg hr] at h
    cases h

/-- All signs of the syntax may be escaped. -/
theorem isPunctuation_of_mem_metaChars {c : Char} (h : c ∈ Print.metaChars) :
    isPunctuation c = true := by
  have hall : Print.metaChars.all isPunctuation = true := by decide
  exact List.all_eq_true.mp hall c h

/-- A printed rune is a character without a meaning of its own, or an escape. -/
theorem escaped_cases {r : Nat} (h : r ≤ maxRune) {force : Bool}
    (hforce : force = true → r = '-'.toNat) :
    (∃ c : Char, Print.escaped r force = [c] ∧ c.toNat = r ∧ c ∉ Print.metaChars ∧
      force = false) ∨
      ∃ text, Print.escaped r force = '\\' :: text ∧ EscapeOf text r := by
  unfold Print.escaped
  split
  · next c hc =>
    have hcr := toNat_of_scalar? hc
    split
    · split
      · next hmeta =>
        rw [Bool.or_eq_true] at hmeta
        refine Or.inr ⟨[c], rfl, hcr ▸ escapeOf_punctuation ?_⟩
        rcases hmeta with hf | hm
        · have hhyphen : c = '-' := Char.toNat_inj.mp (hcr.trans (hforce hf))
          rw [hhyphen]
          decide
        · exact isPunctuation_of_mem_metaChars (List.contains_iff_mem.mp hm)
      · next hmeta =>
        rw [Bool.not_eq_true, Bool.or_eq_false_iff] at hmeta
        refine Or.inl ⟨c, rfl, hcr, fun hm => ?_, hmeta.1⟩
        rw [List.contains_iff_mem.mpr hm] at hmeta
        cases hmeta.2
    · exact Or.inr (coded_cases h)
  · exact Or.inr (coded_cases h)

/-! ## Outside of brackets -/

/-- A plain escape is none of those with a meaning of their own. -/
theorem readPerlEscape?_eq_none {c : Char} (h : isPlainEscape c = true) (flags : Flags)
    (rest : List Char) : readPerlEscape? flags (c :: rest) = none := by
  simp only [isPlainEscape, List.contains_cons, Bool.not_eq_true', Bool.or_eq_false_iff,
    beq_eq_false_iff_ne] at h
  rw [readPerlEscape?]
  · simp [assertion?, h]
  · simp [h]
  · simp [h]

theorem readGroupEscape?_eq_none {c : Char} (h : isPlainEscape c = true) (flags : Flags)
    (rest : List Char) : readGroupEscape? flags ('\\' :: c :: rest) = none := by
  simp only [isPlainEscape, List.contains_cons, Bool.not_eq_true', Bool.or_eq_false_iff,
    beq_eq_false_iff_ne] at h
  simp [readGroupEscape?, Unicode.perlGroup?, h]

/-- An escape outside of brackets is the rune. -/
theorem readToken_escapeOf {text : List Char} {r : Nat} (h : EscapeOf text r) (flags : Flags)
    (rest : List Char) : readToken flags '\\' (text ++ rest) = .ok (.text [r], rest) := by
  obtain ⟨c, more, rfl, hc⟩ := h.letter
  have hread := h.read rest
  rw [List.cons_append] at hread ⊢
  have hperl : (if flags.perlX then readPerlEscape? flags (c :: (more ++ rest)) else none)
      = none := by
    split
    · exact readPerlEscape?_eq_none hc flags _
    · rfl
  show readBackslash flags (c :: (more ++ rest)) = _
  rw [readBackslash_rune hperl (readGroupEscape?_eq_none hc flags _), hread]
  rfl

/-- A character without a meaning of its own outside of brackets is itself. -/
theorem readToken_plain {c : Char} (h : c ∉ Print.metaChars) (flags : Flags) (rest : List Char) :
    readToken flags c rest = .ok (.text [c.toNat], rest) := by
  have hall : ['(', '|', ')', '[', '{', '\\', '^', '$', '.', '*', '+', '?'].all
      Print.metaChars.contains = true := by decide
  refine readToken_text (fun d hd => ?_) flags rest
  rintro rfl
  exact h (List.contains_iff_mem.mp (List.all_eq_true.mp hall c hd))

/-- A printed rune outside of brackets is one token, whatever follows. -/
theorem readToken_escaped {r : Nat} (h : r ≤ maxRune) :
    ∃ c text, Print.escaped r false = c :: text ∧ c ≠ '?' ∧
      ∀ flags rest, readToken flags c (text ++ rest) = .ok (.text [r], rest) := by
  have hforce : false = true → r = '-'.toNat := fun hf => nomatch hf
  rcases escaped_cases h hforce with
    ⟨c, he, hcr, hplain, -⟩ | ⟨text, he, hescape⟩
  · refine ⟨c, [], he, ?_, fun flags rest => ?_⟩
    · rintro rfl
      exact hplain (by decide)
    · rw [List.nil_append, readToken_plain hplain, hcr]
  · exact ⟨'\\', text, he, by decide, fun flags rest => readToken_escapeOf hescape flags rest⟩

/-! ## Within brackets -/

/-- The text of an end of a range: it reads as the rune, whatever follows, and begins neither a
    group nor with a character that means something between the ends of ranges. -/
structure RangeEnd (text : List Char) (r : Nat) : Prop where
  head : ∃ c more, text = c :: more ∧ c ∉ ['-', ']', '^', '[']
  read : ∀ opening rest, readBracketRune opening (text ++ rest) = .ok (r, rest)
  noGroup : ∀ flags rest, readGroupEscape? flags (text ++ rest) = none

/-- An escape may end a range. -/
theorem rangeEnd_of_escapeOf {text : List Char} {r : Nat} (h : EscapeOf text r) :
    RangeEnd ('\\' :: text) r where
  head := ⟨'\\', text, rfl, by decide⟩
  read opening rest := by
    rw [List.cons_append, readBracketRune, h.read rest]
  noGroup flags rest := by
    obtain ⟨c, more, rfl, hc⟩ := h.letter
    exact readGroupEscape?_eq_none hc flags (more ++ rest)

/-- An end of a range reads back within brackets. -/
theorem rangeEnd_rangeEnd {r : Nat} (h : r ≤ maxRune) : RangeEnd (Print.rangeEnd r) r := by
  have hhyphen : (r == '-'.toNat) = true → r = '-'.toNat := beq_iff_eq.mp
  rcases escaped_cases h hhyphen with
    ⟨c, he, hcr, hplain, hforce⟩ | ⟨text, he, hescape⟩
  · have hne : ∀ d ∈ Print.metaChars, c ≠ d := fun d hd hcd => hplain (hcd ▸ hd)
    have hback : c ≠ '\\' := hne _ (by decide)
    have hhyphen : c ≠ '-' := by
      rintro rfl
      rw [← hcr] at hforce
      exact absurd hforce (by decide)
    rw [Print.rangeEnd, he]
    refine ⟨⟨c, [], rfl, ?_⟩, fun opening rest => ?_, fun flags rest => ?_⟩
    · simp [hhyphen, hne ']' (by decide), hne '^' (by decide), hne '[' (by decide)]
    · rw [List.singleton_append, readBracketRune]
      · rw [hcr]
      · exact hback
    · rw [List.singleton_append]
      simp [readGroupEscape?, hback]
  · rw [Print.rangeEnd, he]
    exact rangeEnd_of_escapeOf hescape

end RegexTree
