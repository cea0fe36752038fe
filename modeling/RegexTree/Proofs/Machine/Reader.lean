/-
  The machine reads counts, groups and properties as they are read from a text.

  Each reader of the machine is compared with the one of texts at a place: it finds the same and
  leaves the cursor where the text is left, or finds nothing, or the same error.  None of these can
  be stuck.

  * Numerals are added up in 32 bits.  The machine stops adding when the sum has become too large
    and reads the digits that are left without it, so a numeral of any length is read
    (`accumulate_eq`, `numeral?_place`), as -1 if it is ten digits or more.  What it holds for a
    count is `boundsOf`, and that is within the limits just if the count is (`boundsOf_iff`).
  * Groups with a name are looked for by searching the rest of the text for their end, in bytes
    (`find?_eq`, `namedGroup?_place`).
  * Properties and the letters for groups are looked up by name (`property?_place`,
    `perlGroup?_place`).  The two are tried one after the other, and an escape that is neither is
    left to the reader of escapes (`groupEscape?_place`).
-/
import RegexTree.Proofs.Machine.Buffer
import RegexTree.Proofs.Machine.Escape
import RegexTree.Proofs.Syntax.Signs

namespace RegexTree.Machine

open Cursor
open Numeral (isDecimal isOctal hexDigit?)

variable {text : List Char}

/-! ## Counts -/

/-- A number as the machine counts it: those of ten digits and more are too large. -/
def counted (n : Nat) : Int := if n < 10 ^ 9 then n else -1

theorem le_ofDigitChars (digits : List Char) (n : Nat) : n ≤ Nat.ofDigitChars 10 digits n := by
  induction digits generalizing n with
  | nil => exact Nat.le_refl n
  | cons c digits ih =>
    rw [Nat.ofDigitChars_cons]
    exact Nat.le_trans (by omega) (ih _)

/-- The machine gives up on a number before it would be too large to hold. -/
theorem accumulate_eq {n : Nat} {digits : List Char} (hdigits : ∀ c ∈ digits, isDecimal c = true)
    (hn : n < 10 ^ 9) : accumulate n digits = .ok (counted (Nat.ofDigitChars 10 digits n)) := by
  induction digits generalizing n with
  | nil =>
    rw [accumulate, Nat.ofDigitChars_nil, counted, if_pos hn]
    rfl
  | cons c digits ih =>
    obtain ⟨hc, hdigits⟩ := List.forall_mem_cons.mp hdigits
    have hzero : '0'.toNat = 48 := rfl
    have hrange : 48 ≤ c.toNat ∧ c.toNat ≤ 57 := by
      rw [isDecimal, Bool.and_eq_true, decide_eq_true_eq, decide_eq_true_eq] at hc
      exact hc
    rw [accumulate, Nat.ofDigitChars_cons]
    split
    · -- the digits that are left only make the number larger, so it may be given up here
      next hlarge =>
      have := le_ofDigitChars digits (10 * n + (c.toNat - '0'.toNat))
      rw [counted, if_neg (by omega)]
      rfl
    · next hsmall =>
      have hnext : (n : Int) * 10 + ((c.toNat - '0'.toNat : Nat) : Int) =
          ((10 * n + (c.toNat - '0'.toNat) : Nat) : Int) := by
        omega
      rw [signed_of_mem (by omega), ok_bind, lessen_of_le (by omega), ok_bind, hnext,
        signed_of_mem (by omega), ok_bind, ih hdigits (by omega)]

theorem ascii_of_isDecimal {c : Char} (h : isDecimal c = true) : c.toNat < 128 := by
  rw [isDecimal, Bool.and_eq_true, decide_eq_true_eq, decide_eq_true_eq] at h
  exact Nat.lt_of_le_of_lt (show c.toNat ≤ '9'.toNat from h.2) (by decide)

/-- A numeral is the digits in front of a text, but for none and for a superfluous zero. -/
theorem readNumeral?_eq (text : List Char) :
    readNumeral? text =
      if (text.takeWhile isDecimal).length = 0 ∨
          (2 ≤ (text.takeWhile isDecimal).length ∧ (text.takeWhile isDecimal).head? = some '0') then
        none
      else some (Numeral.ofDecimal (text.takeWhile isDecimal), text.dropWhile isDecimal) := by
  rw [readNumeral?]
  generalize text.takeWhile isDecimal = digits
  split
  · rfl
  · exact (if_pos (Or.inr ⟨by simp, rfl⟩)).symm
  · next hnil hzero =>
    rw [if_neg]
    rintro (h | ⟨h, h'⟩)
    · exact hnil (List.length_eq_zero_iff.mp h)
    · obtain ⟨c, tail, rfl⟩ := List.exists_cons_of_length_pos (Nat.lt_of_succ_lt h)
      obtain ⟨d, more, rfl⟩ := List.exists_cons_of_length_pos (Nat.lt_of_succ_lt_succ h)
      cases h'
      exact hzero d more rfl

/-- The machine reads a numeral as it is read from the text, but for one that is too large. -/
theorem numeral?_place {rest : List Char} (hrest : rest <:+ text) :
    numeral? (place text rest) =
      .ok ((readNumeral? rest).map fun (n, left) => (counted n, place text left)) := by
  have hall : ∀ c ∈ rest.takeWhile isDecimal, isDecimal c = true :=
    List.all_eq_true.mp (List.all_takeWhile)
  have hsplit : rest.takeWhile isDecimal ++ rest.dropWhile isDecimal = rest :=
    List.takeWhile_append_dropWhile
  rw [readNumeral?_eq, numeral?, rest_place]
  generalize rest.takeWhile isDecimal = digits at hall hsplit ⊢
  generalize rest.dropWhile isDecimal = left at hsplit ⊢
  subst hsplit
  have hascii : ∀ c ∈ digits, c.toNat < 128 := fun c hc => ascii_of_isDecimal (hall c hc)
  have hhead : 2 ≤ digits.length →
      ((place text (digits ++ left)).lookingAt ['0'] = true ↔ digits.head? = some '0') := by
    intro h
    obtain ⟨c, tail, rfl⟩ := List.exists_cons_of_length_pos (Nat.lt_of_succ_lt h)
    rw [lookingAt_one, beq_iff_eq]
    exact Iff.rfl
  have hiff : (digits.length = 0 ∨
      (2 ≤ digits.length ∧ (place text (digits ++ left)).lookingAt ['0'] = true)) ↔
      (digits.length = 0 ∨ (2 ≤ digits.length ∧ digits.head? = some '0')) :=
    or_congr_right (and_congr_right hhead)
  by_cases hnone : digits.length = 0 ∨ (2 ≤ digits.length ∧ digits.head? = some '0')
  · rw [if_pos (hiff.mpr hnone), if_pos hnone]
    rfl
  · have hup := upTo_append digits left
    rw [byteCount_of_ascii hascii] at hup
    have hvalue := accumulate_eq (n := 0) hall (by decide)
    rw [show ((0 : Nat) : Int) = 0 from rfl] at hvalue
    rw [if_neg fun h => hnone (hiff.mp h), if_neg hnone, hup, ok_bind,
      skipAscii_place digits hrest hascii, ok_bind, hvalue]
    rfl

/-- The bounds of a count as the machine holds them.  A bound that is too large makes the lower one
    too large. -/
def boundsOf (count : Count) : Int × Int :=
  match count.max with
  | none => (counted count.min, -1)
  | some max => (if counted max < 0 then -1 else counted count.min, counted max)

theorem boundsOf_some (min max : Nat) :
    boundsOf ⟨min, some max⟩ =
      if max < 10 ^ 9 then (counted min, (max : Int)) else (-1, -1) := by
  show ((if counted max < 0 then -1 else counted min), counted max) = _
  by_cases hmax : max < 10 ^ 9
  · rw [show counted max = max from if_pos hmax, if_pos hmax,
      if_neg (Int.not_lt.mpr (Int.natCast_nonneg max))]
  · rw [show counted max = -1 from if_neg hmax, if_neg hmax, if_pos (by decide)]

/-- The machine refuses the counts that are too large. -/
theorem boundsOf_iff (count : Count) :
    ((boundsOf count).1 < 0 ∨ maxRepeat < (boundsOf count).1 ∨ maxRepeat < (boundsOf count).2 ∨
      (0 ≤ (boundsOf count).2 ∧ (boundsOf count).2 < (boundsOf count).1)) ↔
      count.isTooLarge = true := by
  have hlimit : maxRepeat = 1000 := rfl
  obtain ⟨min, max⟩ := count
  cases max with
  | none =>
    simp only [boundsOf, counted, Count.isTooLarge, Option.any_none, Bool.or_false,
      decide_eq_true_eq]
    split
    · omega
    · omega
  | some max =>
    simp only [boundsOf_some, counted, Count.isTooLarge, Option.any_some, Bool.or_eq_true,
      decide_eq_true_eq]
    split
    · dsimp only
      split
      · omega
      · omega
    · omega

/-- A count that is not too large is held as it is. -/
theorem boundsOf_of_fits {count : Count} (h : ¬count.isTooLarge = true) :
    boundsOf count = ((count.min : Int), count.upper) := by
  have hlimit : maxRepeat = 1000 := rfl
  obtain ⟨min, max⟩ := count
  cases max with
  | none =>
    simp only [Count.isTooLarge, Option.any_none, Bool.or_false, decide_eq_true_eq] at h
    simp only [boundsOf, counted, Count.upper]
    rw [if_pos (by omega)]
  | some max =>
    simp only [Count.isTooLarge, Option.any_some, Bool.or_eq_true, decide_eq_true_eq] at h
    rw [boundsOf_some, counted, if_pos (by omega), if_pos (by omega)]
    rfl

/-- A count has to be closed by a brace. -/
theorem closeCount?_place {rest : List Char} (min max : Int) (hrest : rest <:+ text) :
    closeCount? min max (place text rest) =
      .ok (if rest.head? = some '}' then some (min, max, place text rest.tail) else none) := by
  rw [closeCount?, lookingAt_one, beq_eq_decide]
  cases rest with
  | nil => rfl
  | cons c rest =>
    rw [List.head?_cons, List.tail_cons]
    by_cases hc : c = '}'
    · subst hc
      rw [skipAscii_one hrest (by decide)]
      rfl
    · rw [if_neg (by simp [hc]), if_neg (by simp [hc])]
      rfl

/-- The one negative number stands for a numeral that is too large. -/
theorem counted_of_neg {n : Nat} (h : counted n < 0) : counted n = -1 := by
  rw [counted] at h ⊢
  split
  · next hn =>
    rw [if_pos hn] at h
    omega
  · rfl

theorem boundsOf_exactly (n : Nat) : boundsOf ⟨n, some n⟩ = (counted n, counted n) := by
  show (if counted n < 0 then -1 else counted n, counted n) = _
  split
  · next h => rw [counted_of_neg h]
  · rfl

/-- The machine reads a count as it is read from the text after the brace. -/
theorem count?_place {rest : List Char} (hrest : '{' :: rest <:+ text) :
    count? (place text ('{' :: rest)) =
      .ok ((readCount? rest).map fun (count, left) =>
        ((boundsOf count).1, (boundsOf count).2, place text left)) := by
  have htail := (List.suffix_cons '{' rest).trans hrest
  rw [count?, if_pos (lookingAt_self _ _ _), skipAscii_one hrest (by decide), ok_bind,
    numeral?_place htail, ok_bind]
  cases hmin : readNumeral? rest with
  | none =>
    rw [readCount?, hmin]
    rfl
  | some found =>
    obtain ⟨n, left⟩ := found
    have hleft := (suffix_of_readNumeral? hmin).trans htail
    dsimp only [Option.map_some]
    -- what follows the first numeral decides: a comma, the closing brace, or no count at all
    by_cases hcomma : left.head? = some ','
    · obtain ⟨more, rfl⟩ := List.head?_eq_some_iff.mp hcomma
      have hmore := (List.suffix_cons ',' more).trans hleft
      rw [if_pos (lookingAt_self _ _ _), skipAscii_one hleft (by decide), ok_bind]
      by_cases hclose : more.head? = some '}'
      · obtain ⟨after, rfl⟩ := List.head?_eq_some_iff.mp hclose
        rw [if_pos (lookingAt_self _ _ _), closeCount?_place _ _ hmore, if_pos hclose, readCount?,
          hmin]
        rfl
      · rw [if_neg (lookingAt_ne text hclose), numeral?_place hmore, ok_bind,
          readCount?_comma hmin hclose]
        cases hmax : readNumeral? more with
        | none => rfl
        | some found =>
          obtain ⟨m, last⟩ := found
          have hlast := (suffix_of_readNumeral? hmax).trans hmore
          dsimp only [Option.map_some, Option.bind_some]
          rw [closeCount?_place _ _ hlast]
          split
          · rfl
          · rfl
    · rw [if_neg (lookingAt_ne text hcomma), closeCount?_place _ _ hleft,
        readCount?_other hmin hcomma]
      split
      · rw [Option.map_some, boundsOf_exactly]
      · rfl

/-! ## Groups and properties -/

/-- What a reader of groups gives, with a cursor in place of the text that is left. -/
def liftGroup (text : List Char) :
    Option (Except Error (BracketItem × List Char)) → Guarded (Option ((Bool × Ranges) × Cursor))
  | none => .ok none
  | some (.error e) => .error (.invalid e)
  | some (.ok (.group negated table, rest)) => .ok (some ((negated, table), place text rest))
  | some (.ok (.range _, _)) => .error .stuck

/-- A caret in front of a name is taken off. -/
theorem stripCaret_eq (name : List Char) : stripCaret name = splitCaret name := by
  rw [stripCaret]
  split
  · next h =>
    obtain ⟨rest, rfl⟩ := List.head?_eq_some_iff.mp h
    rfl
  · next h =>
    rw [splitCaret]
    rintro rest rfl
    exact h rfl

/-- Searching for a text finds where the reader would split, counted in bytes. -/
theorem find?_eq (stop text : List Char) :
    find? stop text = (splitAt? stop text).map fun (before, _) => byteCount before := rfl

/-- A character that is not in front of a text is found where it is found in the text. -/
theorem splitAt?_behind {d : Char} {front : List Char} (h : d ∉ front) (text : List Char) :
    splitAt? [d] (front ++ text) =
      (splitAt? [d] text).map fun split => (front ++ split.1, split.2) := by
  induction front with
  | nil =>
    rw [List.nil_append]
    cases splitAt? [d] text with
    | none => rfl
    | some split => rfl
  | cons c front ih =>
    obtain ⟨hc, hfront⟩ := not_or.mp (List.mem_cons.not.mp h)
    rw [List.cons_append, splitAt?, if_neg (by simp [hc]), ih hfront, Option.map_map]
    rfl

/-- Groups are looked up with or without a caret. -/
theorem posixGroup?_eq (name : List Char) :
    posixGroup? ('[' :: ':' :: (name ++ [':', ']'])) =
      (Unicode.posixGroup? (String.ofList (splitCaret name).2)).map ((splitCaret name).1, ·) := by
  have hinner : (('[' :: ':' :: (name ++ [':', ']'])).drop 2).take
      (('[' :: ':' :: (name ++ [':', ']'])).length - 4) = name := by
    simp
  rw [posixGroup?, hinner, stripCaret_eq]

/-- The machine reads a named group as it is read from the text. -/
theorem namedGroup?_place {after : List Char} (hrest : '[' :: ':' :: after <:+ text) :
    namedGroup? (place text ('[' :: ':' :: after)) =
      liftGroup text (readNamedGroup? ('[' :: ':' :: after)) := by
  have hbeyond : beyond 2 ('[' :: ':' :: after) = .ok after := beyond_append ['[', ':'] after
  rw [namedGroup?, rest_place, hbeyond, ok_bind, find?_eq, readNamedGroup?]
  cases hsplit : splitAt? [':', ']'] after with
  | none => rfl
  | some found =>
    obtain ⟨name, left⟩ := found
    have he : '[' :: ':' :: after = ('[' :: ':' :: (name ++ [':', ']'])) ++ left := by
      rw [eq_append_of_splitAt? hsplit]
      rfl
    have hcount : byteCount ('[' :: ':' :: (name ++ [':', ']'])) = byteCount name + 4 := by
      rw [byteCount_cons, byteCount_cons, byteCount_append]
      have h : byteCount [':', ']'] = 2 := rfl
      have h' : '['.utf8Size = 1 := rfl
      have h'' : ':'.utf8Size = 1 := rfl
      omega
    have hup : upTo (byteCount name + 4) ('[' :: ':' :: after) =
        .ok ('[' :: ':' :: (name ++ [':', ']'])) := by
      rw [he, ← hcount]
      exact upTo_append _ left
    rw [Option.map_some, Option.map_some]
    dsimp only
    rw [hup, ok_bind, posixGroup?_eq]
    cases Unicode.posixGroup? (String.ofList (splitCaret name).2) with
    | none =>
      refine congrArg (fun s => Except.error (Fault.invalid ⟨.invalidCharRange, s⟩)) ?_
      rw [he, excerpt_append]
    | some table =>
      rw [Option.map_some]
      dsimp only
      rw [he] at hrest ⊢
      rw [skipText_place hrest]
      rfl

/-- A text up to a closing character of ASCII, with that and without. -/
theorem upTo_closing {d : Char} (hd : d.utf8Size = 1) (shown left : List Char) :
    upTo (byteCount shown + 1) (shown ++ [d] ++ left) = .ok (shown ++ [d]) ∧
      upTo (byteCount shown) (shown ++ [d] ++ left) = .ok shown := by
  have hcount : byteCount (shown ++ [d]) = byteCount shown + 1 := by
    rw [byteCount_append, byteCount_cons, hd]
    rfl
  constructor
  · rw [← hcount]
    exact upTo_append _ left
  · rw [List.append_assoc]
    exact upTo_append shown _

/-- The name of a property in braces goes up to the first closing brace. -/
theorem propertyName_braced {start rest : List Char} (hstart : start <:+ text)
    (hrest : '{' :: rest <:+ text) :
    propertyName (place text ('{' :: rest)) (place text start).pos =
      match splitAt? ['}'] rest with
      | none => .error (.invalid (.toEnd .invalidCharRange start))
      | some (name, left) => .ok (name, place text left) := by
  -- the brace closes after the one that opens it
  have hsplit := splitAt?_behind (show '}' ∉ ['{'] by decide) rest
  rw [List.singleton_append] at hsplit
  rw [propertyName, if_pos (lookingAt_self _ _ _), rest_place, find?_eq, text_place hrest,
    beyond_pos hstart, hsplit]
  cases hclose : splitAt? ['}'] rest with
  | none => rfl
  | some found =>
    obtain ⟨name, left⟩ := found
    have he : '{' :: rest = '{' :: name ++ ['}'] ++ left := by
      rw [eq_append_of_splitAt? hclose]
      rfl
    obtain ⟨hbraced, hname⟩ := upTo_closing (d := '}') rfl ('{' :: name) left
    have hinner : beyond 1 ('{' :: name) = .ok name := beyond_append ['{'] name
    rw [Option.map_some, Option.map_some]
    dsimp only [List.singleton_append]
    rw [he] at hrest ⊢
    rw [hbraced, ok_bind, hname, ok_bind, hinner, ok_bind, skipText_place hrest]
    rfl

/-- The machine reads the name of a property as it is read from the text. -/
theorem propertyName_place {start rest : List Char} (hstart : start <:+ text)
    (hrest : rest <:+ start) :
    propertyName (place text rest) (place text start).pos =
      match readPropertyName? rest with
      | none => .error (.invalid (.toEnd .invalidCharRange start))
      | some (name, left) => .ok (name, place text left) := by
  have hsuffix := hrest.trans hstart
  cases rest with
  | nil =>
    rw [propertyName]
    rfl
  | cons c rest =>
    by_cases hbrace : c = '{'
    · subst hbrace
      exact propertyName_braced hstart hsuffix
    · rw [propertyName, if_neg (lookingAt_ne text (by simpa using hbrace)),
        if_pos (more_cons text c rest), pop_place hsuffix, ok_bind]
      dsimp only
      rw [since_place hsuffix (List.suffix_cons c rest), ok_bind, readPropertyName?]
      · simp
      · rintro rfl
        exact hbrace rfl

/-- The machine reads a property as it is read from the text after the letter. -/
theorem property?_place {flags : Flags} {c : Char} {rest : List Char}
    (hflags : flags.unicodeGroups = true) (hc : c = 'p' ∨ c = 'P')
    (hrest : '\\' :: c :: rest <:+ text) :
    property? flags (place text ('\\' :: c :: rest)) =
      liftGroup text (some (readProperty (c == 'P') ('\\' :: c :: rest) rest)) := by
  have hcond : (flags.unicodeGroups && ((place text ('\\' :: c :: rest)).lookingAt ['\\', 'p'] ||
      (place text ('\\' :: c :: rest)).lookingAt ['\\', 'P'])) = true := by
    simp only [lookingAt_cons, lookingAt_nil, hflags]
    rcases hc with rfl | rfl <;> rfl
  have hcapital : (place text ('\\' :: c :: rest)).lookingAt ['\\', 'P'] = (c == 'P') := by
    simp only [lookingAt_cons, lookingAt_nil]
    rcases hc with rfl | rfl <;> rfl
  have hascii : c.toNat < 128 := by
    rcases hc with rfl | rfl <;> decide
  have htail : rest <:+ '\\' :: c :: rest := (List.suffix_cons _ _).trans (List.suffix_cons _ _)
  rw [property?, if_pos hcond, hcapital]
  dsimp only
  rw [skipAscii_two hrest (by decide) hascii, ok_bind, propertyName_place hrest htail, readProperty]
  cases hname : readPropertyName? rest with
  | none => rfl
  | some found =>
    obtain ⟨name, left⟩ := found
    have hleft : left <:+ rest := suffix_of_readPropertyName? hname
    dsimp only
    rw [ok_bind]
    dsimp only
    rw [since_place hrest (hleft.trans htail), ok_bind, stripCaret_eq]
    cases Unicode.property? (String.ofList (splitCaret name).2) with
    | none => rfl
    | some table => rfl

/-- A property is no range. -/
theorem readProperty_ne_range {negated : Bool} {start text left : List Char} {r : Range} :
    readProperty negated start text ≠ .ok (.range r, left) := by
  intro h
  unfold readProperty at h
  split at h
  · cases h
  · split at h
    · cases h
    · cases h

theorem readGroupEscape?_ne_range {flags : Flags} {text left : List Char} {r : Range} :
    readGroupEscape? flags text ≠ some (.ok (.range r, left)) := by
  intro h
  unfold readGroupEscape? at h
  split at h
  · split at h
    · exact readProperty_ne_range (Option.some.inj h)
    · split at h
      · obtain ⟨group, -, he⟩ := Option.map_eq_some_iff.mp h
        cases he
      · cases h
  · cases h

theorem readNamedGroup?_ne_range {text left : List Char} {r : Range} :
    readNamedGroup? text ≠ some (.ok (.range r, left)) := by
  intro h
  unfold readNamedGroup? at h
  split at h
  · obtain ⟨found, -, he⟩ := Option.map_eq_some_iff.mp h
    dsimp only at he
    split at he
    · cases he
    · cases he
  · cases h

/-- What does not begin as one is no property. -/
theorem property?_other {flags : Flags} {rest : List Char}
    (h : ¬(flags.unicodeGroups = true ∧ ∃ c tail, rest = '\\' :: c :: tail ∧ (c = 'p' ∨ c = 'P'))) :
    property? flags (place text rest) = .ok none := by
  rw [property?, if_neg]
  · rfl
  · simp only [Bool.and_eq_true, Bool.or_eq_true, lookingAt_place, List.isPrefixOf_iff_prefix]
    rintro ⟨hflags, ⟨tail, rfl⟩ | ⟨tail, rfl⟩⟩
    · exact h ⟨hflags, 'p', tail, rfl, Or.inl rfl⟩
    · exact h ⟨hflags, 'P', tail, rfl, Or.inr rfl⟩

theorem ascii_of_perlGroup? {c : Char} {group : Bool × Ranges}
    (h : Unicode.perlGroup? c = some group) : c.toNat < 128 := by
  unfold Unicode.perlGroup? at h
  split at h
  all_goals
    first
    | decide
    | cases h

/-- The first two bytes of an escape name a group just if the letter does. -/
theorem perlGroupOf?_split (c : Char) (rest : List Char) :
    ((splitBytes? 2 ('\\' :: c :: rest)).bind fun split => perlGroupOf? split.1) =
      Unicode.perlGroup? c := by
  by_cases hascii : c.toNat < 128
  · have hcount : byteCount ['\\', c] = 2 := by
      refine byteCount_of_ascii (List.forall_mem_cons.mpr ⟨by decide, ?_⟩)
      exact List.forall_mem_singleton.mpr hascii
    have h := splitBytes?_append ['\\', c] rest
    rw [hcount] at h
    rw [show '\\' :: c :: rest = ['\\', c] ++ rest from rfl, h]
    rfl
  · have hnone : Unicode.perlGroup? c = none := by
      rw [Option.eq_none_iff_forall_ne_some]
      exact fun group h => hascii (ascii_of_perlGroup? h)
    rw [hnone, Option.bind_eq_none_iff]
    intro split hsplit
    -- the letter takes more than the second byte
    rw [splitBytes?, if_pos (show '\\'.utf8Size ≤ 1 + 1 by decide),
      show 1 + 1 - '\\'.utf8Size = 0 + 1 from rfl, splitBytes?, if_neg] at hsplit
    · cases hsplit
    · intro hsize
      exact hascii (utf8Size_le_one_iff.mp hsize)

/-- A letter for a group is looked up where such letters are read. -/
theorem perlGroup?_place {flags : Flags} {c : Char} {rest : List Char}
    (hrest : '\\' :: c :: rest <:+ text) :
    perlGroup? flags (place text ('\\' :: c :: rest)) =
      .ok (if flags.perlX then (Unicode.perlGroup? c).map fun group => (group, place text rest)
        else none) := by
  rw [perlGroup?, rest_place, perlGroupOf?_split, lookingAt_self, Bool.and_true]
  cases flags.perlX with
  | false => rfl
  | true =>
    rw [if_pos rfl, if_pos rfl]
    cases hgroup : Unicode.perlGroup? c with
    | none => rfl
    | some group =>
      dsimp only
      rw [skipAscii_two hrest (by decide) (ascii_of_perlGroup? hgroup)]
      rfl

/-- An escape for a property is tried first, then one for a group. -/
theorem groupEscape?_letter {flags : Flags} {c : Char} {tail : List Char}
    (hrest : '\\' :: c :: tail <:+ text) :
    groupEscape? flags (place text ('\\' :: c :: tail)) =
      liftGroup text (readGroupEscape? flags ('\\' :: c :: tail)) := by
  by_cases hproperty : flags.unicodeGroups = true ∧ (c = 'p' ∨ c = 'P')
  · have hcond : (flags.unicodeGroups && (c == 'p' || c == 'P')) = true := by
      rw [hproperty.1]
      rcases hproperty.2 with rfl | rfl <;> rfl
    rw [groupEscape?, property?_place hproperty.1 hproperty.2 hrest, readGroupEscape?,
      if_pos hcond]
    cases hread : readProperty (c == 'P') ('\\' :: c :: tail) tail with
    | error e => rfl
    | ok found =>
      obtain ⟨item, left⟩ := found
      cases item with
      | group negated table => rfl
      | range r => exact absurd hread readProperty_ne_range
  · have hcond : ¬(flags.unicodeGroups && (c == 'p' || c == 'P')) = true := by
      rw [Bool.and_eq_true, Bool.or_eq_true, beq_iff_eq, beq_iff_eq]
      exact hproperty
    have hother : property? flags (place text ('\\' :: c :: tail)) = .ok none := by
      refine property?_other ?_
      rintro ⟨hflags, _, _, he, hletter⟩
      cases he
      exact hproperty ⟨hflags, hletter⟩
    rw [groupEscape?, hother, ok_bind, perlGroup?_place hrest, readGroupEscape?, if_neg hcond]
    cases flags.perlX with
    | false => rfl
    | true =>
      cases Unicode.perlGroup? c with
      | none => rfl
      | some group => rfl

/-- Where no letter follows a backslash, there is no such escape. -/
theorem groupEscape?_other {flags : Flags} {rest : List Char}
    (hslash : ¬∃ c tail, rest = '\\' :: c :: tail) :
    groupEscape? flags (place text rest) = .ok none := by
  have hother : property? flags (place text rest) = .ok none := by
    refine property?_other ?_
    rintro ⟨-, c, tail, he, -⟩
    exact hslash ⟨c, tail, he⟩
  rw [groupEscape?, hother, ok_bind, perlGroup?]
  by_cases hhead : rest.head? = some '\\'
  · -- a backslash at the end of the text
    obtain ⟨tail, rfl⟩ := List.head?_eq_some_iff.mp hhead
    cases tail with
    | nil =>
      cases flags.perlX with
      | false => rfl
      | true => rfl
    | cons c tail => exact absurd ⟨c, tail, rfl⟩ hslash
  · rw [if_neg]
    · rfl
    · rw [Bool.and_eq_true]
      exact fun h => lookingAt_ne text hhead h.2

/-- The machine reads an escape for a group or a property as it is read from the text. -/
theorem groupEscape?_place {flags : Flags} {rest : List Char} (hrest : rest <:+ text) :
    groupEscape? flags (place text rest) = liftGroup text (readGroupEscape? flags rest) := by
  by_cases hslash : ∃ c tail, rest = '\\' :: c :: tail
  · obtain ⟨c, tail, rfl⟩ := hslash
    exact groupEscape?_letter hrest
  · have hread : readGroupEscape? flags rest = none := by
      unfold readGroupEscape?
      split
      · next c tail => exact absurd ⟨c, tail, rfl⟩ hslash
      · rfl
    rw [groupEscape?_other hslash, hread]
    rfl

end RegexTree.Machine
