/-
  Reading a text that a closing parenthesis follows.

  A token that can be read of a text is read in the same way if a closing parenthesis and more text
  follow (`readToken_followed`).  No token begins with a parenthesis that it does not end with, and
  what a reader looks for up to a delimiter is there already, or the reader had failed: the
  parenthesis is no digit, no letter of a name and no sign that goes on with what stands before it.

  Two readers go on to the end of the text: that of quoted text, which takes all if it is not ended,
  and that of a named group in a bracket, which gives up only when no `:]` comes at all.  `Sealed`
  keeps both out, by forbidding the first in the text and by asking that what follows has no end for
  the second.

  There is one lemma for each reader, and the proof goes through its cases.  The statement is about
  successful calls; where a reader may find that it does not apply, there is a second lemma that it
  does not apply either if more follows (`readGroupEscape?_none_followed`,
  `readNamedGroup?_none_followed`, `readPerlEscape?_none_followed`).  The text that an error would
  show is another one and is left open (`opening'`, `start'`).
-/
import RegexTree.Syntax.Token
import Mathlib.Data.List.Infix

namespace RegexTree

/-- Nothing in the text goes on into what follows the parenthesis after it: nothing is quoted, and
    no group is named unless there is nothing to close it. -/
structure Sealed (text more : List Char) : Prop where
  quoted : ¬['\\', 'Q'] <:+: text
  named : ['[', ':'] <:+: text → ¬[':', ']'] <:+: more

/-- What is left of such a text is such a text. -/
theorem Sealed.of_suffix {text rest more : List Char} (h : Sealed text more) (hs : rest <:+ text) :
    Sealed rest more :=
  ⟨fun hq => h.quoted (hq.trans hs.isInfix), fun hn => h.named (hn.trans hs.isInfix)⟩

/-! ## Delimiters -/

/-- A text is split at the first place where the delimiter stands, and that is the same if more
    follows and the delimiter does not reach over into it. -/
theorem splitAt?_append {stop text before rest : List Char}
    (h : splitAt? stop text = some (before, rest)) (more : List Char) :
    splitAt? stop (text ++ more) = some (before, rest ++ more) := by
  induction text generalizing before with
  | nil =>
    rw [splitAt?] at h
    split at h
    · next hs =>
      cases h
      subst hs
      cases more with
      | nil => rfl
      | cons c more => rfl
    · cases h
  | cons c tail ih =>
    rw [splitAt?] at h
    split at h
    · next hp =>
      cases h
      have hbegins := List.isPrefixOf_iff_prefix.mp hp
      have hmore : stop.isPrefixOf (c :: (tail ++ more)) = true :=
        List.isPrefixOf_iff_prefix.mpr (hbegins.trans (List.prefix_append (c :: tail) more))
      rw [List.cons_append, splitAt?, if_pos hmore, ← List.cons_append,
        List.drop_append_of_le_length hbegins.length_le]
    · next hp =>
      obtain ⟨⟨b, a⟩, hb, he⟩ := Option.map_eq_some_iff.mp h
      cases he
      -- an earlier one would end before the one that was found
      have hno : ¬stop.isPrefixOf (c :: (tail ++ more)) = true := by
        intro hmore
        apply hp
        have hbegins := List.isPrefixOf_iff_prefix.mp hmore
        refine List.isPrefixOf_iff_prefix.mpr
          (List.prefix_of_prefix_length_le hbegins (List.prefix_append (c :: tail) more) ?_)
        have hlen := congrArg List.length (eq_append_of_splitAt? hb)
        simp only [List.length_append, List.length_cons] at hlen ⊢
        omega
      rw [List.cons_append, splitAt?, if_neg hno, ih hb]
      rfl

/-- What a text is split at stands in it. -/
theorem infix_of_splitAt? {stop text before rest : List Char}
    (h : splitAt? stop text = some (before, rest)) : stop <:+: text :=
  ⟨before, rest, (eq_append_of_splitAt? h).symm⟩

/-- What closes a named group cannot begin before the parenthesis and end after it. -/
theorem splitAt?_named {text more : List Char} (h : splitAt? [':', ']'] text = none)
    (hmore : ¬[':', ']'] <:+: more) : splitAt? [':', ']'] (text ++ ')' :: more) = none := by
  have hnone : splitAt? [':', ']'] more = none := by
    cases hm : splitAt? [':', ']'] more with
    | none => rfl
    | some p => exact absurd (infix_of_splitAt? hm) hmore
  induction text with
  | nil =>
    show Option.map _ (splitAt? [':', ']'] more) = none
    rw [hnone]
    rfl
  | cons c tail ih =>
    rw [splitAt?] at h
    split at h
    · cases h
    · next hp =>
      rw [Option.map_eq_none_iff] at h
      have hno : ¬[':', ']'].isPrefixOf (c :: (tail ++ ')' :: more)) = true := by
        intro hmore
        apply hp
        cases tail with
        | nil => simp [List.isPrefixOf] at hmore
        | cons d rest => simpa [List.isPrefixOf] using hmore
      rw [List.cons_append, splitAt?, if_neg hno, ih h]
      rfl

/-! ## Counts and escapes -/

section

variable (more : List Char)

/-- A number ends before the parenthesis, and none is found for it. -/
theorem readNumeral?_followed (text : List Char) :
    readNumeral? (text ++ ')' :: more) =
      (readNumeral? text).map fun (n, rest) => (n, rest ++ ')' :: more) := by
  have hstop : (text ++ ')' :: more).takeWhile Numeral.isDecimal =
        text.takeWhile Numeral.isDecimal ∧
      (text ++ ')' :: more).dropWhile Numeral.isDecimal =
        text.dropWhile Numeral.isDecimal ++ ')' :: more := by
    induction text with
    | nil => exact ⟨rfl, rfl⟩
    | cons c tail ih =>
      rw [List.cons_append, List.takeWhile_cons, List.takeWhile_cons, List.dropWhile_cons,
        List.dropWhile_cons, ih.1, ih.2]
      split
      · exact ⟨rfl, rfl⟩
      · exact ⟨rfl, rfl⟩
  rw [readNumeral?, readNumeral?, hstop.1, hstop.2]
  split
  · rfl
  · rfl
  · rfl

/-- A count is closed by a brace, so it is found just if it was; what is no count without the
    parenthesis is none with it. -/
theorem readCount?_followed (text : List Char) :
    readCount? (text ++ ')' :: more) =
      (readCount? text).map fun (count, rest) => (count, rest ++ ')' :: more) := by
  rw [readCount?, readCount?, readNumeral?_followed]
  rcases readNumeral? text with _ | ⟨n, rest⟩
  · rfl
  rcases rest with _ | ⟨c, rest⟩
  · rfl
  by_cases hclose : c = '}'
  · subst hclose
    rfl
  by_cases hcomma : c = ','
  · subst hcomma
    rcases rest with _ | ⟨d, rest⟩
    · rfl
    by_cases hclose : d = '}'
    · subst hclose
      rfl
    have hupper := readNumeral?_followed more (d :: rest)
    rw [List.cons_append] at hupper
    rcases hm : readNumeral? (d :: rest) with _ | ⟨m, rest⟩
    · simp [hclose, hupper, hm]
    rcases rest with _ | ⟨c, rest⟩
    · simp [hclose, hupper, hm]
    by_cases hend : c = '}'
    · simp [hclose, hupper, hm, hend]
    · simp [hclose, hupper, hm, hend]
  · simp [hclose, hcomma]

/-- Digits in braces end with the brace. -/
theorem readBracedHex_followed {seen : Option Nat} {text rest : List Char} {r : Nat}
    (h : readBracedHex seen text = (some r, rest)) :
    readBracedHex seen (text ++ ')' :: more) = (some r, rest ++ ')' :: more) := by
  fun_induction readBracedHex seen text with
  | case1 => cases h
  | case2 seen tail =>
    cases h
    rfl
  | case3 => cases h
  | case4 => cases h
  | case5 seen c tail hne d hd hle ih =>
    rw [List.cons_append, readBracedHex, hd]
    · dsimp only
      rw [if_neg hle]
      exact ih h
    · exact hne

/-- Two digits are there, or a brace. -/
theorem readHex_followed {text rest : List Char} {r : Nat} (h : readHex text = (some r, rest)) :
    readHex (text ++ ')' :: more) = (some r, rest ++ ')' :: more) := by
  rcases text with _ | ⟨c, text⟩
  · cases h
  by_cases hbrace : c = '{'
  · subst hbrace
    exact readBracedHex_followed more h
  rcases text with _ | ⟨d, text⟩
  · simp [readHex, hbrace] at h
  · rw [readHex] at h
    · rw [List.cons_append, List.cons_append, readHex]
      · rw [Prod.mk.injEq] at h ⊢
        exact ⟨h.1, by rw [h.2]⟩
      · exact fun he => hbrace he
    · exact fun he => hbrace he

/-- Up to two octal digits, as they are read after a first one. -/
theorem takeWhile_octal_followed (text : List Char) :
    ((text ++ ')' :: more).take 2).takeWhile Numeral.isOctal =
      (text.take 2).takeWhile Numeral.isOctal := by
  rcases text with _ | ⟨c, text⟩
  · rfl
  rcases text with _ | ⟨d, text⟩
  · cases h : Numeral.isOctal c
    · simp [h]
    · simp [h, show Numeral.isOctal ')' = false from rfl]
  · rfl

/-- Octal digits end before the parenthesis, and the other forms have an end of their own. -/
theorem readEscapeRune_followed {c : Char} {text rest : List Char} {r : Nat}
    (h : readEscapeRune c text = (some r, rest)) :
    readEscapeRune c (text ++ ')' :: more) = (some r, rest ++ ')' :: more) := by
  rw [readEscapeRune] at h ⊢
  have hhead : (text ++ ')' :: more).head?.any Numeral.isOctal =
      text.head?.any Numeral.isOctal := by
    cases text with
    | nil => rfl
    | cons d tail => rfl
  rw [hhead, takeWhile_octal_followed]
  split at h
  · split at h
    · cases h
    · next hoctal hlone =>
      rw [if_pos hoctal, if_neg hlone]
      rw [Prod.mk.injEq] at h ⊢
      refine ⟨h.1, ?_⟩
      rw [← h.2]
      refine List.drop_append_of_le_length ?_
      exact (List.takeWhile_prefix _).length_le.trans (List.take_prefix 2 text).length_le
  · next hoctal =>
    rw [if_neg hoctal]
    split at h
    · next hx =>
      rw [if_pos hx]
      exact readHex_followed more h
    · next hx =>
      rw [if_neg hx]
      split at h
      · cases h
        rfl
      · rw [Prod.mk.injEq] at h ⊢
        exact ⟨h.1, by rw [h.2]⟩

/-- An escape is the same rune, whatever form it has. -/
theorem readEscape_followed {text rest : List Char} {r : Nat}
    (h : readEscape text = .ok (r, rest)) :
    readEscape (text ++ ')' :: more) = .ok (r, rest ++ ')' :: more) := by
  rcases text with _ | ⟨c, text⟩
  · cases h
  rw [readEscape] at h
  split at h
  · next he =>
    cases h
    rw [List.cons_append, readEscape, readEscapeRune_followed more he]
  · cases h

/-! ## Brackets -/

/-- A property is a letter, or a name in braces. -/
theorem readProperty_followed {negated : Bool} {start text rest : List Char} {item : BracketItem}
    (start' : List Char) (h : readProperty negated start text = .ok (item, rest)) :
    readProperty negated start' (text ++ ')' :: more) = .ok (item, rest ++ ')' :: more) := by
  rw [readProperty] at h ⊢
  split at h
  · cases h
  · next name after hname =>
    split at h
    · cases h
    · next ranges hranges =>
      cases h
      have hmore : readPropertyName? (text ++ ')' :: more) = some (name, rest ++ ')' :: more) := by
        rcases text with _ | ⟨c, text⟩
        · -- the name is empty, and no property has that
          cases hname
          cases hranges
        by_cases hbrace : c = '{'
        · subst hbrace
          exact splitAt?_append hname _
        · rw [readPropertyName?] at hname
          · rw [List.cons_append, readPropertyName?]
            · cases hname
              rfl
            · exact fun he => hbrace he
          · exact fun he => hbrace he
      rw [hmore]
      dsimp only
      rw [hranges]

theorem readGroupEscape?_followed {flags : Flags} {text rest : List Char} {item : BracketItem}
    (h : readGroupEscape? flags text = some (.ok (item, rest))) :
    readGroupEscape? flags (text ++ ')' :: more) = some (.ok (item, rest ++ ')' :: more)) := by
  unfold readGroupEscape? at h
  split at h
  · next c tail =>
    rw [List.cons_append, List.cons_append, readGroupEscape?]
    split at h
    · next hp =>
      rw [if_pos hp]
      rw [Option.some.injEq] at h ⊢
      exact readProperty_followed more _ h
    · next hp =>
      rw [if_neg hp]
      split at h
      · next hperl =>
        rw [if_pos hperl]
        obtain ⟨group, hgroup, he⟩ := Option.map_eq_some_iff.mp h
        cases he
        rw [hgroup]
        rfl
      · cases h
  · cases h

theorem readGroupEscape?_none_followed {flags : Flags} {text : List Char}
    (h : readGroupEscape? flags text = none) :
    readGroupEscape? flags (text ++ ')' :: more) = none := by
  rcases text with _ | ⟨b, text⟩
  · rfl
  by_cases hb : b = '\\'
  · subst hb
    rcases text with _ | ⟨c, text⟩
    · cases hperl : flags.perlX
      · simp [readGroupEscape?, hperl]
      · simp [readGroupEscape?, hperl, Unicode.perlGroup?]
    rw [readGroupEscape?] at h
    rw [List.cons_append, List.cons_append, readGroupEscape?]
    split at h
    · cases h
    · next hp =>
      rw [if_neg hp]
      split at h
      · next hperl =>
        rw [if_pos hperl]
        rw [Option.map_eq_none_iff] at h ⊢
        exact h
      · next hperl => rw [if_neg hperl]
  · rw [List.cons_append, readGroupEscape?]
    exact fun c rest he => absurd (List.cons.inj he).1 hb

/-- A group with a name that was closed is closed. -/
theorem readNamedGroup?_followed {text rest : List Char} {item : BracketItem}
    (h : readNamedGroup? text = some (.ok (item, rest))) :
    readNamedGroup? (text ++ ')' :: more) = some (.ok (item, rest ++ ')' :: more)) := by
  unfold readNamedGroup? at h
  split at h
  · next after =>
    obtain ⟨⟨name, tail⟩, hsplit, he⟩ := Option.map_eq_some_iff.mp h
    rw [List.cons_append, List.cons_append, readNamedGroup?, splitAt?_append hsplit]
    dsimp only [Option.map_some] at he ⊢
    split at he
    · cases he
    · cases he
      rfl
  · cases h

variable {more}

/-- A group whose name was not closed is not closed by what follows, since that has no end for
    it. -/
theorem readNamedGroup?_none_followed {text : List Char} (hsealed : Sealed text more)
    (h : readNamedGroup? text = none) : readNamedGroup? (text ++ ')' :: more) = none := by
  by_cases hopen : ∃ after, text = '[' :: ':' :: after
  · obtain ⟨after, rfl⟩ := hopen
    have hmore := hsealed.named ⟨[], after, rfl⟩
    rw [readNamedGroup?, Option.map_eq_none_iff] at h
    rw [List.cons_append, List.cons_append, readNamedGroup?, splitAt?_named h hmore]
    rfl
  · unfold readNamedGroup?
    split
    · next after he =>
      -- the colon would have to come before the parenthesis
      rcases text with _ | ⟨b, text⟩
      · cases he
      rcases text with _ | ⟨c, text⟩
      · cases he
      · cases he
        exact absurd ⟨text, rfl⟩ hopen
    · rfl

variable (more)

theorem readBracketRune_followed {opening text rest : List Char} {r : Nat} (opening' : List Char)
    (h : readBracketRune opening text = .ok (r, rest)) :
    readBracketRune opening' (text ++ ')' :: more) = .ok (r, rest ++ ')' :: more) := by
  unfold readBracketRune at h
  split at h
  · cases h
  · exact readEscape_followed more h
  · next c tail hc =>
    cases h
    rw [List.cons_append, readBracketRune]
    exact hc

/-- Before a bracket that is still to close, what follows the text is not looked at. -/
theorem rangeGoesOn_followed {text : List Char} (h : ']' ∈ text) :
    rangeGoesOn (text ++ ')' :: more) = rangeGoesOn text := by
  rcases text with _ | ⟨b, text⟩
  · cases h
  rcases text with _ | ⟨c, text⟩
  · obtain rfl := List.mem_singleton.mp h
    rfl
  · by_cases hb : b = '-'
    · subst hb
      rfl
    · simp [rangeGoesOn, hb]

/-- Whether a hyphen is out of place is seen before the bracket is closed. -/
theorem strayHyphen_followed (flags : Flags) {text : List Char} (h : ']' ∈ text) :
    strayHyphen flags (text ++ ')' :: more) = strayHyphen flags text := by
  rcases text with _ | ⟨b, text⟩
  · cases h
  rcases text with _ | ⟨c, text⟩
  · obtain rfl := List.mem_singleton.mp h
    rfl
  · rfl

/-- A range ends before the bracket is closed, so what comes after that does not matter: whether a
    hyphen goes on is seen from two characters, and the bracket that closes is one of them at the
    latest. -/
theorem readRange_followed {opening text rest : List Char} {item : BracketItem}
    (opening' : List Char) (hclose : ']' ∈ rest)
    (h : readRange opening text = .ok (item, rest)) :
    readRange opening' (text ++ ')' :: more) = .ok (item, rest ++ ')' :: more) := by
  rw [readRange] at h
  split at h
  · cases h
  · next lo middle hlo =>
    rw [readRange, readBracketRune_followed more opening' hlo]
    dsimp only
    split at h
    · next hgoes =>
      have hmem : ']' ∈ middle := by
        split at h
        · cases h
        · next hi tail hhi =>
          split at h
          · cases h
          · cases h
            exact List.mem_of_mem_tail ((consumed_of_readBracketRune hhi).isSuffix.mem hclose)
      rw [rangeGoesOn_followed more hmem, if_pos hgoes]
      split at h
      · cases h
      · next hi tail hhi =>
        have hne : middle ≠ [] := List.ne_nil_of_mem hmem
        rw [List.tail_append_of_ne_nil hne, readBracketRune_followed more opening' hhi]
        dsimp only
        split at h
        · cases h
        · next hle =>
          cases h
          rw [if_neg hle]
    · next hends =>
      cases h
      rw [rangeGoesOn_followed more hclose, if_neg hends]

variable {more}

/-- An item of a bracket is read before the bracket is closed, so what comes after that does not
    matter. -/
theorem readItem_followed {flags : Flags} {opening text rest : List Char} {item : BracketItem}
    (opening' : List Char) (hsealed : Sealed text more) (hclose : ']' ∈ rest)
    (h : readItem flags opening text = .ok (item, rest)) :
    readItem flags opening' (text ++ ')' :: more) = .ok (item, rest ++ ')' :: more) := by
  rw [readItem] at h
  split at h
  · next hnamed =>
    subst h
    rw [readItem, readNamedGroup?_followed more hnamed]
  · next hnamed =>
    rw [readItem, readNamedGroup?_none_followed hsealed hnamed]
    dsimp only
    split at h
    · next hgroup =>
      subst h
      rw [readGroupEscape?_followed more hgroup]
    · next hgroup =>
      rw [readGroupEscape?_none_followed more hgroup]
      exact readRange_followed more opening' hclose h

/-- Items end at a closing bracket. -/
theorem mem_of_readItems {flags : Flags} {opening : List Char} {first : Bool}
    {text rest : List Char} {items : List BracketItem}
    (h : readItems flags opening first text = .ok (items, rest)) : ']' ∈ text := by
  fun_induction readItems flags opening first text generalizing items rest with
  | case1 first text hclose =>
    rw [Bool.and_eq_true, beq_iff_eq] at hclose
    exact List.mem_of_head? hclose.2
  | case2 => cases h
  | case3 => cases h
  | case4 => cases h
  | case5 first text _ _ item middle hi items' tail ht ih =>
    exact (consumed_of_readItem hi).isSuffix.mem (ih ht)

/-- Items are read up to the bracket that closes them, by induction on the text that is left; after
    each item that bracket is still to come. -/
theorem readItems_followed {flags : Flags} {opening : List Char} {first : Bool}
    {text rest : List Char} {items : List BracketItem} (opening' : List Char)
    (hsealed : Sealed text more)
    (h : readItems flags opening first text = .ok (items, rest)) :
    readItems flags opening' first (text ++ ')' :: more) = .ok (items, rest ++ ')' :: more) := by
  have hmem : ']' ∈ text := mem_of_readItems h
  have hhead : (text ++ ')' :: more).head? = text.head? :=
    List.head?_append_of_ne_nil text (List.ne_nil_of_mem hmem)
  have htail : (text ++ ')' :: more).tail = text.tail ++ ')' :: more :=
    List.tail_append_of_ne_nil (List.ne_nil_of_mem hmem)
  fun_induction readItems flags opening first text generalizing items rest with
  | case1 first text hclose =>
    cases h
    rw [readItems, hhead, if_pos hclose, htail]
  | case2 => cases h
  | case3 => cases h
  | case4 => cases h
  | case5 first text hclose hstray item middle hi items' tail ht ih =>
    cases h
    have hmiddle := mem_of_readItems ht
    have hs : middle <:+ text := (consumed_of_readItem hi).isSuffix
    have hitem := readItem_followed opening' hsealed hmiddle hi
    have hitems := ih (hsealed.of_suffix hs) ht hmiddle
      (List.head?_append_of_ne_nil middle (List.ne_nil_of_mem hmiddle))
      (List.tail_append_of_ne_nil (List.ne_nil_of_mem hmiddle))
    rw [← hhead] at hclose
    rw [← strayHyphen_followed more flags hmem] at hstray
    exact readItems_cons hclose hstray hitem hitems

/-- A bracket is the same bracket, since it was closed. -/
theorem readBracket_followed {flags : Flags} {text rest : List Char} {b : Bracket}
    (hsealed : Sealed text more) (h : readBracket flags text = .ok (b, rest)) :
    readBracket flags (text ++ ')' :: more) = .ok (b, rest ++ ')' :: more) := by
  have hcaret : splitCaret (text ++ ')' :: more) =
        ((splitCaret text).1, (splitCaret text).2 ++ ')' :: more) ∧ (splitCaret text).2 <:+ text := by
    rcases text with _ | ⟨c, text⟩
    · exact ⟨rfl, List.suffix_refl _⟩
    by_cases hc : c = '^'
    · subst hc
      exact ⟨rfl, List.suffix_cons _ _⟩
    · have hsame : ∀ tail, splitCaret (c :: tail) = (false, c :: tail) := by
        intro tail
        rw [splitCaret]
        exact fun _ he => absurd (List.cons.inj he).1 hc
      rw [List.cons_append, hsame, hsame]
      exact ⟨rfl, List.suffix_refl _⟩
  rw [readBracket] at h
  split at h
  · cases h
  · next items tail hitems =>
    cases h
    rw [readBracket, hcaret.1]
    dsimp only
    rw [readItems_followed _ (hsealed.of_suffix hcaret.2) hitems]

/-! ## Groups with flags or a name -/

variable (more)

/-- Switches end with a colon or with a parenthesis of their own. -/
theorem readSwitches_followed {start : List Char} {flags : Flags} {off seen : Bool}
    {text rest : List Char} {token : Token} (start' : List Char)
    (h : readSwitches start flags off seen text = .ok (token, rest)) :
    readSwitches start' flags off seen (text ++ ')' :: more) = .ok (token, rest ++ ')' :: more) := by
  fun_induction readSwitches start flags off seen text with
  | case1 => cases h
  | case2 flags off seen c tail next hswitch ih =>
    rw [List.cons_append, readSwitches, hswitch]
    exact ih h
  | case3 flags off seen c tail hswitch hhyphen ih =>
    rw [List.cons_append, readSwitches, hswitch]
    dsimp only
    rw [if_pos hhyphen]
    exact ih h
  | case4 flags off seen c tail hswitch hhyphen hcolon =>
    cases h
    rw [List.cons_append, readSwitches, hswitch]
    dsimp only
    rw [if_neg hhyphen, if_pos hcolon]
  | case5 flags off seen c tail hswitch hhyphen hcolon hparen =>
    cases h
    rw [List.cons_append, readSwitches, hswitch]
    dsimp only
    rw [if_neg hhyphen, if_neg hcolon, if_pos hparen]
  | case6 => cases h

/-- A name ends with its angle bracket. -/
theorem readNamedCapture_followed {start text rest : List Char} {token : Token}
    (start' : List Char) (h : readNamedCapture start text = .ok (token, rest)) :
    readNamedCapture start' (text ++ ')' :: more) = .ok (token, rest ++ ')' :: more) := by
  rw [readNamedCapture] at h
  split at h
  · cases h
  · next name tail hsplit =>
    rw [readNamedCapture, splitAt?_append hsplit]
    dsimp only
    split at h
    · next hname =>
      cases h
      rw [if_pos hname]
    · cases h

theorem readSpecialGroup_followed {flags : Flags} {text rest : List Char} {token : Token}
    (h : readSpecialGroup flags text = .ok (token, rest)) :
    readSpecialGroup flags (text ++ ')' :: more) = .ok (token, rest ++ ')' :: more) := by
  unfold readSpecialGroup at h
  dsimp only at h
  split at h
  · exact readNamedCapture_followed more _ h
  · exact readNamedCapture_followed more _ h
  · next hlong hshort =>
    -- switches begin neither with a P nor with an angle
    rcases text with _ | ⟨c, text⟩
    · cases h
    have hP : c ≠ 'P' := by
      rintro rfl
      cases h
    have hangle : c ≠ '<' := by
      rintro rfl
      cases h
    rw [List.cons_append, readSpecialGroup]
    · exact readSwitches_followed more _ h
    · exact fun _ _ he => absurd (List.cons.inj he).1 hP
    · exact fun _ _ he => absurd (List.cons.inj he).1 hangle

/-! ## Tokens -/

/-- The parenthesis turns no sign. -/
theorem withTurn_followed (flags : Flags) (q : Quantifier) (text : List Char) :
    withTurn flags q (text ++ ')' :: more) =
      ((withTurn flags q text).1, (withTurn flags q text).2 ++ ')' :: more) := by
  rw [withTurn, withTurn]
  rcases text with _ | ⟨c, text⟩
  · simp
  · rw [List.cons_append, List.head?_cons, List.head?_cons]
    split
    · rfl
    · rfl

/-- A brace is the same count, or no count still. -/
theorem readBrace_followed {flags : Flags} {text rest : List Char} {token : Token}
    (h : readBrace flags text = .ok (token, rest)) :
    readBrace flags (text ++ ')' :: more) = .ok (token, rest ++ ')' :: more) := by
  rw [readBrace] at h
  rw [readBrace, readCount?_followed]
  split at h
  · next hcount =>
    cases h
    rw [hcount]
    rfl
  · next count tail hcount =>
    rw [hcount]
    dsimp only [Option.map_some]
    split at h
    · cases h
    · next hfits =>
      injection h with h
      rw [if_neg hfits, withTurn_followed, h]

/-- A group that is opened is opened in the same way. -/
theorem readOpening_followed {flags : Flags} {text rest : List Char} {token : Token}
    (h : readOpening flags text = .ok (token, rest)) :
    readOpening flags (text ++ ')' :: more) = .ok (token, rest ++ ')' :: more) := by
  rw [readOpening] at h ⊢
  rcases text with _ | ⟨c, text⟩
  · rw [if_neg (by simp)] at h
    rw [if_neg (by simp)]
    cases h
    rfl
  · rw [List.head?_cons] at h
    rw [List.cons_append, List.head?_cons]
    split at h
    · next hspecial =>
      rw [if_pos hspecial]
      exact readSpecialGroup_followed more h
    · next hspecial =>
      rw [if_neg hspecial]
      cases h
      rfl

variable {more}

/-- Escapes with a meaning of their own, quoted text excepted. -/
theorem readPerlEscape?_followed {flags : Flags} {text rest : List Char} {token : Token}
    (hsealed : Sealed ('\\' :: text) more)
    (h : readPerlEscape? flags text = some (.ok (token, rest))) :
    readPerlEscape? flags (text ++ ')' :: more) = some (.ok (token, rest ++ ')' :: more)) := by
  unfold readPerlEscape? at h
  split at h
  · cases h
  · next tail => exact absurd ⟨[], tail, rfl⟩ hsealed.quoted
  · next c tail hC hQ =>
    rw [List.cons_append, readPerlEscape?]
    · obtain ⟨op, hop, he⟩ := Option.map_eq_some_iff.mp h
      cases he
      rw [hop]
      rfl
    · exact hC
    · exact hQ
  · cases h

theorem readPerlEscape?_none_followed {flags : Flags} {text : List Char}
    (h : readPerlEscape? flags text = none) :
    readPerlEscape? flags (text ++ ')' :: more) = none := by
  unfold readPerlEscape? at h
  split at h
  · cases h
  · cases h
  · next c tail hC hQ =>
    rw [List.cons_append, readPerlEscape?]
    · rw [Option.map_eq_none_iff] at h ⊢
      exact h
    · exact hC
    · exact hQ
  · rfl

/-- What follows a backslash, whatever it is. -/
theorem readBackslash_followed {flags : Flags} {text rest : List Char} {token : Token}
    (hsealed : Sealed ('\\' :: text) more)
    (h : readBackslash flags text = .ok (token, rest)) :
    readBackslash flags (text ++ ')' :: more) = .ok (token, rest ++ ')' :: more) := by
  rw [readBackslash] at h
  split at h
  · next result hresult =>
    subst h
    split at hresult
    · next hperl =>
      rw [readBackslash, if_pos hperl, readPerlEscape?_followed hsealed hresult]
    · cases hresult
  · next hnone =>
    have hmore : (if flags.perlX then readPerlEscape? flags (text ++ ')' :: more) else none) =
        none := by
      split at hnone
      · next hperl =>
        rw [if_pos hperl]
        exact readPerlEscape?_none_followed hnone
      · next hperl => rw [if_neg hperl]
    rw [readBackslash, hmore]
    dsimp only
    rw [← List.cons_append]
    split at h
    · next item tail hgroup =>
      cases h
      rw [readGroupEscape?_followed more hgroup]
    · cases h
    · next hgroup =>
      rw [readGroupEscape?_none_followed more hgroup]
      dsimp only
      split at h
      · next r tail hescape =>
        cases h
        rw [readEscape_followed more hescape]
      · cases h

/-- A token of a text is the same token if a parenthesis follows the text; one case for each sign
    that a token may begin with. -/
theorem readToken_followed {flags : Flags} {c : Char} {text rest : List Char} {token : Token}
    (hsealed : Sealed (c :: text) more) (h : readToken flags c text = .ok (token, rest)) :
    readToken flags c (text ++ ')' :: more) = .ok (token, rest ++ ')' :: more) := by
  -- only brackets and escapes look for an end that they might find in what follows
  rw [readToken] at h ⊢
  split at h
  · next hc =>
    rw [if_pos hc]
    exact readOpening_followed more h
  rw [if_neg ‹_›]
  split at h
  · next hc =>
    cases h
    rw [if_pos hc]
  rw [if_neg ‹_›]
  split at h
  · next hc =>
    cases h
    rw [if_pos hc]
  rw [if_neg ‹_›]
  split at h
  · next hc =>
    rw [if_pos hc]
    split at h
    · next hb =>
      cases h
      rw [readBracket_followed (hsealed.of_suffix (List.suffix_cons c text)) hb]
    · cases h
  rw [if_neg ‹_›]
  split at h
  · next hc =>
    rw [if_pos hc]
    exact readBrace_followed more h
  rw [if_neg ‹_›]
  split at h
  · next hc =>
    subst hc
    rw [if_pos rfl]
    exact readBackslash_followed hsealed h
  rw [if_neg ‹_›]
  split at h
  · cases h
    rfl
  · injection h with h
    rw [withTurn_followed, h]
  · cases h
    rfl

end

end RegexTree
