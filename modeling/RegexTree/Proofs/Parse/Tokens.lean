/-
  What the reader of tokens makes is valid.

  `Token.Valid` collects what is relied on further on: runes are code points, the items of a bracket
  are ranges in order or clean lists, counts keep the bounds, names are names.  Nothing of that
  depends on what was read before, so it is proved of the readers one by one and holds of every
  token (`readToken_valid`).

  A reader gives what it read together with the text that is left, or an error, or that it does not
  apply.  So each lemma is about a successful call, and its proof follows the branches of the
  reader.  The two that loop have an induction: braced hexadecimal digits on the text, with the
  number read so far as an invariant (`readBracedHex_le`), and the items of a bracket on the text
  that is left (`readItems_valid`).

  The list of ranges that a bracket stands for is clean, since each item is added to a list in order
  and the whole is cleaned at the end, and the complement of a clean list is clean
  (`Bracket.ranges_clean`).
-/
import RegexTree.Proofs.Ranges.Folded
import RegexTree.Syntax.Token

namespace RegexTree

/-- The operation is an assertion or a dot. -/
def Op.isSimple : Op → Bool
  | .anyCharNotNL | .anyChar | .beginLine | .endLine | .beginText | .endText | .wordBoundary
  | .noWordBoundary => true
  | _ => false

theorem Op.arity_of_isSimple {op : Op} (h : op.isSimple = true) : op.arity = .leaf := by
  cases op <;> first | rfl | cases h

/-- A range is valid; the runes of a group are a clean list. -/
def BracketItem.Valid : BracketItem → Prop
  | .range r => r.Valid
  | .group _ x => x.Clean

/-- The numbers of a count are within the bounds; signs have none. -/
structure Quantifier.Valid (q : Quantifier) : Prop where
  isRepeat : q.op.isRepeat = true
  bounds : q.op = .counted →
    0 ≤ q.min ∧ q.min ≤ maxRepeat ∧ (q.max = -1 ∨ q.min ≤ q.max ∧ q.max ≤ maxRepeat)

theorem Quantifier.Valid.ne_capture {q : Quantifier} (h : q.Valid) : q.op ≠ .capture := by
  intro hop
  have hrepeat := h.isRepeat
  rw [hop] at hrepeat
  cases hrepeat

/-- What holds of the parts of a token. -/
def Token.Valid : Token → Prop
  | .capture name => ∀ n ∈ name, isCaptureName n.toList = true
  | .simple piece => ∃ op flags, op.isSimple = true ∧ piece = .leaf op flags
  | .text runes => ∀ r ∈ runes, r ≤ maxRune
  | .bracket b => ∀ item ∈ b.items, item.Valid
  | .repetition q => q.Valid
  | _ => True

/-! ## Runes -/

/-- A hexadecimal digit is less than 16. -/
theorem hexDigit?_lt {c : Char} {d : Nat} (h : Numeral.hexDigit? c = some d) : d < 16 := by
  have hle : ∀ {a b : Char}, a ≤ b ↔ a.toNat ≤ b.toNat := by
    intro a b
    exact Iff.rfl
  unfold Numeral.hexDigit? at h
  split at h
  · next hd =>
    simp only [Numeral.isDecimal, Bool.and_eq_true, decide_eq_true_eq, hle] at hd
    have h9 : ('9' : Char).toNat = 57 := rfl
    have h0 : ('0' : Char).toNat = 48 := rfl
    injection h with h
    omega
  · split at h
    · next hd =>
      simp only [Bool.and_eq_true, decide_eq_true_eq, hle] at hd
      have hf : ('f' : Char).toNat = 102 := rfl
      have ha : ('a' : Char).toNat = 97 := rfl
      injection h with h
      omega
    · split at h
      · next hd =>
        simp only [Bool.and_eq_true, decide_eq_true_eq, hle] at hd
        have hF : ('F' : Char).toNat = 70 := rfl
        have hA : ('A' : Char).toNat = 65 := rfl
        injection h with h
        omega
      · cases h

/-- The number is compared with the largest rune at each digit, so it never passes it. -/
theorem readBracedHex_le {seen : Option Nat} {text : List Char} {r : Nat}
    (hseen : ∀ n ∈ seen, n ≤ maxRune) (h : (readBracedHex seen text).1 = some r) :
    r ≤ maxRune := by
  fun_induction readBracedHex seen text with
  | case1 => cases h
  | case2 => exact hseen r h
  | case3 => cases h
  | case4 => cases h
  | case5 seen c rest _ d hd hle ih =>
    refine ih (fun n hn => ?_) h
    cases hn
    omega

/-- Two digits come to less than 256, and digits in braces are compared as they come. -/
theorem readHex_le {text : List Char} {r : Nat} (h : (readHex text).1 = some r) :
    r ≤ maxRune := by
  unfold readHex at h
  split at h
  · exact readBracedHex_le (fun _ hn => by cases hn) h
  · split at h
    · next x y hx hy =>
      have := hexDigit?_lt hx
      have := hexDigit?_lt hy
      injection h with h
      show r ≤ 0x10FFFF
      omega
    · cases h
  · cases h

/-- Up to three octal digits write a small number. -/
theorem ofOctal_le {digits : List Char} (h : ∀ c ∈ digits, Numeral.isOctal c = true)
    (hlen : digits.length ≤ 3) : Numeral.ofOctal digits ≤ maxRune := by
  have hdigit : ∀ c ∈ digits, c.toNat - ('0' : Char).toNat ≤ 7 := by
    intro c hc
    have h7 := h c hc
    simp only [Numeral.isOctal, Bool.and_eq_true, decide_eq_true_eq] at h7
    have h7' : c.toNat ≤ ('7' : Char).toNat := h7.2
    have hseven : ('7' : Char).toNat = 55 := rfl
    have hzero : ('0' : Char).toNat = 48 := rfl
    omega
  rw [Numeral.ofOctal, Nat.ofDigitChars_eq_foldl]
  show _ ≤ 0x10FFFF
  -- at most 777, which is 511
  match digits, hlen with
  | [], _ => simp
  | [a], _ =>
    have := hdigit a (by simp)
    simp only [List.foldl_cons, List.foldl_nil]
    omega
  | [a, b], _ =>
    have := hdigit a (by simp)
    have := hdigit b (by simp)
    simp only [List.foldl_cons, List.foldl_nil]
    omega
  | [a, b, c], _ =>
    have := hdigit a (by simp)
    have := hdigit b (by simp)
    have := hdigit c (by simp)
    simp only [List.foldl_cons, List.foldl_nil]
    omega

/-- What a character after the backslash stands for is a rune. -/
theorem readEscapeRune_le {c : Char} {rest : List Char} {r : Nat}
    (h : (readEscapeRune c rest).1 = some r) : r ≤ maxRune := by
  unfold readEscapeRune at h
  split at h
  · next hc =>
    split at h
    · cases h
    · injection h with h
      rw [← h]
      refine ofOctal_le (List.forall_mem_cons.mpr ⟨hc, fun d hd => ?_⟩) ?_
      · exact List.all_eq_true.mp List.all_takeWhile d hd
      · have h1 := (List.takeWhile_prefix Numeral.isOctal (l := rest.take 2)).length_le
        have h2 := List.length_take_le 2 rest
        rw [List.length_cons]
        omega
  · split at h
    · exact readHex_le h
    · split at h
      · next hr =>
        injection h with h
        subst h
        unfold namedControl? at hr
        split at hr
        all_goals
          first
          | cases hr
            decide
          | cases hr
      · dsimp only at h
        split at h
        · injection h with h
          exact h ▸ toNat_le_maxRune c
        · cases h

/-- An escape is a rune, which is a code point. -/
theorem readEscape_le {text rest : List Char} {r : Nat} (h : readEscape text = .ok (r, rest)) :
    r ≤ maxRune := by
  unfold readEscape at h
  split at h
  · cases h
  · next c tail =>
    split at h
    · next he =>
      cases h
      exact readEscapeRune_le (congrArg Prod.fst he)
    · cases h

/-! ## Brackets -/

/-- What a property has is a clean list, by the table of properties. -/
theorem readProperty_valid {negated : Bool} {start text rest : List Char} {item : BracketItem}
    (h : readProperty negated start text = .ok (item, rest)) : item.Valid := by
  unfold readProperty at h
  split at h
  · cases h
  · split at h
    · cases h
    · next hx =>
      cases h
      exact Unicode.property?_clean hx

/-- What a letter for a group stands for is a clean list, by the tables of groups. -/
theorem readGroupEscape?_valid {flags : Flags} {text rest : List Char} {item : BracketItem}
    (h : readGroupEscape? flags text = some (.ok (item, rest))) : item.Valid := by
  unfold readGroupEscape? at h
  split at h
  · split at h
    · injection h with h
      exact readProperty_valid h
    · split at h
      · obtain ⟨⟨negated, x⟩, hx, he⟩ := Option.map_eq_some_iff.mp h
        cases he
        exact Unicode.perlGroup?_clean hx
      · cases h
  · cases h

theorem readNamedGroup?_valid {text rest : List Char} {item : BracketItem}
    (h : readNamedGroup? text = some (.ok (item, rest))) : item.Valid := by
  unfold readNamedGroup? at h
  split at h
  · obtain ⟨⟨name, tail⟩, -, he⟩ := Option.map_eq_some_iff.mp h
    dsimp only at he
    split at he
    · cases he
    · next hx =>
      cases he
      exact Unicode.posixGroup?_clean hx
  · cases h

theorem readBracketRune_le {opening text rest : List Char} {r : Nat}
    (h : readBracketRune opening text = .ok (r, rest)) : r ≤ maxRune := by
  unfold readBracketRune at h
  split at h
  · cases h
  · exact readEscape_le h
  · cases h
    exact toNat_le_maxRune _

/-- A range that is read ends where it begins or after that. -/
theorem readRange_valid {opening text rest : List Char} {item : BracketItem}
    (h : readRange opening text = .ok (item, rest)) : item.Valid := by
  unfold readRange at h
  split at h
  · cases h
  · next lo middle hlo =>
    have hle := readBracketRune_le hlo
    split at h
    · split at h
      · cases h
      · next hi tail hhi =>
        split at h
        · cases h
        · next hge =>
          cases h
          exact ⟨Nat.le_of_not_lt hge, readBracketRune_le hhi⟩
    · cases h
      exact ⟨Nat.le_refl lo, hle⟩

/-- An item is a group or a range. -/
theorem readItem_valid {flags : Flags} {opening text rest : List Char} {item : BracketItem}
    (h : readItem flags opening text = .ok (item, rest)) : item.Valid := by
  unfold readItem at h
  split at h
  · next hn => exact readNamedGroup?_valid (h ▸ hn)
  · split at h
    · next hg => exact readGroupEscape?_valid (h ▸ hg)
    · exact readRange_valid h

/-- All items are valid, by induction on the text that is left. -/
theorem readItems_valid {flags : Flags} {opening : List Char} {first : Bool}
    {text rest : List Char} {items : List BracketItem}
    (h : readItems flags opening first text = .ok (items, rest)) : ∀ i ∈ items, i.Valid := by
  fun_induction readItems flags opening first text generalizing items rest with
  | case1 =>
    cases h
    exact fun _ hi => absurd hi List.not_mem_nil
  | case2 => cases h
  | case3 => cases h
  | case4 => cases h
  | case5 first text _ _ item middle hi items' tail ht ih =>
    cases h
    exact List.forall_mem_cons.mpr ⟨readItem_valid hi, ih ht⟩

theorem readBracket_valid {flags : Flags} {text rest : List Char} {b : Bracket}
    (h : readBracket flags text = .ok (b, rest)) : ∀ i ∈ b.items, i.Valid := by
  unfold readBracket at h
  split at h
  · cases h
  · next hi =>
    cases h
    exact readItems_valid hi

/-- An item is added to a list of ranges that are in order, and leaves one. -/
theorem BracketItem.addTo_valid {fold : Bool} {x : Ranges} {item : BracketItem} (hx : x.Valid)
    (hitem : item.Valid) : (item.addTo fold x).Valid := by
  cases item with
  | range r =>
    rw [addTo]
    split
    · exact Ranges.addFolded_valid hx hitem
    · exact Ranges.add_valid hx hitem
  | group negated y =>
    have hy : (if fold then y.folded else y).Clean := by
      split
      · exact Ranges.folded_clean hitem.valid
      · exact hitem
    refine Ranges.addAll_valid hx ?_
    split
    · exact (Ranges.complement_clean hy).valid
    · exact hy.valid

/-- What is collected of a bracket before it is complemented. -/
def Bracket.listed (flags : Flags) (b : Bracket) : Ranges :=
  let start := if b.negated && !flags.classNL then [Range.single newline] else []
  Ranges.clean (b.items.foldl (BracketItem.addTo flags.foldCase) start)

/-- A bracket stands for what it lists, or for everything else. -/
theorem Bracket.ranges_eq (flags : Flags) (b : Bracket) :
    b.ranges flags = if b.negated then (b.listed flags).complement else b.listed flags := rfl

/-- What a bracket lists is cleaned. -/
theorem Bracket.listed_clean (flags : Flags) {b : Bracket} (h : ∀ i ∈ b.items, i.Valid) :
    (b.listed flags).Clean := by
  have hstart : Ranges.Valid
      (if b.negated && !flags.classNL then [Range.single newline] else []) := by
    split
    · exact Ranges.valid_cons.mpr ⟨by decide, Ranges.valid_nil⟩
    · exact Ranges.valid_nil
  have hadd : ∀ x : Ranges, ∀ i ∈ b.items, x.Valid → (i.addTo flags.foldCase x).Valid :=
    fun x i hi hx => BracketItem.addTo_valid hx (h i hi)
  exact Ranges.clean_clean (Ranges.foldl_valid hadd hstart)

/-- The runes of a bracket of valid items are a clean list. -/
theorem Bracket.ranges_clean (flags : Flags) {b : Bracket} (h : ∀ i ∈ b.items, i.Valid) :
    (b.ranges flags).Clean := by
  have hlisted := b.listed_clean flags h
  rw [ranges_eq]
  split
  · exact Ranges.complement_clean hlisted
  · exact hlisted

/-! ## Tokens -/

theorem readSwitches_valid {start : List Char} {flags : Flags} {off seen : Bool}
    {text rest : List Char} {token : Token}
    (h : readSwitches start flags off seen text = .ok (token, rest)) : token.Valid := by
  fun_induction readSwitches start flags off seen text with
  | case1 => cases h
  | case2 _ _ _ _ _ _ _ ih => exact ih h
  | case3 _ _ _ _ _ _ _ ih => exact ih h
  | case4 =>
    cases h
    trivial
  | case5 =>
    cases h
    trivial
  | case6 => cases h

/-- A capture has a name that was checked. -/
theorem readNamedCapture_valid {start text rest : List Char} {token : Token}
    (h : readNamedCapture start text = .ok (token, rest)) : token.Valid := by
  unfold readNamedCapture at h
  split at h
  · cases h
  · split at h
    · next hname =>
      cases h
      intro n hn
      cases hn
      rwa [String.toList_ofList]
    · cases h

theorem readSpecialGroup_valid {flags : Flags} {text rest : List Char} {token : Token}
    (h : readSpecialGroup flags text = .ok (token, rest)) : token.Valid := by
  unfold readSpecialGroup at h
  dsimp only at h
  split at h
  · exact readNamedCapture_valid h
  · exact readNamedCapture_valid h
  · exact readSwitches_valid h

/-- Quoted text is runes of characters, and the other escapes are single pieces or groups. -/
theorem readPerlEscape?_valid {flags : Flags} {text rest : List Char} {token : Token}
    (h : readPerlEscape? flags text = some (.ok (token, rest))) : token.Valid := by
  unfold readPerlEscape? at h
  split at h
  · cases h
  · cases h
    intro r hr
    obtain ⟨c, -, rfl⟩ := List.mem_map.mp hr
    exact toNat_le_maxRune c
  · obtain ⟨op, hop, he⟩ := Option.map_eq_some_iff.mp h
    cases he
    refine ⟨op, flags, ?_, rfl⟩
    unfold assertion? at hop
    split at hop
    all_goals
      first
      | cases hop
        rfl
      | cases hop
  · cases h

/-- What follows a backslash is one of these, or an escape. -/
theorem readBackslash_valid {flags : Flags} {text rest : List Char} {token : Token}
    (h : readBackslash flags text = .ok (token, rest)) : token.Valid := by
  unfold readBackslash at h
  split at h
  · next hp =>
    subst h
    split at hp
    · exact readPerlEscape?_valid hp
    · cases hp
  · split at h
    · next hg =>
      cases h
      exact List.forall_mem_singleton.mpr (readGroupEscape?_valid hg)
    · cases h
    · split at h
      · next he =>
        cases h
        exact List.forall_mem_singleton.mpr (readEscape_le he)
      · cases h

/-- A sign that may be turned lazy keeps its bounds. -/
theorem withTurn_valid (flags : Flags) {q : Quantifier} (hq : q.Valid) (rest : List Char) :
    (withTurn flags q rest).1.Valid := by
  unfold withTurn
  split
  · exact ⟨hq.isRepeat, hq.bounds⟩
  · exact hq

/-- A count that is not too large keeps the bounds. -/
theorem Count.quantifier_valid {count : Count} (h : ¬count.isTooLarge = true) :
    Quantifier.Valid ⟨.counted, count.min, count.upper, false⟩ := by
  refine ⟨rfl, fun _ => ?_⟩
  rw [Bool.not_eq_true] at h
  simp only [Count.isTooLarge, Bool.or_eq_false_iff, decide_eq_false_iff_not, Option.any_eq_false,
    Nat.not_lt] at h
  refine ⟨Int.natCast_nonneg _, Int.ofNat_le.mpr h.1, ?_⟩
  rw [Count.upper]
  split
  · next max hmax =>
    have := h.2 max hmax
    exact Or.inr ⟨Int.ofNat_le.mpr this.2, Int.ofNat_le.mpr this.1⟩
  · exact Or.inl rfl

/-- A brace is a count within the bounds or stands for itself. -/
theorem readBrace_valid {flags : Flags} {text rest : List Char} {token : Token}
    (h : readBrace flags text = .ok (token, rest)) : token.Valid := by
  unfold readBrace at h
  split at h
  · cases h
    exact List.forall_mem_singleton.mpr (toNat_le_maxRune '{')
  · next count tail hc =>
    split at h
    · cases h
    · next hsmall =>
      injection h with h
      have hq := Count.quantifier_valid hsmall
      have hw := withTurn_valid flags hq tail
      rwa [h] at hw

theorem sign?_valid {c : Char} {op : Op} (h : sign? c = some op) : Quantifier.Valid { op } := by
  unfold sign? at h
  split at h
  all_goals cases h
  all_goals exact ⟨rfl, fun hop => Op.noConfusion hop⟩

theorem simplePiece?_valid {flags : Flags} {c : Char} {piece : Tree}
    (h : simplePiece? flags c = some piece) : (Token.simple piece).Valid := by
  unfold simplePiece? at h
  split at h
  · cases h
    refine ⟨_, _, ?_, rfl⟩
    split <;> rfl
  · cases h
    split
    · exact ⟨_, _, rfl, rfl⟩
    · exact ⟨_, _, rfl, rfl⟩
  · cases h
    refine ⟨_, _, ?_, rfl⟩
    split <;> rfl
  · cases h

/-- Every token is valid. -/
theorem readToken_valid {flags : Flags} {c : Char} {text rest : List Char} {token : Token}
    (h : readToken flags c text = .ok (token, rest)) : token.Valid := by
  unfold readToken at h
  split at h
  · unfold readOpening at h
    split at h
    · exact readSpecialGroup_valid h
    · cases h
      exact fun _ hn => by cases hn
  split at h
  · cases h
    trivial
  split at h
  · cases h
    trivial
  split at h
  · split at h
    · next hb =>
      cases h
      exact readBracket_valid hb
    · cases h
  split at h
  · exact readBrace_valid h
  split at h
  · exact readBackslash_valid h
  split at h
  · next hp =>
    cases h
    exact simplePiece?_valid hp
  · next op _ hs =>
    injection h with h
    have hw := withTurn_valid flags (sign?_valid hs) text
    rwa [h] at hw
  · cases h
    exact List.forall_mem_singleton.mpr (toNat_le_maxRune c)

end RegexTree
