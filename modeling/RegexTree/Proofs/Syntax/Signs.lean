/-
  Printed repetition signs, counts and names read back.

  A decimal numeral ends where something else than a digit follows, and has no superfluous zeros,
  which the reader of counts would not take for a number (`readNumeral?_decimal`).  A count has one
  or two of them, and what stands after each is a comma or the closing brace, so that it is read as
  it was written (`readCount?_exact`, `readCount?_open`, `readCount?_between`); for the three forms
  together that is `readCount?_bounds`.

  A sign may be followed by anything but a question mark, which would turn it round.  With that the
  printed operator of a repetition is one token, and that token is what the label says
  (`readToken_operator`, `Label.quantifier`).

  The name of a capture has no angle bracket in it, so the one that closes it is found where it is
  (`splitAt?_angle`), and an opening parenthesis with or without a name is one token as well
  (`readToken_opening`).
-/
import RegexTree.Proofs.Parse.Tokens
import RegexTree.Tree.Print

namespace RegexTree

/-! ## Numerals -/

theorem isDecimal_of_mem_decimal {n : Nat} {c : Char} (h : c ∈ Numeral.decimal n) :
    Numeral.isDecimal c = true := by
  have hdigit := Nat.isDigit_of_mem_toDigits (by decide) (by decide) h
  simp only [Char.isDigit, Bool.and_eq_true, decide_eq_true_eq, ge_iff_le] at hdigit
  simp only [Numeral.isDecimal, Bool.and_eq_true, decide_eq_true_eq, Char.le_def]
  exact hdigit

/-- A numeral of a positive number does not begin with a zero. -/
theorem head?_decimal_ne {n : Nat} (h : 0 < n) : (Numeral.decimal n).head? ≠ some '0' := by
  induction n using Nat.strongRecOn with
  | _ n ih =>
    rw [Numeral.decimal]
    by_cases hsmall : n < 10
    · have hall : ∀ d < 10, 0 < d → [d.digitChar].head? ≠ some '0' := by decide
      rw [Nat.toDigits_of_lt_base hsmall]
      exact hall n hsmall h
    · rw [Nat.toDigits_of_base_le (by decide) (Nat.le_of_not_lt hsmall)]
      have hshort := ih (n / 10) (by omega) (by omega)
      rw [Numeral.decimal] at hshort
      cases hdigits : Nat.toDigits 10 (n / 10) with
      | nil => exact absurd hdigits Nat.toDigits_ne_nil
      | cons d more =>
        rw [hdigits] at hshort
        exact hshort

/-- What a test holds of ends where it fails first. -/
theorem takeWhile_stop {p : Char → Bool} {front rest : List Char} (hall : ∀ c ∈ front, p c = true)
    (h : ∀ c ∈ rest.head?, p c = false) :
    (front ++ rest).takeWhile p = front ∧ (front ++ rest).dropWhile p = rest := by
  rw [List.takeWhile_append_of_pos hall, List.dropWhile_append_of_pos hall]
  cases rest with
  | nil => exact ⟨List.append_nil _, rfl⟩
  | cons c more =>
    have hc : ¬p c = true := by
      rw [h c rfl]
      exact Bool.false_ne_true
    rw [List.takeWhile_cons_of_neg hc, List.dropWhile_cons_of_neg hc]
    exact ⟨List.append_nil _, rfl⟩

/-- A numeral ends where no digit follows. -/
theorem takeWhile_decimal {rest : List Char} (h : ∀ c ∈ rest.head?, Numeral.isDecimal c = false)
    (n : Nat) :
    (Numeral.decimal n ++ rest).takeWhile Numeral.isDecimal = Numeral.decimal n ∧
      (Numeral.decimal n ++ rest).dropWhile Numeral.isDecimal = rest :=
  takeWhile_stop (fun _ => isDecimal_of_mem_decimal) h

/-- A numeral reads as its number, before anything but a digit. -/
theorem readNumeral?_decimal (n : Nat) {rest : List Char}
    (h : ∀ c ∈ rest.head?, Numeral.isDecimal c = false) :
    readNumeral? (Numeral.decimal n ++ rest) = some (n, rest) := by
  obtain ⟨htake, hdrop⟩ := takeWhile_decimal h n
  rw [readNumeral?, htake, hdrop]
  split
  · next hnil => exact absurd hnil Nat.toDigits_ne_nil
  · next d more hzero =>
    -- two digits or more, the first of them a zero
    exfalso
    rcases Nat.eq_zero_or_pos n with rfl | hpos
    · rw [Numeral.decimal, Nat.toDigits_zero] at hzero
      cases hzero
    · exact head?_decimal_ne hpos (by rw [hzero]; rfl)
  · rw [Numeral.ofDecimal_decimal]

/-- A numeral does not begin with a sign. -/
theorem decimal_ne_cons {c : Char} (h : Numeral.isDecimal c = false) (n : Nat)
    (rest more : List Char) : Numeral.decimal n ++ rest ≠ c :: more := by
  intro he
  cases hdigits : Numeral.decimal n with
  | nil => exact Nat.toDigits_ne_nil hdigits
  | cons d tail =>
    have hd : Numeral.isDecimal d = true :=
      isDecimal_of_mem_decimal (hdigits ▸ List.mem_cons_self)
    rw [hdigits, List.cons_append] at he
    rw [(List.cons.inj he).1, h] at hd
    cases hd

/-! ## Counts -/

section

variable {rest left more : List Char} {n : Nat}

/-- A count whose first numeral no comma follows. -/
theorem readCount?_other (h : readNumeral? rest = some (n, left)) (hcomma : left.head? ≠ some ',') :
    readCount? rest =
      if left.head? = some '}' then some (⟨n, some n⟩, left.tail) else none := by
  rw [readCount?, h]
  split
  · next he =>
    cases he
    rfl
  · next he =>
    cases he
    exact absurd rfl hcomma
  · next he =>
    cases he
    exact absurd rfl hcomma
  · next hend _ _ =>
    rw [if_neg]
    intro hclose
    obtain ⟨after, rfl⟩ := List.head?_eq_some_iff.mp hclose
    exact hend n after rfl

/-- A count whose first numeral a comma follows, and not the closing brace after that. -/
theorem readCount?_comma (h : readNumeral? rest = some (n, ',' :: more))
    (hclose : more.head? ≠ some '}') :
    readCount? rest = (readNumeral? more).bind fun (m, last) =>
      if last.head? = some '}' then some (⟨n, some m⟩, last.tail) else none := by
  rw [readCount?, h]
  split
  · next he => cases he
  · next he =>
    cases he
    exact absurd rfl hclose
  · next he =>
    cases he
    split
    · next hm =>
      rw [hm]
      rfl
    · next hend =>
      cases hm : readNumeral? more with
      | none => rfl
      | some found =>
        obtain ⟨m, last⟩ := found
        rw [Option.bind_some]
        dsimp only
        rw [if_neg]
        intro he
        obtain ⟨after, rfl⟩ := List.head?_eq_some_iff.mp he
        exact hend m after hm
  · next hother => exact absurd rfl (hother n more)

end

/-- A number that is not negative is written without a sign. -/
theorem signed_of_nonneg {n : Int} (h : 0 ≤ n) : Numeral.signed n = Numeral.decimal n.toNat := by
  rw [Numeral.signed, if_neg (by omega), show n.natAbs = n.toNat by omega]

section Counts

variable (n m : Nat) (rest : List Char)

theorem notDecimal_close : ∀ c ∈ ('}' :: rest).head?, Numeral.isDecimal c = false := by
  intro c hc
  obtain rfl := Option.some.inj hc
  decide

theorem notDecimal_comma : ∀ c ∈ (',' :: rest).head?, Numeral.isDecimal c = false := by
  intro c hc
  obtain rfl := Option.some.inj hc
  decide

/-- A count with one number. -/
theorem readCount?_exact :
    readCount? (Numeral.decimal n ++ '}' :: rest) = some (⟨n, some n⟩, rest) := by
  rw [readCount?, readNumeral?_decimal n (notDecimal_close rest)]
  rfl

/-- A count without an upper bound. -/
theorem readCount?_open :
    readCount? (Numeral.decimal n ++ ',' :: '}' :: rest) = some (⟨n, none⟩, rest) := by
  rw [readCount?, readNumeral?_decimal n (notDecimal_comma _)]
  rfl

/-- A count with two numbers. -/
theorem readCount?_between :
    readCount? (Numeral.decimal n ++ ',' :: (Numeral.decimal m ++ '}' :: rest)) =
      some (⟨n, some m⟩, rest) := by
  rw [readCount?, readNumeral?_decimal n (notDecimal_comma _)]
  split
  · next he => cases (Prod.mk.inj (Option.some.inj he)).2
  · next he =>
    -- a second numeral follows, so the comma is not the end
    have htail := (List.cons.inj (Prod.mk.inj (Option.some.inj he)).2).2
    exact absurd htail (decimal_ne_cons (by decide) m _ _)
  · next he =>
    cases he
    rw [readNumeral?_decimal m (notDecimal_close rest)]
    rfl
  · next hnone => exact absurd rfl (hnone n _)

end Counts

/-- The printed bounds of a count are read as these bounds: one number if they are equal, and else
    two or one with a comma. -/
theorem readCount?_bounds {min max : Int}
    (h : 0 ≤ min ∧ min ≤ maxRepeat ∧ (max = -1 ∨ min ≤ max ∧ max ≤ maxRepeat)) :
    ∃ text count, Print.bounds min max = '{' :: text ∧
      (∀ rest, readCount? (text ++ rest) = some (count, rest)) ∧
      count.isTooLarge = false ∧ (count.min : Int) = min ∧ count.upper = max := by
  obtain ⟨hmin, hle, hmax⟩ := h
  have hnat : ((min.toNat : Nat) : Int) = min := Int.toNat_of_nonneg hmin
  have hsmall : ¬maxRepeat < min.toNat := by omega
  rw [Print.bounds, signed_of_nonneg hmin]
  split
  · next heq =>
    refine ⟨Numeral.decimal min.toNat ++ ['}'], ⟨min.toNat, some min.toNat⟩, ?_, fun rest => ?_, ?_,
      hnat, ?_⟩
    · rw [List.append_nil, List.cons_append]
    · rw [List.append_assoc, List.singleton_append, readCount?_exact]
    · simp only [Count.isTooLarge, Option.any_some, hsmall, Nat.lt_irrefl, decide_false,
        Bool.or_self]
    · show ((min.toNat : Nat) : Int) = max
      rw [hnat, heq]
  · next hne =>
    split
    · next hpos =>
      have hbound := hmax.resolve_left (by omega)
      have hnat' : ((max.toNat : Nat) : Int) = max := Int.toNat_of_nonneg hpos
      have hsmall' : ¬maxRepeat < max.toNat := by omega
      have horder : ¬max.toNat < min.toNat := by omega
      refine ⟨Numeral.decimal min.toNat ++ ',' :: (Numeral.decimal max.toNat ++ ['}']),
        ⟨min.toNat, some max.toNat⟩, ?_, fun rest => ?_, ?_, hnat, hnat'⟩
      · rw [signed_of_nonneg hpos, List.cons_append, List.cons_append, List.append_assoc,
          List.cons_append]
      · rw [List.append_assoc, List.cons_append, List.append_assoc, List.singleton_append,
          readCount?_between]
      · simp only [Count.isTooLarge, Option.any_some, hsmall, hsmall', horder, decide_false,
          Bool.or_self]
    · next hneg =>
      have hopen : max = -1 := hmax.resolve_right (by omega)
      refine ⟨Numeral.decimal min.toNat ++ [',', '}'], ⟨min.toNat, none⟩, ?_, fun rest => ?_, ?_,
        hnat, hopen.symm⟩
      · rw [List.cons_append, List.cons_append, List.append_assoc]
        rfl
      · rw [List.append_assoc, List.cons_append, List.singleton_append, readCount?_open]
      · simp only [Count.isTooLarge, Option.any_none, hsmall, decide_false, Bool.or_self]

/-! ## Repetition signs -/

/-- The repetition that a label writes. -/
def Label.quantifier (l : Label) : Quantifier :=
  match l.op with
  | .counted => ⟨.counted, l.min, l.max, l.flags.nonGreedy⟩
  | op => ⟨op, 0, 0, l.flags.nonGreedy⟩

theorem Label.quantifier_op (l : Label) : l.quantifier.op = l.op := by
  cases h : l.op <;> simp [quantifier, h]

theorem Label.quantifier_turned (l : Label) : l.quantifier.turned = l.flags.nonGreedy := by
  cases h : l.op <;> simp [quantifier, h]

theorem Label.quantifier_counted {l : Label} (h : l.op = .counted) :
    l.quantifier = ⟨.counted, l.min, l.max, l.flags.nonGreedy⟩ := by
  rw [quantifier, h]

/-- A question mark after a sign turns it round, and anything else does not. -/
theorem withTurn_perl {q : Quantifier} (hq : q.turned = false) (turned : Bool) {rest : List Char}
    (hrest : rest.head? ≠ some '?') :
    withTurn .perl q ((if turned then ['?'] else []) ++ rest) =
      (.repetition { q with turned }, rest) := by
  cases turned with
  | true => rfl
  | false =>
    show withTurn .perl q rest = _
    rw [withTurn, beq_eq_false_iff_ne.mpr hrest, Bool.and_false, if_neg Bool.false_ne_true, ← hq]

/-- The printed operator of a repetition is read as one token, which says what the label does.  For
    a sign that is the sign and perhaps its turning; for a count it is the bounds, in each of their
    forms. -/
theorem readToken_operator {l : Label} (h : l.quantifier.Valid) :
    ∃ c text, Print.operator l = c :: text ∧
      ∀ rest : List Char, rest.head? ≠ some '?' →
        readToken .perl c (text ++ rest) = .ok (.repetition l.quantifier, rest) := by
  have hrepeat := h.isRepeat
  rw [Label.quantifier_op] at hrepeat
  have hsign : ∀ (c : Char) (op : Op),
      (∀ text, readToken .perl c text = .ok (withTurn .perl { op } text)) →
      ∀ rest : List Char, rest.head? ≠ some '?' →
        readToken .perl c ((if l.flags.nonGreedy then ['?'] else []) ++ rest) =
          .ok (.repetition ⟨op, 0, 0, l.flags.nonGreedy⟩, rest) := by
    intro c op hread rest hrest
    rw [hread, withTurn_perl rfl _ hrest]
  cases hop : l.op
  case star =>
    refine ⟨'*', _, by rw [Print.operator, hop]; rfl, ?_⟩
    rw [Label.quantifier, hop]
    exact hsign '*' .star fun _ => rfl
  case plus =>
    refine ⟨'+', _, by rw [Print.operator, hop]; rfl, ?_⟩
    rw [Label.quantifier, hop]
    exact hsign '+' .plus fun _ => rfl
  case quest =>
    refine ⟨'?', _, by rw [Print.operator, hop]; rfl, ?_⟩
    rw [Label.quantifier, hop]
    exact hsign '?' .quest fun _ => rfl
  case counted =>
    have hbounds := h.bounds (by rw [Label.quantifier_op, hop])
    rw [Label.quantifier_counted hop] at hbounds
    obtain ⟨text, count, htext, hcount, hsmall, hmin, hmax⟩ := readCount?_bounds hbounds
    refine ⟨'{', text ++ (if l.flags.nonGreedy then ['?'] else []), ?_, fun rest hrest => ?_⟩
    · rw [Print.operator, hop]
      dsimp only
      rw [htext, List.cons_append]
    · show readBrace .perl _ = _
      rw [List.append_assoc, readBrace, hcount]
      dsimp only
      rw [hsmall, if_neg Bool.false_ne_true, withTurn_perl rfl _ hrest, hmin, hmax,
        Label.quantifier_counted hop]
  all_goals
    rw [hop] at hrepeat
    cases hrepeat

/-! ## Groups -/

/-- The name of a capture ends before the angle. -/
theorem splitAt?_angle {name : List Char} (h : '>' ∉ name) (rest : List Char) :
    splitAt? ['>'] (name ++ '>' :: rest) = some (name, rest) := by
  induction name with
  | nil => rfl
  | cons c more ih =>
    rw [List.mem_cons, not_or] at h
    have hfirst : (['>'] : List Char).isPrefixOf (c :: (more ++ '>' :: rest)) = false := by
      rw [List.isPrefixOf, beq_eq_false_iff_ne.mpr h.1, Bool.false_and]
    rw [List.cons_append, splitAt?, hfirst, if_neg Bool.false_ne_true, ih h.2]
    rfl

theorem angle_not_mem {name : List Char} (h : isCaptureName name = true) : '>' ∉ name := by
  intro hmem
  rw [isCaptureName, Bool.and_eq_true, List.all_eq_true] at h
  exact absurd (h.2 '>' hmem) (by decide)

/-- What opens a capture. -/
def Print.opening (name : Option String) : List Char :=
  match name with
  | some name => "(?P<".toList ++ name.toList ++ ['>']
  | none => ['(']

/-- A printed opening of a capture is one token before anything but a question mark. -/
theorem readToken_opening {name : Option String}
    (hname : ∀ n ∈ name, isCaptureName n.toList = true) :
    ∃ text, Print.opening name = '(' :: text ∧
      ∀ rest : List Char, rest.head? ≠ some '?' →
        readToken .perl '(' (text ++ rest) = .ok (.capture name, rest) := by
  cases name with
  | none =>
    refine ⟨[], rfl, fun rest hrest => ?_⟩
    show readOpening .perl rest = _
    rw [readOpening, beq_eq_false_iff_ne.mpr hrest, Bool.and_false, if_neg Bool.false_ne_true]
  | some n =>
    have hn := hname n rfl
    refine ⟨"?P<".toList ++ n.toList ++ ['>'], rfl, fun rest _ => ?_⟩
    have hsplit := splitAt?_angle (angle_not_mem hn) rest
    rw [List.append_assoc, List.append_assoc, List.singleton_append]
    obtain ⟨c, more, hcons⟩ : ∃ c more, n.toList ++ '>' :: rest = c :: more :=
      List.exists_cons_of_ne_nil (by simp)
    show readSpecialGroup .perl ('P' :: '<' :: (n.toList ++ '>' :: rest)) = _
    rw [hcons, readSpecialGroup, ← hcons, readNamedCapture, hsplit]
    dsimp only
    rw [if_pos hn, String.ofList_toList]

end RegexTree
