/-
  Counted repetition is recognised exactly.

  A count is written `{n}`, `{n,}` or `{n,m}`, with decimal numerals of any length that have no
  superfluous zero in front (`Count.Written`).  That is a description of texts and mentions no
  reader.  The reader of texts finds just these (`readCount?_eq_some_iff`), and what is no such
  count is read as a letter.

  The machine holds the bounds in numbers of 32 bits, with -1 for one that is too large and for one
  that is not there (`boundsOf`).  A numeral of ten digits or more would not fit, and the machine
  stops adding up digits before it comes to that; what it holds then is not the number, but still it
  refuses just those counts that are too large as they are written, and passes on the others as they
  are (`step_brace`).  For that three cases are told apart: the bounds are numbers that are held
  exactly, and in order; or one of them is above the limit, whether it is held exactly or not; or
  they are out of order (`boundsOf_iff`).

  The statement is about one step of the machine in any state and at any place, so nothing is asked
  of the stack or of what was read before.
-/
import RegexTree.Proofs.Machine.Denotes

namespace RegexTree

/-! ## What is written -/

/-- The digits write the number `n` in decimal, without superfluous zeros in front. -/
structure Numeral.Writes (digits : List Char) (n : Nat) : Prop where
  ne_nil : digits ≠ []
  decimal : ∀ c ∈ digits, Numeral.isDecimal c = true
  noZero : digits.head? = some '0' → digits = ['0']
  value : Numeral.ofDecimal digits = n

/-- The text of a count, after the opening brace and up to the closing one. -/
inductive Count.Written : Count → List Char → Prop where
  | exactly {digits : List Char} {n : Nat} (hn : Numeral.Writes digits n) :
    Written ⟨n, some n⟩ (digits ++ ['}'])
  | atLeast {digits : List Char} {n : Nat} (hn : Numeral.Writes digits n) :
    Written ⟨n, none⟩ (digits ++ [',', '}'])
  | between {digits digits' : List Char} {n m : Nat} (hn : Numeral.Writes digits n)
    (hm : Numeral.Writes digits' m) : Written ⟨n, some m⟩ (digits ++ ',' :: (digits' ++ ['}']))

/-- A number of the count is more than 1000, or the lower bound more than the upper. -/
theorem Count.isTooLarge_iff (count : Count) :
    count.isTooLarge = true ↔
      1000 < count.min ∨ ∃ max, count.max = some max ∧ (1000 < max ∨ max < count.min) := by
  obtain ⟨min, max⟩ := count
  rw [Count.isTooLarge, Bool.or_eq_true, decide_eq_true_iff]
  refine or_congr Iff.rfl ?_
  cases max with
  | none => simp
  | some max =>
    rw [Option.any_some, Bool.or_eq_true, decide_eq_true_iff, decide_eq_true_iff]
    simp [maxRepeat]

/-! ## What is read -/

section

variable {text rest : List Char}

/-- The numeral at the start of a text goes as far as there are digits. -/
theorem readNumeral?_eq_some_iff {n : Nat} :
    readNumeral? text = some (n, rest) ↔
      ∃ digits, text = digits ++ rest ∧ Numeral.Writes digits n ∧
        ∀ c ∈ rest.head?, Numeral.isDecimal c = false := by
  rw [Machine.readNumeral?_eq]
  constructor
  · intro h
    split at h
    · cases h
    · next hsome =>
      obtain ⟨hlen, hzero⟩ := not_or.mp hsome
      cases h
      refine ⟨text.takeWhile Numeral.isDecimal, List.takeWhile_append_dropWhile.symm,
        ⟨?_, ?_, ?_, rfl⟩, ?_⟩
      · exact List.length_pos_iff.mp (Nat.pos_of_ne_zero hlen)
      · exact List.all_eq_true.mp List.all_takeWhile
      · -- a zero in front is all there is, since a longer numeral would have been refused
        intro hhead
        obtain ⟨tail, htail⟩ := List.head?_eq_some_iff.mp hhead
        cases tail with
        | nil => exact htail
        | cons d more =>
          refine absurd ⟨?_, hhead⟩ hzero
          rw [htail]
          exact Nat.le_add_left 2 _
      · intro c hc
        have hstop := List.head?_dropWhile_not Numeral.isDecimal text
        rw [Option.mem_def.mp hc] at hstop
        exact hstop
  · rintro ⟨digits, rfl, hdigits, hrest⟩
    obtain ⟨htake, hdrop⟩ := takeWhile_stop hdigits.decimal hrest
    rw [htake, hdrop, hdigits.value, if_neg]
    rintro (h | ⟨h, hzero⟩)
    · exact hdigits.ne_nil (List.length_eq_zero_iff.mp h)
    · rw [hdigits.noZero hzero] at h
      exact absurd h (by decide)

/-- A numeral is read up to its last digit, if no other digit follows. -/
theorem readNumeral?_of_writes {digits : List Char} {n : Nat} (h : Numeral.Writes digits n)
    (hrest : ∀ c ∈ rest.head?, Numeral.isDecimal c = false) :
    readNumeral? (digits ++ rest) = some (n, rest) :=
  readNumeral?_eq_some_iff.mpr ⟨digits, rfl, h, hrest⟩

/-- What is read as a count is the text of one. -/
theorem written_of_readCount? {count : Count} (h : readCount? text = some (count, rest)) :
    ∃ read, text = read ++ rest ∧ count.Written read := by
  cases hmin : readNumeral? text with
  | none =>
    rw [readCount?, hmin] at h
    cases h
  | some found =>
    obtain ⟨n, left⟩ := found
    obtain ⟨digits, rfl, hdigits, -⟩ := readNumeral?_eq_some_iff.mp hmin
    -- what follows the first numeral tells the three forms of a count apart
    by_cases hcomma : left.head? = some ','
    · obtain ⟨more, rfl⟩ := List.head?_eq_some_iff.mp hcomma
      by_cases hclose : more.head? = some '}'
      · obtain ⟨after, rfl⟩ := List.head?_eq_some_iff.mp hclose
        rw [readCount?, hmin] at h
        cases h
        exact ⟨digits ++ [',', '}'], by simp, .atLeast hdigits⟩
      · rw [readCount?_comma hmin hclose] at h
        obtain ⟨⟨m, last⟩, hmax, hlast⟩ := Option.bind_eq_some_iff.mp h
        clear h
        dsimp only at hlast
        obtain ⟨digits', rfl, hdigits', -⟩ := readNumeral?_eq_some_iff.mp hmax
        split at hlast
        · next hend =>
          obtain ⟨after, rfl⟩ := List.head?_eq_some_iff.mp hend
          cases hlast
          exact ⟨digits ++ ',' :: (digits' ++ ['}']), by simp, .between hdigits hdigits'⟩
        · cases hlast
    · rw [readCount?_other hmin hcomma] at h
      split at h
      · next hend =>
        obtain ⟨after, rfl⟩ := List.head?_eq_some_iff.mp hend
        cases h
        exact ⟨digits ++ ['}'], by simp, .exactly hdigits⟩
      · cases h

/-- The text of a count is read as that count, whatever follows. -/
theorem readCount?_of_written {count : Count} {read : List Char} (h : count.Written read) :
    readCount? (read ++ rest) = some (count, rest) := by
  cases h with
  | exactly hn =>
    rw [List.append_assoc, List.singleton_append, readCount?,
      readNumeral?_of_writes hn (notDecimal_close rest)]
    rfl
  | atLeast hn =>
    rw [List.append_assoc, List.cons_append, List.singleton_append, readCount?,
      readNumeral?_of_writes hn (notDecimal_comma _)]
    rfl
  | @between digits digits' n m hn hm =>
    have hmin : readNumeral? (digits ++ ',' :: (digits' ++ '}' :: rest)) =
        some (n, ',' :: (digits' ++ '}' :: rest)) :=
      readNumeral?_of_writes hn (notDecimal_comma _)
    have hmax : readNumeral? (digits' ++ '}' :: rest) = some (m, '}' :: rest) :=
      readNumeral?_of_writes hm (notDecimal_close rest)
    have hclose : (digits' ++ '}' :: rest).head? ≠ some '}' := by
      obtain ⟨c, more, rfl⟩ := List.exists_cons_of_ne_nil hm.ne_nil
      intro h
      cases h
      exact absurd (hm.decimal _ List.mem_cons_self) (by decide)
    have htext : digits ++ ',' :: (digits' ++ ['}']) ++ rest =
        digits ++ ',' :: (digits' ++ '}' :: rest) := by simp
    rw [htext, readCount?_comma hmin hclose, hmax]
    rfl

/-- A count is found just where one is written. -/
theorem readCount?_eq_some_iff {count : Count} :
    readCount? text = some (count, rest) ↔ ∃ read, text = read ++ rest ∧ count.Written read := by
  constructor
  · exact written_of_readCount?
  · rintro ⟨read, rfl, h⟩
    exact readCount?_of_written h

end

/-! ## What the machine does -/

namespace Machine

open Cursor RegexTree.Tree

variable (p : Parser) (before : List Char) (last : Option Nat)

/-- A literal is pushed on any stack. -/
theorem literal_eq (r : Nat) :
    p.literal r = .ok { p with stack := Parse.State.literalPiece p.flags r :: joinedTop p.stack } :=
  push_eq (classLiteral?_of_ne (t := Parse.State.literalPiece p.flags r) Op.noConfusion p.flags)
    (maybeConcat_none p.stack)

theorem step_at_brace (c : Cursor) (h : c.peek? = some '{') : p.step c last = p.brace c last := by
  rw [Parser.step, peek, h]
  rfl

/-- The machine reads the count after a brace, if there is one, and is not stuck. -/
theorem count?_eq (before tail : List Char) :
    count? ⟨before, '{' :: tail⟩ =
      .ok ((readCount? tail).map fun (count, rest) =>
        ((boundsOf count).1, (boundsOf count).2, place (before ++ '{' :: tail) rest)) := by
  rw [← place_append]
  exact count?_place (List.suffix_append before _)

/-- A brace that begins no count is a literal. -/
theorem brace_literal {tail : List Char} (h : readCount? tail = none) :
    p.brace ⟨before, '{' :: tail⟩ last =
      .ok ({ p with stack := Parse.State.literalPiece p.flags '{'.toNat :: joinedTop p.stack },
        ⟨before ++ ['{'], tail⟩, none) := by
  have hsuffix : '{' :: tail <:+ before ++ '{' :: tail := List.suffix_append before _
  have hstart : (⟨before, '{' :: tail⟩ : Cursor) = place (before ++ '{' :: tail) ('{' :: tail) :=
    (place_append before _).symm
  have hafter : place (before ++ '{' :: tail) tail = ⟨before ++ ['{'], tail⟩ := by
    rw [← place_append, List.append_assoc, List.singleton_append]
  rw [Parser.brace, count?_eq, h, Option.map_none, ok_bind]
  dsimp only
  rw [hstart, rewind_place hsuffix hsuffix, ok_bind, skipAscii_one hsuffix (by decide), ok_bind,
    literal_eq, hafter]
  rfl

section Count

variable {count : Count} {read rest : List Char} (h : count.Written read)

include h

/-- Where a count is written the machine finds it, with the bounds as it holds them. -/
theorem count?_written :
    count? ⟨before, '{' :: (read ++ rest)⟩ =
      .ok (some ((boundsOf count).1, (boundsOf count).2, ⟨before ++ '{' :: read, rest⟩)) := by
  rw [count?_eq, readCount?_of_written h, ← place_append, List.append_assoc, List.cons_append]
  rfl

/-- A count that is too large is refused, whatever it counts. -/
theorem brace_tooLarge (hlarge : count.isTooLarge = true) :
    p.brace ⟨before, '{' :: (read ++ rest)⟩ last =
      .error (.invalid ⟨.invalidRepeatSize, String.ofList ('{' :: read)⟩) := by
  have hstart : '{' :: (read ++ rest) <:+ before ++ '{' :: (read ++ rest) :=
    List.suffix_append before _
  have hrest : rest <:+ '{' :: (read ++ rest) := List.suffix_append ('{' :: read) rest
  have hshown := excerpt_append ('{' :: read) rest
  rw [Parser.brace, count?_written before h, ok_bind]
  dsimp only
  rw [if_pos ((boundsOf_iff count).mpr hlarge), ← place_append, ← place_append, List.append_assoc,
    List.cons_append, failSince_place hstart hrest, Error.between, ← hshown, List.cons_append]

/-- Any other count is passed on with its bounds, and what it counts is looked at then. -/
theorem brace_counts (hfits : ¬count.isTooLarge = true) :
    p.brace ⟨before, '{' :: (read ++ rest)⟩ last = do
      let (p, c) ← p.quantify ⟨before ++ '{' :: read, rest⟩ .counted count.min count.upper
        (byteCount before) last
      return (p, c, some (byteCount before)) := by
  rw [Parser.brace, count?_written before h, ok_bind]
  dsimp only
  rw [if_neg fun hbounds => hfits ((boundsOf_iff count).mp hbounds), boundsOf_of_fits hfits]
  rfl

end Count

/-- A parser that has read nothing misses what there is to repeat. -/
theorem quantify_nothing (op : Op) (min max : Int) (sign : List Char) {rest : List Char} :
    (⟨{}, 0, [], 0, [], 0⟩ : Parser).quantify ⟨before ++ sign, rest⟩ op min max (byteCount before)
        none =
      .error (.invalid ⟨.missingRepeatArgument, String.ofList sign⟩) := by
  have hsince : since ⟨before ++ sign, rest⟩ (byteCount before) = .ok sign := by
    rw [since, Cursor.since?, splitBytes?_append]
    rfl
  have hturn : (⟨{}, 0, [], 0, [], 0⟩ : Parser).turn ⟨before ++ sign, rest⟩ =
      .ok (false, ⟨before ++ sign, rest⟩) := rfl
  rw [Parser.quantify, hturn, ok_bind]
  show (failSince .missingRepeatArgument _ _ >>= _) = _
  rw [failSince, hsince]
  rfl

/-- In every state of the parser and before every text, a brace is a count just if the text of one
    follows it; otherwise it is a literal, and the cursor moves on by just the brace.  Of the counts,
    those with too large numbers or with bounds in the wrong order are refused whatever they count,
    and just those; the others are passed on as they are written. -/
theorem step_brace (p : Parser) (before tail : List Char) (last : Option Nat) :
    let c : Cursor := ⟨before, '{' :: tail⟩
    (∃ found, count? c = .ok found) ∧
    ((¬∃ count read rest, tail = read ++ rest ∧ Count.Written count read) →
      p.step c last =
        .ok ({ p with stack := Parse.State.literalPiece p.flags '{'.toNat :: joinedTop p.stack },
          ⟨before ++ ['{'], tail⟩, none)) ∧
    ∀ count read rest, tail = read ++ rest → Count.Written count read →
      ((1000 < count.min ∨ ∃ max, count.max = some max ∧ (1000 < max ∨ max < count.min)) ↔
        ∀ (q : Parser) (last : Option Nat), q.step c last =
          .error (.invalid ⟨.invalidRepeatSize, String.ofList ('{' :: read)⟩)) ∧
      (¬(1000 < count.min ∨ ∃ max, count.max = some max ∧ (1000 < max ∨ max < count.min)) →
        p.step c last = do
          let (p, after) ← p.quantify ⟨before ++ '{' :: read, rest⟩ .counted count.min count.upper
            c.pos last
          return (p, after, some c.pos)) := by
  intro c
  refine ⟨⟨_, count?_eq before tail⟩, fun hnone => ?_, ?_⟩
  · rw [step_at_brace p last c rfl]
    refine brace_literal p before last (Option.eq_none_iff_forall_ne_some.mpr ?_)
    rintro ⟨count, rest⟩ hsome
    obtain ⟨read, htail, hwritten⟩ := readCount?_eq_some_iff.mp hsome
    exact hnone ⟨count, read, rest, htail, hwritten⟩
  · rintro count read rest rfl hwritten
    rw [← count.isTooLarge_iff]
    refine ⟨⟨fun hlarge q last => ?_, fun hall => ?_⟩, fun hfits => ?_⟩
    · rw [step_at_brace q last c rfl]
      exact brace_tooLarge q before last hwritten hlarge
    · by_contra hfits
      have hnothing := hall ⟨{}, 0, [], 0, [], 0⟩ none
      rw [step_at_brace _ none c rfl, brace_counts _ before none hwritten hfits,
        quantify_nothing before] at hnothing
      cases hnothing
    · rw [step_at_brace p last c rfl]
      exact brace_counts p before last hwritten hfits

/-- A number of thirteen digits, and a brace without a number. -/
theorem step_brace_oversized :
    let p : Parser := { flags := .perl, nestLimit := 10, stack := [literal [97] .perl] }
    p.step ⟨['a'], '{' :: "1000000000000,2\x7db".toList⟩ none =
        .error (.invalid ⟨.invalidRepeatSize, "\x7b1000000000000,2\x7d"⟩) ∧
      p.step ⟨['a'], ['{', ',', '2', '}']⟩ none =
        .ok ({ p with stack := [literal [0x7b] .perl, literal [97] .perl] },
          ⟨['a', '{'], [',', '2', '}']⟩, none) := by
  intro p
  constructor
  · have hmin : Numeral.Writes "1000000000000".toList (10 ^ 12) :=
      ⟨by decide, List.all_eq_true.mp rfl, by decide, rfl⟩
    have hmax : Numeral.Writes ['2'] 2 := ⟨by decide, List.all_eq_true.mp rfl, by decide, rfl⟩
    have hcount := ((step_brace p ['a'] _ none).2.2 _ _ ['b'] rfl (.between hmin hmax)).1
    exact hcount.mp (Or.inl (by decide)) p none
  · refine (step_brace p ['a'] [',', '2', '}'] none).2.1 ?_
    rintro ⟨count, read, rest, htail, hwritten⟩
    have hread := readCount?_eq_some_iff.mpr ⟨read, htail, hwritten⟩
    cases hread

end Machine

end RegexTree
