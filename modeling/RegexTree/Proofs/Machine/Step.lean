/-
  A step of the machine is a token.

  At a place of the text, the machine reads the token that is read there and does to its stack what
  the token does to the state, or finds the same error (`step_agrees`).  The machine has no tokens:
  it does what a token says while it reads it.  So what a step is compared with is reading a token
  and applying it, one after the other (`carry`), and the two come together at each kind of token.
  There is one lemma for each of them, which puts the reader of the machine beside the one of texts
  and the change to the stack beside the change to the state, and at the end the step only tells the
  kinds apart.

  None of the readers is stuck on the way but that of escapes, and the steps at a backslash and at a
  bracket with it: where the digits of an escape are too many to be counted, and only there
  (`plainEscape_agrees`, `bracket_agrees`).  So the statement has that as its condition, and all
  other tokens have none.

  Repetition signs are left as the last, since they alone look back: at the piece that was pushed
  last, and at where the last repetition began, of which the machine remembers the position and the
  state the text (`quantify_agrees`).
-/
import RegexTree.Machine.Step
import RegexTree.Proofs.Machine.Mirror
import RegexTree.Proofs.Parse.Runs
import RegexTree.Proofs.Syntax.Escaped

namespace RegexTree.Machine

open Cursor RegexTree.Tree
open Parse (State Setting)
open Ranges (runes)

/-- The state after a token that was read, and the text after that. -/
def carry (setting : Setting) (s : State) (start : List Char)
    (read : Except Error (Token × List Char)) : Except Error (State × List Char) := do
  let (token, rest) ← read
  return (← s.apply setting start rest token, rest)

/-- The parser holds what the state holds, the cursor stands where the text is left, and the token
    was a repetition if it says where it begins. -/
structure Carried (setting : Setting) (last : Option (List Char)) (a : Parser × Cursor)
    (b : State × List Char) : Prop where
  parser : Mirrors setting.nestLimit a.1 b.1
  cursor : a.2 = place setting.pattern b.2
  last : b.1.lastRepeat = last

/-- The same with the position where the token begins, if it was a repetition. -/
structure Stepped (setting : Setting) (a : Parser × Cursor × Option Nat)
    (b : State × List Char) : Prop where
  parser : Mirrors setting.nestLimit a.1 b.1
  cursor : a.2.1 = place setting.pattern b.2
  last : a.2.2 = lastPos setting b.1.lastRepeat

theorem Carried.stepped {setting : Setting} {last : Option (List Char)} {a : Parser × Cursor}
    {b : State × List Char} (h : Carried setting last a b) :
    Stepped setting (a.1, a.2, lastPos setting last) b :=
  ⟨h.parser, h.cursor, congrArg (lastPos setting) h.last.symm⟩

variable {setting : Setting} {p : Parser} {s : State} {start rest : List Char}

/-- A token that was read is applied. -/
theorem carry_ok (token : Token) :
    carry setting s start (.ok (token, rest)) =
      s.effect setting start rest token >>= fun next =>
        .ok (next.mark (token.repeatAt start), rest) := by
  show (s.apply setting start rest token >>= fun next => .ok (next, rest)) = _
  rw [Parse.apply_eq]
  cases s.effect setting start rest token with
  | error e => rfl
  | ok next => rfl

/-- What the state notes of the last token is not in the parser. -/
theorem Mirrors.mark {limit : Nat} (h : Mirrors limit p s) (last : Option (List Char)) :
    Mirrors limit p (s.mark last) :=
  ⟨h.flags, h.nestLimit, h.captures, h.names, h.depth, h.stack⟩

/-- A token was read; it is left to do what it says. -/
theorem Agree.carry {token : Token} {m : Guarded Parser} {last : Option (List Char)}
    (hlast : token.repeatAt start = last)
    (h : Agree (Mirrors setting.nestLimit) m (s.effect setting start rest token)) :
    Agree (Carried setting last) (do return (← m, place setting.pattern rest))
      (carry setting s start (.ok (token, rest))) := by
  rw [carry_ok]
  refine h.bind fun a b _ _ hab => ?_
  exact .ok ⟨hab.mark _, rfl, hlast⟩

/-- The two come together where the token has its effect on both sides. -/
theorem carried_of_ok {token : Token} {next : State} {last : Option (List Char)}
    (hlast : token.repeatAt start = last)
    (heffect : s.effect setting start rest token = .ok next)
    (h : Mirrors setting.nestLimit p next) :
    Agree (Carried setting last) (.ok (p, place setting.pattern rest))
      (carry setting s start (.ok (token, rest))) := by
  rw [carry_ok, heffect]
  exact .ok ⟨h.mark _, rfl, hlast⟩

/-! ## Groups with flags or a name -/

section

variable (h : Mirrors setting.nestLimit p s)

include h

theorem Mirrors.withFlags (flags : Flags) :
    Mirrors setting.nestLimit { p with flags } { s with flags } :=
  ⟨rfl, h.nestLimit, h.captures, h.names, h.depth, h.stack⟩

variable (hfits : setting.nestLimit < 2 ^ 32)

include hfits

/-- A group that does not capture is opened, and flags are set in it. -/
theorem Mirrors.openPlain {c : Cursor} (htext : c.text = setting.pattern) (flags : Flags) :
    Agree (fun opened next => Mirrors setting.nestLimit { opened with flags } next)
      (p.openGroup false none c) (s.openGroup setting flags none) := by
  have hopen := h.openGroup htext rfl hfits false fun _ => (rfl : (none : Option String) = none)
  simp only [Option.toList_none, List.map_nil, List.append_nil, Bool.false_eq_true, if_false]
    at hopen
  rw [State.openGroup] at hopen ⊢
  by_cases hdeep : setting.nestLimit ≤ s.groups.length
  · rw [if_pos hdeep] at hopen ⊢
    rw [hopen.of_error]
    exact .error _
  · rw [if_neg hdeep] at hopen ⊢
    obtain ⟨opened, hopened, hmirrors⟩ := hopen.of_ok
    rw [hopened]
    exact .ok (hmirrors.withFlags flags)

/-- A colon opens a group in which the flags hold; a parenthesis sets them where it stands. -/
theorem switched_agrees {ch : Char} (hend : ch = ':' ∨ ch = ')') (hrest : rest <:+ setting.pattern)
    (flags : Flags) :
    Agree (Carried setting none)
      (do
        let p ← (if ch = ':' then p.openGroup false none (place setting.pattern rest) else return p)
        return ({ p with flags }, place setting.pattern rest))
      (carry setting s start (.ok (if ch = ':' then .group flags else .setFlags flags, rest))) := by
  rcases hend with rfl | rfl
  · have hopen := h.openPlain hfits (text_place hrest) flags
    rw [if_pos rfl, if_pos rfl, carry_ok]
    exact hopen.bind fun a b _ _ hab => .ok ⟨hab.mark none, rfl, rfl⟩
  · exact carried_of_ok rfl rfl (h.withFlags flags)

/-- The loop over the switches of a group reads them as they are read of the text; by induction on
    the text that is left, with the flags that have been set so far and whether a minus and a letter
    were seen. -/
theorem switches_agrees {steps : Nat} {flags : Flags} {off seen : Bool}
    (hstart : start <:+ setting.pattern) (hrest : rest <:+ start) (hsteps : rest.length < steps) :
    Agree (Carried setting none)
      (p.switches (place setting.pattern start).pos steps flags off seen
        (place setting.pattern rest))
      (carry setting s start (readSwitches start flags off seen rest)) := by
  induction steps generalizing flags off seen rest with
  | zero => cases hsteps
  | succ steps ih =>
    have hwrong : ∀ left, left <:+ start → Agree (Carried setting none)
        (failSince .invalidPerlOp (place setting.pattern left) (place setting.pattern start).pos)
        (carry setting s start (.error (.between .invalidPerlOp start left))) := by
      intro left hleft
      rw [failSince_place hstart hleft]
      exact .error _
    rw [Parser.switches]
    cases rest with
    | nil => exact hwrong [] hrest
    | cons c tail =>
      have htail := (List.suffix_cons c tail).trans hrest
      rw [if_pos (more_cons _ c tail), pop_place (hrest.trans hstart), ok_bind, readSwitches]
      dsimp only
      cases flags.switched? (!off) c with
      | some switched => exact ih htail (Nat.lt_of_succ_lt_succ hsteps)
      | none =>
        dsimp only
        by_cases hhyphen : c = '-'
        · subst hhyphen
          rw [if_pos rfl]
          cases off with
          | true => exact hwrong tail htail
          | false => exact ih htail (Nat.lt_of_succ_lt_succ hsteps)
        · rw [if_neg hhyphen, if_neg (fun hc : c = '-' ∧ off = false => hhyphen hc.1)]
          by_cases hend : c = ':' ∨ c = ')'
          · rw [if_pos hend]
            -- a hyphen turns something off only if a letter comes after it
            cases (off && !seen) with
            | true =>
              rw [if_pos rfl, if_neg (by simp), if_neg (by simp)]
              exact hwrong tail htail
            | false =>
              rw [if_neg Bool.false_ne_true]
              rcases hend with rfl | rfl
              · exact switched_agrees h hfits (Or.inl rfl) (htail.trans hstart) flags
              · exact switched_agrees h hfits (Or.inr rfl) (htail.trans hstart) flags
          · rw [if_neg hend, if_neg fun hc => hend (Or.inl hc.1), if_neg fun hc => hend (Or.inr hc.1)]
            exact hwrong tail htail

/-- The name of a capture is read up to its angle bracket, and is refused on both sides for the same
    reasons: there is no end, it is no name, or it is used already. -/
theorem namedCapture_agrees {front after : List Char} (hfront : '>' ∉ front)
    (hstart : front ++ after <:+ setting.pattern) :
    Agree (Carried setting none)
      (p.namedCapture (byteCount front) (place setting.pattern (front ++ after)))
      (carry setting s (front ++ after) (readNamedCapture (front ++ after) after)) := by
  rw [Parser.namedCapture, rest_place, find?_eq, splitAt?_behind hfront, readNamedCapture]
  cases hclose : splitAt? ['>'] after with
  | none => exact .error _
  | some split =>
    obtain ⟨name, left⟩ := split
    have he : front ++ after = front ++ name ++ ['>'] ++ left := by
      rw [eq_append_of_splitAt? hclose, ← List.append_assoc, ← List.append_assoc]
    obtain ⟨hshown, hup⟩ := upTo_closing (d := '>') rfl (front ++ name) left
    rw [← he] at hshown hup
    dsimp only [Option.map_some]
    rw [hshown, ok_bind, hup, ok_bind, beyond_append, ok_bind, h.names]
    have hwrong : Agree (Carried setting none)
        (fail .invalidNamedCapture (front ++ name ++ ['>']))
        (.error (.between .invalidNamedCapture (front ++ after) left)) := by
      rw [he, Error.between, excerpt_append]
      exact .error _
    by_cases hname : isCaptureName name = true
    · rw [hname, if_pos rfl, Bool.not_true, Bool.false_or]
      by_cases hused : (s.names.any fun named => named.1 == String.ofList name) = true
      · have heffect : s.effect setting (front ++ after) left
            (.capture (some (String.ofList name))) =
              .error (.between .invalidNamedCapture (front ++ after) left) := if_pos hused
        rw [if_pos hused, carry_ok, heffect]
        exact hwrong
      · have hskip : skipText (place setting.pattern (front ++ after)) (front ++ name ++ ['>']) =
            .ok (place setting.pattern left) := by
          rw [he] at hstart ⊢
          exact skipText_place hstart
        have hleft : left <:+ setting.pattern :=
          (suffix_of_splitAt? hclose).trans ((List.suffix_append front after).trans hstart)
        have hopen := h.openGroup (text_place hleft) rfl hfits true
          (show true = false → some (String.ofList name) = none from
            fun hfalse => Bool.noConfusion hfalse)
        have heffect : s.effect setting (front ++ after) left
            (.capture (some (String.ofList name))) = _ := if_neg hused
        rw [if_neg hused, hskip, ok_bind]
        refine Agree.carry rfl ?_
        rw [heffect]
        exact hopen
    · rw [if_neg hname, eq_false_of_ne_true hname, Bool.not_false, Bool.true_or, if_pos rfl]
      exact hwrong

omit h hfits in
/-- A group is named where its opening has at least one more character after it. -/
theorem named_iff (text rest : List Char) {opening : List Char} {n : Nat}
    (hopening : byteCount opening = n) :
    (n < byteCount rest ∧ (place text rest).lookingAt opening = true) ↔
      ∃ c name, rest = opening ++ c :: name := by
  rw [lookingAt_place, List.isPrefixOf_iff_prefix]
  constructor
  · rintro ⟨hcount, more, rfl⟩
    cases more with
    | nil =>
      rw [List.append_nil, hopening] at hcount
      exact absurd hcount (Nat.lt_irrefl _)
    | cons c name => exact ⟨c, name, rfl⟩
  · rintro ⟨c, name, rfl⟩
    have hcount := length_le_byteCount (c :: name)
    rw [List.length_cons] at hcount
    exact ⟨by rw [byteCount_append]; omega, c :: name, rfl⟩

/-- What follows the question mark is a name, or flags up to a colon or a parenthesis. -/
theorem specialGroup_agrees {tail : List Char} (hstart : '(' :: '?' :: tail <:+ setting.pattern) :
    Agree (Carried setting none) (p.specialGroup (place setting.pattern ('(' :: '?' :: tail)))
      (carry setting s ('(' :: '?' :: tail) (readSpecialGroup s.flags tail)) := by
  have hlong := named_iff setting.pattern ('(' :: '?' :: tail)
    (show byteCount ['(', '?', 'P', '<'] = 4 from rfl)
  have hshort := named_iff setting.pattern ('(' :: '?' :: tail)
    (show byteCount ['(', '?', '<'] = 3 from rfl)
  rw [Parser.specialGroup, rest_place]
  dsimp only
  by_cases hlong' : ∃ c rest, '(' :: '?' :: tail = ['(', '?', 'P', '<'] ++ c :: rest
  · rw [if_pos (hlong.mpr hlong')]
    obtain ⟨c, rest, he⟩ := hlong'
    cases he
    exact namedCapture_agrees h hfits (show '>' ∉ ['(', '?', 'P', '<'] by decide) hstart
  rw [if_neg (mt hlong.mp hlong')]
  by_cases hshort' : ∃ c rest, '(' :: '?' :: tail = ['(', '?', '<'] ++ c :: rest
  · rw [if_pos (hshort.mpr hshort')]
    obtain ⟨c, rest, he⟩ := hshort'
    cases he
    exact namedCapture_agrees h hfits (show '>' ∉ ['(', '?', '<'] by decide) hstart
  have hread : readSpecialGroup s.flags tail =
      readSwitches ('(' :: '?' :: tail) s.flags false false tail := by
    unfold readSpecialGroup
    split
    · next c rest => exact absurd ⟨c, rest, rfl⟩ hlong'
    · next c rest => exact absurd ⟨c, rest, rfl⟩ hshort'
    · rfl
  have htail : tail <:+ '(' :: '?' :: tail :=
    (List.suffix_cons _ _).trans (List.suffix_cons _ _)
  rw [if_neg (mt hshort.mp hshort'), hread, skipAscii_two hstart (by decide) (by decide), ok_bind,
    h.flags]
  exact switches_agrees h hfits hstart htail (Nat.lt_succ_self tail.length)

/-- An opening parenthesis, with what may follow it. -/
theorem opening_agrees {tail : List Char} (hstart : '(' :: tail <:+ setting.pattern) :
    Agree (Carried setting none)
      (if p.flags.perlX && (place setting.pattern ('(' :: tail)).lookingAt ['(', '?'] then
        p.specialGroup (place setting.pattern ('(' :: tail))
      else do
        let c ← skipAscii (place setting.pattern ('(' :: tail)) 1
        return (← p.openGroup true none c, c))
      (carry setting s ('(' :: tail) (readOpening s.flags tail)) := by
  rw [h.flags, lookingAt_cons, lookingAt_one, readOpening]
  by_cases hspecial : (s.flags.perlX && tail.head? == some '?') = true
  · rw [if_pos hspecial]
    rw [Bool.and_eq_true, beq_iff_eq] at hspecial
    obtain ⟨after, rfl⟩ := List.head?_eq_some_iff.mp hspecial.2
    rw [if_pos (by simp [hspecial.1]), List.tail_cons]
    exact specialGroup_agrees h hfits hstart
  · have htail := (List.suffix_cons '(' tail).trans hstart
    rw [if_neg hspecial, if_neg (by simpa using hspecial), skipAscii_one hstart (by decide), ok_bind]
    refine Agree.carry rfl ?_
    exact h.openGroup (text_place htail) rfl hfits true fun _ => (rfl : (none : Option String) = none)

end

/-! ## Escapes -/

theorem pos_lt_pos {text taken rest : List Char} {c : Char} (h : c :: taken ++ rest <:+ text) :
    (place text (c :: taken ++ rest)).pos < (place text rest).pos := by
  obtain ⟨before, rfl⟩ := h
  have hpos := c.utf8Size_pos
  rw [pos_place, ← List.append_assoc, pos_place, byteCount_append, byteCount_cons]
  omega

/-- The characters up to a later place are pushed one by one. -/
theorem Mirrors.literals {limit steps : Nat} {text taken : List Char} (h : Mirrors limit p s)
    (htext : taken ++ rest <:+ text) (hsteps : taken.length < steps) :
    ∃ p', Parser.literals (place text rest).pos steps p (place text (taken ++ rest)) =
        .ok (p', place text rest) ∧
      Mirrors limit p' ((runesOf taken).foldl
        (fun s r => s.push (State.literalPiece s.flags r)) s) := by
  induction steps generalizing p s taken with
  | zero => cases hsteps
  | succ steps ih =>
    rw [Parser.literals]
    cases taken with
    | nil =>
      rw [List.nil_append, if_neg (Nat.lt_irrefl _)]
      exact ⟨p, rfl, h⟩
    | cons c taken =>
      obtain ⟨p', hpush, hp'⟩ := h.literal c.toNat
      rw [if_pos (pos_lt_pos htext)]
      rw [List.cons_append] at htext ⊢
      rw [pop_place htext, ok_bind]
      dsimp only
      rw [hpush, ok_bind]
      exact ih hp' ((List.suffix_cons c _).trans htext) (Nat.lt_of_succ_lt_succ hsteps)

section

variable (h : Mirrors setting.nestLimit p s)

include h

/-- Quoted text is pushed rune by rune up to its end, which is looked for first, or up to the end of
    the pattern. -/
theorem quoted_agrees {after : List Char} (hafter : after <:+ setting.pattern) :
    Agree (Carried setting none) (p.quoted (place setting.pattern after))
      (carry setting s start
        (.ok (.text (runesOf (readQuoted after).1), (readQuoted after).2))) := by
  rw [Parser.quoted, rest_place, find?_eq, readQuoted, text_place hafter]
  cases hclose : splitAt? ['\\', 'E'] after with
  | none =>
    have hend : byteCount setting.pattern = (place setting.pattern []).pos := by
      have hpos := pos_place setting.pattern []
      rw [List.append_nil] at hpos
      exact hpos.symm
    have htaken : after ++ [] <:+ setting.pattern := (List.append_nil after).symm ▸ hafter
    obtain ⟨p', hliterals, hp'⟩ := h.literals htaken (Nat.lt_succ_self after.length)
    rw [List.append_nil] at hliterals
    dsimp only [Option.map_none, Option.getD_none]
    rw [hend, hliterals]
    refine carried_of_ok rfl ?_ hp'
    rfl
  | some split =>
    obtain ⟨taken, left⟩ := split
    have he : after = taken ++ ('\\' :: 'E' :: left) := by
      rw [eq_append_of_splitAt? hclose, List.append_assoc]
      rfl
    have hstop : (place setting.pattern after).pos + byteCount taken =
        (place setting.pattern ('\\' :: 'E' :: left)).pos := by
      obtain ⟨before, hbefore⟩ := hafter
      rw [← hbefore, pos_place, he, ← List.append_assoc, pos_place, byteCount_append]
    have hsteps : taken.length < after.length + 1 := by
      rw [he, List.length_append]
      omega
    have hquote : '\\' :: 'E' :: left <:+ setting.pattern :=
      (List.suffix_append taken _).trans (he ▸ hafter)
    obtain ⟨p', hliterals, hp'⟩ := h.literals (he ▸ hafter) hsteps
    have hskip : skipText (place setting.pattern ('\\' :: 'E' :: left)) ['\\', 'E'] =
        .ok (place setting.pattern left) := skipText_place (s := ['\\', 'E']) hquote
    rw [← he] at hliterals
    dsimp only [Option.map_some, Option.getD_some]
    rw [hstop, hliterals, ok_bind]
    dsimp only
    rw [hskip]
    refine carried_of_ok rfl ?_ hp'
    rfl

omit h in
theorem ascii_of_assertion? {c : Char} {op : Op} (h : assertion? c = some op) :
    c.toNat < 128 ∧ op ≠ .charClass := by
  unfold assertion? at h
  split at h <;> cases h
  all_goals exact ⟨by decide, by decide⟩

/-- The escapes that have a meaning outside of brackets alone do on the stack what their token does:
    an assertion is pushed, and so is quoted text; and one that is not supported is refused on both
    sides. -/
theorem perlEscape?_agrees {tail : List Char} (hstart : '\\' :: tail <:+ setting.pattern) :
    (p.perlEscape? (place setting.pattern ('\\' :: tail)) = .ok none ∧
        readPerlEscape? s.flags tail = none) ∨
      ∃ read, readPerlEscape? s.flags tail = some read ∧
        Agree (fun done next => ∃ a, done = some a ∧ Carried setting none a next)
          (p.perlEscape? (place setting.pattern ('\\' :: tail)))
          (carry setting s ('\\' :: tail) read) := by
  have hbeyond : beyond 1 ('\\' :: tail) = .ok tail := beyond_append ['\\'] tail
  rw [Parser.perlEscape?, rest_place, hbeyond, ok_bind]
  cases tail with
  | nil => exact Or.inl ⟨rfl, rfl⟩
  | cons c rest =>
    have hrest := ((List.suffix_cons _ _).trans (List.suffix_cons _ _)).trans hstart
    dsimp only [List.head?_cons]
    by_cases hC : c = 'C'
    · subst hC
      have hshown : upTo 2 ('\\' :: 'C' :: rest) = .ok ['\\', 'C'] := upTo_append ['\\', 'C'] rest
      refine Or.inr ⟨_, rfl, ?_⟩
      rw [if_pos rfl, hshown]
      exact .error _
    · rw [if_neg hC]
      by_cases hQ : c = 'Q'
      · subst hQ
        refine Or.inr ⟨_, rfl, ?_⟩
        rw [if_pos rfl, skipAscii_two hstart (by decide) (by decide), ok_bind]
        refine (quoted_agrees h hrest).map fun a b hab => ?_
        exact ⟨a, rfl, hab⟩
      · rw [if_neg hQ]
        have hread : readPerlEscape? s.flags (c :: rest) =
            (assertion? c).map fun op => .ok (.simple (.leaf op s.flags), rest) := by
          rw [readPerlEscape?]
          · exact hC
          · exact hQ
        rw [hread]
        cases hassertion : assertion? c with
        | none => exact Or.inl ⟨rfl, rfl⟩
        | some op =>
          obtain ⟨hascii, hop⟩ := ascii_of_assertion? hassertion
          obtain ⟨p', hpush, hp'⟩ := h.pushOp hop id
          refine Or.inr ⟨_, rfl, ?_⟩
          dsimp only
          rw [skipAscii_two hstart (by decide) hascii, ok_bind, hpush]
          exact .ok ⟨(p', _), rfl, hp'.mark none, rfl, rfl⟩

variable (hnormal : setting.assembly = .normal) (hs : SoundState s)

include hnormal hs

/-- The class of a bracket is pushed. -/
theorem Mirrors.bracket {b : Bracket} (hb : ∀ item ∈ b.items, item.Valid) :
    Agree (Mirrors setting.nestLimit) (p.pushClass (runes (b.ranges s.flags)))
      (s.effect setting start rest (.bracket b)) := by
  obtain ⟨p', hpush, hp'⟩ := h.pushClass hs (b.ranges_clean s.flags hb).valid
  rw [hpush, State.effect, hnormal]
  exact .ok hp'

omit h hnormal hs in
/-- An escape for a group, outside of brackets, is the class with nothing else in it. -/
theorem plainEscape_group {text left : List Char} (hrest : rest <:+ text) {item : BracketItem}
    (hgroup : readGroupEscape? p.flags rest = some (.ok (item, left))) :
    p.plainEscape (place text rest) = do
      return (← p.pushClass (runes (Bracket.ranges p.flags { items := [item] })), place text left) := by
  have hvalid := readGroupEscape?_valid hgroup
  rw [Parser.plainEscape, groupEscape?_place hrest, hgroup]
  cases item with
  | range r => exact absurd hgroup readGroupEscape?_ne_range
  | group negated table =>
    rw [liftGroup, ok_bind]
    dsimp only
    rw [appendGroup_nil hvalid, ok_bind]

omit h hnormal hs in
/-- An escape with too many digits is for a rune, and no other. -/
theorem OverlongRune.plain {tail : List Char} (h : OverlongRune ('\\' :: tail)) (flags : Flags) :
    readPerlEscape? flags tail = none ∧ readGroupEscape? flags ('\\' :: tail) = none := by
  obtain ⟨digits, rest, -, he⟩ := h.exists_eq
  obtain rfl := (List.cons.inj he).2
  exact ⟨readPerlEscape?_eq_none (by decide) flags _, readGroupEscape?_eq_none (by decide) flags _⟩

/-- An escape that is one within brackets, too. -/
theorem plainEscape_agrees {tail : List Char} (hstart : '\\' :: tail <:+ setting.pattern)
    (hperl : (if s.flags.perlX then readPerlEscape? s.flags tail else none) = none) :
    AgreeUnless (OverlongRune ('\\' :: tail)) (Carried setting none)
      (p.plainEscape (place setting.pattern ('\\' :: tail)))
      (carry setting s ('\\' :: tail) (readBackslash s.flags tail)) := by
  cases hgroup : readGroupEscape? s.flags ('\\' :: tail) with
  | none =>
    have hcarry : carry setting s ('\\' :: tail) (readBackslash s.flags tail) =
        readEscape tail >>= fun found =>
          carry setting s ('\\' :: tail) (.ok (.text [found.1], found.2)) := by
      rw [readBackslash_rune hperl hgroup]
      cases readEscape tail with
      | error e => rfl
      | ok found => rfl
    rw [Parser.plainEscape, h.flags, groupEscape?_place hstart, hgroup, liftGroup, ok_bind, hcarry]
    refine (escape_agrees hstart).bind_agree ?_
    rintro _ ⟨r, rest⟩ - - rfl
    obtain ⟨p', hpush, hp'⟩ := h.literal r
    dsimp only
    rw [hpush]
    refine carried_of_ok rfl ?_ hp'
    rfl
  | some result =>
    have hfree : ¬OverlongRune ('\\' :: tail) := fun hlong => by
      rw [(hlong.plain s.flags).2] at hgroup
      cases hgroup
    refine Agree.unless ?_ hfree
    rw [readBackslash_group hperl hgroup]
    cases result with
    | error e =>
      rw [Parser.plainEscape, h.flags, groupEscape?_place hstart, hgroup]
      exact .error e
    | ok found =>
      obtain ⟨item, rest⟩ := found
      have hvalid := readGroupEscape?_valid hgroup
      rw [← h.flags] at hgroup
      rw [plainEscape_group hstart hgroup, h.flags]
      exact Agree.carry rfl (h.bracket hnormal hs (List.forall_mem_singleton.mpr hvalid))

/-- A backslash outside of brackets. -/
theorem backslash_agrees {tail : List Char} (hstart : '\\' :: tail <:+ setting.pattern) :
    AgreeUnless (OverlongRune ('\\' :: tail)) (Carried setting none)
      (p.backslash (place setting.pattern ('\\' :: tail)))
      (carry setting s ('\\' :: tail) (readBackslash s.flags tail)) := by
  rw [Parser.backslash, h.flags]
  by_cases hperlX : s.flags.perlX = true
  · rw [if_pos hperlX]
    rcases perlEscape?_agrees h hstart with ⟨hnone, hread⟩ | ⟨read, hread, hagrees⟩
    · rw [hnone]
      exact plainEscape_agrees h hnormal hs hstart ((if_pos hperlX).trans hread)
    · have hback : readBackslash s.flags tail = read := by
        rw [readBackslash, if_pos hperlX, hread]
      have hfree : ¬OverlongRune ('\\' :: tail) := fun hlong => by
        rw [(hlong.plain s.flags).1] at hread
        cases hread
      rw [hback]
      refine Agree.unless (hagrees.bind_ok ?_) hfree
      rintro _ b - - ⟨a, rfl, ha⟩
      exact ⟨a, rfl, ha⟩
  · rw [if_neg hperlX]
    exact plainEscape_agrees h hnormal hs hstart (if_neg hperlX)

/-! ## One token -/

omit hnormal hs in
/-- An anchor or a dot. -/
theorem simple_agrees {op : Op} (hop : op ≠ .charClass) (f : Label → Label) :
    Agree (Carried setting none) (do return (← p.pushOp op f, place setting.pattern rest))
      (carry setting s start (.ok (.simple ((leaf op s.flags).relabel f), rest))) := by
  obtain ⟨p', hpush, hp'⟩ := h.pushOp hop f
  rw [hpush]
  refine carried_of_ok rfl ?_ hp'
  rfl

/-- A class in brackets. -/
theorem bracket_agrees {tail : List Char} (hstart : '[' :: tail <:+ setting.pattern) :
    AgreeUnless (OverlongBracket s.flags tail) (Carried setting none)
      (p.piece (place setting.pattern ('[' :: tail)) '[')
      (carry setting s ('[' :: tail) (readToken s.flags '[' tail)) := by
  have hpiece : p.piece (place setting.pattern ('[' :: tail)) '[' =
      readClass p.flags (place setting.pattern ('[' :: tail)) >>= fun found => do
        return (← p.pushClass found.1, found.2) := rfl
  have htoken : carry setting s ('[' :: tail) (readToken s.flags '[' tail) =
      readBracket s.flags tail >>= fun found =>
        carry setting s ('[' :: tail) (.ok (.bracket found.1, found.2)) := by
    rw [readToken, if_neg (by decide), if_neg (by decide), if_neg (by decide), if_pos rfl]
    cases readBracket s.flags tail with
    | error e => rfl
    | ok found => rfl
  rw [hpiece, htoken, h.flags]
  refine (readClass_place s.flags hstart).bind_agree fun a b _ hb hab => ?_
  rw [hab.1, hab.2]
  exact Agree.carry rfl (h.bracket hnormal hs (readBracket_valid hb))

/-- A bar. -/
theorem bar_agrees {tail : List Char} (hstart : '|' :: tail <:+ setting.pattern) :
    Agree (Carried setting none) (p.piece (place setting.pattern ('|' :: tail)) '|')
      (carry setting s ('|' :: tail) (readToken s.flags '|' tail)) := by
  obtain ⟨p', hp, hp'⟩ := h.verticalBar hs
  show Agree _ (do
    let c ← skipAscii (place setting.pattern ('|' :: tail)) 1
    return (← p.verticalBar, c)) (carry setting s _ (.ok (.bar, tail)))
  rw [skipAscii_one hstart (by decide), ok_bind, hp]
  refine Agree.carry rfl ?_
  rw [State.effect, hnormal]
  exact .ok hp'

/-- A closing parenthesis. -/
theorem close_agrees {tail : List Char} (hstart : ')' :: tail <:+ setting.pattern) :
    Agree (Carried setting none) (p.piece (place setting.pattern (')' :: tail)) ')')
      (carry setting s (')' :: tail) (readToken s.flags ')' tail)) := by
  have htail := (List.suffix_cons ')' tail).trans hstart
  show Agree _ (do
    let c ← skipAscii (place setting.pattern (')' :: tail)) 1
    return (← p.rightParen c, c)) (carry setting s _ (.ok (.close, tail)))
  rw [skipAscii_one hstart (by decide), ok_bind]
  exact Agree.carry rfl (h.rightParen (text_place htail) hnormal hs)

omit hnormal hs in
/-- An anchor or a dot. -/
theorem simplePiece?_agrees {c : Char} {t : Tree} (ht : simplePiece? s.flags c = some t)
    {tail : List Char} (hstart : c :: tail <:+ setting.pattern) :
    Agree (Carried setting none) (p.piece (place setting.pattern (c :: tail)) c)
      (carry setting s (c :: tail) (readToken s.flags c tail)) := by
  unfold simplePiece? at ht
  split at ht
  · show Agree _ (do
      let c ← skipAscii (place setting.pattern ('^' :: tail)) 1
      return (← p.pushOp (if p.flags.oneLine then .beginText else .beginLine) id, c)) _
    rw [skipAscii_one hstart (by decide), ok_bind, h.flags]
    refine simple_agrees h ?_ id
    split
    · decide
    · decide
  · show Agree _ (do
      let c ← skipAscii (place setting.pattern ('$' :: tail)) 1
      if p.flags.oneLine then
        return (← p.pushOp .endText
          fun l => { l with flags := { l.flags with wasDollar := true } }, c)
      else return (← p.pushOp .endLine id, c))
      (carry setting s _ (.ok (.simple (
        if s.flags.oneLine then .leaf .endText { s.flags with wasDollar := true }
        else .leaf .endLine s.flags), tail)))
    rw [skipAscii_one hstart (by decide), ok_bind, h.flags]
    split
    · exact simple_agrees h (by decide) _
    · exact simple_agrees h (by decide) id
  · show Agree _ (do
      let c ← skipAscii (place setting.pattern ('.' :: tail)) 1
      return (← p.pushOp (if p.flags.dotNL then .anyChar else .anyCharNotNL) id, c)) _
    rw [skipAscii_one hstart (by decide), ok_bind, h.flags]
    refine simple_agrees h ?_ id
    split
    · decide
    · decide
  · cases ht

omit h hnormal hs in
theorem ne_of_simplePiece?_eq_none {flags : Flags} {c : Char} (h : simplePiece? flags c = none) :
    c ≠ '^' ∧ c ≠ '$' ∧ c ≠ '.' := by
  refine ⟨?_, ?_, ?_⟩
  all_goals
    rintro rfl
    cases h

variable (hfits : setting.nestLimit < 2 ^ 32)

include hfits

/-- A token that is no repetition sign and no brace. -/
theorem piece_agrees {c : Char} {tail : List Char} (hstart : c :: tail <:+ setting.pattern)
    (hsign : sign? c = none) (hbrace : c ≠ '{') :
    AgreeUnless (OverlongToken s.flags (c :: tail)) (Carried setting none)
      (p.piece (place setting.pattern (c :: tail)) c)
      (carry setting s (c :: tail) (readToken s.flags c tail)) := by
  by_cases hbracket : c = '['
  · subst hbracket
    exact (bracket_agrees h hnormal hs hstart).congr overlongToken_bracket.symm
  by_cases hslash : c = '\\'
  · subst hslash
    exact (backslash_agrees h hnormal hs hstart).congr overlongToken_backslash.symm
  refine Agree.unless ?_ (not_overlongToken hbracket hslash)
  by_cases hopen : c = '('
  · subst hopen
    exact opening_agrees h hfits hstart
  by_cases hbar : c = '|'
  · subst hbar
    exact bar_agrees h hnormal hs hstart
  by_cases hclose : c = ')'
  · subst hclose
    exact close_agrees h hnormal hs hstart
  cases hsimple : simplePiece? s.flags c with
  | some t => exact simplePiece?_agrees h hsimple hstart
  | none =>
    obtain ⟨hcaret, hdollar, hdot⟩ := ne_of_simplePiece?_eq_none hsimple
    have hread : readToken s.flags c tail = .ok (.text [c.toNat], tail) := by
      rw [readToken, if_neg hopen, if_neg hbar, if_neg hclose, if_neg hbracket, if_neg hbrace,
        if_neg hslash, hsimple, hsign]
    obtain ⟨p', hpush, hp'⟩ := h.literal c.toNat
    rw [Parser.piece, if_neg hopen, if_neg hbar, if_neg hclose, if_neg hcaret, if_neg hdollar,
      if_neg hdot, if_neg hbracket, if_neg hslash, pop_place hstart, ok_bind, hread]
    dsimp only
    rw [hpush]
    refine carried_of_ok rfl ?_ hp'
    rfl

/-! ## Repetition -/

omit hnormal in
/-- A repetition sign that was read, and the question mark that may follow it. -/
theorem quantify_agrees (hstart : start <:+ setting.pattern) (hrest : rest <:+ start)
    (hlast : ∀ last ∈ s.lastRepeat, last <:+ setting.pattern ∧ start <:+ last) {q : Quantifier}
    (hq : q.Valid) (hturned : q.turned = false) :
    Agree (Carried setting (some start))
      (p.quantify (place setting.pattern rest) q.op q.min q.max (place setting.pattern start).pos
        (lastPos setting s.lastRepeat))
      (carry setting s start (.ok (withTurn s.flags q rest))) := by
  obtain ⟨op, min, max, turned⟩ := q
  subst hturned
  have hback : ∀ left, left <:+ start →
      ∀ last ∈ s.lastRepeat, last <:+ setting.pattern ∧ left <:+ last :=
    fun left hleft last hmem => ⟨(hlast last hmem).1, hleft.trans (hlast last hmem).2⟩
  rw [Parser.quantify, Parser.turn, lookingAt_one, h.flags, withTurn]
  by_cases hturn : (s.flags.perlX && rest.head? == some '?') = true
  · rw [if_pos hturn, if_pos hturn]
    rw [Bool.and_eq_true, beq_iff_eq] at hturn
    obtain ⟨tail, rfl⟩ := List.head?_eq_some_iff.mp hturn.2
    have htail := (List.suffix_cons '?' tail).trans hrest
    rw [skipAscii_one (hrest.trans hstart) (by decide), ok_bind]
    refine Agree.carry rfl ?_
    exact h.overTop hs rfl hfits hstart htail (hback tail htail) ⟨hq.isRepeat, hq.bounds⟩
  · rw [if_neg hturn, if_neg hturn, pure_eq_ok, ok_bind]
    exact Agree.carry rfl (h.overTop hs rfl hfits hstart hrest (hback rest hrest) hq)

omit hnormal in
/-- A brace: a count if it is one, otherwise itself. -/
theorem brace_agrees {tail : List Char} (hstart : '{' :: tail <:+ setting.pattern)
    (hlast : ∀ last ∈ s.lastRepeat, last <:+ setting.pattern ∧ '{' :: tail <:+ last) :
    Agree (Stepped setting)
      (p.brace (place setting.pattern ('{' :: tail)) (lastPos setting s.lastRepeat))
      (carry setting s ('{' :: tail) (readBrace s.flags tail)) := by
  rw [Parser.brace, readBrace]
  dsimp only
  rw [count?_place hstart]
  cases hcount : readCount? tail with
  | none =>
    obtain ⟨p', hpush, hp'⟩ := h.literal '{'.toNat
    rw [Option.map_none, ok_bind]
    dsimp only
    rw [rewind_place hstart hstart, ok_bind, skipAscii_one hstart (by decide), ok_bind, hpush]
    have hcarried : Agree (Carried setting none) (.ok (p', place setting.pattern tail))
        (carry setting s ('{' :: tail) (.ok (.text ['{'.toNat], tail))) := by
      refine carried_of_ok rfl ?_ hp'
      rfl
    exact hcarried.map fun a b hab => hab.stepped
  | some found =>
    obtain ⟨count, left⟩ := found
    have hleft : left <:+ '{' :: tail := (suffix_of_readCount? hcount).trans (List.suffix_cons _ _)
    rw [Option.map_some, ok_bind]
    dsimp only
    by_cases hlarge : count.isTooLarge = true
    · rw [if_pos ((boundsOf_iff count).mpr hlarge), if_pos hlarge, failSince_place hstart hleft]
      exact .error _
    · rw [if_neg fun hbounds => hlarge ((boundsOf_iff count).mp hbounds), if_neg hlarge,
        boundsOf_of_fits hlarge]
      have hquantify := quantify_agrees h hs hfits hstart hleft hlast
        (Count.quantifier_valid hlarge) rfl
      exact hquantify.map fun a b hab => hab.stepped

omit h hnormal hs hfits in
/-- A sign is read as a repetition, which may be turned. -/
theorem readToken_sign {c : Char} {op : Op} (h : sign? c = some op) (flags : Flags)
    (tail : List Char) :
    c.toNat < 128 ∧ readToken flags c tail = .ok (withTurn flags { op } tail) := by
  unfold sign? at h
  split at h
  all_goals cases h
  all_goals exact ⟨by decide, rfl⟩

/-- A step of the machine reads the token that is read of the text and does the same to the stack,
    or finds the same error, unless the token has too many digits; by the sign at the cursor. -/
theorem step_agrees {c : Char} {tail : List Char} (hstart : c :: tail <:+ setting.pattern)
    (hlast : ∀ last ∈ s.lastRepeat, last <:+ setting.pattern ∧ c :: tail <:+ last) :
    AgreeUnless (OverlongToken s.flags (c :: tail)) (Stepped setting)
      (p.step (place setting.pattern (c :: tail)) (lastPos setting s.lastRepeat))
      (carry setting s (c :: tail) (readToken s.flags c tail)) := by
  rw [Parser.step, peek_place, ok_bind]
  cases hsign : sign? c with
  | some op =>
    obtain ⟨hascii, hread⟩ := readToken_sign hsign s.flags tail
    have hquantify := quantify_agrees h hs hfits hstart (List.suffix_cons c tail) hlast
      (sign?_valid hsign) rfl
    have hfree : ¬OverlongToken s.flags (c :: tail) := by
      refine not_overlongToken ?_ ?_
      all_goals
        rintro rfl
        cases hsign
    dsimp only
    rw [skipAscii_one hstart hascii, ok_bind, hread]
    exact Agree.unless (hquantify.map fun a b hab => hab.stepped) hfree
  | none =>
    dsimp only
    by_cases hbrace : c = '{'
    · subst hbrace
      exact (brace_agrees h hs hfits hstart hlast).unless
        (not_overlongToken (by decide) (by decide))
    · rw [if_neg hbrace]
      exact (piece_agrees h hnormal hs hfits hstart hsign hbrace).map fun a b hab => hab.stepped

end

end RegexTree.Machine
