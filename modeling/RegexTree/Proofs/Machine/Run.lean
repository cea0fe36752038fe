/-
  The machine reads every pattern, but for one count.

  What a state holds stays sound, and the places it remembers stay in the pattern (`Standing`); with
  that a step of the machine is a token (`Follows.step`), and a run of it is a run over the text
  (`run_agrees`), by induction on the text that is left.  So the machine reads a pattern to the tree
  that is read of it, or finds the error that is found, unless reading comes to an escape whose
  digits are too many to be counted (`parsePattern_agrees`).

  That exception is exact, and it is a real one: 2 ^ 31 zeros in braces write a rune, and the machine
  is stuck there (`parsePattern_zeros_stuck`).  It takes a text that is longer than that, so for all
  shorter patterns the two readers are the same function.

  `Reached` are the states and places that a run of the machine comes to between two tokens.  They
  hold a state of the other reader (`Reached.follows`), from which everything is read off that is
  said of them: a step is stuck just at an escape with too many digits, and one that is made goes on
  to a later place between two characters (`Reached.step_forward`).  The rest of what makes a run
  safe is in `parsePattern_safe`.
-/
import RegexTree.Proofs.Machine.Step
import RegexTree.Proofs.Parse.Shown

namespace RegexTree.Machine

open Cursor RegexTree.Tree
open Parse (State Setting)

/-! ## What every step keeps -/

/-- The state is sound, and the last repetition begins between the start of the pattern and the place
    where the text is left. -/
structure Standing (setting : Setting) (s : State) (rest : List Char) : Prop where
  sound : SoundState s
  here : rest <:+ setting.pattern
  last : ∀ last ∈ s.lastRepeat, last <:+ setting.pattern ∧ rest <:+ last

variable {setting : Setting} {s : State}

theorem standing_start (flags : Flags) : Standing setting { flags } setting.pattern where
  sound := ⟨rfl, Parse.LevelRelated.empty, List.Forall₂.nil, rfl, rfl, rfl⟩
  here := List.suffix_rfl
  last := fun _ hmem => by cases hmem

/-- A step that succeeds has read a token and applied it. -/
theorem token_of_carry {start rest : List Char} {read : Except Error (Token × List Char)}
    {next : State} (h : carry setting s start read = .ok (next, rest)) :
    ∃ token, read = .ok (token, rest) ∧ s.apply setting start rest token = .ok next := by
  cases read with
  | error e => cases h
  | ok found =>
    obtain ⟨token, left⟩ := found
    have h : (s.apply setting start left token >>= fun next => .ok (next, left)) =
      .ok (next, rest) := h
    cases happly : s.apply setting start left token with
    | error e =>
      rw [happly] at h
      cases h
    | ok middle =>
      rw [happly] at h
      cases h
      exact ⟨token, rfl, happly⟩

/-- A run comes to too many digits in the first token, or after what that carries it to. -/
theorem overlongRun_carry {c : Char} {tail : List Char} :
    OverlongRun setting s (c :: tail) ↔ OverlongToken s.flags (c :: tail) ∨
      ∃ b, carry setting s (c :: tail) (readToken s.flags c tail) = .ok b ∧
        OverlongRun setting b.1 b.2 := by
  rw [overlongRun_iff]
  refine or_congr_right ⟨?_, ?_⟩
  · rintro ⟨token, rest, next, hread, happly, h⟩
    refine ⟨(next, rest), ?_, h⟩
    rw [hread]
    show s.apply setting (c :: tail) rest token >>= _ = _
    rw [happly]
    rfl
  · rintro ⟨⟨next, rest⟩, hcarry, h⟩
    obtain ⟨token, hread, happly⟩ := token_of_carry hcarry
    exact ⟨token, rest, next, hread, happly, h⟩

/-- A run carries the state over the first token, and goes on with the text after it. -/
theorem run_cons (c : Char) (tail : List Char) :
    s.run setting (c :: tail) =
      carry setting s (c :: tail) (readToken s.flags c tail) >>= fun found =>
        found.1.run setting found.2 := by
  rw [Parse.run_cons]
  cases readToken s.flags c tail with
  | error e => rfl
  | ok found =>
    obtain ⟨token, rest⟩ := found
    show (s.apply setting (c :: tail) rest token).bind _ =
      (s.apply setting (c :: tail) rest token >>= fun next => .ok (next, rest)) >>= _
    cases s.apply setting (c :: tail) rest token with
    | error e => rfl
    | ok next => rfl

/-! ## Runs -/

/-- The machine stands where the state does, and both are of the kind that every step keeps. -/
structure Follows (setting : Setting) (a : Parser × Cursor × Option Nat)
    (b : State × List Char) : Prop extends Stepped setting a b where
  standing : Standing setting b.1 b.2

/-- Where the cursor has more there is a character. -/
theorem Follows.exists_of_more {p : Parser} {c : Cursor} {last : Option Nat} {rest : List Char}
    (h : Follows setting (p, c, last) (s, rest)) (hmore : c.more = true) :
    ∃ ch tail, rest = ch :: tail := by
  have hcursor : c = place setting.pattern rest := h.cursor
  subst hcursor
  cases rest with
  | nil => exact absurd hmore (more_nil _)
  | cons ch tail => exact ⟨ch, tail, rfl⟩

/-- Where less of the text is left, the cursor is further on, and between two characters. -/
theorem Follows.forward {p p' : Parser} {c c' : Cursor} {last last' : Option Nat} {s' : State}
    {ch : Char} {tail rest' : List Char} (h : Follows setting (p, c, last) (s, ch :: tail))
    (h' : Follows setting (p', c', last') (s', rest')) (hrest : rest' <:+ tail) :
    c.pos < c'.pos ∧ splitBytes? c'.pos setting.pattern = some (c'.before, c'.rest) := by
  have hcursor : c = place setting.pattern (ch :: tail) := h.cursor
  have hcursor' : c' = place setting.pattern rest' := h'.cursor
  have here : ch :: tail <:+ setting.pattern := h.standing.here
  obtain ⟨taken, rfl⟩ := hrest
  subst hcursor hcursor'
  constructor
  · exact pos_lt_pos here
  · obtain ⟨before, hbefore⟩ := h'.standing.here
    rw [← hbefore, pos_place, splitBytes?_append, place_append]

section

variable (hnormal : setting.assembly = .normal)

include hnormal

/-- A token keeps the state sound. -/
theorem SoundState.apply (h : SoundState s) {start rest : List Char} {token : Token} {next : State}
    (htoken : token.Valid) (happly : s.apply setting start rest token = .ok next) :
    SoundState next := by
  have hrelated : RegexTree.Agree (Parse.StateRelated _ _) (s.apply setting start rest token)
      (s.apply setting start rest token) :=
    Parse.apply_related keeps_sound.related ⟨hnormal, hnormal, rfl, rfl⟩ h htoken
  rw [happly] at hrelated
  exact hrelated

/-- A token leaves a state of the same kind, at a later place. -/
theorem Standing.token {c : Char} {tail rest : List Char} {next : State}
    (h : Standing setting s (c :: tail))
    (hcarry : carry setting s (c :: tail) (readToken s.flags c tail) = .ok (next, rest)) :
    Standing setting next rest ∧ rest <:+ tail := by
  obtain ⟨token, hread, happly⟩ := token_of_carry hcarry
  have hrest := readToken_suffix hread
  have hback : rest <:+ c :: tail := hrest.trans (List.suffix_cons c tail)
  refine ⟨⟨h.sound.apply hnormal (readToken_valid hread) happly, hback.trans h.here, ?_⟩, hrest⟩
  intro last hmem
  rw [Parse.lastRepeat_of_apply happly hmem]
  exact ⟨h.here, hback⟩

variable (hfits : setting.nestLimit < 2 ^ 32)

include hfits

/-- A step of the machine is a token, and goes on in the text. -/
theorem Follows.step {p : Parser} {c : Cursor} {last : Option Nat} {ch : Char} {tail : List Char}
    (h : Follows setting (p, c, last) (s, ch :: tail)) :
    AgreeUnless (OverlongToken s.flags (ch :: tail)) (fun a b => Follows setting a b ∧ b.2 <:+ tail)
      (p.step c last) (carry setting s (ch :: tail) (readToken s.flags ch tail)) := by
  obtain ⟨⟨hp, rfl, rfl⟩, hs⟩ := h
  refine (step_agrees hp hnormal hs.sound hfits hs.here hs.last).imp fun a b hcarry hab => ?_
  obtain ⟨hstanding, hrest⟩ := hs.token hnormal hcarry
  exact ⟨⟨hab, hstanding⟩, hrest⟩

/-- Where a step succeeds, the machine stands after a token again. -/
theorem Follows.step_ok {p p' : Parser} {c c' : Cursor} {last last' : Option Nat} {ch : Char}
    {tail : List Char} (h : Follows setting (p, c, last) (s, ch :: tail))
    (hstep : p.step c last = .ok (p', c', last')) :
    ∃ s' rest, Follows setting (p', c', last') (s', rest) ∧ rest <:+ tail := by
  obtain ⟨b, -, hab⟩ := (h.step hnormal hfits).exists_of_ok hstep
  exact ⟨b.1, b.2, hab⟩

/-- Step by step, the machine does what is done to the state. -/
theorem run_agrees {steps : Nat} {p : Parser} {c : Cursor} {last : Option Nat} {rest : List Char}
    (h : Follows setting (p, c, last) (s, rest)) (hsteps : rest.length < steps) :
    AgreeUnless (OverlongRun setting s rest)
      (fun p s => Mirrors setting.nestLimit p s ∧ SoundState s) (p.run steps c last)
      (s.run setting rest) := by
  induction steps generalizing p c last s rest with
  | zero => cases hsteps
  | succ steps ih =>
    have hcursor : c = place setting.pattern rest := h.cursor
    rw [Parser.run]
    cases rest with
    | nil =>
      rw [if_neg (hcursor ▸ more_nil _), State.run]
      exact Agree.unless (.ok ⟨h.parser, h.standing.sound⟩) not_overlongRun_nil
    | cons ch tail =>
      rw [if_pos (hcursor ▸ more_cons _ ch tail), run_cons]
      refine AgreeUnless.congr ?_ overlongRun_carry.symm
      -- every token takes at least one character, so the steps last as long as the text
      refine (h.step hnormal hfits).bind fun a b _ _ hab => ?_
      have hlen := hab.2.length_le
      rw [List.length_cons] at hsteps
      exact ih hab.1 (by omega)

end

/-! ## Patterns -/

/-- At the start the parser holds nothing. -/
theorem mirrors_start (flags : Flags) (limit : Nat) :
    Mirrors limit { flags, nestLimit := limit } { flags } :=
  ⟨rfl, rfl, rfl, rfl, rfl, [], [], .none, .nil, rfl⟩

theorem place_start (text : List Char) : place text text = .ofText text := by
  rw [place, Nat.sub_self]
  rfl

/-- The machine begins where the state does: nothing is on the stack, and all of the text is
    left. -/
theorem follows_start (pattern : List Char) (flags : Flags) (limit : Nat) :
    Follows ⟨.normal, limit, pattern⟩ ({ flags, nestLimit := limit }, .ofText pattern, none)
      ({ flags }, pattern) where
  parser := mirrors_start flags limit
  cursor := (place_start pattern).symm
  last := rfl
  standing := standing_start flags

/-- What is left on the stack at the end is the tree of the pattern, or a parenthesis is missing. -/
theorem finish_agrees {p : Parser} {s : State} {limit : Nat} (h : Mirrors limit p s)
    (hs : SoundState s) (text : List Char) :
    Agree Eq
      (do
        let p ← p.finish
        match p.stack with
        | [root] => return ⟨root, p.captures, p.names⟩
        | _ => fail .missingParen text)
      (if s.groups.isEmpty then .ok (⟨s.level.finish .normal, s.captures, s.names⟩ : Pattern)
      else .error (.toEnd .missingParen text)) := by
  obtain ⟨hbelow, hfinish⟩ := h.finish hs
  rw [hfinish, ok_bind]
  dsimp only
  have hcaptures := h.captures
  have hnames := h.names
  generalize ground p.stack = below at hbelow
  -- one tree is left on the stack just if no group is open; otherwise a marker is below it
  cases hgroups : s.groups with
  | nil =>
    rw [hgroups] at hbelow
    cases hbelow
    rw [hcaptures, hnames]
    exact .ok rfl
  | cons group groups =>
    rw [hgroups] at hbelow
    cases hbelow
    exact .error _

/-- A pattern is read by a run, after which no group may be open. -/
theorem parsePattern_run {flags : Flags} (hflags : ¬flags.literal = true) (pattern : String)
    (limit : Nat) :
    RegexTree.parsePattern pattern flags limit =
      State.run ⟨.normal, limit, pattern.toList⟩ { flags } pattern.toList >>= fun s =>
        if s.groups.isEmpty then .ok ⟨s.level.finish .normal, s.captures, s.names⟩
        else .error (.toEnd .missingParen pattern.toList) := by
  rw [RegexTree.parsePattern, parseWith, if_neg hflags]
  dsimp only
  cases State.run ⟨.normal, limit, pattern.toList⟩ { flags } pattern.toList with
  | error e => rfl
  | ok s => rfl

/-- The machine reads what is read of the pattern, or finds the error that is found, unless there are
    more digits in an escape than it can count. -/
theorem parsePattern_agrees (pattern : String) (flags : Flags) (nestLimit : UInt32) :
    AgreeUnless (OverlongPattern pattern flags nestLimit.toNat) Eq
      (parsePattern pattern flags nestLimit)
      (RegexTree.parsePattern pattern flags nestLimit.toNat) := by
  by_cases hliteral : flags.literal = true
  · rw [parsePattern, RegexTree.parsePattern, parseWith, if_pos hliteral]
    dsimp only
    rw [if_pos hliteral]
    exact Agree.unless (.ok rfl) fun hlong => Bool.false_ne_true (hlong.1.symm.trans hliteral)
  · have hrun := run_agrees rfl nestLimit.toNat_lt
      (follows_start pattern.toList flags nestLimit.toNat) (Nat.lt_succ_self _)
    rw [parsePattern_run hliteral, parsePattern, if_neg hliteral]
    refine AgreeUnless.congr ?_ (and_iff_right (eq_false_of_ne_true hliteral)).symm
    exact hrun.bind_agree fun p s _ _ hps => finish_agrees hps.1 hps.2 pattern.toList

/-- Where the machine may stand after some steps from the start of a pattern. -/
inductive Reached (pattern : List Char) (flags : Flags) (limit : Nat) :
    Parser → Cursor → Option Nat → Prop where
  | start : Reached pattern flags limit { flags, nestLimit := limit } (.ofText pattern) none
  | step {p p' : Parser} {c c' : Cursor} {last last' : Option Nat}
      (h : Reached pattern flags limit p c last) (hmore : c.more = true)
      (hstep : p.step c last = .ok (p', c', last')) : Reached pattern flags limit p' c' last'

section

variable {pattern : List Char} {flags : Flags} {limit : Nat} (hlimit : limit < 2 ^ 32)

include hlimit

/-- At every place that is reached, the machine stands where a state does. -/
theorem Reached.follows {p : Parser} {c : Cursor} {last : Option Nat}
    (h : Reached pattern flags limit p c last) :
    ∃ s rest, Follows ⟨.normal, limit, pattern⟩ (p, c, last) (s, rest) := by
  induction h with
  | start => exact ⟨_, pattern, follows_start pattern flags limit⟩
  | @step p p' c c' last last' h hmore hstep ih =>
    obtain ⟨s, rest, hfollows⟩ := ih
    obtain ⟨ch, tail, rfl⟩ := hfollows.exists_of_more hmore
    obtain ⟨s', rest, hnext, -⟩ := hfollows.step_ok rfl hlimit hstep
    exact ⟨s', rest, hnext⟩

/-- A step at a place that is reached is stuck just at too many digits, and goes on to a later place
    of the pattern if it is made. -/
theorem Reached.step_forward {p : Parser} {c : Cursor} {last : Option Nat}
    (h : Reached pattern flags limit p c last) (hmore : c.more = true) :
    (p.step c last = .error .stuck ↔ OverlongToken p.flags c.rest) ∧
      ∀ p' c' last', p.step c last = .ok (p', c', last') →
        c.pos < c'.pos ∧ splitBytes? c'.pos pattern = some (c'.before, c'.rest) := by
  obtain ⟨s, rest, hfollows⟩ := h.follows hlimit
  obtain ⟨ch, tail, rfl⟩ := hfollows.exists_of_more hmore
  have hcursor : c = place pattern (ch :: tail) := hfollows.cursor
  have hflags : p.flags = s.flags := hfollows.parser.flags
  constructor
  · rw [(hfollows.step rfl hlimit).stuck_iff, hcursor, rest_place, hflags]
  · intro p' c' last' hstep
    obtain ⟨s', rest, hnext, hrest⟩ := hfollows.step_ok rfl hlimit hstep
    exact hfollows.forward hnext hrest

end

/-- Reading a pattern is total and safe but for one count.  The digits of an escape in braces are
    counted in 32 bits with a sign, and the machine is stuck exactly if reading comes to an escape
    with more of them; no pattern is so that does not have that many digits after a brace.  Nothing
    else is ever without a value: the loops come to their end, and the result is the pattern that is
    read or the error that is found; an error shows a part of the pattern; and every step that is
    made goes on to a later place between two characters of the pattern. -/
theorem parsePattern_safe (pattern : String) (flags : Flags) (nestLimit : UInt32) :
    (parsePattern pattern flags nestLimit = .error .stuck ↔
        OverlongPattern pattern flags nestLimit.toNat) ∧
      (OverlongPattern pattern flags nestLimit.toNat → HasOverlong pattern.toList) ∧
      (¬OverlongPattern pattern flags nestLimit.toNat →
        parsePattern pattern flags nestLimit =
          (RegexTree.parsePattern pattern flags nestLimit.toNat).mapError .invalid) ∧
      (∀ e, parsePattern pattern flags nestLimit = .error (.invalid e) →
        e.expr.toList <:+: pattern.toList) ∧
      ∀ p c last, Reached pattern.toList flags nestLimit.toNat p c last → c.more = true →
        (p.step c last = .error .stuck ↔ OverlongToken p.flags c.rest) ∧
          ∀ p' c' last', p.step c last = .ok (p', c', last') →
            c.pos < c'.pos ∧ splitBytes? c'.pos pattern.toList = some (c'.before, c'.rest) := by
  have hagrees := parsePattern_agrees pattern flags nestLimit
  refine ⟨hagrees.stuck_iff, fun hlong => hlong.hasOverlong, fun hfree => ?_, fun e he => ?_,
    fun p c last h hmore => h.step_forward nestLimit.toNat_lt hmore⟩
  · cases hread : RegexTree.parsePattern pattern flags nestLimit.toNat with
    | error e =>
      rw [hread] at hagrees
      exact (hagrees.agree hfree).of_error
    | ok P =>
      rw [hread] at hagrees
      obtain ⟨_, hP, rfl⟩ := (hagrees.agree hfree).of_ok
      exact hP
  · exact within_of_parsePattern (hagrees.eq_error he)

/-- The second token is an error and shows itself; the first takes both bytes of its letter. -/
theorem parsePattern_safe_switch :
    ¬OverlongPattern "é(?z)" .perl 1000 ∧
      parsePattern "é(?z)" .perl 1000 = .error (.invalid ⟨.invalidPerlOp, "(?z"⟩) ∧
      (RegexTree.parsePattern "é(?z)" .perl 1000).mapError .invalid =
        (.error (.invalid ⟨.invalidPerlOp, "(?z"⟩) : Guarded Pattern) ∧
      "(?z".toList <:+: "é(?z)".toList ∧
      ∃ p, Parser.step { flags := .perl, nestLimit := 1000 } (.ofText "é(?z)".toList) none =
          .ok (p, ⟨['é'], "(?z)".toList⟩, none) ∧
        (Cursor.ofText "é(?z)".toList).pos < byteCount ['é'] ∧
        splitBytes? (byteCount ['é']) "é(?z)".toList = some (['é'], "(?z)".toList) := by
  obtain ⟨-, hhas, hsame, hshown, hsteps⟩ := parsePattern_safe "é(?z)" .perl 1000
  have hfree : ¬OverlongPattern "é(?z)" .perl 1000 := fun h =>
    absurd (hhas h).lt_length (by decide)
  have hread : parsePattern "é(?z)" .perl 1000 = .error (.invalid ⟨.invalidPerlOp, "(?z"⟩) := rfl
  obtain ⟨p, hstep⟩ : ∃ p, Parser.step { flags := .perl, nestLimit := 1000 }
      (.ofText "é(?z)".toList) none = .ok (p, ⟨['é'], "(?z)".toList⟩, none) := ⟨_, rfl⟩
  exact ⟨hfree, hread, (hsame hfree).symm.trans hread, hshown _ hread, p, hstep,
    (hsteps _ _ _ .start rfl).2 _ _ _ hstep⟩

/-- As many as 2 ^ 31 zeros before the brace is closed are too many, although they write a rune. -/
theorem parsePattern_zeros_stuck :
    let zeros := List.replicate 0x80000000 '0'
    parsePattern (String.ofList ('\\' :: 'x' :: '{' :: (zeros ++ ['}']))) .perl 1000 =
      .error .stuck := by
  intro zeros
  refine (parsePattern_agrees _ .perl 1000).stuck ⟨rfl, ?_⟩
  rw [String.toList_ofList]
  exact .here (.rune (overlongRune_brace.mpr ⟨zeros, overlong_zeros, List.prefix_append _ _⟩))

end RegexTree.Machine
