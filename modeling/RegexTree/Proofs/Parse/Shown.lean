/-
  Every error shows a part of the pattern.

  A reader shows what lies between two places of the text, or all from a place on (`within_between`,
  `within_toEnd`); the one error with a text of its own shows the escape that stands there, and the
  one without any text shows nothing.  So what is shown stands in the text that was read.

  `Error.Within` says it of an error and a text, and grows with the text (`Error.Within.mono`): a
  reader that is called on a rest of the text gives its error to the whole.  With that there is one
  short lemma for each reader, which goes through its cases and cites those of the readers it calls,
  up to `within_of_readToken`.  Only brackets are a recursion of their own, and the induction there
  is on the text that is left (`within_of_readItems`).

  Over a run, the place where the last repetition began is remembered, so it has to be a place of
  the pattern still when a second sign shows both (`within_of_quantify`).  For a whole pattern it is
  `within_of_parsePattern`.
-/
import RegexTree.Proofs.Parse.Runs

namespace RegexTree

/-- What the error shows stands somewhere in the text. -/
def Error.Within (text : List Char) (e : Error) : Prop := e.expr.toList <:+: text

/-- What stands in a part stands in the whole. -/
theorem Error.Within.mono {e : Error} {text more : List Char} (h : e.Within text)
    (hmore : text <:+: more) : e.Within more := h.trans hmore

/-- What lies between two places of a text stands in it. -/
theorem within_between {text start : List Char} (h : start <:+: text) (code : ErrorCode)
    (rest : List Char) : (Error.between code start rest).Within text := by
  rw [Error.Within, Error.between, excerpt, String.toList_ofList]
  exact (List.take_prefix _ start).isInfix.trans h

theorem within_toEnd {text start : List Char} (h : start <:+: text) (code : ErrorCode) :
    (Error.toEnd code start).Within text := by
  rw [Error.Within, Error.toEnd, String.toList_ofList]
  exact h

/-! ## Escapes and brackets -/

/-- An escape that is not one shows itself. -/
theorem within_of_readEscape {text : List Char} {e : Error} (h : readEscape text = .error e) :
    e.Within ('\\' :: text) := by
  unfold readEscape at h
  split at h
  · cases h
    exact List.nil_infix
  · split at h
    · cases h
    · cases h
      exact within_between List.infix_rfl _ _

/-- A property that is not known shows its name and what introduces it. -/
theorem within_of_readProperty {negated : Bool} {start text : List Char} {e : Error}
    (h : readProperty negated start text = .error e) : e.Within start := by
  unfold readProperty at h
  split at h
  · cases h
    exact within_toEnd List.infix_rfl _
  · split at h
    · cases h
      exact within_between List.infix_rfl _ _
    · cases h

theorem within_of_readGroupEscape? {flags : Flags} {text : List Char} {e : Error}
    (h : readGroupEscape? flags text = some (.error e)) : e.Within text := by
  unfold readGroupEscape? at h
  split at h
  · split at h
    · exact within_of_readProperty (Option.some.inj h)
    · split at h
      · obtain ⟨group, -, he⟩ := Option.map_eq_some_iff.mp h
        cases he
      · cases h
  · cases h

/-- A group in that form whose name is not known shows itself, brackets and all. -/
theorem within_of_readNamedGroup? {text : List Char} {e : Error}
    (h : readNamedGroup? text = some (.error e)) : e.Within text := by
  unfold readNamedGroup? at h
  split at h
  · obtain ⟨split, -, he⟩ := Option.map_eq_some_iff.mp h
    dsimp only at he
    split at he
    · cases he
      exact within_between List.infix_rfl _ _
    · cases he
  · cases h

section

variable {opening text : List Char} {e : Error} (htext : text <:+ opening)

include htext

/-- A rune of a bracket fails at the end of the text and shows all from the bracket on, or it is an
    escape that fails. -/
theorem within_of_readBracketRune (h : readBracketRune opening text = .error e) :
    e.Within opening := by
  unfold readBracketRune at h
  split at h
  · cases h
    exact within_toEnd List.infix_rfl _
  · exact (within_of_readEscape h).mono htext.isInfix
  · cases h

/-- A range that ends before it begins shows its two ends. -/
theorem within_of_readRange (h : readRange opening text = .error e) : e.Within opening := by
  unfold readRange at h
  split at h
  · next hlo =>
    cases h
    exact within_of_readBracketRune htext hlo
  · next lo middle hlo =>
    have hmiddle := (consumed_of_readBracketRune hlo).isSuffix.trans htext
    split at h
    · split at h
      · next hhi =>
        cases h
        exact within_of_readBracketRune ((List.tail_suffix middle).trans hmiddle) hhi
      · split at h
        · cases h
          exact within_between htext.isInfix _ _
        · cases h
    · cases h

theorem within_of_readItem {flags : Flags} (h : readItem flags opening text = .error e) :
    e.Within opening := by
  unfold readItem at h
  split at h
  · next hnamed => exact (within_of_readNamedGroup? (h ▸ hnamed)).mono htext.isInfix
  · split at h
    · next hgroup => exact (within_of_readGroupEscape? (h ▸ hgroup)).mono htext.isInfix
    · exact within_of_readRange htext h

/-- By induction on the items: the first fails, or a later one. -/
theorem within_of_readItems {flags : Flags} {first : Bool}
    (h : readItems flags opening first text = .error e) : e.Within opening := by
  fun_induction readItems flags opening first text with
  | case1 => cases h
  | case2 =>
    cases h
    exact within_between htext.isInfix _ _
  | case3 first text _ _ e' hitem =>
    cases h
    exact within_of_readItem htext hitem
  | case4 first text _ _ item middle hitem e' hitems ih =>
    cases h
    exact ih ((consumed_of_readItem hitem).isSuffix.trans htext) hitems
  | case5 => cases h

end

/-- A bracket that is not closed shows all from where it opens; what fails inside of it shows
    itself. -/
theorem within_of_readBracket {flags : Flags} {text : List Char} {e : Error}
    (h : readBracket flags text = .error e) : e.Within ('[' :: text) := by
  unfold readBracket at h
  split at h
  · next hitems =>
    cases h
    exact within_of_readItems ((splitCaret_suffix text).trans (List.suffix_cons _ _)) hitems
  · cases h

/-! ## Tokens -/

/-- Switches that are not known show the text from the parenthesis on. -/
theorem within_of_readSwitches {start text : List Char} {flags : Flags} {off seen : Bool}
    {e : Error} (h : readSwitches start flags off seen text = .error e) : e.Within start := by
  fun_induction readSwitches start flags off seen text with
  | case1 =>
    cases h
    exact within_between List.infix_rfl _ _
  | case2 _ _ _ _ _ _ _ ih => exact ih h
  | case3 _ _ _ _ _ _ _ ih => exact ih h
  | case4 => cases h
  | case5 => cases h
  | case6 =>
    cases h
    exact within_between List.infix_rfl _ _

/-- A name that is not one shows itself, and one that is not closed all from the parenthesis on. -/
theorem within_of_readNamedCapture {start text : List Char} {e : Error}
    (h : readNamedCapture start text = .error e) : e.Within start := by
  unfold readNamedCapture at h
  split at h
  · cases h
    exact within_toEnd List.infix_rfl _
  · split at h
    · cases h
    · cases h
      exact within_between List.infix_rfl _ _

theorem within_of_readOpening {flags : Flags} {text : List Char} {e : Error}
    (h : readOpening flags text = .error e) : e.Within ('(' :: text) := by
  unfold readOpening at h
  split at h
  · next hspecial =>
    rw [Bool.and_eq_true, beq_iff_eq] at hspecial
    obtain ⟨tail, rfl⟩ := List.head?_eq_some_iff.mp hspecial.2
    rw [List.tail_cons] at h
    unfold readSpecialGroup at h
    dsimp only at h
    split at h
    · exact within_of_readNamedCapture h
    · exact within_of_readNamedCapture h
    · exact within_of_readSwitches h
  · cases h

theorem within_of_readPerlEscape? {flags : Flags} {text : List Char} {e : Error}
    (h : readPerlEscape? flags text = some (.error e)) : e.Within ('\\' :: text) := by
  unfold readPerlEscape? at h
  split at h
  · cases h
    exact (List.prefix_append ['\\', 'C'] _).isInfix
  · cases h
  · obtain ⟨op, -, he⟩ := Option.map_eq_some_iff.mp h
    cases he
  · cases h

/-- A backslash at the end shows itself, and others fail with what they introduce. -/
theorem within_of_readBackslash {flags : Flags} {text : List Char} {e : Error}
    (h : readBackslash flags text = .error e) : e.Within ('\\' :: text) := by
  unfold readBackslash at h
  split at h
  · next hperl =>
    subst h
    split at hperl
    · exact within_of_readPerlEscape? hperl
    · cases hperl
  · split at h
    · cases h
    · next hgroup =>
      cases h
      exact within_of_readGroupEscape? hgroup
    · split at h
      · cases h
      · next hescape =>
        cases h
        exact within_of_readEscape hescape

/-- A count that is too large shows the braces. -/
theorem within_of_readBrace {flags : Flags} {text : List Char} {e : Error}
    (h : readBrace flags text = .error e) : e.Within ('{' :: text) := by
  unfold readBrace at h
  split at h
  · cases h
  · split at h
    · cases h
      exact within_between List.infix_rfl _ _
    · cases h

/-- An error in a token shows a part of the text from there on. -/
theorem within_of_readToken {flags : Flags} {c : Char} {text : List Char} {e : Error}
    (h : readToken flags c text = .error e) : e.Within (c :: text) := by
  unfold readToken at h
  split at h
  · next hc =>
    subst hc
    exact within_of_readOpening h
  split at h
  · cases h
  split at h
  · cases h
  split at h
  · next hc =>
    subst hc
    split at h
    · cases h
    · next hbracket =>
      cases h
      exact within_of_readBracket hbracket
  split at h
  · next hc =>
    subst hc
    exact within_of_readBrace h
  split at h
  · next hc =>
    subst hc
    exact within_of_readBackslash h
  split at h
  · cases h
  · cases h
  · cases h

/-! ## Runs -/

namespace Parse

variable {setting : Setting} {s : State} {start rest : List Char} {e : Error}

/-- A group that is nested too deep shows the whole pattern. -/
theorem within_of_openGroup {flags : Flags} {capture : Option (Nat × Option String)}
    (h : s.openGroup setting flags capture = .error e) : e.Within setting.pattern := by
  unfold State.openGroup at h
  split at h
  · cases h
    exact within_toEnd List.infix_rfl _
  · cases h

/-- A repetition that begins in the pattern, after another that does, shows a part of it. -/
theorem within_of_quantify (hstart : start <:+ setting.pattern)
    (hlast : ∀ last ∈ s.lastRepeat, last <:+ setting.pattern) {q : Quantifier}
    (h : s.quantify setting start rest q = .error e) : e.Within setting.pattern := by
  -- there are four ways to fail, in the order in which they are looked for
  unfold State.quantify at h
  split at h
  · next last hcase =>
    cases h
    split at hcase
    · exact within_between (hlast last hcase).isInfix _ _
    · cases hcase
  · split at h
    · cases h
      exact within_between hstart.isInfix _ _
    · dsimp only at h
      split at h
      · cases h
        exact within_toEnd List.infix_rfl _
      · split at h
        · cases h
          exact within_between hstart.isInfix _ _
        · cases h

/-- A token that fails shows itself, what the last repetition began with, or the whole pattern. -/
theorem within_of_effect (hstart : start <:+ setting.pattern)
    (hlast : ∀ last ∈ s.lastRepeat, last <:+ setting.pattern) {token : Token}
    (h : s.effect setting start rest token = .error e) : e.Within setting.pattern := by
  cases token with
  | capture name =>
    rw [State.effect, State.openCapture] at h
    split at h
    · cases h
      exact within_between hstart.isInfix _ _
    · exact within_of_openGroup h
  | group flags => exact within_of_openGroup h
  | close =>
    rw [State.effect, State.closeGroup] at h
    split at h
    · cases h
      exact within_toEnd List.infix_rfl _
    · cases h
  | repetition q => exact within_of_quantify hstart hlast h
  | setFlags flags => cases h
  | bar => cases h
  | simple piece => cases h
  | text runes => cases h
  | bracket b => cases h

/-- What is shown is the same when a token is applied, as remembering a place cannot fail. -/
theorem within_of_apply (hstart : start <:+ setting.pattern)
    (hlast : ∀ last ∈ s.lastRepeat, last <:+ setting.pattern) {token : Token}
    (h : s.apply setting start rest token = .error e) : e.Within setting.pattern := by
  unfold State.apply at h
  split at h
  · next heffect =>
    cases h
    exact within_of_effect hstart hlast heffect
  · cases h

/-- An error in what is left of the pattern shows a part of it. -/
theorem within_of_run {text : List Char} (htext : text <:+ setting.pattern)
    (hlast : ∀ last ∈ s.lastRepeat, last <:+ setting.pattern)
    (h : s.run setting text = .error e) : e.Within setting.pattern := by
  induction text using suffix_induct generalizing s with
  | nil =>
    rw [State.run] at h
    cases h
  | cons c tail ih =>
    rw [State.run] at h
    split at h
    · next hread =>
      cases h
      exact (within_of_readToken hread).mono htext.isInfix
    · next token rest hread =>
      split at h
      · next happly =>
        cases h
        exact within_of_apply htext hlast happly
      · next next happly =>
        have hrest := readToken_suffix hread
        refine ih rest hrest ((hrest.trans (List.suffix_cons c tail)).trans htext)
          (fun last hmem => ?_) h
        exact lastRepeat_of_apply happly hmem ▸ htext

end Parse

/-- Every error of a pattern shows a part of it. -/
theorem within_of_parsePattern {pattern : String} {flags : Flags} {limit : Nat} {e : Error}
    (h : parsePattern pattern flags limit = .error e) : e.Within pattern.toList := by
  unfold parsePattern parseWith at h
  dsimp only at h
  split at h
  · cases h
  · split at h
    · next hrun =>
      cases h
      exact Parse.within_of_run List.suffix_rfl
        (fun last hmem => by cases hmem) hrun
    · split at h
      · cases h
      · cases h
        exact within_toEnd List.infix_rfl _

end RegexTree
