/-
  Texts that are to be read as they stand.

  There are two ways to write a pattern for just one text: as a literal pattern, and as a usual one
  where every character of ASCII punctuation is escaped (`quote`).  Either way the pattern can be
  read, whatever the other flags and the limit on nesting are, and is one literal.  But where
  letters stand for all of their case, only the reader of usual patterns writes each as the smallest
  rune of its orbit (`writtenRunes`); a literal pattern keeps the letters of the text.

  A quoted text is read character by character, each as one piece for its rune, because an escaped
  sign of punctuation is itself and the other characters have no meaning of their own
  (`reads_quoted`).  At the end the pieces are letters in sequence, which are joined to one literal.

  The runes of an orbit match the same, so both literals match the same, and their trees are equal
  just if all letters of the text are the smallest of their orbits already
  (`parsePattern_literal_equal_iff`).  For the small letter k they are not
  (`parsePattern_literal_keeps_small`).
-/
import RegexTree.Proofs.Match.Atoms
import RegexTree.Proofs.Print.Leaves

namespace RegexTree

/-! ## Quoting -/

/-- A character of ASCII that can be seen and is neither a letter nor a digit. -/
def isAsciiPunctuation (c : Char) : Bool := 0x21 ≤ c.toNat && c.toNat ≤ 0x7e && !c.isAlphanum

/-- A character, with a backslash in front if it is punctuation. -/
def quotedChar (c : Char) : List Char := if isAsciiPunctuation c then ['\\', c] else [c]

/-- A text with a backslash in front of all punctuation. -/
def quote (text : String) : String := String.ofList (text.toList.flatMap quotedChar)

example : quote "a+b_1 (é)" = "a\\+b\\_1 \\(é\\)" := by decide

/-- After a backslash all punctuation is itself. -/
theorem isPunctuation_of_isAsciiPunctuation {c : Char} (h : isAsciiPunctuation c = true) :
    isPunctuation c = true := by
  simp only [isAsciiPunctuation, Bool.and_eq_true, decide_eq_true_eq, Bool.not_eq_true'] at h
  obtain ⟨⟨-, hle⟩, halnum⟩ := h
  have hlt : c.toNat < 128 := by omega
  simp only [isPunctuation, hlt, halnum, decide_true, Bool.not_false, Bool.and_true]

/-- A character that needs no backslash has no meaning of its own. -/
theorem plain_of_not_punctuation {c : Char} (h : isAsciiPunctuation c = false) :
    c ∉ Print.metaChars := by
  have hall : Print.metaChars.all isAsciiPunctuation = true := by decide
  intro hmeta
  rw [List.all_eq_true.mp hall c hmeta] at h
  cases h

/-- Quoted text does not begin with a question mark. -/
theorem head?_quoted (text : List Char) : (text.flatMap quotedChar).head? ≠ some '?' := by
  cases text with
  | nil => simp
  | cons c rest =>
    rw [List.flatMap_cons, quotedChar]
    split
    · simp
    · next h =>
      intro he
      have hc : c = '?' := Option.some.inj he
      exact h (by rw [hc]; decide)

namespace Parse

open RegexTree.Tree

variable (setting : Setting)

/-- A quoted character is read as the rune. -/
theorem reads_quotedChar (s : State) (c : Char) :
    Reads setting true s (quotedChar c)
      (s.extended [State.literalPiece s.flags c.toNat] []) := by
  have heffect : ∀ before start rest,
      (s.mark before).effect setting start rest (.text [c.toNat]) =
        .ok ((s.extended [State.literalPiece s.flags c.toNat] []).mark before) := by
    intro before start rest
    rw [State.extended_singleton]
    rfl
  rw [quotedChar]
  split
  · next h =>
    have hescape := escapeOf_punctuation (isPunctuation_of_isAsciiPunctuation h)
    exact reads_token [c] (readToken_escapeOf hescape s.flags) (fun q h => nomatch h) heffect
  · next h =>
    have hplain := plain_of_not_punctuation (Bool.eq_false_iff.mpr h)
    exact reads_token [] (readToken_plain hplain s.flags) (fun q h => nomatch h) heffect

/-- A quoted text is read rune by rune. -/
theorem reads_quoted (s : State) (text : List Char) :
    Reads setting false s (text.flatMap quotedChar)
      (s.extended (text.map fun c => State.literalPiece s.flags c.toNat) []) := by
  induction text generalizing s with
  | nil =>
    rw [List.map_nil, State.extended_nil]
    exact reads_nil s
  | cons c rest ih =>
    have hfirst := reads_quotedChar setting s c
    have hrest := ih (s.extended [State.literalPiece s.flags c.toNat] [])
    rw [State.extended_extended] at hrest
    exact hfirst.append hrest (head?_quoted rest)

end Parse

open RegexTree.Tree

/-! ## What is read -/

/-- The runes of a text as the reader of usual patterns writes them. -/
def writtenRunes (flags : Flags) (text : List Char) : List Nat :=
  text.map fun c => if flags.foldCase then Unicode.minFold c.toNat else c.toNat

/-- A literal pattern is the literal of its runes. -/
theorem parsePattern_literal (text : String) (flags : Flags) (nestLimit : Nat) :
    parsePattern text { flags with literal := true } nestLimit =
      .ok ⟨literal (runesOf text.toList) { flags with literal := true }, 0, []⟩ := rfl

/-- A quoted text is the literal of its runes, each written as the one that stands for its orbit if
    letters stand for all of their case. -/
theorem parsePattern_quote {text : String} (hne : text ≠ "") {flags : Flags}
    (hlit : flags.literal = false) (nestLimit : Nat) :
    parsePattern (quote text) flags nestLimit =
      .ok ⟨literal (writtenRunes flags text.toList) flags, 0, []⟩ := by
  have hruns : writtenRunes flags text.toList ≠ [] := by
    intro hnil
    exact hne (String.toList_eq_nil_iff.mp (List.map_eq_nil_iff.mp hnil))
  have hpieces : (text.toList.map fun c => Parse.State.literalPiece flags c.toNat) =
      (writtenRunes flags text.toList).map fun r => literal [r] flags := by
    rw [writtenRunes, List.map_map]
    rfl
  have hread := Parse.reads_quoted ⟨.normal, nestLimit, (quote text).toList⟩ { flags } text.toList
  obtain ⟨last, -, hrun⟩ := hread none [] (Or.inr (by simp))
  have htext : text.toList.flatMap quotedChar = (quote text).toList := String.toList_ofList.symm
  rw [List.append_nil, htext, hpieces] at hrun
  have hbranch : Assembly.normal.branch
      ((writtenRunes flags text.toList).map fun r => literal [r] flags) =
        literal (writtenRunes flags text.toList) flags := by
    show Assembly.asDot (sequence _) = _
    rw [sequence_letters flags hruns]
    exact asDot_of_not fun hdot => nomatch hdot.1
  have hfinish := (Parse.finish_pieces Assembly.joins_normal _).trans hbranch
  rw [parsePattern_of_run hlit (hrun.trans (by rw [Parse.State.run])) rfl, ← hfinish,
    ← List.append_nil (List.reverse _)]
  rfl

/-! ## The two ways compared -/

/-- The letters of a text and the least ones of their orbits match the same, where letters stand for
    all of their case. -/
theorem results_writtenRunes (flags : Flags) (text : List Char) :
    (literal (writtenRunes flags text) flags).results =
      (literal (runesOf text) flags).results := by
  have hone : ∀ r, readsAs flags.foldCase (if flags.foldCase then Unicode.minFold r else r) =
      readsAs flags.foldCase r := by
    intro r
    funext c
    cases flags.foldCase with
    | false => rfl
    | true => exact readsAs_minFold r c
  rw [results_literal, results_literal, writtenRunes, runesOf, List.map_map, List.map_map]
  refine congrArg Matcher.inOrder (List.map_congr_left fun c _ => ?_)
  exact congrArg Matcher.oneRune (hone c.toNat)

/-- The two are the same just if the text is written so already. -/
theorem runesOf_eq_writtenRunes_iff (flags : Flags) (text : List Char) :
    runesOf text = writtenRunes flags text ↔
      (flags.foldCase = true → ∀ c ∈ text, Unicode.minFold c.toNat = c.toNat) := by
  rw [runesOf, writtenRunes, List.map_inj_left]
  cases flags.foldCase with
  | false => simp
  | true =>
    constructor
    · exact fun h _ c hc => (h c hc).symm
    · exact fun h c hc => (h rfl c hc).symm

/-- For every text, the literal pattern and the quoted text can both be read, and the trees match
    the same.  The trees are equal just if, where letters stand for all of their case, the text
    consists of runes that are the smallest of their orbits. -/
theorem parsePattern_literal_equal_iff {text : String} (hne : text ≠ "") {flags : Flags}
    (hlit : flags.literal = false) (nestLimit : Nat) :
    ∃ p q, parsePattern text { flags with literal := true } nestLimit = .ok p ∧
      parsePattern (quote text) { flags with perlX := true } nestLimit = .ok q ∧
      p.root.results = q.root.results ∧
      (p.root.equal q.root = true ↔
        (flags.foldCase = true → ∀ c ∈ text.toList, Unicode.minFold c.toNat = c.toNat)) := by
  -- the other flags make no difference to how a quoted text is read
  have hquote := parsePattern_quote hne (show { flags with perlX := true }.literal = false from hlit)
    nestLimit
  refine ⟨_, _, parsePattern_literal text flags nestLimit, hquote, ?_, ?_⟩
  · have hresults := results_writtenRunes { flags with perlX := true } text.toList
    rw [hresults, results_literal, results_literal]
  · show (literal _ _).equal (literal _ _) = true ↔ _
    rw [equal_literal_iff, runesOf_eq_writtenRunes_iff]
    exact and_iff_right rfl

theorem parsePattern_literal_equal_capitals : "A-1" ≠ "" ∧
    Flags.literal { foldCase := true } = false ∧
    quote "A-1" = "A\\-1" ∧
    ∃ p q, parsePattern "A-1" { foldCase := true, literal := true } 0 = .ok p ∧
      parsePattern "A\\-1" { foldCase := true, perlX := true } 0 = .ok q ∧
      p.root.equal q.root = true := by
  have hne : "A-1" ≠ "" := by decide
  have hquote : quote "A-1" = "A\\-1" := by decide
  obtain ⟨p, q, hp, hq, -, hequal⟩ :=
    parsePattern_literal_equal_iff hne (show Flags.literal { foldCase := true } = false from rfl) 0
  rw [hquote] at hq
  refine ⟨hne, rfl, hquote, p, q, hp, hq, hequal.mpr fun _ => ?_⟩
  rw [show "A-1".toList = ['A', '-', '1'] from rfl]
  simp only [List.forall_mem_cons]
  refine ⟨by decide, by decide, by decide, fun c hc => ?_⟩
  cases hc

/-- A small letter of a literal pattern stays, where the reader of usual patterns writes the
    capital. -/
theorem parsePattern_literal_keeps_small : quote "k" = "k" ∧
    ∃ p q, parsePattern "k" { foldCase := true, literal := true } 1000 = .ok p ∧
      parsePattern (quote "k") { foldCase := true, perlX := true } 1000 = .ok q ∧
      p.root.print = "(?i:k)" ∧ q.root.print = "(?i:K)" ∧ p.root.equal q.root = false := by
  have hq := parsePattern_quote (show "k" ≠ "" by decide)
    (show Flags.literal { foldCase := true, perlX := true } = false from rfl) 1000
  refine ⟨by decide, _, _, rfl, hq, ?_, ?_, ?_⟩
  all_goals decide +kernel

end RegexTree
