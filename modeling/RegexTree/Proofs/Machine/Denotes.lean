/-
  Classes on the stack.

  Whatever is on the stack, the machine reads a bracket, or an escape for a class outside of
  brackets, and leaves an atom at the top that matches just the runes that are written
  (`classes_denote`).  The runes are told without the reader: item by item, closed under folding
  where letters stand for all of their case, and complemented if the bracket says so
  (`Bracket.Denotes`).

  The atom is the class itself, or a literal that stands for it; that may be a new entry, or the
  entry that was at the top, once its runes are joined to those below it.  The last is a matter of
  how the stack is kept: before a literal is pushed the two on the top are joined, and the upper one
  is used again for the new rune.  Nothing is assumed of the stack, not even that it is one that a
  run comes to, so the three ways are followed for any two entries (`maybeConcat_some`,
  `pushClass_isAtomOf`).

  A bracket is read as such unless reading comes to an escape in it that has too many digits; the
  escapes for classes have no digits.  Where letters stand for all of their case the runes of the
  atom are closed under folding, which is a part of what is said of it (`MatchesBracket`).
-/
import RegexTree.Proofs.Machine.Step
import RegexTree.Proofs.Match.Atoms
import RegexTree.Proofs.Syntax.Denotes

namespace RegexTree

/-- The tree is an atom that matches just the runes that a bracket denotes.  Where letters stand for
    all of their case, these are whole orbits. -/
structure Tree.MatchesBracket (flags : Flags) (b : Bracket) (t : Tree) : Prop where
  denotes : t.IsAtomOf (b.Denotes flags)
  closed : flags.foldCase = true →
    ∀ test, t.atomTest? = some test → ∀ c, test (Unicode.simpleFold c) = test c

/-- An atom that matches the runes in the list of a bracket matches what the bracket denotes. -/
theorem Tree.IsAtomOf.matchesBracket {flags : Flags} {b : Bracket} {t : Tree}
    (hvalid : ∀ item ∈ b.items, item.Valid) (h : t.IsAtomOf ((b.ranges flags).has · = true)) :
    t.MatchesBracket flags b := by
  have hdenotes := h.congr (b.has_ranges hvalid flags)
  refine ⟨hdenotes, fun hfold test htest c => ?_⟩
  obtain ⟨test', htest', hiff⟩ := hdenotes
  obtain rfl : test' = test := Option.some.inj (htest'.symm.trans htest)
  rw [Bool.eq_iff_iff, hiff, hiff, b.denotes_simpleFold hfold]

namespace Machine

open Cursor RegexTree.Tree
open Ranges (runes)

/-! ## Pushing on any stack -/

/-- The stack with the two entries at the top joined, if both are literals that fold alike. -/
def joinedTop : List Tree → List Tree
  | top :: below :: rest =>
    if canJoin below top then joined below top :: rest else top :: below :: rest
  | stack => stack

/-- The two entries at the top are joined if they can be. -/
theorem maybeConcat_none (stack : List Tree) :
    Parser.maybeConcat none stack = .ok (false, joinedTop stack) := by
  rcases stack with _ | ⟨top, _ | ⟨below, rest⟩⟩
  · rfl
  · rfl
  · cases hcan : canJoin below top with
    | true => rw [maybeConcat_join hcan, joinedTop, if_pos hcan]
    | false =>
      rw [maybeConcat_apart (by simp [hcan]), joinedTop, if_neg (by simp [hcan])]

/-- With a rune to come next, the top two entries are joined and a literal is left to hold the rune,
    or there was nothing to join. -/
theorem maybeConcat_some (r : Nat) (flags : Flags) (stack : List Tree) :
    (∃ top : Tree, top.op = .literal ∧
      Parser.maybeConcat (some (r, flags)) stack =
        .ok (true, top.relabel (fun l => { l with runes := [r], flags }) :: joinedTop stack)) ∨
      Parser.maybeConcat (some (r, flags)) stack = .ok (false, joinedTop stack) := by
  rcases stack with _ | ⟨top, _ | ⟨below, rest⟩⟩
  · exact Or.inr rfl
  · exact Or.inr rfl
  · cases hcan : canJoin below top with
    | true =>
      refine Or.inl ⟨top, (canJoin_iff.mp hcan).2.1, ?_⟩
      rw [maybeConcat_next hcan, joinedTop, if_pos hcan]
    | false =>
      refine Or.inr ?_
      rw [maybeConcat_apart (by simp [hcan]), joinedTop, if_neg (by simp [hcan])]

/-- On any stack, pushing a class leaves an atom at the top that matches its runes. -/
theorem pushClass_isAtomOf (p : Parser) {x : Ranges} (hx : x.Valid) :
    ∃ atom : Tree, p.pushClass (runes x) = .ok { p with stack := atom :: joinedTop p.stack } ∧
      atom.IsAtomOf (x.has · = true) := by
  have hpiece := classPiece_isAtomOf p.flags x
  have hliteral : Parser.classLiteral? p.flags
      (.node { op := .charClass, flags := p.flags, runes := runes x } []) =
        .ok (standIn? p.flags x) :=
    classLiteral?_runes (t := charClass x p.flags) rfl rfl hx p.flags
  rw [classPiece_eq] at hpiece
  rw [Parser.pushClass, Parser.push]
  dsimp only
  rw [hliteral, ok_bind]
  cases hstand : standIn? p.flags x with
  | none =>
    rw [hstand] at hpiece
    refine ⟨charClass x p.flags, ?_, hpiece⟩
    dsimp only
    rw [maybeConcat_none]
    rfl
  | some stand =>
    obtain ⟨r, flags⟩ := stand
    rw [hstand] at hpiece
    have hpiece : (literal [r] flags).IsAtomOf (x.has · = true) := hpiece
    dsimp only
    rcases maybeConcat_some r flags p.stack with ⟨⟨l, subs⟩, hop, hmerged⟩ | hapart
    · -- the entry at the top is a literal already, and holds the rune from now on
      refine ⟨.node { l with runes := [r], flags } subs, ?_, ?_⟩
      · rw [hmerged]
        rfl
      · exact hpiece.of_label ⟨hop.symm, rfl, rfl⟩
    · refine ⟨literal [r] flags, ?_, hpiece⟩
      rw [hapart, ok_bind, if_neg Bool.false_ne_true, relabel, take_one_of_standIn? hstand]
      rfl

/-! ## Brackets and escapes -/

/-- What is left of reading a bracket: the cursor stands after its text, and at the top of the stack
    is an atom for it.  Of the entries below, the newest two are joined if they were to be. -/
def Parser.PushesBracket (p : Parser) (text : List Char) (a : Parser × Cursor)
    (b : Bracket × List Char) : Prop :=
  a.2 = place text b.2 ∧
    ∃ atom : Tree, a.1 = { p with stack := atom :: joinedTop p.stack } ∧
      atom.MatchesBracket p.flags b.1

/-- The runes of a bracket are pushed. -/
theorem pushesBracket (p : Parser) {text rest : List Char} {b : Bracket}
    (hvalid : ∀ item ∈ b.items, item.Valid) :
    Agree (p.PushesBracket text)
      (do return (← p.pushClass (runes (b.ranges p.flags)), place text rest)) (.ok (b, rest)) := by
  obtain ⟨atom, hpush, hatom⟩ := pushClass_isAtomOf p (b.ranges_clean p.flags hvalid).valid
  rw [hpush]
  exact .ok ⟨rfl, atom, rfl, hatom.matchesBracket hvalid⟩

/-- A bracket is read and its runes are pushed. -/
theorem piece_bracket (p : Parser) {text tail : List Char} (htail : '[' :: tail <:+ text) :
    AgreeUnless (OverlongBracket p.flags tail) (p.PushesBracket text)
      (p.piece (place text ('[' :: tail)) '[') (readBracket p.flags tail) := by
  have hpiece : p.piece (place text ('[' :: tail)) '[' =
      readClass p.flags (place text ('[' :: tail)) >>= fun found => do
        return (← p.pushClass found.1, found.2) := rfl
  rw [hpiece]
  refine (readClass_place p.flags htail).bind_ok ?_
  rintro ⟨list, c⟩ ⟨b, rest⟩ - hread ⟨rfl, rfl⟩
  exact (pushesBracket p (readBracket_valid hread)).of_ok

/-- The letter of an escape for a class means nothing else in Perl syntax. -/
theorem letter_of_readGroupEscape? {flags : Flags} {tail : List Char}
    {result : Except Error (BracketItem × List Char)}
    (h : readGroupEscape? flags ('\\' :: tail) = some result) :
    ∃ c rest, tail = c :: rest ∧ c ≠ 'C' ∧ c ≠ 'Q' ∧ assertion? c = none := by
  unfold readGroupEscape? at h
  split at h
  · next c rest htail =>
    obtain rfl : tail = c :: rest := (List.cons.inj htail).2
    refine ⟨c, rest, rfl, ?_⟩
    split at h
    · next hproperty =>
      simp only [Bool.and_eq_true, Bool.or_eq_true, beq_iff_eq] at hproperty
      rcases hproperty.2 with rfl | rfl
      all_goals decide
    · split at h
      · obtain ⟨group, hgroup, -⟩ := Option.map_eq_some_iff.mp h
        unfold Unicode.perlGroup? at hgroup
        split at hgroup
        all_goals first | decide | cases hgroup
      · cases h
  · cases h

/-- An escape for a class is no other escape. -/
theorem perlEscape?_group (p : Parser) {text tail : List Char}
    {result : Except Error (BracketItem × List Char)}
    (h : readGroupEscape? p.flags ('\\' :: tail) = some result) :
    p.perlEscape? (place text ('\\' :: tail)) = .ok none := by
  obtain ⟨c, rest, rfl, hC, hQ, hassertion⟩ := letter_of_readGroupEscape? h
  have hbeyond : beyond 1 ('\\' :: c :: rest) = .ok (c :: rest) := beyond_append ['\\'] _
  rw [Parser.perlEscape?, rest_place, hbeyond, ok_bind]
  dsimp only [List.head?_cons]
  rw [if_neg hC, if_neg hQ, hassertion]
  rfl

/-- Outside of brackets it is pushed like a bracket with that one item. -/
theorem piece_groupEscape (p : Parser) {text tail : List Char} (htail : '\\' :: tail <:+ text)
    {result : Except Error (BracketItem × List Char)}
    (hgroup : readGroupEscape? p.flags ('\\' :: tail) = some result) :
    Agree (p.PushesBracket text) (p.piece (place text ('\\' :: tail)) '\\')
      (result.map fun found => ({ items := [found.1] }, found.2)) := by
  have hperl : (if p.flags.perlX then p.perlEscape? (place text ('\\' :: tail))
      else return none) = .ok none := by
    split
    · exact perlEscape?_group p hgroup
    · rfl
  show Agree _ (p.backslash (place text ('\\' :: tail))) _
  rw [Parser.backslash, hperl, ok_bind]
  dsimp only
  cases result with
  | error e =>
    rw [Parser.plainEscape, groupEscape?_place htail, hgroup]
    exact .error e
  | ok found =>
    obtain ⟨item, rest⟩ := found
    rw [plainEscape_group htail hgroup]
    exact pushesBracket p (List.forall_mem_singleton.mpr (readGroupEscape?_valid hgroup))

/-- In every state, and whatever is on the stack, a bracket or an escape for a class is read to an
    atom that matches just the runes that are written, unless reading comes to an escape in the
    bracket with more digits than can be counted. -/
theorem classes_denote :
    (∀ (p : Parser) (text tail : List Char), '[' :: tail <:+ text →
      AgreeUnless (OverlongBracket p.flags tail) (p.PushesBracket text)
        (p.piece (place text ('[' :: tail)) '[') (readBracket p.flags tail)) ∧
    (∀ (p : Parser) (text tail : List Char) (result : Except Error (BracketItem × List Char)),
      '\\' :: tail <:+ text → readGroupEscape? p.flags ('\\' :: tail) = some result →
        Agree (p.PushesBracket text) (p.piece (place text ('\\' :: tail)) '\\')
          (result.map fun found => ({ items := [found.1] }, found.2))) ∧
    (∀ (setting : Parse.Setting) (s : Parse.State) (c : Char) (tail rest : List Char) (b : Bracket),
      setting.assembly = .normal → readToken s.flags c tail = .ok (.bracket b, rest) →
        ∃ atom : Tree, s.effect setting (c :: tail) rest (.bracket b) = .ok (s.push atom) ∧
          atom.MatchesBracket s.flags b) := by
  refine ⟨fun p text tail => piece_bracket p,
    fun p text tail result htail hgroup => piece_groupEscape p htail hgroup, ?_⟩
  intro setting s c tail rest b hnormal hread
  have hvalid : ∀ item ∈ b.items, item.Valid := readToken_valid hread
  refine ⟨Assembly.classPiece s.flags (b.ranges s.flags), ?_, ?_⟩
  · rw [Parse.State.effect, hnormal]
    rfl
  · exact (classPiece_isAtomOf s.flags (b.ranges s.flags)).matchesBracket hvalid

/-- The two literals on the stack are joined before the atom for the bracket is at the top. -/
theorem classes_denote_joined :
    let flags : Flags := { Flags.perl with foldCase := true }
    let p : Parser := ⟨flags, 10, [literal [0x43] flags, literal [0x41] flags], 0, [], 0⟩
    let b : Bracket := { items := [.range ⟨0x62, 0x62⟩] }
    let digits : Bracket := { items := [.group true Unicode.digits] }
    (∃ q, p.piece (place ['[', 'b', ']'] ['[', 'b', ']']) '[' = .ok q ∧
      p.PushesBracket ['[', 'b', ']'] q (b, []) ∧
      q.1.stack.tail = [literal [0x41, 0x43] flags]) ∧
    (∃ q, p.piece (place ['\\', 'D'] ['\\', 'D']) '\\' = .ok q ∧
      p.PushesBracket ['\\', 'D'] q (digits, [])) ∧
    ∃ atom : Tree, Parse.State.effect ⟨.normal, 10, ['[', 'b', ']']⟩ { flags } ['[', 'b', ']'] []
      (.bracket b) = .ok (Parse.State.push { flags } atom) ∧ atom.MatchesBracket flags b := by
  intro flags p b digits
  obtain ⟨hbracket, hescape, hstate⟩ := classes_denote
  have hread : readBracket p.flags ['b', ']'] = .ok (b, []) := by decide +kernel
  have htoken : readToken flags '[' ['b', ']'] = .ok (.bracket b, []) := by
    rw [readToken, if_neg (by decide), if_neg (by decide), if_neg (by decide), if_pos rfl]
    rw [show flags = p.flags from rfl, hread]
  have hgroup : readGroupEscape? p.flags ['\\', 'D'] =
      some (.ok (.group true Unicode.digits, [])) := rfl
  have hb := (hbracket p ['[', 'b', ']'] ['b', ']'] List.suffix_rfl).agree fun hlong =>
    absurd hlong.hasOverlong.lt_length (by decide)
  rw [hread] at hb
  obtain ⟨q, hq, hpushed⟩ := hb.of_ok
  obtain ⟨q', hq', hpushed'⟩ := (hescape p _ ['D'] _ List.suffix_rfl hgroup).of_ok
  refine ⟨⟨q, hq, hpushed, ?_⟩, ⟨q', hq', hpushed'⟩, ?_⟩
  · obtain ⟨-, atom, hstack, -⟩ := hpushed
    rw [hstack]
    rfl
  · exact hstate ⟨.normal, 10, ['[', 'b', ']']⟩ { flags } '[' ['b', ']'] [] b rfl htoken

end Machine

end RegexTree
