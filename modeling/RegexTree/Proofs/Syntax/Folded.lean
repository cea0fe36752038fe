/-
  Reading texts that differ in letter case only.

  Two texts are alike if their characters are one by one of the same orbit (`SameLetter`).  They
  have as many characters, but perhaps not as many bytes.  What the reader looks at to tell tokens
  apart are signs (`isSign`), and each sign is alone in its orbit; so of texts that are alike the
  same tokens are read, but for the runes of a literal (`readToken_alike`), and the texts that are
  left are alike again.

  Escapes, brackets and groups with a question mark are left out (`LettersOnly`), because in those
  letters are signs, too: `\d` and `\D` are two groups.

  Errors show a part of the text, so they are compared by their code alone (`SameCode`).  Most
  readers are given by `bind` from smaller ones, and `SameCode.bind` carries the likeness through;
  the readers of counts give a number and the text that is left, which is `FoundAlike`.
-/
import RegexTree.Proofs.Syntax.Signs
import RegexTree.Proofs.Unicode.Orbits
import Mathlib.Data.List.Forall2
import Mathlib.Data.List.Infix

namespace RegexTree

open List (Forall₂)

/-- Both fail with errors of the same code, or both give values that are related. -/
def SameCode {α β : Type} (P : α → β → Prop) : Except Error α → Except Error β → Prop
  | .error e, .error f => e.code = f.code
  | .ok a, .ok b => P a b
  | _, _ => False

/-- Both fail with one code, or both give results that are alike. -/
theorem SameCode.cases {α β : Type} {P : α → β → Prop} {r : Except Error α} {r' : Except Error β}
    (h : SameCode P r r') :
    (∃ e f, r = .error e ∧ r' = .error f ∧ e.code = f.code) ∨
      ∃ a b, r = .ok a ∧ r' = .ok b ∧ P a b := by
  cases r with
  | error e =>
    cases r' with
    | error f => exact Or.inl ⟨e, f, rfl, rfl, h⟩
    | ok b => cases h
  | ok a =>
    cases r' with
    | error f => cases h
    | ok b => exact Or.inr ⟨a, b, rfl, rfl, h⟩

/-- What is done next with values that are related keeps the codes the same. -/
theorem SameCode.bind {α β γ δ : Type} {P : α → β → Prop} {Q : γ → δ → Prop}
    {r : Except Error α} {r' : Except Error β} {f : α → Except Error γ} {g : β → Except Error δ}
    (h : SameCode P r r')
    (hnext : ∀ a b, r = .ok a → r' = .ok b → P a b → SameCode Q (f a) (g b)) :
    SameCode Q (r.bind f) (r'.bind g) := by
  rcases h.cases with ⟨e, e', rfl, rfl, hcode⟩ | ⟨a, b, rfl, rfl, hab⟩
  · exact hcode
  · exact hnext a b rfl rfl hab

/-! ## Signs -/

/-- What is no letter, as far as the reader tells tokens apart by it. -/
def isSign (c : Char) : Bool :=
  decide (c.toNat < Unicode.firstFold) || ['[', '\\', '^', '{', '|', '}'].contains c

/-- Characters of the same orbit. -/
def SameLetter (c d : Char) : Prop := Unicode.SameOrbit c.toNat d.toNat

/-- A sign folds to itself. -/
theorem simpleFold_of_isSign {c : Char} (h : isSign c = true) :
    Unicode.simpleFold c.toNat = c.toNat := by
  rw [isSign, Bool.or_eq_true, decide_eq_true_eq, List.contains_iff_mem] at h
  rcases h with h | h
  · have hspan : Unicode.inFoldSpan c.toNat = false := by
      rw [Unicode.inFoldSpan, decide_eq_false (Nat.not_le_of_lt h)]
      rfl
    rw [Unicode.simpleFold, hspan, if_neg Bool.false_ne_true]
  · have hall : (['[', '\\', '^', '{', '|', '}'].all fun c =>
        (Unicode.simpleFold c.toNat).beq c.toNat) = true := by
      decide +kernel
    exact Nat.eq_of_beq_eq_true (List.all_eq_true.mp hall c h)

/-- A sign is alike to itself only. -/
theorem SameLetter.eq_of_sign {c d : Char} (h : SameLetter c d)
    (hsign : isSign c = true ∨ isSign d = true) : c = d := by
  refine Char.toNat_inj.mp (Unicode.SameOrbit.eq_of_fixed h ?_)
  rcases hsign with hc | hd
  · exact Or.inl (simpleFold_of_isSign hc)
  · exact Or.inr (simpleFold_of_isSign hd)

/-- If one of two characters that are alike is a sign, the other is that sign. -/
theorem SameLetter.eq_iff {c d sign : Char} (h : SameLetter c d) (hsign : isSign sign = true) :
    c = sign ↔ d = sign := by
  constructor
  · rintro rfl
    exact (h.eq_of_sign (Or.inl hsign)).symm
  · rintro rfl
    exact h.eq_of_sign (Or.inr hsign)

section

variable {xs ys : List Char} (h : Forall₂ SameLetter xs ys)

include h

/-- Texts that are alike begin with a sign together. -/
theorem head?_alike {sign : Char} (hsign : isSign sign = true) :
    xs.head? = some sign ↔ ys.head? = some sign := by
  cases h with
  | nil => exact Iff.rfl
  | cons hcd _ =>
    rw [List.head?_cons, List.head?_cons, Option.some.injEq, Option.some.injEq]
    exact hcd.eq_iff hsign

theorem tail_alike : Forall₂ SameLetter xs.tail ys.tail := by
  cases h with
  | nil => exact Forall₂.nil
  | cons _ htail => exact htail

/-- A beginning that is made of signs is the same, and what follows it is alike. -/
theorem takeWhile_alike {p : Char → Bool} (hp : ∀ c, p c = true → isSign c = true) :
    xs.takeWhile p = ys.takeWhile p ∧ Forall₂ SameLetter (xs.dropWhile p) (ys.dropWhile p) := by
  induction h with
  | nil => exact ⟨rfl, Forall₂.nil⟩
  | @cons c d xs ys hcd htail ih =>
    by_cases hc : p c = true
    · obtain rfl := hcd.eq_of_sign (Or.inl (hp c hc))
      rw [List.takeWhile_cons_of_pos hc, List.takeWhile_cons_of_pos hc,
        List.dropWhile_cons_of_pos hc, List.dropWhile_cons_of_pos hc, ih.1]
      exact ⟨rfl, ih.2⟩
    · have hd : ¬p d = true := by
        intro hd
        obtain rfl := hcd.eq_of_sign (Or.inr (hp d hd))
        exact hc hd
      rw [List.takeWhile_cons_of_neg hc, List.takeWhile_cons_of_neg hd,
        List.dropWhile_cons_of_neg hc, List.dropWhile_cons_of_neg hd]
      exact ⟨rfl, Forall₂.cons hcd htail⟩

end

/-! ## Counts -/

/-- What is found in both texts is the same, and what follows it is alike. -/
def FoundAlike {α : Type} : Option (α × List Char) → Option (α × List Char) → Prop
  | none, none => True
  | some (a, rest), some (b, rest') => a = b ∧ Forall₂ SameLetter rest rest'
  | _, _ => False

/-- Nothing is found on both sides, or the same with texts that are alike after it. -/
theorem FoundAlike.none_or_some {α : Type} {x y : Option (α × List Char)} (h : FoundAlike x y) :
    (x = none ∧ y = none) ∨ ∃ a rest rest', x = some (a, rest) ∧ y = some (a, rest') ∧
      Forall₂ SameLetter rest rest' := by
  match x, y, h with
  | none, none, _ => exact Or.inl ⟨rfl, rfl⟩
  | some (a, rest), some (_, rest'), ⟨rfl, hrest⟩ =>
    exact Or.inr ⟨a, rest, rest', rfl, rfl, hrest⟩

/-- A closing brace ends what was found, in both texts or in neither. -/
theorem closed_alike {α : Type} (a : α) {xs ys : List Char} (h : Forall₂ SameLetter xs ys) :
    FoundAlike (if xs.head? = some '}' then some (a, xs.tail) else none)
      (if ys.head? = some '}' then some (a, ys.tail) else none) := by
  have hiff : xs.head? = some '}' ↔ ys.head? = some '}' := head?_alike h (by decide)
  by_cases hclose : xs.head? = some '}'
  · rw [if_pos hclose, if_pos (hiff.mp hclose)]
    exact ⟨rfl, tail_alike h⟩
  · rw [if_neg hclose, if_neg (mt hiff.mpr hclose)]
    trivial

theorem isSign_of_isDecimal {c : Char} (h : Numeral.isDecimal c = true) : isSign c = true := by
  rw [Numeral.isDecimal, Bool.and_eq_true, decide_eq_true_eq, decide_eq_true_eq] at h
  have hle : c.toNat ≤ '9'.toNat := h.2
  rw [isSign, decide_eq_true (Nat.lt_of_le_of_lt hle (by decide)), Bool.true_or]

/-- Numbers are read alike. -/
theorem readNumeral?_alike {xs ys : List Char} (h : Forall₂ SameLetter xs ys) :
    FoundAlike (readNumeral? xs) (readNumeral? ys) := by
  obtain ⟨htake, hdrop⟩ := takeWhile_alike h fun _ => isSign_of_isDecimal
  rw [readNumeral?, readNumeral?, htake]
  cases ys.takeWhile Numeral.isDecimal with
  | nil => trivial
  | cons digit digits =>
    split
    · trivial
    · trivial
    · exact ⟨rfl, hdrop⟩

/-- A count goes on after the comma as it does in the other text. -/
theorem readCount?_alike_of_comma {xs ys more more' : List Char} {n : Nat}
    (hx : readNumeral? xs = some (n, ',' :: more)) (hy : readNumeral? ys = some (n, ',' :: more'))
    (h : Forall₂ SameLetter more more') : FoundAlike (readCount? xs) (readCount? ys) := by
  have hiff : more.head? = some '}' ↔ more'.head? = some '}' := head?_alike h (by decide)
  by_cases hend : more.head? = some '}'
  · obtain ⟨rest, rfl⟩ := List.head?_eq_some_iff.mp hend
    obtain ⟨rest', rfl⟩ := List.head?_eq_some_iff.mp (hiff.mp hend)
    rw [readCount?, readCount?, hx, hy]
    exact ⟨rfl, tail_alike h⟩
  · rw [readCount?_comma hx hend, readCount?_comma hy (mt hiff.mpr hend)]
    rcases (readNumeral?_alike h).none_or_some with ⟨hm, hm'⟩ | ⟨m, last, last', hm, hm', hlast⟩
    · rw [hm, hm']
      trivial
    · rw [hm, hm', Option.bind_some, Option.bind_some]
      exact closed_alike _ hlast

/-- Counts are written in signs. -/
theorem readCount?_alike {xs ys : List Char} (h : Forall₂ SameLetter xs ys) :
    FoundAlike (readCount? xs) (readCount? ys) := by
  rcases (readNumeral?_alike h).none_or_some with ⟨hx, hy⟩ | ⟨n, left, left', hx, hy, hleft⟩
  · rw [readCount?, readCount?, hx, hy]
    trivial
  have hiff : left.head? = some ',' ↔ left'.head? = some ',' := head?_alike hleft (by decide)
  by_cases hcomma : left.head? = some ','
  · obtain ⟨more, rfl⟩ := List.head?_eq_some_iff.mp hcomma
    obtain ⟨more', rfl⟩ := List.head?_eq_some_iff.mp (hiff.mp hcomma)
    exact readCount?_alike_of_comma hx hy (tail_alike hleft)
  · rw [readCount?_other hx hcomma, readCount?_other hy (mt hiff.mpr hcomma)]
    exact closed_alike _ hleft

/-! ## Tokens -/

/-- No letter of the text is a sign: there are no escapes, brackets and groups with a question
    mark. -/
structure LettersOnly (text : List Char) : Prop where
  unescaped : ∀ c ∈ text, c ≠ '\\' ∧ c ≠ '['
  unmarked : ¬['(', '?'] <:+: text

/-- What is left of such a text is such a text. -/
theorem LettersOnly.of_suffix {text rest : List Char} (h : LettersOnly text) (hs : rest <:+ text) :
    LettersOnly rest :=
  ⟨fun c hc => h.unescaped c (hs.subset hc), fun hmark => h.unmarked (hmark.trans hs.isInfix)⟩

/-- The tokens are the same, or literals of one rune that are of the same orbit.  None of them says
    anything about flags or names. -/
inductive TokenAlike : Token → Token → Prop
  | capture : TokenAlike (.capture none) (.capture none)
  | bar : TokenAlike .bar .bar
  | close : TokenAlike .close .close
  | simple (piece : Tree) : TokenAlike (.simple piece) (.simple piece)
  | text {r s : Nat} (h : Unicode.SameOrbit r s) : TokenAlike (.text [r]) (.text [s])
  | repetition (q : Quantifier) : TokenAlike (.repetition q) (.repetition q)

/-- What is read of both texts is alike. -/
def ReadAlike (a b : Token × List Char) : Prop :=
  TokenAlike a.1 b.1 ∧ Forall₂ SameLetter a.2 b.2

/-- A sign is turned lazy on both sides or on none. -/
theorem withTurn_alike (flags : Flags) (q : Quantifier) {xs ys : List Char}
    (h : Forall₂ SameLetter xs ys) : ReadAlike (withTurn flags q xs) (withTurn flags q ys) := by
  have hturn : (xs.head? == some '?') = (ys.head? == some '?') := by
    rw [Bool.eq_iff_iff, beq_iff_eq, beq_iff_eq]
    exact head?_alike h (by decide)
  rw [withTurn, withTurn, hturn]
  split
  · exact ⟨.repetition _, tail_alike h⟩
  · exact ⟨.repetition _, h⟩

/-- A brace is a count on both sides, or a letter. -/
theorem readBrace_alike (flags : Flags) {xs ys : List Char} (h : Forall₂ SameLetter xs ys) :
    SameCode ReadAlike (readBrace flags xs) (readBrace flags ys) := by
  rw [readBrace, readBrace]
  rcases (readCount?_alike h).none_or_some with ⟨hx, hy⟩ | ⟨count, rest, rest', hx, hy, hrest⟩
  · rw [hx, hy]
    exact ⟨.text ⟨0, rfl⟩, h⟩
  · rw [hx, hy]
    dsimp only
    split
    · rfl
    · exact withTurn_alike flags _ hrest

/-- What is no sign is a letter. -/
theorem readToken_letter {c : Char} (h : ¬isSign c = true) (flags : Flags) (text : List Char) :
    readToken flags c text = .ok (.text [c.toNat], text) := by
  have hall : ['(', '|', ')', '[', '{', '\\', '^', '$', '.', '*', '+', '?'].all isSign = true := by
    decide
  refine readToken_text (fun d hd => ?_) flags text
  rintro rfl
  exact h (List.all_eq_true.mp hall c hd)

/-- Of texts that are alike the same token is read, or letters that are alike, and texts that are
    alike are left.  By the sign that the first text begins with, which is the sign of the other; if
    it is no sign, both are letters. -/
theorem readToken_alike (flags : Flags) {c d : Char} {xs ys : List Char}
    (hletters : LettersOnly (c :: xs)) (hcd : SameLetter c d) (h : Forall₂ SameLetter xs ys) :
    SameCode ReadAlike (readToken flags c xs) (readToken flags d ys) := by
  by_cases hsign : isSign c = true
  · -- both texts begin with the same sign
    obtain rfl := hcd.eq_of_sign (Or.inl hsign)
    obtain ⟨hescape, hbracket⟩ := hletters.unescaped c List.mem_cons_self
    rw [readToken, readToken]
    by_cases hopen : c = '('
    · have hx : ¬xs.head? = some '?' := by
        intro hq
        obtain ⟨more, rfl⟩ := List.head?_eq_some_iff.mp hq
        exact hletters.unmarked ⟨[], more, by rw [hopen]; rfl⟩
      have hy : ¬ys.head? = some '?' := fun hq => hx ((head?_alike h (by decide)).mpr hq)
      rw [if_pos hopen, if_pos hopen, readOpening, readOpening, beq_eq_false_iff_ne.mpr hx,
        beq_eq_false_iff_ne.mpr hy, Bool.and_false, if_neg Bool.false_ne_true,
        if_neg Bool.false_ne_true]
      exact ⟨.capture, h⟩
    simp only [if_neg hopen, if_neg hbracket, if_neg hescape]
    split
    · exact ⟨.bar, h⟩
    split
    · exact ⟨.close, h⟩
    split
    · exact readBrace_alike flags h
    split
    · exact ⟨.simple _, h⟩
    · exact withTurn_alike flags _ h
    · exact ⟨.text ⟨0, rfl⟩, h⟩
  · -- both texts begin with a letter
    have hd : ¬isSign d = true := by
      intro hd
      obtain rfl := hcd.eq_of_sign (Or.inr hd)
      exact hsign hd
    rw [readToken_letter hsign, readToken_letter hd]
    exact ⟨.text hcd, h⟩

end RegexTree
