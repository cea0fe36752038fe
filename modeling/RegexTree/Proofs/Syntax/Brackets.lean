/-
  A printed class reads back.

  The ranges of a class are written one after the other, and none of them can be taken for the
  beginning of a group, a caret or a closing bracket (`RangeText`): the signs that mean something in
  brackets are written as escapes, and so is a hyphen.  That a text is read as a range whatever
  follows it is proved of the ends of a range, which say where they end (`RangeEnd`), and then of
  one rune alone and of two with a hyphen between them.

  So the items of the bracket are the ranges, by induction on them (`readItems_texts`), and what the
  bracket stands for is the class, whether it is written itself or as the complement of its gaps
  (`readToken_charClass`).  A class is written as a complement if it reaches from the first code
  point to the last and leaves something out; the gaps of a clean list are its complement
  (`gaps_eq_complement`), and taking the complement of that gives the class back.

  An empty class has no ranges to write.  It is written as the complement of all runes.
-/
import RegexTree.Proofs.Ranges.Clean
import RegexTree.Proofs.Syntax.Escaped

namespace RegexTree

/-! ## One range -/

/-- The text of a range within brackets: it reads as the range before anything but a hyphen. -/
structure RangeText (text : List Char) (r : Range) : Prop where
  head : ∃ c more, text = c :: more ∧ c ∉ ['-', ']', '^', '[']
  read : ∀ flags opening rest, rest.head? ≠ some '-' →
    readItem flags opening (text ++ rest) = .ok (.range r, rest)

/-- A group with a name begins with a bracket. -/
theorem readNamedGroup?_eq_none {c : Char} (h : c ≠ '[') (rest : List Char) :
    readNamedGroup? (c :: rest) = none := by
  rw [readNamedGroup?]
  intro after he
  exact absurd (List.cons.inj he).1 h

/-- What begins with the end of a range is read as a range. -/
theorem RangeEnd.readItem_eq {text : List Char} {r : Nat} (h : RangeEnd text r) (flags : Flags)
    (opening rest : List Char) :
    readItem flags opening (text ++ rest) = readRange opening (text ++ rest) := by
  have hgroup := h.noGroup flags rest
  obtain ⟨c, more, rfl, hc⟩ := h.head
  have hnamed : readNamedGroup? (c :: more ++ rest) = none :=
    readNamedGroup?_eq_none (fun he => hc (by simp [he])) (more ++ rest)
  rw [readItem, hnamed]
  dsimp only
  rw [hgroup]

/-- One rune is a range of one. -/
theorem RangeEnd.rangeText {text : List Char} {r : Nat} (h : RangeEnd text r) :
    RangeText text ⟨r, r⟩ where
  head := h.head
  read flags opening rest hrest := by
    have hstop : rangeGoesOn rest = false := by
      cases rest with
      | nil => rfl
      | cons c more =>
        rw [rangeGoesOn]
        rintro d tail he
        obtain rfl := (List.cons.inj he).1
        exact hrest rfl
    rw [h.readItem_eq, readRange, h.read]
    dsimp only
    rw [hstop, if_neg Bool.false_ne_true]

/-- Two ends with a hyphen between them are the range. -/
theorem RangeEnd.rangeText_to {text text' : List Char} {lo hi : Nat} (h : RangeEnd text lo)
    (h' : RangeEnd text' hi) (hle : lo ≤ hi) : RangeText (text ++ '-' :: text') ⟨lo, hi⟩ where
  head := by
    obtain ⟨c, more, rfl, hc⟩ := h.head
    exact ⟨c, more ++ '-' :: text', rfl, hc⟩
  read flags opening rest _ := by
    have hon : rangeGoesOn ('-' :: (text' ++ rest)) = true := by
      obtain ⟨c, more, rfl, hc⟩ := h'.head
      show (c != ']') = true
      rw [bne_iff_ne]
      rintro rfl
      exact hc (by decide)
    rw [List.append_assoc, List.cons_append, h.readItem_eq, readRange, h.read]
    dsimp only
    rw [hon, if_pos rfl, List.tail_cons, h'.read]
    dsimp only
    rw [if_neg (Nat.not_lt.mpr hle)]

/-- A printed range is its text. -/
theorem rangeText_range {r : Range} (h : r.Valid) : RangeText (Print.range r) r := by
  have hlo := rangeEnd_rangeEnd (Nat.le_trans h.1 h.2)
  rw [Print.range]
  split
  · next heq =>
    have hone : r = ⟨r.lo, r.lo⟩ := by
      cases r
      simpa using heq.symm
    have htext := hlo.rangeText
    rwa [← hone] at htext
  · exact hlo.rangeText_to (rangeEnd_rangeEnd h.2) h.1

/-! ## The ranges of a bracket -/

section Texts

variable {f : Range → List Char} {y : Ranges} (hy : ∀ r ∈ y, RangeText (f r) r)

include hy

/-- After a range comes another one or the closing bracket. -/
theorem head?_texts_ne (rest : List Char) {c : Char} (hc : c ∈ ['-', '^', '[']) :
    (y.flatMap f ++ ']' :: rest).head? ≠ some c := by
  cases y with
  | nil =>
    simp only [List.flatMap_nil, List.nil_append, List.head?_cons]
    intro he
    obtain rfl := Option.some.inj he
    exact absurd hc (by decide)
  | cons r more =>
    obtain ⟨d, tail, hd, hnot⟩ := (hy r List.mem_cons_self).head
    rw [List.flatMap_cons, hd, List.cons_append, List.cons_append, List.head?_cons]
    intro he
    obtain rfl := Option.some.inj he
    refine hnot ?_
    simp only [List.mem_cons, List.not_mem_nil, or_false] at hc ⊢
    rcases hc with rfl | rfl | rfl <;> simp

/-- The texts of ranges are read as these ranges, by induction on them; after each comes the text of
    another one or the closing bracket, and neither goes on with it. -/
theorem readItems_texts (flags : Flags) (opening rest : List Char) {first : Bool}
    (hfirst : first = true → y ≠ []) :
    readItems flags opening first (y.flatMap f ++ ']' :: rest) = .ok (y.map .range, rest) := by
  induction y generalizing first with
  | nil =>
    have hf : first = false := by
      cases first
      · rfl
      · exact absurd rfl (hfirst rfl)
    rw [readItems, hf, if_pos (by rfl)]
    rfl
  | cons r more ih =>
    obtain ⟨hr, hmore⟩ := List.forall_mem_cons.mp hy
    have hclose : ((r :: more).flatMap f ++ ']' :: rest).head? ≠ some ']' := by
      obtain ⟨d, tail, hd, hnot⟩ := hr.head
      rw [List.flatMap_cons, hd, List.cons_append, List.cons_append, List.head?_cons]
      intro he
      obtain rfl := Option.some.inj he
      exact hnot (by decide)
    have hhyphen := head?_texts_ne hy rest (c := '-') (by decide)
    have hstray : strayHyphen flags ((r :: more).flatMap f ++ ']' :: rest) = false := by
      rw [strayHyphen, beq_eq_false_iff_ne.mpr hhyphen, Bool.and_false, Bool.false_and]
    have hitem := hr.read flags opening (more.flatMap f ++ ']' :: rest)
      (head?_texts_ne hmore rest (by decide))
    rw [← List.append_assoc, ← List.flatMap_cons] at hitem
    have htail : readItems flags opening false (more.flatMap f ++ ']' :: rest) =
        .ok (more.map .range, rest) := ih hmore fun hf => absurd hf Bool.false_ne_true
    refine readItems_cons ?_ ?_ hitem htail
    · rw [beq_eq_false_iff_ne.mpr hclose, Bool.and_false]
      exact Bool.false_ne_true
    · rw [hstray, Bool.and_false]
      exact Bool.false_ne_true

/-- A bracket holds the ranges written in it. -/
theorem readBracket_texts (hne : y ≠ []) (flags : Flags) (rest : List Char) :
    readBracket flags (y.flatMap f ++ ']' :: rest) = .ok (⟨false, y.map .range⟩, rest) := by
  have hcaret : splitCaret (y.flatMap f ++ ']' :: rest) = (false, y.flatMap f ++ ']' :: rest) := by
    have hhead := head?_texts_ne hy rest (c := '^') (by decide)
    generalize y.flatMap f ++ ']' :: rest = text at hhead
    rw [splitCaret]
    rintro more rfl
    exact hhead rfl
  rw [readBracket, hcaret]
  dsimp only
  rw [readItems_texts hy flags _ rest (fun _ => hne)]

/-- A bracket that begins with a caret is negated. -/
theorem readBracket_caret (hne : y ≠ []) (flags : Flags) (rest : List Char) :
    readBracket flags ('^' :: (y.flatMap f ++ ']' :: rest)) = .ok (⟨true, y.map .range⟩, rest) := by
  rw [readBracket, splitCaret]
  dsimp only
  rw [readItems_texts hy flags _ rest (fun _ => hne)]

end Texts

/-! ## What the bracket stands for -/

open Ranges

/-- Items that are ranges are added as they are, where nothing is folded. -/
theorem foldl_addTo_ranges (y start : Ranges) :
    (y.map .range).foldl (BracketItem.addTo false) start = start.addAll y := by
  rw [List.foldl_map]
  rfl

/-- A bracket of the ranges of a class stands for the class. -/
theorem ranges_plain {flags : Flags} (hfold : flags.foldCase = false) {x : Ranges} (hx : x.Clean) :
    (⟨false, x.map .range⟩ : Bracket).ranges flags = x := by
  show clean ((x.map .range).foldl (BracketItem.addTo flags.foldCase) []) = x
  rw [hfold, foldl_addTo_ranges, hx.clean_addAll]

/-- With a caret it stands for all that is not in it. -/
theorem ranges_negated {flags : Flags} (hfold : flags.foldCase = false)
    (hnl : flags.classNL = true) {x : Ranges} (hx : x.Clean) :
    (⟨true, x.map .range⟩ : Bracket).ranges flags = x.complement := by
  show (clean ((x.map .range).foldl (BracketItem.addTo flags.foldCase)
    (if !flags.classNL then [Range.single newline] else []))).complement = x.complement
  rw [hfold, hnl, Bool.not_true, if_neg Bool.false_ne_true, foldl_addTo_ranges, hx.clean_addAll]

/-! ## Gaps -/

/-- What lies between the ranges is what they leave out, if they end with the last rune. -/
theorem gaps_eq_gapsFrom {x : Ranges} (hne : x ≠ []) (hx : x.Clean) {hi : Nat}
    (happ : ∀ r ∈ x, hi + 1 < r.lo) (hlast : x.runes.getLast? = some maxRune) :
    (ofRunes (hi :: x.runes).dropLast).map (fun r => (⟨r.lo + 1, r.hi - 1⟩ : Range)) =
      gapsFrom (hi + 1) x := by
  induction x generalizing hi with
  | nil => exact absurd rfl hne
  | cons a rest ih =>
    obtain ⟨-, hap, hrest⟩ := clean_cons.mp hx
    have hgap : hi + 1 < a.lo := happ a List.mem_cons_self
    rw [gapsFrom, if_pos hgap]
    cases rest with
    | nil =>
      have hend : a.hi = maxRune := Option.some.inj hlast
      rw [hend]
      rfl
    | cons b more =>
      rw [← ih (List.cons_ne_nil b more) hrest hap hlast]
      rfl

/-- A clean class that spans all is written as the complement of the runes that it leaves out. -/
theorem gaps_eq_complement {x : Ranges} (hx : x.Clean) (h : Print.spansAll x.runes = true) :
    Print.gaps x.runes = x.complement ∧ x.complement ≠ [] := by
  simp only [Print.spansAll, Bool.and_eq_true, beq_iff_eq, decide_eq_true_eq] at h
  obtain ⟨⟨hfirst, hlast⟩, hlen⟩ := h
  match x, hx, hfirst, hlast, hlen with
  | [], _, hfirst, _, _ => cases hfirst
  | [a], _, _, _, hlen => exact absurd hlen (by simp [runes])
  | a :: b :: rest, hx, hfirst, hlast, _ =>
    obtain ⟨-, hap, hrest⟩ := clean_cons.mp hx
    have hlo : a.lo = 0 := Option.some.inj hfirst
    have hgaps := gaps_eq_gapsFrom (List.cons_ne_nil b rest) hrest hap hlast
    have hcomplement : Ranges.complement (a :: b :: rest) = gapsFrom (a.hi + 1) (b :: rest) := by
      rw [complement, gapsFrom, hlo, if_neg (Nat.lt_irrefl 0)]
    rw [hcomplement, ← hgaps]
    exact ⟨rfl, List.cons_ne_nil _ _⟩

/-! ## Classes -/

/-- What is written after an opening bracket is read as the bracket `b`, whatever follows, and that
    stands for the class. -/
structure Spells (text : List Char) (b : Bracket) (x : Ranges) : Prop where
  read : ∀ flags rest, readBracket flags (text ++ rest) = .ok (b, rest)
  ranges : ∀ flags : Flags, flags.foldCase = false → flags.classNL = true → b.ranges flags = x

/-- A class may be written as its ranges. -/
theorem spells_texts {x : Ranges} (hx : x.Clean) (hne : x ≠ []) :
    Spells (x.flatMap Print.range ++ [']']) ⟨false, x.map .range⟩ x where
  read flags rest := by
    rw [List.append_assoc, List.singleton_append]
    exact readBracket_texts (fun r hr => rangeText_range (hx.valid r hr)) hne flags rest
  ranges _ hfold _ := ranges_plain hfold hx

/-- The complement of a class may be written as the ranges of the class after a caret. -/
theorem spells_caret {f : Range → List Char} {y : Ranges} (hf : ∀ r ∈ y, RangeText (f r) r)
    (hy : y.Clean) (hne : y ≠ []) :
    Spells ('^' :: (y.flatMap f ++ [']'])) ⟨true, y.map .range⟩ y.complement where
  read flags rest := by
    rw [List.cons_append, List.append_assoc, List.singleton_append]
    exact readBracket_caret hf hne flags rest
  ranges _ hfold hnl := ranges_negated hfold hnl hy

/-- The class of no rune is the complement of the class of all, whose ends are written by their
    codes. -/
theorem spells_nothing :
    Spells ('^' :: (full.flatMap (fun r => Print.coded r.lo ++ '-' :: Print.coded r.hi) ++ [']']))
      ⟨true, full.map .range⟩ [] := by
  have hclean : Clean full :=
    clean_cons.mpr ⟨by decide, fun _ h => absurd h List.not_mem_nil, clean_nil⟩
  have hends : ∀ r ≤ maxRune, RangeEnd (Print.coded r) r := by
    intro r hr
    obtain ⟨text, he, hescape⟩ := coded_cases hr
    exact he ▸ rangeEnd_of_escapeOf hescape
  have hall : ∀ r ∈ full, RangeText (Print.coded r.lo ++ '-' :: Print.coded r.hi) r :=
    List.forall_mem_singleton.mpr
      ((hends 0 (Nat.zero_le _)).rangeText_to (hends maxRune (Nat.le_refl _)) (Nat.zero_le _))
  exact spells_caret hall hclean (List.cons_ne_nil _ _)

/-- A printed class spells the class. -/
theorem charClass_spells {x : Ranges} (hx : x.Clean) :
    ∃ text b, Print.charClass x.runes = '[' :: text ∧ Spells text b x := by
  have heven : ¬x.runes.length % 2 ≠ 0 := by
    rw [length_runes]
    omega
  rw [Print.charClass, if_neg heven]
  split
  · next hempty =>
    obtain rfl : x = [] := by
      cases x with
      | nil => rfl
      | cons a rest => cases hempty
    exact ⟨_, _, by decide, spells_nothing⟩
  split
  · next hempty hspans =>
    obtain ⟨hgaps, hne⟩ := gaps_eq_complement hx hspans
    have hclean := complement_clean hx
    have hspells := spells_caret (fun r hr => rangeText_range (hclean.valid r hr)) hclean hne
    rw [hx.complement_complement] at hspells
    rw [hgaps]
    exact ⟨_, _, rfl, hspells⟩
  · next hempty _ =>
    have hne : x ≠ [] := by
      rintro rfl
      exact hempty rfl
    rw [ofRunes_runes]
    exact ⟨_, _, rfl, spells_texts hx hne⟩

/-- A printed class is one token, whatever follows, and stands for the class. -/
theorem readToken_charClass {x : Ranges} (hx : x.Clean) :
    ∃ text b, Print.charClass x.runes = '[' :: text ∧
      (∀ flags rest, readToken flags '[' (text ++ rest) = .ok (.bracket b, rest)) ∧
      ∀ flags : Flags, flags.foldCase = false → flags.classNL = true → b.ranges flags = x := by
  obtain ⟨text, b, htext, hspells⟩ := charClass_spells hx
  refine ⟨text, b, htext, fun flags rest => ?_, hspells.ranges⟩
  rw [readToken, if_neg (by decide), if_neg (by decide), if_neg (by decide), if_pos rfl,
    hspells.read]

end RegexTree
