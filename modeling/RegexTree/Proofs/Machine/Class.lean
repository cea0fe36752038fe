/-
  The machine reads classes to the ranges that they stand for.

  The buffer of the machine and the list of ranges that a bracket is computed from need not be the
  same, since folding adds ranges in another order.  They hold the same runes (`Holds`), and that is
  all that cleaning looks at, so after it they are the same (`Holds.cleanClass`).

  Each reader inside of a bracket is compared with the one of texts: the rune of a class
  (`classRune_place`), a range (`classRange_place`), a group in one of its three forms
  (`classGroup?_place`) and an item (`classItem_place`); the loop over the items is an induction on
  the text that is left (`classItems_place`).  `readRange_eq` and `readItem_eq` put the readers of
  texts in the form in which the machine has them, where a range is two runes and a group has one of
  several forms.

  A rune of a class may be an escape.  So from the rune on up there is the condition that no escape
  has too many digits, in the form that fits the reader: of one range, of one item, of the items and
  of the bracket (`readClass_place`).
-/
import RegexTree.Machine.Class
import RegexTree.Proofs.Machine.Reader

namespace RegexTree.Machine

open Cursor
open Ranges (runes Valid Clean has_reverse reverse_valid)

/-! ## Buffers of the same runes -/

/-- The buffer holds valid ranges of the same runes as the list. -/
def Holds (buffer : List Nat) (x : Ranges) : Prop :=
  x.Valid ∧ ∃ y : Ranges, y.Valid ∧ buffer = runes y.reverse ∧ ∀ c, y.has c = x.has c

section

variable {buffer : List Nat} {x : Ranges}

/-- The buffer of a list holds what the list has. -/
theorem holds_runes (hx : x.Valid) : Holds (runes x.reverse) x := ⟨hx, x, hx, rfl, fun _ => rfl⟩

theorem holds_of_has {z : Ranges} (hz : z.Valid) (hx : x.Valid) (h : ∀ c, z.has c = x.has c) :
    Holds (runes z) x :=
  ⟨hx, z.reverse, reverse_valid hz, by rw [List.reverse_reverse],
    fun c => (has_reverse z c).trans (h c)⟩

/-- A range that is appended on both sides leaves the same runes, though perhaps not the same
    ranges. -/
theorem Holds.appendRange (h : Holds buffer x) {r : Range} (hr : r.Valid) :
    ∃ b, appendRange buffer r.lo r.hi = .ok b ∧ Holds b (x.add r) := by
  obtain ⟨hx, y, hy, rfl, hhas⟩ := h
  refine ⟨_, appendRange_runes hy hr, Ranges.add_valid hx hr, _, Ranges.add_valid hy hr, rfl, ?_⟩
  intro c
  rw [Ranges.has_add, Ranges.has_add, hhas]

theorem Holds.appendFoldedRange (h : Holds buffer x) {r : Range} (hr : r.Valid) :
    ∃ b, appendFoldedRange buffer r.lo r.hi = .ok b ∧ Holds b (x.addFolded r) := by
  obtain ⟨hx, y, hy, rfl, hhas⟩ := h
  obtain ⟨z, hz, hzv, hzhas⟩ := appendFoldedRange_makes (reverse_valid hy) hr
  dsimp only at hzhas
  refine ⟨_, hz, holds_of_has hzv (Ranges.addFolded_valid hx hr) fun c => ?_⟩
  rw [Bool.eq_iff_iff, hzhas, Ranges.has_addFolded, has_reverse, hhas]

/-- When the buffer is cleaned it is the cleaned list. -/
theorem Holds.cleanClass (h : Holds buffer x) :
    cleanClass buffer = .ok (runes (Ranges.clean x)) := by
  obtain ⟨hx, y, hy, rfl, hhas⟩ := h
  rw [cleanClass_runes (reverse_valid hy)]
  refine congrArg (fun z => Except.ok (runes z)) ?_
  refine (Ranges.clean_clean (reverse_valid hy)).ext (Ranges.clean_clean hx) fun c => ?_
  rw [Ranges.has_clean, Ranges.has_clean, has_reverse, hhas]

/-- Folding a clean class and cleaning it gives the clean class of all that folds into it. -/
theorem folded_runes {table : Ranges} (htable : table.Clean) :
    ∃ b, appendFoldedClass [] (runes table) = .ok b ∧ cleanClass b = .ok (runes table.folded) := by
  obtain ⟨z, hz, hzv, hzhas⟩ := appendFoldedClass_makes Ranges.valid_nil htable.valid
  have hholds : Holds (runes z) (table.foldl Ranges.addFolded []) := by
    refine holds_of_has hzv ?_ fun c => ?_
    · exact Ranges.foldl_valid (fun _ r hr hy => Ranges.addFolded_valid hy (htable.valid r hr))
        Ranges.valid_nil
    · rw [Bool.eq_iff_iff, hzhas,
        Ranges.has_foldl (f := Ranges.addFolded) fun _ _ => Ranges.has_addFolded]
  exact ⟨_, hz, hholds.cleanClass⟩

/-- Appending a class or its complement adds each of the ranges. -/
theorem appendMaybeNegated_runes {table : Ranges} (hx : x.Valid) (htable : table.Clean)
    (negated : Bool) :
    appendMaybeNegated (runes x.reverse) (runes table) negated =
      .ok (runes (x.addAll (if negated then table.complement else table)).reverse) := by
  cases negated with
  | false => exact appendClass_runes hx htable.valid
  | true => exact appendNegatedClass_runes hx htable.valid

/-- A group is appended in the same order on both sides. -/
theorem appendGroup_runes {table : Ranges} (hx : x.Valid) (htable : table.Clean) (flags : Flags)
    (negated : Bool) :
    appendGroup flags (runes x.reverse) (negated, table) =
      .ok (runes ((BracketItem.group negated table).addTo flags.foldCase x).reverse) := by
  rw [appendGroup, BracketItem.addTo]
  cases flags.foldCase with
  | false => exact appendMaybeNegated_runes hx htable negated
  | true =>
    obtain ⟨z, hz, hclean⟩ := folded_runes htable
    rw [if_pos rfl, hz, ok_bind, hclean, ok_bind]
    exact appendMaybeNegated_runes hx (Ranges.folded_clean htable.valid) negated

/-- A group may be appended to any buffer that holds the same. -/
theorem Holds.appendGroup (h : Holds buffer x) {table : Ranges} (htable : table.Clean)
    (flags : Flags) (negated : Bool) :
    ∃ b, appendGroup flags buffer (negated, table) = .ok b ∧
      Holds b ((BracketItem.group negated table).addTo flags.foldCase x) := by
  obtain ⟨hx, y, hy, rfl, hhas⟩ := h
  have hitem : (BracketItem.group negated table).Valid := htable
  refine ⟨_, appendGroup_runes hy htable flags negated, BracketItem.addTo_valid hx hitem, _,
    BracketItem.addTo_valid hy hitem, rfl, fun c => ?_⟩
  rw [BracketItem.addTo, BracketItem.addTo, Ranges.has_addAll, Ranges.has_addAll, hhas]

/-- A group on its own is the bracket with nothing else in it. -/
theorem appendGroup_nil {table : Ranges} (htable : table.Clean) (flags : Flags) (negated : Bool) :
    appendGroup flags [] (negated, table) =
      .ok (runes (Bracket.ranges flags { items := [.group negated table] })) := by
  have hgroup : Clean (if flags.foldCase then table.folded else table) := by
    split
    · exact Ranges.folded_clean htable.valid
    · exact htable
  obtain ⟨z, hz, hadded⟩ : ∃ z : Ranges, z.Clean ∧
      (BracketItem.group negated table).addTo flags.foldCase [] = z.reverse := by
    rw [BracketItem.addTo]
    cases negated with
    | false => exact ⟨_, hgroup, Ranges.addAll_reverse (x := []) hgroup⟩
    | true =>
      have hcomplement := Ranges.complement_clean hgroup
      exact ⟨_, hcomplement, Ranges.addAll_reverse (x := []) hcomplement⟩
  rw [show ([] : List Nat) = runes (List.reverse []) from rfl,
    appendGroup_runes Ranges.valid_nil htable, hadded, List.reverse_reverse]
  refine congrArg (fun x => Except.ok (runes x)) ?_
  have hclean : Ranges.clean z.reverse = z :=
    (Ranges.clean_clean (reverse_valid hz.valid)).ext hz fun c => by
      rw [Ranges.has_clean, has_reverse]
  rw [Bracket.ranges, List.foldl_cons]
  dsimp only [List.foldl_nil]
  exact hclean.symm.trans (congrArg Ranges.clean hadded.symm)

/-- A range is appended as it is, or folded, as the flags say. -/
theorem Holds.appendItemRange (h : Holds buffer x) {r : Range} (hr : r.Valid) (flags : Flags) :
    ∃ b, (if flags.foldCase then Machine.appendFoldedRange buffer r.lo r.hi
        else Machine.appendRange buffer r.lo r.hi) = .ok b ∧
      Holds b ((BracketItem.range r).addTo flags.foldCase x) := by
  rw [BracketItem.addTo]
  cases flags.foldCase with
  | false => exact h.appendRange hr
  | true => exact h.appendFoldedRange hr

end

/-! ## Items -/

section

variable {text start rest : List Char}

/-- The machine and the reader of texts agree on where a range goes on. -/
theorem rangeGoesOn_iff (text rest : List Char) :
    ((place text rest).lookingAt ['-'] = true ∧ ¬(place text rest).lookingAt ['-', ']'] = true ∧
      2 ≤ byteCount (place text rest).rest) ↔ rangeGoesOn rest = true := by
  by_cases hhead : rest.head? = some '-'
  · obtain ⟨tail, rfl⟩ := List.head?_eq_some_iff.mp hhead
    rw [and_iff_right (lookingAt_self text tail '-'), rest_place]
    cases tail with
    | nil => exact iff_of_false (fun h => absurd h.2 (by decide)) Bool.false_ne_true
    | cons c more =>
      have hlen := length_le_byteCount ('-' :: c :: more)
      have hlook : (place text ('-' :: c :: more)).lookingAt ['-', ']'] = (']' == c) := by
        rw [lookingAt_cons, lookingAt_cons, lookingAt_nil, Bool.and_true]
        rfl
      rw [hlook, and_iff_left (Nat.le_trans (by simp) hlen), rangeGoesOn, bne_iff_ne, beq_iff_eq]
      exact not_congr eq_comm
  · refine iff_of_false (fun h => lookingAt_ne text hhead h.1) fun h => ?_
    unfold rangeGoesOn at h
    split at h
    · exact hhead rfl
    · cases h

/-- A range is read as a rune, and another one if a hyphen goes on. -/
theorem readRange_eq (start rest : List Char) :
    readRange start rest = readBracketRune start rest >>= fun lo =>
      if rangeGoesOn lo.2 then
        readBracketRune start lo.2.tail >>= fun hi =>
          if hi.1 < lo.1 then .error (.between .invalidCharRange rest hi.2)
          else .ok (.range ⟨lo.1, hi.1⟩, hi.2)
      else .ok (.range ⟨lo.1, lo.1⟩, lo.2) := by
  rw [readRange]
  cases readBracketRune start rest with
  | error e => rfl
  | ok lo =>
    show (if rangeGoesOn lo.2 then _ else _) = (if rangeGoesOn lo.2 then _ else _)
    cases readBracketRune start lo.2.tail with
    | error e => rfl
    | ok hi => rfl

/-- The machine finds the same group, or none: one with a name first, and else one with a
    backslash. -/
theorem classGroup?_place {rest : List Char} (flags : Flags) (hrest : rest <:+ text) :
    classGroup? flags (place text rest) =
      liftGroup text ((readNamedGroup? rest).or (readGroupEscape? flags rest)) := by
  rw [classGroup?]
  -- only a bracket with a colon can begin a named group; a property or a letter is tried otherwise
  by_cases hopen : ∃ after, rest = '[' :: ':' :: after
  · obtain ⟨after, rfl⟩ := hopen
    rw [if_pos (lookingAt_two text after '[' ':'), namedGroup?_place hrest]
    cases hnamed : readNamedGroup? ('[' :: ':' :: after) with
    | none =>
      rw [liftGroup, ok_bind]
      dsimp only
      rw [groupEscape?_place hrest]
      rfl
    | some result =>
      cases result with
      | error e => rfl
      | ok found =>
        obtain ⟨item, left⟩ := found
        cases item with
        | group negated table => rfl
        | range r => rfl
  · have hnamed : readNamedGroup? rest = none := by
      unfold readNamedGroup?
      split
      · next after => exact absurd ⟨after, rfl⟩ hopen
      · rfl
    rw [if_neg, pure_eq_ok, ok_bind, hnamed]
    · exact groupEscape?_place hrest
    · rw [lookingAt_place, List.isPrefixOf_iff_prefix]
      rintro ⟨after, rfl⟩
      exact hopen ⟨after, rfl⟩

/-- An item is a group if one is found, and else a range. -/
theorem readItem_eq (flags : Flags) (start rest : List Char) :
    readItem flags start rest =
      match (readNamedGroup? rest).or (readGroupEscape? flags rest) with
      | some result => result
      | none => readRange start rest := by
  rw [readItem]
  cases readNamedGroup? rest with
  | some result => rfl
  | none => rfl

/-- What is read before ranges are tried is a group, and its runes are clean. -/
theorem group_of_or {flags : Flags} {rest left : List Char} {item : BracketItem}
    (h : (readNamedGroup? rest).or (readGroupEscape? flags rest) = some (.ok (item, left))) :
    ∃ negated table, item = .group negated table ∧ Clean table := by
  have hvalid : item.Valid := by
    rcases Option.or_eq_some_iff.mp h with h | ⟨-, h⟩
    · exact readNamedGroup?_valid h
    · exact readGroupEscape?_valid h
  cases item with
  | group negated table => exact ⟨negated, table, rfl, hvalid⟩
  | range r =>
    rcases Option.or_eq_some_iff.mp h with h | ⟨-, h⟩
    · exact absurd h readNamedGroup?_ne_range
    · exact absurd h readGroupEscape?_ne_range

/-- The machine looks at the cursor for the hyphen that only Perl syntax allows. -/
theorem strayHyphen_place (flags : Flags) (first : Bool) (text rest : List Char) :
    (!first && !flags.perlX && (place text rest).lookingAt ['-'] &&
      !(place text rest).lookingAt ['-', ']']) = (!first && strayHyphen flags rest) := by
  rw [strayHyphen, lookingAt_one]
  cases rest with
  | nil => simp
  | cons c tail =>
    rw [lookingAt_cons, lookingAt_one]
    by_cases hc : c = '-'
    · simp [hc, Bool.and_assoc, bne]
    · simp [beq_eq_false_iff_ne.mpr hc]

/-- What is shown of such a hyphen is the hyphen and the character after it. -/
theorem failSince_strayHyphen {α : Type} {tail : List Char} (hhyphen : '-' :: tail <:+ text) :
    (do
      let probe ← skipAscii (place text ('-' :: tail)) 1
      let probe ← (if probe.more then do return (← pop probe).2 else return probe)
      failSince .invalidCharRange probe (place text ('-' :: tail)).pos : Guarded α) =
    .error (.invalid (.between .invalidCharRange ('-' :: tail) (('-' :: tail).drop 2))) := by
  rw [skipAscii_one hhyphen (by decide), ok_bind]
  cases tail with
  | nil =>
    rw [if_neg (more_nil text), pure_eq_ok, ok_bind,
      failSince_place hhyphen (List.suffix_cons '-' [])]
    rfl
  | cons c more =>
    have hmore : more <:+ '-' :: c :: more := (List.suffix_cons _ _).trans (List.suffix_cons _ _)
    rw [if_pos (more_cons text c more), pop_place ((List.suffix_cons _ _).trans hhyphen),
      ok_bind, pure_eq_ok, ok_bind, failSince_place hhyphen hmore]
    rfl

variable (hstart : start <:+ text) (hrest : rest <:+ start)

include hstart hrest

/-- One rune within brackets, which may be an escape with too many digits. -/
theorem classRune_place :
    AgreeUnless (OverlongRune rest) (Placed text)
      (classRune (place text rest) (place text start).pos) (readBracketRune start rest) := by
  have hsuffix := hrest.trans hstart
  rw [classRune]
  cases rest with
  | nil =>
    rw [if_neg (more_nil text), failSince_place hstart hrest, Error.between, excerpt,
      List.length_nil, Nat.sub_zero, List.take_length]
    exact Agree.unless (.error _) not_overlongRune_nil
  | cons c rest =>
    rw [if_pos (more_cons text c rest)]
    by_cases hc : c = '\\'
    · subst hc
      rw [if_pos (lookingAt_self _ _ _)]
      exact escape_agrees hsuffix
    · rw [if_neg (lookingAt_ne text (by simpa using hc)), pop_place hsuffix, ok_bind,
        readBracketRune]
      · refine Agree.unless (.ok rfl) fun hlong => ?_
        obtain ⟨digits, left, -, he⟩ := hlong.exists_eq
        exact hc (List.cons.inj he).1
      · exact hc

/-- The upper end of a range is read after a hyphen; without one it is the lower end. -/
theorem upperEnd_place {lo : Nat} {left : List Char} (hlo : lo ≤ maxRune) (hleft : left <:+ rest) :
    AgreeUnless (rangeGoesOn left = true ∧ OverlongRune left.tail)
      (fun (a : Nat × Cursor) (b : BracketItem × List Char) =>
        a.2 = place text b.2 ∧ b.1 = .range ⟨lo, a.1⟩ ∧ Range.Valid ⟨lo, a.1⟩)
      (if (place text left).lookingAt ['-'] ∧ ¬(place text left).lookingAt ['-', ']'] ∧
          2 ≤ byteCount (place text left).rest then do
        let c ← skipAscii (place text left) 1
        let (hi, c) ← classRune c (place text start).pos
        if hi < lo then failSince .invalidCharRange c (place text rest).pos else return (hi, c)
      else return (lo, place text left))
      (if rangeGoesOn left then
        readBracketRune start left.tail >>= fun found =>
          if found.1 < lo then .error (.between .invalidCharRange rest found.2)
          else .ok (.range ⟨lo, found.1⟩, found.2)
      else .ok (.range ⟨lo, lo⟩, left)) := by
  by_cases hmore : rangeGoesOn left = true
  · obtain ⟨tail, rfl⟩ : ∃ tail, left = '-' :: tail := by
      unfold rangeGoesOn at hmore
      split at hmore
      · exact ⟨_, rfl⟩
      · cases hmore
    have htail : tail <:+ start := ((List.suffix_cons '-' tail).trans hleft).trans hrest
    have hskip := (hleft.trans hrest).trans hstart
    rw [if_pos ((rangeGoesOn_iff text _).mpr hmore), if_pos hmore,
      skipAscii_one hskip (by decide), ok_bind, List.tail_cons]
    refine AgreeUnless.congr ?_ (and_iff_right hmore).symm
    refine (classRune_place hstart htail).bind_agree ?_
    rintro _ ⟨hi, last⟩ - hhi rfl
    have hlast : last <:+ tail := (consumed_of_readBracketRune hhi).isSuffix
    have hback : last <:+ rest := (hlast.trans (List.suffix_cons '-' tail)).trans hleft
    dsimp only
    split
    · rw [failSince_place (hrest.trans hstart) hback]
      exact .error _
    · next hle =>
      exact .ok ⟨rfl, rfl, Nat.le_of_not_lt hle, readBracketRune_le hhi⟩
  · rw [if_neg (mt (rangeGoesOn_iff text _).mp hmore), if_neg hmore]
    exact Agree.unless (.ok ⟨rfl, rfl, Nat.le_refl lo, hlo⟩) fun hlong => hmore hlong.1

/-- The machine reads a range as it is read of the text, unless an escape in it has too many
    digits. -/
theorem classRange_place {buffer : List Nat} {x : Ranges} (flags : Flags) (hx : Holds buffer x) :
    AgreeUnless (OverlongRange start rest)
      (fun a b => a.2 = place text b.2 ∧ Holds a.1 (b.1.addTo flags.foldCase x))
      (classRange flags buffer (place text rest) (place text start).pos)
      (readRange start rest) := by
  rw [classRange, readRange_eq]
  dsimp only
  refine (classRune_place hstart hrest).bind ?_
  rintro _ ⟨lo, left⟩ - hlo rfl
  have hleft := (consumed_of_readBracketRune hlo).isSuffix
  refine (upperEnd_place hstart hrest (readBracketRune_le hlo) hleft).bind_ok ?_
  rintro ⟨hi, c⟩ ⟨item, last⟩ - - ⟨rfl, hitem, hvalid⟩
  dsimp only at hitem hvalid ⊢
  subst hitem
  obtain ⟨b, hb, hholds⟩ := hx.appendItemRange hvalid flags
  rw [hb]
  exact ⟨_, rfl, rfl, hholds⟩

/-- The machine reads the same item, unless an escape in it has too many digits. -/
theorem classItem_place {buffer : List Nat} {x : Ranges} (flags : Flags) (hx : Holds buffer x) :
    AgreeUnless (OverlongItem flags start rest)
      (fun a b => a.2 = place text b.2 ∧ Holds a.1 (b.1.addTo flags.foldCase x))
      (classItem flags buffer (place text rest) (place text start).pos)
      (readItem flags start rest) := by
  rw [classItem, classGroup?_place flags (hrest.trans hstart), readItem_eq]
  cases hgroup : (readNamedGroup? rest).or (readGroupEscape? flags rest) with
  | none => exact (classRange_place hstart hrest flags hx).congr (and_iff_right hgroup).symm
  | some result =>
    have hfree : ¬OverlongItem flags start rest := fun hlong => by
      rw [OverlongItem, hgroup] at hlong
      cases hlong.1
    cases result with
    | error e => exact Agree.unless (.error e) hfree
    | ok found =>
      obtain ⟨item, left⟩ := found
      obtain ⟨negated, table, rfl, htable⟩ := group_of_or hgroup
      obtain ⟨b, hb, hholds⟩ := hx.appendGroup htable flags negated
      rw [liftGroup, ok_bind]
      dsimp only
      rw [hb]
      exact Agree.unless (.ok ⟨rfl, hholds⟩) hfree

/-- The machine reads the items of a bracket as they are read of the text, by induction on the text
    that is left, and its buffer holds what the items stand for; unless it comes to an item with too
    many digits. -/
theorem classItems_place {buffer : List Nat} {x : Ranges} {steps : Nat} (flags : Flags)
    (first : Bool) (hsteps : rest.length < steps) (hx : Holds buffer x) :
    AgreeUnless (OverlongItems flags start first rest)
      (fun a b => a.2 = place text (']' :: b.2) ∧ ']' :: b.2 <:+ text ∧
        Holds a.1 (b.1.foldl (BracketItem.addTo flags.foldCase) x))
      (classItems flags (place text start).pos steps first buffer (place text rest))
      (readItems flags start first rest) := by
  -- every item takes at least one character, so the steps last as long as the text
  induction steps generalizing first buffer x rest with
  | zero => cases hsteps
  | succ steps ih =>
    have hsuffix := hrest.trans hstart
    rw [classItems, lookingAt_one, strayHyphen_place]
    by_cases hclose : (!first && rest.head? == some ']') = true
    · rw [readItems, if_pos hclose, if_pos hclose]
      have hfree : ¬OverlongItems flags start first rest := fun hlong =>
        hlong.itemFollows.1 hclose
      rw [Bool.and_eq_true, beq_iff_eq] at hclose
      obtain ⟨left, rfl⟩ := List.head?_eq_some_iff.mp hclose.2
      exact Agree.unless (.ok ⟨rfl, hsuffix, hx⟩) hfree
    by_cases hhyphen : (!first && strayHyphen flags rest) = true
    · rw [readItems, if_neg hclose, if_neg hclose, if_pos hhyphen, if_pos hhyphen]
      have hfree : ¬OverlongItems flags start first rest := fun hlong =>
        hlong.itemFollows.2 hhyphen
      simp only [strayHyphen, Bool.and_eq_true, beq_iff_eq] at hhyphen
      obtain ⟨tail, rfl⟩ := List.head?_eq_some_iff.mp hhyphen.2.1.2
      rw [failSince_strayHyphen hsuffix]
      exact Agree.unless (.error _) hfree
    rw [if_neg hclose, if_neg hhyphen, readItems_next start hclose hhyphen]
    refine AgreeUnless.congr ?_ (overlongItems_iff ⟨hclose, hhyphen⟩).symm
    refine (classItem_place hstart hrest flags hx).bind ?_
    rintro ⟨wider, c⟩ ⟨item, left⟩ - hitem ⟨rfl, hholds⟩
    have hconsumed := consumed_of_readItem hitem
    have hlen := hconsumed.length_lt
    have hnext := ih (hconsumed.isSuffix.trans hrest) false (by omega) hholds
    exact hnext.then_ok fun a b hab => hab

end

/-! ## Classes -/

/-- A caret in front is skipped. -/
theorem caret_place {text rest : List Char} (hrest : rest <:+ text) :
    (place text rest).lookingAt ['^'] = (splitCaret rest).1 ∧
      (if (splitCaret rest).1 = true then skipAscii (place text rest) 1
        else return place text rest : Guarded Cursor) = .ok (place text (splitCaret rest).2) ∧
      (splitCaret rest).2 <:+ rest := by
  rw [lookingAt_one, ← stripCaret_eq, stripCaret]
  split
  · next h =>
    obtain ⟨more, rfl⟩ := List.head?_eq_some_iff.mp h
    exact ⟨rfl, skipAscii_one hrest (by decide), List.suffix_cons '^' more⟩
  · next h => exact ⟨beq_eq_false_iff_ne.mpr h, rfl, List.suffix_refl rest⟩

/-- What a negated class lists before its items: the newline, if the class is not to hold it. -/
theorem holds_listed (listed : Bool) :
    Holds (if listed then [newline, newline] else [])
      (if listed then [Range.single newline] else []) := by
  split
  · exact holds_runes (x := [Range.single newline])
      (Ranges.valid_cons.mpr ⟨single_valid (by decide), Ranges.valid_nil⟩)
  · exact holds_runes Ranges.valid_nil

/-- The machine reads a class to the runes that the bracket stands for. -/
theorem readClass_place {text rest : List Char} (flags : Flags) (hrest : '[' :: rest <:+ text) :
    AgreeUnless (OverlongBracket flags rest)
      (fun a b => a.2 = place text b.2 ∧ a.1 = runes (b.1.ranges flags))
      (readClass flags (place text ('[' :: rest))) (readBracket flags rest) := by
  obtain ⟨hcaret, hskip, hafter⟩ := caret_place ((List.suffix_cons '[' rest).trans hrest)
  rw [readClass, readBracket_eq, OverlongBracket]
  dsimp only
  rw [skipAscii_one hrest (by decide), ok_bind, hcaret, hskip, ok_bind, rest_place]
  generalize splitCaret rest = caret at hafter
  obtain ⟨negated, body⟩ := caret
  dsimp only at hafter ⊢
  have hitems := classItems_place hrest (hafter.trans (List.suffix_cons '[' rest)) flags true
    (Nat.lt_succ_self body.length) (holds_listed (negated && !flags.classNL))
  refine hitems.bind_agree ?_
  rintro ⟨buffer, c⟩ ⟨items, left⟩ - - ⟨rfl, hleft, hholds⟩
  dsimp only
  rw [skipAscii_one hleft (by decide), ok_bind, hholds.cleanClass, ok_bind]
  cases negated with
  | false => exact .ok ⟨rfl, rfl⟩
  | true =>
    rw [if_pos rfl, negateClass_runes (Ranges.clean_clean hholds.1).valid]
    exact .ok ⟨rfl, rfl⟩

end RegexTree.Machine
