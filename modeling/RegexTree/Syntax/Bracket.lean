/-
  Bracketed classes, and the escapes that stand for classes.

  A bracket is a list of items, each a range or a named group, and may be negated.  What it stands
  for is computed from that by `Bracket.ranges`: the items are added to a list of ranges one by one,
  closed under folding if the flags say so, and the list is cleaned and complemented.  `\d` or
  `\p{N}` outside of brackets is a bracket of one item.

  Reading a bracket gives its items and the text that is left.  Each reader of an item takes a
  character at least (`Consumed`), which is what the reader of items needs to come to its end.
-/
import RegexTree.Flags
import RegexTree.Ranges.Folded
import RegexTree.Syntax.Escape
import RegexTree.Unicode.Property

namespace RegexTree

/-- One item of a bracket. -/
inductive BracketItem where
  | range (r : Range)
  /-- The runes of a group or property, or all others. -/
  | group (negated : Bool) (ranges : Ranges)
  deriving DecidableEq, Repr

/-- The runes collected so far with those of an item.  If letters stand for all of their case, the
    range or group is closed under that first; only then is a group negated. -/
def BracketItem.addTo (fold : Bool) (x : Ranges) : BracketItem → Ranges
  | .range r => if fold then x.addFolded r else x.add r
  | .group negated ranges =>
    let ranges := if fold then ranges.folded else ranges
    x.addAll (if negated then ranges.complement else ranges)

/-- A class as it is written. -/
structure Bracket where
  negated : Bool := false
  items : List BracketItem
  deriving DecidableEq, Repr

/-- The runes that a bracket stands for, as a clean list.  Where negated classes may not match a
    newline, it counts as one of the runes left out. -/
def Bracket.ranges (flags : Flags) (b : Bracket) : Ranges :=
  let start := if b.negated && !flags.classNL then [Range.single newline] else []
  let listed := Ranges.clean (b.items.foldl (BracketItem.addTo flags.foldCase) start)
  if b.negated then listed.complement else listed

/-! ## Groups and properties -/

/-- A name without the caret in front, and whether there is one. -/
def splitCaret : List Char → Bool × List Char
  | '^' :: rest => (true, rest)
  | text => (false, text)

/-- The name of a property after `\p`, and the text after it: one character, or a text in braces.
    A brace that is not closed makes no name. -/
def readPropertyName? : List Char → Option (List Char × List Char)
  | [] => some ([], [])
  | '{' :: rest => splitAt? ['}'] rest
  | c :: rest => some ([c], rest)

/-- The property that `\p` or `\P` names.  `start` is the text from the backslash on, `text` that
    after the letter. -/
def readProperty (negated : Bool) (start text : List Char) :
    Except Error (BracketItem × List Char) :=
  match readPropertyName? text with
  | none => .error (.toEnd .invalidCharRange start)
  | some (name, rest) =>
    match Unicode.property? (String.ofList (splitCaret name).2) with
    | none => .error (.between .invalidCharRange start rest)
    | some ranges => .ok (.group (negated != (splitCaret name).1) ranges, rest)

/-- The escape for a group or a property at the start of the text, if there is one and the flags
    allow it. -/
def readGroupEscape? (flags : Flags) (text : List Char) :
    Option (Except Error (BracketItem × List Char)) :=
  match text with
  | '\\' :: c :: rest =>
    if flags.unicodeGroups && (c == 'p' || c == 'P') then
      some (readProperty (c == 'P') text rest)
    else if flags.perlX then
      (Unicode.perlGroup? c).map fun (negated, ranges) => .ok (.group negated ranges, rest)
    else none
  | _ => none

/-- The group `[:name:]` or `[:^name:]` at the start of the text, if the text has a `:]` to close
    it. -/
def readNamedGroup? (text : List Char) : Option (Except Error (BracketItem × List Char)) :=
  match text with
  | '[' :: ':' :: after =>
    (splitAt? [':', ']'] after).map fun (name, rest) =>
      match Unicode.posixGroup? (String.ofList (splitCaret name).2) with
      | none => .error (.between .invalidCharRange text rest)
      | some ranges => .ok (.group (splitCaret name).1 ranges, rest)
  | _ => none

/-! ## Ranges -/

/-- One rune within brackets.  `opening` is the text from the bracket on. -/
def readBracketRune (opening : List Char) : List Char → Except Error (Nat × List Char)
  | [] => .error (.toEnd .missingBracket opening)
  | '\\' :: rest => readEscape rest
  | c :: rest => .ok (c.toNat, rest)

/-- A hyphen at the start of the text is followed by something that can end a range; before the
    closing bracket a hyphen stands for itself. -/
def rangeGoesOn : List Char → Bool
  | '-' :: c :: _ => c != ']'
  | _ => false

/-- One rune or range within brackets. -/
def readRange (opening text : List Char) : Except Error (BracketItem × List Char) :=
  match readBracketRune opening text with
  | .error e => .error e
  | .ok (lo, rest) =>
    if rangeGoesOn rest then
      match readBracketRune opening rest.tail with
      | .error e => .error e
      | .ok (hi, rest) =>
        if hi < lo then .error (.between .invalidCharRange text rest)
        else .ok (.range ⟨lo, hi⟩, rest)
    else .ok (.range ⟨lo, lo⟩, rest)

/-! ## Brackets -/

/-- One item of a bracket, and the text after it. -/
def readItem (flags : Flags) (opening text : List Char) :
    Except Error (BracketItem × List Char) :=
  match readNamedGroup? text with
  | some result => result
  | none =>
    match readGroupEscape? flags text with
    | some result => result
    | none => readRange opening text

/-- The text begins with a hyphen that is not the last character of the bracket.  Only Perl syntax
    allows that after the first item. -/
def strayHyphen (flags : Flags) (text : List Char) : Bool :=
  !flags.perlX && text.head? == some '-' && text.tail.head? != some ']'

theorem splitCaret_suffix (text : List Char) : (splitCaret text).2 <:+ text := by
  unfold splitCaret
  split
  · exact List.suffix_cons _ _
  · exact List.suffix_refl _

theorem suffix_of_readPropertyName? {text name rest : List Char}
    (h : readPropertyName? text = some (name, rest)) : rest <:+ text := by
  unfold readPropertyName? at h
  split at h
  · cases h
    exact List.suffix_refl _
  · exact (suffix_of_splitAt? h).trans (List.suffix_cons _ _)
  · cases h
    exact List.suffix_cons _ _

theorem suffix_of_readProperty {negated : Bool} {start text rest : List Char} {item : BracketItem}
    (h : readProperty negated start text = .ok (item, rest)) : rest <:+ text := by
  unfold readProperty at h
  split at h
  · cases h
  · next hn =>
    split at h
    · cases h
    · cases h
      exact suffix_of_readPropertyName? hn

theorem consumed_of_readGroupEscape? {flags : Flags} {text rest : List Char} {item : BracketItem}
    (h : readGroupEscape? flags text = some (.ok (item, rest))) : Consumed text rest := by
  unfold readGroupEscape? at h
  split at h
  · next c tail =>
    refine .of_cons ?_
    split at h
    · injection h with h
      exact (suffix_of_readProperty h).trans (List.suffix_cons _ _)
    · split at h
      · obtain ⟨_, _, he⟩ := Option.map_eq_some_iff.mp h
        cases he
        exact List.suffix_cons _ _
      · cases h
  · cases h

theorem consumed_of_readNamedGroup? {text rest : List Char} {item : BracketItem}
    (h : readNamedGroup? text = some (.ok (item, rest))) : Consumed text rest := by
  unfold readNamedGroup? at h
  split at h
  · next after =>
    refine .of_cons ?_
    obtain ⟨⟨name, tail⟩, hp, he⟩ := Option.map_eq_some_iff.mp h
    dsimp only at he
    split at he
    · cases he
    · cases he
      exact (suffix_of_splitAt? hp).trans (List.suffix_cons _ _)
  · cases h

theorem consumed_of_readBracketRune {opening text rest : List Char} {r : Nat}
    (h : readBracketRune opening text = .ok (r, rest)) : Consumed text rest := by
  unfold readBracketRune at h
  split at h
  · cases h
  · exact .of_cons (consumed_of_readEscape h).isSuffix
  · cases h
    exact .of_cons (List.suffix_refl _)

theorem consumed_of_readRange {opening text rest : List Char} {item : BracketItem}
    (h : readRange opening text = .ok (item, rest)) : Consumed text rest := by
  unfold readRange at h
  split at h
  · cases h
  · next lo middle hlo =>
    have hc := consumed_of_readBracketRune hlo
    split at h
    · split at h
      · cases h
      · next hi tail hhi =>
        split at h
        · cases h
        · cases h
          exact hc.trans
            ((consumed_of_readBracketRune hhi).isSuffix.trans (List.tail_suffix middle))
    · cases h
      exact hc

theorem consumed_of_readItem {flags : Flags} {opening text rest : List Char} {item : BracketItem}
    (h : readItem flags opening text = .ok (item, rest)) : Consumed text rest := by
  unfold readItem at h
  split at h
  · next hn =>
    exact consumed_of_readNamedGroup? (h ▸ hn)
  · split at h
    · next hg =>
      exact consumed_of_readGroupEscape? (h ▸ hg)
    · exact consumed_of_readRange h

/-- The items of a bracket up to the closing one, and the text after that.  In first position a
    closing bracket is an item, and so is a hyphen. -/
def readItems (flags : Flags) (opening : List Char) (first : Bool) (text : List Char) :
    Except Error (List BracketItem × List Char) :=
  if !first && text.head? == some ']' then .ok ([], text.tail)
  else if !first && strayHyphen flags text then
    .error (.between .invalidCharRange text (text.drop 2))
  else
    match _h : readItem flags opening text with
    | .error e => .error e
    | .ok (item, rest) =>
      match readItems flags opening false rest with
      | .error e => .error e
      | .ok (items, rest) => .ok (item :: items, rest)
termination_by text.length
decreasing_by exact (consumed_of_readItem _h).length_lt

/-- A bracket, and the text after it.  The text begins after the opening bracket. -/
def readBracket (flags : Flags) (text : List Char) : Except Error (Bracket × List Char) :=
  match readItems flags ('[' :: text) true (splitCaret text).2 with
  | .error e => .error e
  | .ok (items, rest) => .ok (⟨(splitCaret text).1, items⟩, rest)

/-- Where the bracket does not end and no hyphen is in the way, an item is read and then the
    others. -/
theorem readItems_next {flags : Flags} {first : Bool} {text : List Char} (opening : List Char)
    (hclose : ¬(!first && text.head? == some ']') = true)
    (hhyphen : ¬(!first && strayHyphen flags text) = true) :
    readItems flags opening first text = readItem flags opening text >>= fun found =>
      readItems flags opening false found.2 >>= fun others =>
        .ok (found.1 :: others.1, others.2) := by
  rw [readItems, if_neg hclose, if_neg hhyphen]
  split
  · next e he =>
    rw [he]
    rfl
  · next item rest he =>
    rw [he]
    show _ = readItems flags opening false rest >>= fun others => .ok (item :: others.1, others.2)
    cases readItems flags opening false rest with
    | error e => rfl
    | ok others => rfl

theorem readItems_cons {flags : Flags} {opening text middle rest : List Char} {first : Bool}
    {item : BracketItem} {items : List BracketItem}
    (hclose : ¬(!first && text.head? == some ']') = true)
    (hhyphen : ¬(!first && strayHyphen flags text) = true)
    (hitem : readItem flags opening text = .ok (item, middle))
    (hitems : readItems flags opening false middle = .ok (items, rest)) :
    readItems flags opening first text = .ok (item :: items, rest) := by
  rw [readItems_next opening hclose hhyphen, hitem]
  show readItems flags opening false middle >>= _ = _
  rw [hitems]
  rfl

theorem readBracket_eq (flags : Flags) (text : List Char) :
    readBracket flags text =
      readItems flags ('[' :: text) true (splitCaret text).2 >>= fun found =>
        .ok (⟨(splitCaret text).1, found.1⟩, found.2) := by
  rw [readBracket]
  cases readItems flags ('[' :: text) true (splitCaret text).2 with
  | error e => rfl
  | ok found => rfl

theorem suffix_of_readItems {flags : Flags} {opening : List Char} {first : Bool}
    {text rest : List Char} {items : List BracketItem}
    (h : readItems flags opening first text = .ok (items, rest)) : rest <:+ text := by
  fun_induction readItems flags opening first text generalizing items rest with
  | case1 first text _ =>
    cases h
    exact List.tail_suffix _
  | case2 => cases h
  | case3 => cases h
  | case4 => cases h
  | case5 first text _ _ item middle hi items' tail ht ih =>
    cases h
    exact (ih ht).trans (consumed_of_readItem hi).isSuffix

theorem suffix_of_readBracket {flags : Flags} {text rest : List Char} {b : Bracket}
    (h : readBracket flags text = .ok (b, rest)) : rest <:+ text := by
  unfold readBracket at h
  split at h
  · cases h
  · next hi =>
    cases h
    exact (suffix_of_readItems hi).trans (splitCaret_suffix text)

end RegexTree
