/-
  Text up to a delimiter.

  A place in a pattern is the text from there to the end.  So what a reader leaves is always a
  suffix of what it was given, and a reader that took at least one character leaves a suffix of the
  tail (`Consumed`).  From that it follows that reading comes to an end, and `suffix_induct` is the
  induction for what is proved of a text that is read token by token: after the first character any
  suffix of the tail may be left.

  `splitAt?` cuts a text at the first place where a delimiter stands, and leaves the delimiter out.
-/

namespace RegexTree

/-- `rest` is left of `text` after at least one character was taken. -/
def Consumed (text rest : List Char) : Prop := text ≠ [] ∧ rest <:+ text.tail

theorem Consumed.of_cons {c : Char} {text rest : List Char} (h : rest <:+ text) :
    Consumed (c :: text) rest := ⟨List.cons_ne_nil c text, h⟩

theorem Consumed.isSuffix {text rest : List Char} (h : Consumed text rest) : rest <:+ text :=
  h.2.trans (List.tail_suffix text)

theorem Consumed.trans {text middle rest : List Char} (h : Consumed text middle)
    (h' : rest <:+ middle) : Consumed text rest := ⟨h.1, h'.trans h.2⟩

theorem Consumed.length_lt {text rest : List Char} (h : Consumed text rest) :
    rest.length < text.length := by
  obtain ⟨hne, hs⟩ := h
  have h1 := hs.length_le
  have h2 := List.length_pos_iff.mpr hne
  rw [List.length_tail] at h1
  omega

/-- What holds of the empty text, and of a text if it holds of every suffix of its tail, holds of
    every text: reading goes on with such a suffix. -/
theorem suffix_induct {motive : List Char → Prop} (nil : motive [])
    (cons : ∀ c tail, (∀ rest, rest <:+ tail → motive rest) → motive (c :: tail))
    (text : List Char) : motive text := by
  induction hn : text.length using Nat.strongRecOn generalizing text with
  | _ n ih =>
    cases text with
    | nil => exact nil
    | cons c tail =>
      refine cons c tail fun rest hrest => ih rest.length ?_ rest rfl
      have hlen := hrest.length_le
      rw [← hn, List.length_cons]
      omega

/-- The text before the first occurrence of `stop`, and the text after it. -/
def splitAt? (stop : List Char) : List Char → Option (List Char × List Char)
  | [] => if stop = [] then some ([], []) else none
  | c :: rest =>
    if stop.isPrefixOf (c :: rest) then some ([], (c :: rest).drop stop.length)
    else (splitAt? stop rest).map fun (before, after) => (c :: before, after)

/-- Text, delimiter and the text after it make up the whole. -/
theorem eq_append_of_splitAt? {stop text before after : List Char}
    (h : splitAt? stop text = some (before, after)) : text = before ++ stop ++ after := by
  induction text generalizing before with
  | nil =>
    rw [splitAt?] at h
    split at h
    · next hs =>
      cases h
      simp [hs]
    · cases h
  | cons c rest ih =>
    rw [splitAt?] at h
    split at h
    · next hp =>
      cases h
      obtain ⟨t, ht⟩ := List.isPrefixOf_iff_prefix.mp hp
      rw [← ht]
      simp
    · next hp =>
      obtain ⟨⟨b, a⟩, hb, he⟩ := Option.map_eq_some_iff.mp h
      cases he
      rw [ih hb]
      simp

theorem suffix_of_splitAt? {stop text before after : List Char}
    (h : splitAt? stop text = some (before, after)) : after <:+ text :=
  ⟨before ++ stop, (eq_append_of_splitAt? h).symm⟩

end RegexTree
