/-
  The algebra of matchers.

  A matcher takes a spot to the list of the spots where it may end, best first, so there are two
  ways to put matchers together: one after the other (`both`, `inOrder`) and one in preference to
  another (`firstOf`).

  * Sequences are a monoid: `both` is associative and has `stay` as its unit on both sides, so a
    sequence may be cut anywhere (`inOrder_append`).
  * Choices are the concatenation of the results at a spot, so a choice may be cut anywhere as well,
    and a part of it be changed on its own (`firstOf_append_congr`).
  * The two do not distribute from the left: `ab|ac` tries `a` twice where `a(?:b|c)` tries it once,
    and if `a` can end in two ways the results come in another order.  They do if the shared
    beginning can end in one way at most (`Single`, `Single.both_firstOf`).

  The last law is the reason why factoring takes only some beginnings out of a choice.  Assertions,
  classes and literals are `Single`, and so are sequences and exact numbers of what is.
-/
import RegexTree.Match.Results

namespace RegexTree.Matcher

/-! ## Sequences -/

theorem stay_both (m : Matcher) : both stay m = m := by
  funext s
  exact List.append_nil (m s)

theorem both_stay (m : Matcher) : both m stay = m := by
  funext s
  exact List.flatMap_singleton' (m s)

/-- Three matches in a row may be grouped either way: every result of the first is followed up
    before the next one is, in both groupings. -/
theorem both_assoc (a b c : Matcher) : both (both a b) c = both a (both b c) := by
  funext s
  exact List.flatMap_assoc

@[simp] theorem inOrder_nil : inOrder [] = stay := rfl

@[simp] theorem inOrder_cons (m : Matcher) (ms : List Matcher) :
    inOrder (m :: ms) = both m (inOrder ms) := rfl

theorem inOrder_singleton (m : Matcher) : inOrder [m] = m := both_stay m

/-- A sequence is its first part and then its second. -/
theorem inOrder_append (ms ns : List Matcher) :
    inOrder (ms ++ ns) = both (inOrder ms) (inOrder ns) := by
  induction ms with
  | nil => exact (stay_both _).symm
  | cons m rest ih => rw [List.cons_append, inOrder_cons, inOrder_cons, ih, both_assoc]

/-! ## Choices -/

theorem firstOf_singleton (m : Matcher) : firstOf [m] = m := by
  funext s
  exact List.append_nil (m s)

/-- The results of a choice are those of its first branches and then those of the others. -/
theorem firstOf_append_apply (ms ns : List Matcher) (s : Spot) :
    firstOf (ms ++ ns) s = firstOf ms s ++ firstOf ns s :=
  List.flatMap_append

/-- Choices that cannot be told apart stay so in a larger one. -/
theorem firstOf_append_congr {ms ms' ns ns' : List Matcher} (h : firstOf ms = firstOf ms')
    (h' : firstOf ns = firstOf ns') : firstOf (ms ++ ns) = firstOf (ms' ++ ns') := by
  funext s
  rw [firstOf_append_apply, firstOf_append_apply, h, h']

/-! ## Matches that end in one way at most -/

/-- The match can end in one way at most. -/
def Single (m : Matcher) : Prop := ∀ s, m s = [] ∨ ∃ t, m s = [t]

theorem single_stay : Single stay := fun s => Or.inr ⟨s, rfl⟩

/-- An assertion holds and ends where it began, or it does not hold. -/
theorem single_place (holds : Cursor → Bool) : Single (place holds) := by
  intro s
  unfold place
  split
  · exact Or.inr ⟨s, rfl⟩
  · exact Or.inl rfl

/-- One character is there and is accepted, or there is no way to end. -/
theorem single_oneRune (accepts : Nat → Bool) : Single (oneRune accepts) := by
  intro s
  unfold oneRune
  split
  · split
    · exact Or.inr ⟨_, rfl⟩
    · exact Or.inl rfl
  · exact Or.inl rfl

/-- The one end of the first match is the one beginning of the second. -/
theorem Single.both {m n : Matcher} (hm : Single m) (hn : Single n) : Single (both m n) := by
  intro s
  rcases hm s with h | ⟨t, h⟩
  · left
    rw [Matcher.both, h, List.flatMap_nil]
  · rw [Matcher.both, h, List.flatMap_singleton]
    exact hn t

/-- A sequence of such matches has one end at most, by induction on its parts. -/
theorem Single.inOrder {ms : List Matcher} (h : ∀ m ∈ ms, Single m) : Single (inOrder ms) := by
  induction ms with
  | nil => exact single_stay
  | cons m rest ih =>
    obtain ⟨hm, hrest⟩ := List.forall_mem_cons.mp h
    exact hm.both (ih hrest)

/-- A fixed number of rounds is a sequence of one and the same match, and has one end at most. -/
theorem Single.exactly {m : Matcher} (hm : Single m) (n : Nat) : Single (exactly m n) := by
  induction n with
  | zero => exact single_stay
  | succ n ih => exact hm.both ih

/-- What ends in one way at most is tried once for all branches after it. -/
theorem Single.both_firstOf {m : Matcher} (hm : Single m) (ns : List Matcher) :
    Matcher.both m (firstOf ns) = firstOf (ns.map (Matcher.both m)) := by
  funext s
  rw [Matcher.both, firstOf, List.flatMap_map]
  rcases hm s with h | ⟨t, h⟩
  · simp only [Matcher.both, h, List.flatMap_nil]
    induction ns with
    | nil => rfl
    | cons n rest ih => exact ih
  · simp only [Matcher.both, h, List.flatMap_singleton]
    rfl

end RegexTree.Matcher
