/-
  What was captured before a match began.

  A match never reads what the captures took, it only sets it.  So the results from a spot are those
  from the same place with nothing captured, with the earlier spans filled in where the match set
  none (`results_after`).

  `after earlier` fills in the spans of a spot, and a matcher is `Natural` if that may be done
  before the match as well as to each of its results.  It is said of every way to make a matcher,
  from `stay` to `counted`, so that the theorem on trees is one case for each operation of a node
  (`Label.results_natural`).  The one case with an argument is the capture itself: recording a span
  over the filled-in list is filling in after the span was recorded (`record_overlay`), since a span
  that is set hides the earlier one.

  Two trees that match alike from every place with nothing captured match alike from every spot
  (`sameMatches_iff_like`): the first is what a user can observe of a pattern, the second is what
  the induction over trees needs.
-/
import RegexTree.Proofs.Match.Repeat

namespace RegexTree

namespace Spot

/-- The later spans, and the earlier ones of the captures that took nothing later. -/
def overlay : (earlier later : List (Option (Nat × Nat))) → List (Option (Nat × Nat))
  | [], later => later
  | earlier, [] => earlier
  | x :: earlier, y :: later => y.or x :: overlay earlier later

/-- The spot with the spans that the captures had before. -/
def after (earlier : List (Option (Nat × Nat))) (s : Spot) : Spot :=
  { s with spans := overlay earlier s.spans }

/-- A match that set nothing leaves the earlier spans as they are. -/
theorem overlay_nil (earlier : List (Option (Nat × Nat))) : overlay earlier [] = earlier := by
  cases earlier <;> rfl

/-- From a place with nothing captured, filling in gives the spot back. -/
theorem after_start (s : Spot) : after s.spans { cursor := s.cursor } = s := by
  rw [after, overlay_nil]

/-- A span that is recorded over the earlier ones is seen before all of them, so it may be recorded
    first and they be filled in afterwards. -/
theorem record_overlay (earlier later : List (Option (Nat × Nat))) (cap : Nat) (span : Nat × Nat) :
    record (overlay earlier later) cap span = overlay earlier (record later cap span) := by
  induction cap generalizing earlier later with
  | zero =>
    cases earlier with
    | nil => rfl
    | cons x earlier =>
      cases later with
      | nil =>
        show some span :: earlier = some span :: overlay earlier []
        rw [overlay_nil]
      | cons y later => rfl
  | succ cap ih =>
    cases earlier with
    | nil => rfl
    | cons x earlier =>
      cases later with
      | nil =>
        show x :: record earlier cap span = x :: overlay earlier (record [] cap span)
        rw [← ih, overlay_nil]
      | cons y later =>
        show y.or x :: record (overlay earlier later) cap span = y.or x :: _
        rw [ih]

end Spot

open Spot

namespace Matcher

/-- Earlier spans come through the match as they are. -/
def Natural (m : Matcher) : Prop := ∀ earlier s, m (after earlier s) = (m s).map (after earlier)

theorem natural_stay : Natural stay := fun _ _ => rfl

theorem natural_fail : Natural fail := fun _ _ => rfl

/-- Whether an assertion holds is seen from the cursor alone. -/
theorem natural_place (holds : Cursor → Bool) : Natural (place holds) := by
  intro earlier s
  show (if holds s.cursor then [after earlier s] else []) = List.map _ (if _ then [s] else [])
  split <;> rfl

theorem natural_oneRune (accepts : Nat → Bool) : Natural (oneRune accepts) := by
  intro earlier s
  have hpeek : (after earlier s).cursor.peek? = s.cursor.peek? := rfl
  rw [oneRune, oneRune, hpeek]
  cases s.cursor.peek? with
  | none => rfl
  | some c =>
    show (if accepts c.toNat then _ else _) = List.map _ (if accepts c.toNat then _ else _)
    split <;> rfl

/-- What the first match leaves is where the second begins, with the same spans filled in. -/
theorem Natural.both {m n : Matcher} (hm : Natural m) (hn : Natural n) : Natural (both m n) := by
  intro earlier s
  rw [Matcher.both, hm, List.flatMap_map, Matcher.both, List.map_flatMap]
  exact congrArg (List.flatMap · (m s)) (funext fun t => hn earlier t)

/-- A sequence fills in from its first part to its last. -/
theorem Natural.inOrder {ms : List Matcher} (h : ∀ m ∈ ms, Natural m) : Natural (inOrder ms) := by
  induction ms with
  | nil => exact natural_stay
  | cons m rest ih =>
    obtain ⟨hm, hrest⟩ := List.forall_mem_cons.mp h
    exact hm.both (ih hrest)

/-- A choice fills in for each of its branches. -/
theorem Natural.firstOf {ms : List Matcher} (h : ∀ m ∈ ms, Natural m) : Natural (firstOf ms) := by
  intro earlier s
  rw [Matcher.firstOf, Matcher.firstOf, List.map_flatMap]
  exact List.flatMap_congr fun m hm => h m hm earlier s

/-- Going on or staying is chosen alike whatever is done to the results. -/
theorem map_prefer (f : Spot → Spot) (lazy : Bool) (more : List Spot) (s : Spot) :
    (prefer lazy more s).map f = prefer lazy (more.map f) (f s) := by
  cases lazy with
  | true => rfl
  | false => exact List.map_append

/-- Any number of rounds, by induction on what is left of the text: every round that counts takes
    some of it, and filling in changes nothing about that. -/
theorem Natural.star {m : Matcher} (hm : Natural m) (lazy : Bool) : Natural (star lazy m) := by
  intro earlier s
  -- each round of a star takes something, so less of the text is left
  induction s using Spot.induct with
  | step s ih =>
    have hfirst : consuming m (after earlier s) = (consuming m s).map (after earlier) := by
      rw [consuming, consuming, hm, List.filter_map]
      rfl
    rw [star_eq, hfirst, star_eq, map_prefer, List.flatMap_map, List.map_flatMap]
    refine congrArg (prefer lazy · (after earlier s)) ?_
    exact List.flatMap_congr fun t ht => ih t (left_lt_of_mem_consuming ht)

/-- A bounded number of rounds, by induction on the bound. -/
theorem Natural.atMost {m : Matcher} (hm : Natural m) (lazy : Bool) (count : Nat) :
    Natural (atMost lazy m count) := by
  induction count with
  | zero => exact natural_stay
  | succ count ih =>
    intro earlier s
    show prefer lazy (Matcher.both m (Matcher.atMost lazy m count) (after earlier s)) _ = _
    rw [hm.both ih, ← map_prefer]
    rfl

theorem Natural.exactly {m : Matcher} (hm : Natural m) (count : Nat) :
    Natural (exactly m count) := by
  induction count with
  | zero => exact natural_stay
  | succ count ih => exact hm.both ih

/-- A repetition with bounds is made of an exact number of rounds and of others that may be left
    out. -/
theorem Natural.counted {m : Matcher} (hm : Natural m) (min max : Int) (lazy : Bool) :
    Natural (counted min max lazy m) := by
  refine (hm.exactly min.toNat).both ?_
  split
  · exact hm.star lazy
  · exact hm.atMost lazy _

/-- A capture records its span over what was filled in. -/
theorem Natural.captured {m : Matcher} (hm : Natural m) (cap : Nat) : Natural (captured cap m) := by
  intro earlier s
  rw [Matcher.captured, Matcher.captured, hm, List.map_map, List.map_map]
  refine List.map_congr_left fun t _ => ?_
  show Spot.mk t.cursor (record (overlay earlier t.spans) cap _) = Spot.mk t.cursor _
  rw [record_overlay]
  rfl

end Matcher

open Matcher

/-- A node does with its operands what is natural, whatever its operation. -/
theorem Label.results_natural (l : Label) {ms : List Matcher} (h : ∀ m ∈ ms, Natural m) :
    Natural (l.results ms) := by
  have hhead : Natural (ms.headD fail) := by
    cases ms with
    | nil => exact natural_fail
    | cons m rest => exact h m List.mem_cons_self
  unfold Label.results
  cases l.op with
  | noMatch | leftParen | verticalBar => exact natural_fail
  | emptyMatch => exact natural_stay
  | literal =>
    refine Natural.inOrder fun m hm => ?_
    obtain ⟨r, -, rfl⟩ := List.mem_map.mp hm
    exact natural_oneRune _
  | charClass | anyCharNotNL | anyChar => exact natural_oneRune _
  | beginLine | endLine | beginText | endText | wordBoundary | noWordBoundary =>
    exact natural_place _
  | capture => exact hhead.captured _
  | star => exact hhead.star _
  | plus => exact hhead.both (hhead.star _)
  | quest => exact hhead.atMost _ 1
  | counted => exact hhead.counted _ _ _
  | concat => exact Natural.inOrder h
  | alternate => exact Natural.firstOf h

namespace Tree

/-- The results after something was captured are those from the place alone, with the earlier
    spans filled in. -/
theorem results_after (t : Tree) : Natural t.results := by
  induction t using induct with
  | step l subs ih =>
    rw [results_node]
    refine l.results_natural fun m hm => ?_
    obtain ⟨u, hu, rfl⟩ := List.mem_map.mp hm
    exact ih u hu

/-- From every place of every text the trees have the same results in the same order of
    preference, once later duplicates are dropped. -/
def SameMatches (t u : Tree) : Prop :=
  ∀ c : Cursor, Alike (t.results { cursor := c }) (u.results { cursor := c })

/-- To match alike from every place with nothing captured is to match alike from every spot. -/
theorem sameMatches_iff_like {t u : Tree} : t.SameMatches u ↔ Like t.results u.results := by
  refine ⟨fun h s => ?_, fun h c => h _⟩
  rw [← after_start s, results_after, results_after]
  exact (h s.cursor).map _

end Tree

end RegexTree
