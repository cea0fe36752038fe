/-
  The algebra of repetitions.

  Matchers are `Like` each other if their results at every spot are the same up to later duplicates.
  Everything that matchers are made with keeps that (`Label.results_like`), and a repetition of a
  repetition of the same kind is like the inner one alone:

  * `star_star`: what `x**` offers beyond `x*` are paths that `x*` takes too.  The argument is
    `star_both_star` (any number of iterations and then any number again is any number) and the
    induction on what is left of the text;
  * `atMost_atMost`: `x??` is `x?`.

  A star goes on only from where something was taken (`consuming`), which is what makes it end.  So
  its equation (`star_eq`) speaks of those spots alone, and every induction on a star is one on the
  characters that are left (`Spot.induct`).  Staying is one result, offered first or last as the
  repetition is lazy or greedy (`prefer`); the lemmas about `prefer` are stated for both at once, so
  that none of the laws is proved twice.

  Equality holds only up to later duplicates: `(?:a*)*` on `aa` ends after both letters twice, with
  two rounds and with one, where `a*` does so once.
-/
import RegexTree.Proofs.Match.Algebra
import RegexTree.Proofs.Match.Duplicates
import Mathlib.Data.List.Forall2

namespace RegexTree

/-- Induction on how much of the text is left. -/
theorem Spot.induct {P : Spot → Prop} (step : ∀ s : Spot, (∀ t : Spot, t.left < s.left → P t) → P s)
    (s : Spot) : P s := by
  induction hn : s.left using Nat.strongRecOn generalizing s with
  | _ n ih =>
    refine step s fun t ht => ih t.left ?_ t rfl
    omega

namespace Matcher

/-- The results are the same up to later duplicates, from every spot. -/
def Like (m n : Matcher) : Prop := ∀ s, Alike (m s) (n s)

theorem Like.refl (m : Matcher) : Like m m := fun s => Alike.refl (m s)

theorem Like.symm {m n : Matcher} (h : Like m n) : Like n m := fun s => (h s).symm

theorem Like.trans {m n o : Matcher} (h : Like m n) (h' : Like n o) : Like m o :=
  fun s => (h s).trans (h' s)

/-! ## Going on or staying -/

/-- The results are those of going on and the spot itself, in either order. -/
theorem mem_prefer {lazy : Bool} {more : List Spot} {s t : Spot} :
    t ∈ prefer lazy more s ↔ t = s ∨ t ∈ more := by
  cases lazy with
  | true => exact List.mem_cons
  | false =>
    show t ∈ more ++ [s] ↔ t = s ∨ t ∈ more
    rw [List.mem_append, List.mem_singleton, or_comm]

/-- What goes on may be changed for what is alike. -/
theorem alike_prefer {lazy : Bool} {more more' : List Spot} (h : Alike more more') (s : Spot) :
    Alike (prefer lazy more s) (prefer lazy more' s) := by
  cases lazy with
  | true => exact h.append_left [s]
  | false => exact h.append_right [s]

/-- A filter that drops just the spot itself leaves what goes on. -/
theorem prefer_filter {lazy : Bool} {more : List Spot} {s : Spot} {p : Spot → Bool}
    (hs : p s = false) (hmore : ∀ t ∈ more, p t = true) :
    (prefer lazy more s).filter p = more := by
  have hall : more.filter p = more := List.filter_eq_self.mpr hmore
  have hs' : ¬p s = true := by simp [hs]
  cases lazy with
  | true =>
    show (s :: more).filter p = more
    rw [List.filter_cons_of_neg hs', hall]
  | false =>
    show (more ++ [s]).filter p = more
    rw [List.filter_append, hall, List.filter_cons_of_neg hs', List.filter_nil, List.append_nil]

/-! ## Any number of matches -/

/-- The results that take at least one character. -/
def consuming (m : Matcher) (s : Spot) : List Spot := (m s).filter fun t => t.left < s.left

/-- A round that counts leaves less of the text. -/
theorem left_lt_of_mem_consuming {m : Matcher} {s t : Spot} (h : t ∈ consuming m s) :
    t.left < s.left := by
  simpa using (List.mem_filter.mp h).2

/-- A star stays, or makes a round that takes something and is at its beginning again.  The
    definition carries along that each round takes something, which the recursion needs; here that
    is gone. -/
theorem star_eq (lazy : Bool) (m : Matcher) (s : Spot) :
    star lazy m s = prefer lazy ((consuming m s).flatMap (star lazy m)) s := by
  have hattach : ((consuming m s).attach.flatMap fun t => star lazy m t.1)
      = (consuming m s).flatMap (star lazy m) := by
    conv => rhs; rw [← List.attach_map_subtype_val (consuming m s)]
    rw [List.flatMap_map]
  rw [star, ← hattach]
  rfl

/-- A star never goes back. -/
theorem left_le_of_mem_star {lazy : Bool} {m : Matcher} (s : Spot) :
    ∀ t ∈ star lazy m s, t.left ≤ s.left := by
  induction s using Spot.induct with
  | step s ih =>
    intro t ht
    rw [star_eq, mem_prefer] at ht
    rcases ht with rfl | ht
    · exact Nat.le_refl _
    · obtain ⟨u, hu, htu⟩ := List.mem_flatMap.mp ht
      have hlt := left_lt_of_mem_consuming hu
      have hle := ih u hlt t htu
      omega

/-- The results of a star that take something are those of its first iterations. -/
theorem consuming_star (lazy : Bool) (m : Matcher) (s : Spot) :
    consuming (star lazy m) s = (consuming m s).flatMap (star lazy m) := by
  rw [consuming, star_eq]
  refine prefer_filter (by simp) fun t ht => ?_
  obtain ⟨u, hu, htu⟩ := List.mem_flatMap.mp ht
  have hlt := left_lt_of_mem_consuming hu
  have hle := left_le_of_mem_star u t htu
  simp only [decide_eq_true_eq]
  omega

/-- Rounds that are alike make stars that are alike, by induction on what is left of the text. -/
theorem Like.star {m n : Matcher} (h : Like m n) (lazy : Bool) :
    Like (star lazy m) (star lazy n) := by
  intro s
  induction s using Spot.induct with
  | step s ih =>
    rw [star_eq, star_eq]
    refine alike_prefer (((h s).filter _).flatMap fun t ht => ?_) s
    exact ih t (left_lt_of_mem_consuming ht)

/-- Any number of matches after any number of matches. -/
theorem star_both_star (lazy : Bool) (m : Matcher) :
    Like (both (star lazy m) (star lazy m)) (star lazy m) := by
  intro s
  induction s using Spot.induct with
  | step s ih =>
    have hmore : Alike (((consuming m s).flatMap (star lazy m)).flatMap (star lazy m))
        ((consuming m s).flatMap (star lazy m)) := by
      rw [List.flatMap_assoc]
      exact alike_flatMap_congr fun t ht => ih t (left_lt_of_mem_consuming ht)
    have hself : (consuming m s).flatMap (star lazy m) ⊆ star lazy m s := by
      intro t ht
      rw [star_eq]
      exact mem_prefer.mpr (Or.inr ht)
    show Alike ((star lazy m s).flatMap (star lazy m)) (star lazy m s)
    rw [show star lazy m s = prefer lazy ((consuming m s).flatMap (star lazy m)) s from
      star_eq lazy m s]
    -- what comes from going on has come up, or comes up, where the star stays at `s`
    cases lazy with
    | true =>
      show Alike ((s :: _).flatMap (star true m)) (s :: _)
      rw [List.flatMap_cons, ← show star true m s = s :: _ from star_eq true m s]
      exact (hmore.append_left _).trans (alike_append_of_subset hself)
    | false =>
      show Alike ((_ ++ [s]).flatMap (star false m)) (_ ++ [s])
      rw [List.flatMap_append, List.flatMap_singleton, star_eq false m s]
      show Alike (_ ++ (_ ++ [s])) (_ ++ [s])
      rw [← List.append_assoc]
      exact ((hmore.append_right _).trans
        (alike_append_of_subset (List.Subset.refl _))).append_right [s]

/-- A star of a star is the star. -/
theorem star_star (lazy : Bool) (m : Matcher) :
    Like (star lazy (star lazy m)) (star lazy m) := by
  intro s
  induction s using Spot.induct with
  | step s ih =>
    rw [star_eq, consuming_star, star_eq lazy m, List.flatMap_assoc]
    refine alike_prefer (alike_flatMap_congr fun t ht => ?_) s
    have hlt := left_lt_of_mem_consuming ht
    have hinner : Alike ((star lazy m t).flatMap (star lazy (star lazy m)))
        ((star lazy m t).flatMap (star lazy m)) := by
      refine alike_flatMap_congr fun u hu => ih u ?_
      have hle := left_le_of_mem_star t u hu
      omega
    exact hinner.trans (star_both_star lazy m t)

/-! ## Other repetitions -/

theorem Like.both {m m' n n' : Matcher} (h : Like m m') (h' : Like n n') :
    Like (both m n) (both m' n') :=
  fun s => (h s).flatMap fun t _ => h' t

/-- A fixed number of rounds, by induction on the number. -/
theorem Like.exactly {m n : Matcher} (h : Like m n) (count : Nat) :
    Like (exactly m count) (exactly n count) := by
  induction count with
  | zero => exact Like.refl stay
  | succ count ih => exact h.both ih

/-- A bounded number of rounds, by induction on the bound. -/
theorem Like.atMost {m n : Matcher} (h : Like m n) (lazy : Bool) (count : Nat) :
    Like (atMost lazy m count) (atMost lazy n count) := by
  induction count with
  | zero => exact Like.refl stay
  | succ count ih => exact fun s => alike_prefer ((h s).flatMap fun t _ => ih t) s

theorem Like.plus {m n : Matcher} (h : Like m n) (lazy : Bool) :
    Like (plus lazy m) (plus lazy n) :=
  h.both (h.star lazy)

/-- A repetition with bounds, from its required rounds and from the others. -/
theorem Like.counted {m n : Matcher} (h : Like m n) (min max : Int) (lazy : Bool) :
    Like (counted min max lazy m) (counted min max lazy n) := by
  refine (h.exactly min.toNat).both ?_
  split
  · exact h.star lazy
  · exact h.atMost lazy _

/-- An optional match is the match or nothing. -/
theorem atMost_one (lazy : Bool) (m : Matcher) (s : Spot) :
    atMost lazy m 1 s = prefer lazy (m s) s := by
  show prefer lazy ((m s).flatMap stay) s = prefer lazy (m s) s
  rw [show (m s).flatMap stay = m s from congrFun (both_stay m) s]

/-- One more optional match stands around the others. -/
theorem atMost_succ (lazy : Bool) (m : Matcher) (count : Nat) :
    atMost lazy m (count + 1) = atMost lazy (both m (atMost lazy m count)) 1 := by
  funext s
  rw [atMost_one]
  rfl

/-- An optional match that is optional is an optional match. -/
theorem atMost_atMost (lazy : Bool) (m : Matcher) :
    Like (atMost lazy (atMost lazy m 1) 1) (atMost lazy m 1) := by
  intro s
  rw [atMost_one, atMost_one]
  cases lazy with
  | true =>
    show Alike (([s] ++ [s]) ++ m s) ([s] ++ m s)
    exact (alike_append_of_subset (List.Subset.refl [s])).append_right (m s)
  | false =>
    show Alike ((m s ++ [s]) ++ [s]) (m s ++ [s])
    exact alike_append_of_subset (List.subset_append_right (m s) [s])

theorem exactly_succ (m : Matcher) (count : Nat) :
    exactly m (count + 1) = both m (exactly m count) := rfl

theorem exactly_one (m : Matcher) : exactly m 1 = m := both_stay m

/-- Required rounds may be counted in two parts. -/
theorem exactly_add (m : Matcher) (a b : Nat) :
    exactly m (a + b) = both (exactly m a) (exactly m b) := by
  induction a with
  | zero => rw [Nat.zero_add, exactly, stay_both]
  | succ a ih => rw [Nat.succ_add, exactly_succ, exactly_succ, ih, both_assoc]

theorem inOrder_replicate (count : Nat) (m : Matcher) :
    inOrder (List.replicate count m) = exactly m count := by
  induction count with
  | zero => rfl
  | succ count ih => rw [List.replicate_succ, inOrder_cons, ih, exactly_succ]

/-! ## The empty text repeated -/

/-- The empty text any number of times is the empty text: no round of it counts. -/
theorem star_stay (lazy : Bool) : star lazy stay = stay := by
  funext s
  have hnone : consuming stay s = [] := by simp [consuming, stay]
  rw [star_eq, hnone, List.flatMap_nil]
  cases lazy <;> rfl

theorem exactly_stay (count : Nat) : exactly stay count = stay := by
  induction count with
  | zero => rfl
  | succ count ih => rw [exactly_succ, ih, stay_both]

/-- Trying the empty text a number of times offers copies of one result. -/
theorem atMost_stay (lazy : Bool) (count : Nat) : Like (atMost lazy stay count) stay := by
  induction count with
  | zero => exact Like.refl stay
  | succ count ih =>
    intro s
    have htwice : Alike [s, s] [s] := alike_append_of_subset (List.Subset.refl [s])
    have hmore : Alike (atMost lazy stay (count + 1) s) (prefer lazy [s] s) := by
      refine alike_prefer ?_ s
      rw [show (stay s).flatMap (atMost lazy stay count) = atMost lazy stay count s
        from List.flatMap_singleton _ s]
      exact ih s
    cases lazy with
    | true => exact hmore.trans htwice
    | false => exact hmore.trans htwice

theorem plus_stay (lazy : Bool) : plus lazy stay = stay := by
  rw [plus, star_stay, stay_both]

theorem counted_stay (min max : Int) (lazy : Bool) :
    Like (counted min max lazy stay) stay := by
  rw [counted, exactly_stay, stay_both]
  split
  · rw [star_stay]
    exact Like.refl stay
  · exact atMost_stay lazy _

end Matcher

/-! ## Trees -/

open Matcher

/-- Sequences of matchers that are alike one by one are alike. -/
theorem Matcher.Like.inOrder {ms ns : List Matcher} (h : List.Forall₂ Like ms ns) :
    Like (inOrder ms) (inOrder ns) := by
  induction h with
  | nil => exact Like.refl stay
  | cons hm _ ih => exact hm.both ih

theorem Matcher.Like.firstOf {ms ns : List Matcher} (h : List.Forall₂ Like ms ns) :
    Like (firstOf ms) (firstOf ns) := by
  intro s
  induction h with
  | nil => exact Alike.refl []
  | cons hm _ ih => exact (hm s).append ih

theorem Matcher.Like.headD {ms ns : List Matcher} (h : List.Forall₂ Like ms ns) :
    Like (ms.headD fail) (ns.headD fail) := by
  cases h with
  | nil => exact Like.refl fail
  | cons hm _ => exact hm

/-- Like operands give like results, whatever the operation. -/
theorem Label.results_like (l : Label) {ms ns : List Matcher} (h : List.Forall₂ Like ms ns) :
    Like (l.results ms) (l.results ns) := by
  have hhead := Like.headD h
  unfold Label.results
  cases l.op with
  | capture => exact fun s => (hhead s).map _
  | star => exact hhead.star _
  | plus => exact hhead.plus _
  | quest => exact hhead.atMost _ 1
  | counted => exact hhead.counted _ _ _
  | concat => exact Like.inOrder h
  | alternate => exact Like.firstOf h
  | _ => exact Like.refl _

end RegexTree
