/-
  Matchers that set nothing where they match the empty text.

  `x++` is not `x+` in general: a required iteration may match the empty text, and what the captures
  took there stays.  On `aa` the tree `(?:(?:()|a)+)+` may take a letter, capture the empty text
  after it in the required round of the inner plus and take the other letter, which the single plus
  cannot.

  A `Still` matcher leaves the spot as it is where it takes no character, and then further rounds of
  a plus give nothing new (`both_star_of_still`): a round either takes something, and then it is one
  that the inner plus would have made too, or it ends where it began and has set nothing.

  Stillness is kept by everything that matchers are made with except by captures, so without
  captures everything is still (`Label.results_still`).  It is a property of the results only, so it
  carries over to matchers that are like each other (`Still.of_like`), and a plus is still just if
  its operand is (`Still.of_plus`): the operand's results are among its own.
-/
import RegexTree.Proofs.Match.Repeat

namespace RegexTree

namespace Matcher

/-- Where nothing is taken the spot stays as it is, also what the captures took. -/
def Still (m : Matcher) : Prop := ∀ s, ∀ t ∈ m s, t.left < s.left ∨ t = s

theorem still_fail : Still fail := fun _ _ ht => absurd ht List.not_mem_nil

theorem still_stay : Still stay := fun _ _ ht => Or.inr (List.mem_singleton.mp ht)

theorem still_place (holds : Cursor → Bool) : Still (place holds) := by
  intro s t ht
  unfold place at ht
  split at ht
  · exact still_stay s t ht
  · cases ht

/-- One character always takes something. -/
theorem still_oneRune (accepts : Nat → Bool) : Still (oneRune accepts) := by
  intro s t ht
  unfold oneRune at ht
  split at ht
  · next c hc =>
    split at ht
    · rw [List.mem_singleton.mp ht]
      have hpos : 0 < s.cursor.rest.length :=
        List.length_pos_of_mem (List.mem_of_mem_head? (Option.mem_def.mpr hc))
      left
      show (s.cursor.rest.drop 1).length < s.cursor.rest.length
      rw [List.length_drop]
      omega
    · cases ht
  · cases ht

/-- Alike matchers have the same results, so both are still or none is. -/
theorem Still.of_like {m n : Matcher} (h : Still m) (hmn : Like m n) : Still n :=
  fun s t ht => h s t (((hmn s).mem_iff t).mpr ht)

/-- If two matches take nothing together, neither of them does. -/
theorem Still.both {m n : Matcher} (hm : Still m) (hn : Still n) : Still (both m n) := by
  intro s t ht
  obtain ⟨u, hu, htu⟩ := List.mem_flatMap.mp ht
  rcases hm s u hu with hlt | rfl
  · rcases hn u t htu with hlt' | rfl
    · exact Or.inl (by omega)
    · exact Or.inl hlt
  · exact hn u t htu

/-- Staying changes nothing, so only what goes on is in question. -/
theorem still_prefer {more : Matcher} (h : Still more) (lazy : Bool) :
    Still fun s => prefer lazy (more s) s := by
  intro s t ht
  rcases mem_prefer.mp ht with rfl | ht
  · exact Or.inr rfl
  · exact h s t ht

/-- Of any star: what it requires it takes. -/
theorem still_star (lazy : Bool) (m : Matcher) : Still (star lazy m) := by
  intro s t ht
  rw [star_eq, mem_prefer] at ht
  rcases ht with rfl | ht
  · exact Or.inr rfl
  · obtain ⟨u, hu, htu⟩ := List.mem_flatMap.mp ht
    have hlt := left_lt_of_mem_consuming hu
    have hle := left_le_of_mem_star u t htu
    exact Or.inl (by omega)

/-- By induction on the bound: each further round begins where nothing was set. -/
theorem Still.atMost {m : Matcher} (h : Still m) (lazy : Bool) (count : Nat) :
    Still (atMost lazy m count) := by
  induction count with
  | zero => exact still_stay
  | succ count ih => exact still_prefer (h.both ih) lazy

theorem Still.exactly {m : Matcher} (h : Still m) (count : Nat) : Still (exactly m count) := by
  induction count with
  | zero => exact still_stay
  | succ count ih => exact h.both ih

theorem Still.counted {m : Matcher} (h : Still m) (min max : Int) (lazy : Bool) :
    Still (counted min max lazy m) := by
  refine (h.exactly min.toNat).both ?_
  split
  · exact still_star lazy m
  · exact h.atMost lazy _

/-- What a plus leaves as it is, its operand does. -/
theorem Still.of_plus {m : Matcher} {lazy : Bool} (h : Still (plus lazy m)) : Still m := by
  intro s t ht
  refine h s t (List.mem_flatMap.mpr ⟨t, ht, ?_⟩)
  rw [star_eq]
  exact mem_prefer.mpr (Or.inl rfl)

/-! ## A plus of a plus -/

/-- Iterations that must take something are those of the operand, whether it is required once
    or not. -/
theorem Still.consuming_plus {m : Matcher} (h : Still m) (lazy : Bool) (s : Spot) :
    Alike (consuming (plus lazy m) s) ((consuming m s).flatMap (star lazy m)) := by
  show Alike (((m s).flatMap (star lazy m)).filter fun t => t.left < s.left) _
  rw [List.filter_flatMap]
  refine alike_flatMap_absorb rfl (fun t _ hlt => ?_) fun t ht hge => ?_
  · refine List.filter_eq_self.mpr fun u hu => ?_
    have hle := left_le_of_mem_star t u hu
    simp only [decide_eq_true_eq] at hlt ⊢
    omega
  · rcases h s t ht with hlt | rfl
    · simp [hlt] at hge
    · exact consuming_star lazy m t

/-- A star over a plus of a still matcher is the star alone: rounds that take nothing are not made,
    and the first required round of the plus is one of the star. -/
theorem Still.star_plus {m : Matcher} (h : Still m) (lazy : Bool) :
    Like (star lazy (plus lazy m)) (star lazy m) := by
  intro s
  induction s using Spot.induct with
  | step s ih =>
    have hmore : Alike ((consuming (plus lazy m) s).flatMap
        (star lazy (plus lazy m)))
        (((consuming m s).flatMap (star lazy m)).flatMap (star lazy m)) := by
      refine (h.consuming_plus lazy s).flatMap fun t ht => ?_
      obtain ⟨u, hu, htu⟩ := List.mem_flatMap.mp ht
      have hlt := left_lt_of_mem_consuming hu
      have hle := left_le_of_mem_star u t htu
      exact ih t (by omega)
    rw [star_eq, star_eq]
    refine alike_prefer (hmore.trans ?_) s
    rw [List.flatMap_assoc]
    exact alike_flatMap_congr fun t _ => star_both_star lazy m t

/-- After at least one match of a plus, further ones give nothing new. -/
theorem both_star_of_still {m : Matcher} (h : Still m) (lazy : Bool) (count : Nat) :
    Like (both (exactly (plus lazy m) (count + 1))
        (star lazy (plus lazy m)))
      (exactly (plus lazy m) (count + 1)) := by
  have hlast : Like (both (plus lazy m) (star lazy m))
      (plus lazy m) := by
    rw [plus, both_assoc]
    exact (Like.refl m).both (star_both_star lazy m)
  have hstar := (Like.refl (exactly (plus lazy m) (count + 1))).both
    (h.star_plus lazy)
  refine hstar.trans ?_
  rw [exactly_add, both_assoc, exactly_one]
  exact (Like.refl _).both hlast

end Matcher

/-! ## Trees -/

open Matcher

/-- A sequence that takes nothing takes nothing in any of its parts, so it is still if they are. -/
theorem Matcher.Still.inOrder {ms : List Matcher} (h : ∀ m ∈ ms, Still m) : Still (inOrder ms) := by
  induction ms with
  | nil => exact still_stay
  | cons m rest ih =>
    obtain ⟨hm, hrest⟩ := List.forall_mem_cons.mp h
    exact hm.both (ih hrest)

theorem Matcher.Still.firstOf {ms : List Matcher} (h : ∀ m ∈ ms, Still m) : Still (firstOf ms) := by
  intro s t ht
  obtain ⟨m, hm, htm⟩ := List.mem_flatMap.mp ht
  exact h m hm s t htm

/-- Only captures set something where they match the empty text. -/
theorem Label.results_still {l : Label} (hop : l.op ≠ .capture) {ms : List Matcher}
    (h : ∀ m ∈ ms, Still m) : Still (l.results ms) := by
  have hhead : Still (ms.headD fail) := by
    cases ms with
    | nil => exact still_fail
    | cons m rest => exact h m List.mem_cons_self
  unfold Label.results
  cases hl : l.op with
  | noMatch | leftParen | verticalBar => exact still_fail
  | emptyMatch => exact still_stay
  | literal =>
    refine Still.inOrder fun m hm => ?_
    obtain ⟨r, -, rfl⟩ := List.mem_map.mp hm
    exact still_oneRune _
  | charClass | anyCharNotNL | anyChar => exact still_oneRune _
  | beginLine | endLine | beginText | endText | wordBoundary | noWordBoundary =>
    exact still_place _
  | capture => exact absurd hl hop
  | star => exact still_star _ _
  | plus => exact hhead.both (still_star _ _)
  | quest => exact hhead.atMost _ 1
  | counted => exact hhead.counted _ _ _
  | concat => exact Still.inOrder h
  | alternate => exact Still.firstOf h

end RegexTree
