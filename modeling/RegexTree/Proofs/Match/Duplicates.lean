/-
  Lists that are the same up to later duplicates.

  Of results in order of preference only the first of each counts: who asks for the best result, or
  the best that goes on to some end, never comes to a second copy.  `Alike xs ys` says that the
  lists are equal once each element stands only where it comes up first.

  * `Alike.append`, `Alike.flatMap` and `Alike.filter`: alike lists may stand for one another,
    whatever is done with them afterwards;
  * `alike_append_of_subset`: what came up before adds nothing;
  * `alike_flatMap_absorb`: one element of a list may stand for everything that the list
    contributes.

  Dropping later duplicates takes the head and filters the rest by it, and that filter stands in the
  way of an induction on the list.  `eraseDups_induct` is the induction that goes with it; after
  `filter_eraseDups` (filters commute with dropping duplicates) the other laws need no induction of
  their own.
-/
import Mathlib.Data.List.Basic

namespace RegexTree

/-- The lists are equal once later duplicates are dropped. -/
def Alike {α : Type} [DecidableEq α] (xs ys : List α) : Prop := xs.eraseDups = ys.eraseDups

section

variable {α β : Type} [DecidableEq α] [DecidableEq β]

instance (xs ys : List α) : Decidable (Alike xs ys) :=
  inferInstanceAs (Decidable (xs.eraseDups = ys.eraseDups))

namespace Alike

theorem refl (xs : List α) : Alike xs xs := rfl

theorem symm {xs ys : List α} (h : Alike xs ys) : Alike ys xs := Eq.symm h

theorem trans {xs ys zs : List α} (h : Alike xs ys) (h' : Alike ys zs) : Alike xs zs :=
  Eq.trans h h'

/-- Alike lists have the same elements. -/
theorem mem_iff {xs ys : List α} (h : Alike xs ys) (x : α) : x ∈ xs ↔ x ∈ ys := by
  rw [← List.mem_eraseDups, h, List.mem_eraseDups]

end Alike

/-! ## Filters -/

/-- What holds of a list once it does without the duplicates of its first element, holds of every
    list. -/
theorem eraseDups_induct {P : List α → Prop} (nil : P [])
    (cons : ∀ x rest, P (rest.filter fun y => !y == x) → P (x :: rest)) (xs : List α) : P xs := by
  induction hn : xs.length using Nat.strongRecOn generalizing xs with
  | _ n ih =>
    cases xs with
    | nil => exact nil
    | cons x rest =>
      refine cons x rest (ih _ ?_ _ rfl)
      rw [← hn, List.length_cons]
      exact Nat.lt_succ_of_le (List.length_filter_le _ rest)

/-- Filtering before duplicates are dropped is filtering afterwards: the first of several equal
    elements passes just if all of them do. -/
theorem filter_eraseDups (p : α → Bool) (xs : List α) :
    xs.eraseDups.filter p = (xs.filter p).eraseDups := by
  induction xs using eraseDups_induct with
  | nil => rfl
  | cons x rest ih =>
    rw [List.eraseDups_cons, List.filter_cons, List.filter_cons, ih, List.filter_comm]
    split
    · rw [List.eraseDups_cons]
    · next hx =>
      -- where `x` goes, all its duplicates go
      have hself : (rest.filter p).filter (fun y => !y == x) = rest.filter p := by
        refine List.filter_eq_self.mpr fun y hy => ?_
        have hp := (List.mem_filter.mp hy).2
        have hne : y ≠ x := by
          rintro rfl
          exact hx hp
        simpa using hne
      rw [hself]

theorem Alike.filter {xs ys : List α} (h : Alike xs ys) (p : α → Bool) :
    Alike (xs.filter p) (ys.filter p) := by
  show (xs.filter p).eraseDups = (ys.filter p).eraseDups
  rw [← filter_eraseDups, ← filter_eraseDups, h]

/-! ## One list after another -/

/-- Lists that are put together from alike parts are alike.  What the second part adds is what the
    first one lacks, and that is the same question for both. -/
theorem Alike.append {xs xs' ys ys' : List α} (h : Alike xs xs') (h' : Alike ys ys') :
    Alike (xs ++ ys) (xs' ++ ys') := by
  have hmem : (fun y => !xs.elem y) = fun y => !xs'.elem y := by
    funext y
    rw [Bool.eq_iff_iff, Bool.not_eq_true', Bool.not_eq_true', ← Bool.not_eq_true,
      ← Bool.not_eq_true, List.elem_iff, List.elem_iff, h.mem_iff y]
  show (xs ++ ys).eraseDups = (xs' ++ ys').eraseDups
  rw [List.eraseDups_append, List.eraseDups_append, h, List.removeAll, List.removeAll, hmem,
    h'.filter]

theorem Alike.append_left {ys ys' : List α} (xs : List α) (h : Alike ys ys') :
    Alike (xs ++ ys) (xs ++ ys') :=
  (Alike.refl xs).append h

theorem Alike.append_right {xs xs' : List α} (h : Alike xs xs') (ys : List α) :
    Alike (xs ++ ys) (xs' ++ ys) :=
  h.append (Alike.refl ys)

/-- What came up before adds nothing. -/
theorem alike_append_of_subset {xs ys : List α} (h : ys ⊆ xs) : Alike (xs ++ ys) xs := by
  have hnil : ys.removeAll xs = [] := by
    refine List.filter_eq_nil_iff.mpr fun y hy => ?_
    simpa using h hy
  show (xs ++ ys).eraseDups = xs.eraseDups
  rw [List.eraseDups_append, hnil, List.eraseDups_nil, List.append_nil]

/-! ## A list for each element -/

omit [DecidableEq β] in
/-- A list made of alike lists, one for each element, is alike; by induction on the elements. -/
theorem alike_flatMap_congr {f g : β → List α} {xs : List β} (h : ∀ x ∈ xs, Alike (f x) (g x)) :
    Alike (xs.flatMap f) (xs.flatMap g) := by
  induction xs with
  | nil => exact Alike.refl []
  | cons x rest ih =>
    obtain ⟨hx, hrest⟩ := List.forall_mem_cons.mp h
    exact hx.append (ih hrest)

omit [DecidableEq β] in
/-- Elements whose lists came up before may be left out. -/
theorem alike_flatMap_filter {f : β → List α} {before : List α} {p : β → Bool} {xs : List β}
    (h : ∀ x ∈ xs, p x = false → f x ⊆ before) :
    Alike (before ++ (xs.filter p).flatMap f) (before ++ xs.flatMap f) := by
  induction xs generalizing before with
  | nil => exact Alike.refl _
  | cons x rest ih =>
    obtain ⟨hx, hrest⟩ := List.forall_mem_cons.mp h
    rw [List.flatMap_cons, ← List.append_assoc, List.filter_cons]
    split
    · rw [List.flatMap_cons, ← List.append_assoc]
      exact ih fun y hy hp => List.Subset.trans (hrest y hy hp) (List.subset_append_left _ _)
    · next hp =>
      have hskip := alike_append_of_subset (hx (Bool.eq_false_iff.mpr hp))
      exact (ih hrest).trans (hskip.append_right _).symm

/-- An element that came up before contributes again what it contributed then. -/
theorem alike_flatMap_eraseDups (f : β → List α) (xs : List β) :
    Alike (xs.eraseDups.flatMap f) (xs.flatMap f) := by
  induction xs using eraseDups_induct with
  | nil => exact Alike.refl _
  | cons x rest ih =>
    rw [List.eraseDups_cons, List.flatMap_cons, List.flatMap_cons]
    refine (ih.append_left (f x)).trans (alike_flatMap_filter fun y _ hy => ?_)
    have hyx : y = x := by simpa using hy
    exact hyx ▸ List.Subset.refl _

/-- Alike lists contribute alike lists if the elements do. -/
theorem Alike.flatMap {xs ys : List β} (h : Alike xs ys) {f g : β → List α}
    (hfg : ∀ x ∈ ys, Alike (f x) (g x)) : Alike (xs.flatMap f) (ys.flatMap g) := by
  have hxs := (alike_flatMap_eraseDups f xs).symm
  rw [show xs.eraseDups = ys.eraseDups from h] at hxs
  exact (hxs.trans (alike_flatMap_eraseDups f ys)).trans (alike_flatMap_congr hfg)

/-- Alike lists stay alike under a function, which may make more elements equal. -/
theorem Alike.map {xs ys : List β} (h : Alike xs ys) (f : β → α) :
    Alike (xs.map f) (ys.map f) := by
  rw [List.map_eq_flatMap, List.map_eq_flatMap]
  exact h.flatMap fun x _ => Alike.refl _

omit [DecidableEq β] in
/-- An element may contribute all that the chosen elements contribute together, and not only its own
    part of it.  By induction on the elements that are left, with what the chosen ones before them
    have contributed in front: where an element contributes all, what comes after it is a duplicate,
    and what came before begins the whole. -/
theorem alike_flatMap_absorb {f g : β → List α} {p : β → Bool} {xs : List β} {all : List α}
    (hall : (xs.filter p).flatMap f = all) (hchosen : ∀ x ∈ xs, p x = true → g x = f x)
    (hother : ∀ x ∈ xs, p x = false → g x = all) : Alike (xs.flatMap g) all := by
  suffices h : ∀ before after : List β, xs = before ++ after →
      Alike ((before.filter p).flatMap f ++ after.flatMap g) all from h [] xs rfl
  intro before after
  induction after generalizing before with
  | nil =>
    rintro rfl
    rw [List.append_nil] at hall
    rw [List.flatMap_nil, List.append_nil, hall]
    exact Alike.refl all
  | cons x after ih =>
    intro hxs
    have hx : x ∈ xs := hxs ▸ List.mem_append_right _ List.mem_cons_self
    have hih := ih (before ++ [x]) (by rw [hxs, List.append_assoc, List.singleton_append])
    rw [List.filter_append, List.flatMap_append, List.append_assoc] at hih
    cases hp : p x with
    | true =>
      rw [List.filter_cons_of_pos hp, List.filter_nil, List.flatMap_singleton] at hih
      rwa [List.flatMap_cons, hchosen x hx hp]
    | false =>
      rw [List.filter_cons_of_neg (by simp [hp]), List.filter_nil, List.flatMap_nil,
        List.nil_append] at hih
      -- once all has come up, what follows adds nothing
      have hmem : ∀ y, y ∈ (before.filter p).flatMap f ++ after.flatMap g ↔ y ∈ all := hih.mem_iff
      have hbefore : ∃ later, all = (before.filter p).flatMap f ++ later := by
        rw [← hall, hxs, List.filter_append, List.flatMap_append]
        exact ⟨_, rfl⟩
      obtain ⟨later, hlater⟩ := hbefore
      rw [List.flatMap_cons, hother x hx hp, ← List.append_assoc]
      have hdrop : Alike ((before.filter p).flatMap f ++ all ++ after.flatMap g)
          ((before.filter p).flatMap f ++ all) :=
        alike_append_of_subset fun y hy =>
          List.mem_append_right _ ((hmem y).mp (List.mem_append_right _ hy))
      refine hdrop.trans ?_
      rw [hlater, ← List.append_assoc]
      exact (alike_append_of_subset (List.Subset.refl _)).append_right later

end

end RegexTree
