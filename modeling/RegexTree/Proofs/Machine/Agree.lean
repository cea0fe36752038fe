/-
  Results that agree.

  What is proved of the machine is said beside the readers of texts and the state they lead to,
  which have no partial operations: either both find the same error, or both give a result and the
  results are related.  That the machine is not stuck is part of it.  `Agree` is what is proved of
  nearly every function of the machine, one after the other, and `bind` puts two steps together, so
  that a proof follows the program of the machine line by line.

  The readers of escapes are the exception, since the machine counts their digits in 32 bits.  They
  and all that calls them have a condition under which the machine is stuck; it is said of the text,
  and it is exact: `AgreeUnless P` says that the machine is stuck where `P` holds, and agrees where
  it does not.  Under `bind` the conditions of both steps add up, the second at what the first one
  reads (`AgreeUnless.bind`); a step that cannot be stuck leaves the condition as it is.

  A condition that is never met makes the two the same (`Agree.unless`), and an agreement that is
  exact tells of the machine alone when it is stuck (`AgreeUnless.stuck_iff`), and that its errors
  and results are those of the reader (`AgreeUnless.eq_error`, `AgreeUnless.exists_of_ok`).
-/
import RegexTree.Proofs.Machine.Cursor

namespace RegexTree.Machine

open Cursor

/-- The machine is not stuck: both find the same error, or both give results that are related. -/
inductive Agree {α β : Type} (R : α → β → Prop) : Guarded α → Except Error β → Prop where
  | ok {a : α} {b : β} (h : R a b) : Agree R (.ok a) (.ok b)
  | error (e : Error) : Agree R (.error (.invalid e)) (.error e)

/-- The machine is stuck if `P` holds, and agrees if it does not. -/
structure AgreeUnless {α β : Type} (P : Prop) (R : α → β → Prop) (m : Guarded α)
    (r : Except Error β) : Prop where
  stuck : P → m = .error .stuck
  agree : ¬P → Agree R m r

/-- What a reader of texts gives, with a cursor in place of the text that is left. -/
def Placed {α : Type} (text : List Char) (a : α × Cursor) (b : α × List Char) : Prop :=
  a = (b.1, place text b.2)

section

variable {α β γ δ : Type} {P Q : Prop} {R : α → β → Prop} {m : Guarded α} {r : Except Error β}

/-- The error that is found is the error of the machine. -/
theorem Agree.of_error {e : Error} (h : Agree R m (.error e)) : m = .error (.invalid e) := by
  cases h
  rfl

/-- What is read is what the machine gives, as far as they are related. -/
theorem Agree.of_ok {b : β} (h : Agree R m (.ok b)) : ∃ a, m = .ok a ∧ R a b := by
  cases h with
  | ok h => exact ⟨_, rfl, h⟩

/-- Steps that agree may be taken one after the other: what the second is asked of are results that
    are related. -/
theorem Agree.bind {S : γ → δ → Prop} {f : α → Guarded γ} {g : β → Except Error δ}
    (h : Agree R m r) (hf : ∀ a b, m = .ok a → r = .ok b → R a b → Agree S (f a) (g b)) :
    Agree S (m >>= f) (r >>= g) := by
  cases h with
  | ok h => exact hf _ _ rfl rfl h
  | error e => exact .error e

/-- A step of the machine alone, which succeeds. -/
theorem Agree.bind_ok {S : γ → β → Prop} {f : α → Guarded γ} (h : Agree R m r)
    (hf : ∀ a b, m = .ok a → r = .ok b → R a b → ∃ c, f a = .ok c ∧ S c b) :
    Agree S (m >>= f) r := by
  cases h with
  | @ok a b h =>
    obtain ⟨c, hc, hS⟩ := hf a b rfl rfl h
    rw [ok_bind, hc]
    exact .ok hS
  | error e => exact .error e

/-- What is found is put in another form. -/
theorem Agree.map {S : γ → β → Prop} (h : Agree R m r) {f : α → γ} (hf : ∀ a b, R a b → S (f a) b) :
    Agree S (do return f (← m)) r :=
  h.bind_ok fun a b _ _ hab => ⟨f a, rfl, hf a b hab⟩

/-! ## Under a condition -/

/-- What agrees always agrees under a condition that is not met. -/
theorem Agree.unless (h : Agree R m r) (hP : ¬P) : AgreeUnless P R m r :=
  ⟨fun h => absurd h hP, fun _ => h⟩

/-- The condition may be put in other words. -/
theorem AgreeUnless.congr (h : AgreeUnless P R m r) (hPQ : P ↔ Q) : AgreeUnless Q R m r :=
  ⟨fun hQ => h.stuck (hPQ.mpr hQ), fun hQ => h.agree (mt hPQ.mp hQ)⟩

/-- The condition is exact. -/
theorem AgreeUnless.stuck_iff (h : AgreeUnless P R m r) : m = .error .stuck ↔ P := by
  refine ⟨fun hm => Classical.byContradiction fun hP => ?_, h.stuck⟩
  have hagree := h.agree hP
  rw [hm] at hagree
  cases hagree

/-- The machine gives a result only where the reader does. -/
theorem AgreeUnless.exists_of_ok {a : α} (h : AgreeUnless P R m r) (hm : m = .ok a) :
    ∃ b, r = .ok b ∧ R a b := by
  subst hm
  have hP : ¬P := fun hP => nomatch h.stuck hP
  cases h.agree hP with
  | ok hab => exact ⟨_, rfl, hab⟩

/-- The machine finds an error only where the reader does. -/
theorem AgreeUnless.eq_error {e : Error} (h : AgreeUnless P R m r) (hm : m = .error (.invalid e)) :
    r = .error e := by
  subst hm
  have hP : ¬P := fun hP => nomatch h.stuck hP
  cases h.agree hP with
  | error => rfl

/-- The relation may be weakened, for the results that are read. -/
theorem AgreeUnless.imp {S : α → β → Prop} (h : AgreeUnless P R m r)
    (hS : ∀ a b, r = .ok b → R a b → S a b) : AgreeUnless P S m r := by
  refine ⟨h.stuck, fun hP => ?_⟩
  cases h.agree hP with
  | ok hab => exact .ok (hS _ _ rfl hab)
  | error e => exact .error e

/-- A step after results that agree: the machine is stuck in the first step, or in the second. -/
theorem AgreeUnless.bind {Q : β → Prop} {S : γ → δ → Prop} {f : α → Guarded γ}
    {g : β → Except Error δ} (h : AgreeUnless P R m r)
    (hf : ∀ a b, m = .ok a → r = .ok b → R a b → AgreeUnless (Q b) S (f a) (g b)) :
    AgreeUnless (P ∨ ∃ b, r = .ok b ∧ Q b) S (m >>= f) (r >>= g) := by
  constructor
  · intro hPQ
    by_cases hP : P
    · rw [h.stuck hP, error_bind]
    · obtain ⟨b, rfl, hQ⟩ := hPQ.resolve_left hP
      obtain ⟨a, rfl, hab⟩ := (h.agree hP).of_ok
      exact (hf a b rfl rfl hab).stuck hQ
  · intro hPQ
    obtain ⟨hP, hQ⟩ := not_or.mp hPQ
    exact (h.agree hP).bind fun a b ha hb hab =>
      (hf a b ha hb hab).agree fun h => hQ ⟨b, hb, h⟩

/-- A step that has no such condition, after one that has. -/
theorem AgreeUnless.bind_agree {S : γ → δ → Prop} {f : α → Guarded γ} {g : β → Except Error δ}
    (h : AgreeUnless P R m r) (hf : ∀ a b, m = .ok a → r = .ok b → R a b → Agree S (f a) (g b)) :
    AgreeUnless P S (m >>= f) (r >>= g) :=
  ⟨fun hP => by rw [h.stuck hP, error_bind], fun hP => (h.agree hP).bind hf⟩

/-- A step of the machine alone, which succeeds, has no condition of its own. -/
theorem AgreeUnless.bind_ok {S : γ → β → Prop} {f : α → Guarded γ} (h : AgreeUnless P R m r)
    (hf : ∀ a b, m = .ok a → r = .ok b → R a b → ∃ c, f a = .ok c ∧ S c b) :
    AgreeUnless P S (m >>= f) r :=
  ⟨fun hP => by rw [h.stuck hP, error_bind], fun hP => (h.agree hP).bind_ok hf⟩

/-- A step of the reader alone, which succeeds, has no condition of its own. -/
theorem AgreeUnless.then_ok {S : α → δ → Prop} {g : β → δ} (h : AgreeUnless P R m r)
    (hg : ∀ a b, R a b → S a (g b)) : AgreeUnless P S m (r >>= fun b => .ok (g b)) := by
  refine ⟨h.stuck, fun hP => ?_⟩
  cases h.agree hP with
  | ok hab => exact .ok (hg _ _ hab)
  | error e => exact .error e

/-- What is found is put in another form. -/
theorem AgreeUnless.map {S : γ → β → Prop} (h : AgreeUnless P R m r) {f : α → γ}
    (hf : ∀ a b, R a b → S (f a) b) : AgreeUnless P S (do return f (← m)) r :=
  h.bind_ok fun a b _ _ hab => ⟨f a, rfl, hf a b hab⟩

end

end RegexTree.Machine
