/-
  Cutting a list of trees into runs.

  Both rounds of a choice scan the branches for runs of neighbours (`runs`): a run is begun by a
  tree, and takes the trees after it as long as they go on with it.  What a run remembers differs,
  and what it asks of the next tree does too, so the scan has both as parameters.  Three facts are
  all that is needed of it:

  * what holds of a run of one tree and is kept when a tree is added holds of every run
    (`runs_induct`);
  * the members of the runs are the trees that were cut, in their order (`flatMap_runs`);
  * a run ends only where it does not take the next tree (`runs_chain`).

  Each is proved for a scan that is on its way (`runsFrom`), by induction on the trees that are left
  and for any run that has been begun.
-/
import RegexTree.Tree.Choice
import Mathlib.Data.List.Chain

namespace RegexTree.Tree

section Runs

variable {ρ : Type} {start : Tree → ρ} {add? : ρ → Tree → Option ρ}

theorem runsFrom_nil (run : ρ) : runsFrom start add? run [] = [run] := rfl

theorem runsFrom_add {run longer : ρ} {t : Tree} {rest : List Tree} (h : add? run t = some longer) :
    runsFrom start add? run (t :: rest) = runsFrom start add? longer rest := by
  rw [runsFrom, h]

theorem runsFrom_stop {run : ρ} {t : Tree} {rest : List Tree} (h : add? run t = none) :
    runsFrom start add? run (t :: rest) = run :: runsFrom start add? (start t) rest := by
  rw [runsFrom, h]

theorem runs_cons (t : Tree) (rest : List Tree) :
    runs start add? (t :: rest) = runsFrom start add? (start t) rest := rfl

section Keep

variable {P : ρ → Prop}

/-- What holds of the run that was begun, and is kept, holds of it and of all that come after it. -/
theorem runsFrom_induct {run : ρ} {ts : List Tree} (hrun : P run)
    (hstart : ∀ t ∈ ts, P (start t))
    (hadd : ∀ t ∈ ts, ∀ run longer, P run → add? run t = some longer → P longer) :
    ∀ r ∈ runsFrom start add? run ts, P r := by
  induction ts generalizing run with
  | nil =>
    intro r hr
    rw [runsFrom_nil, List.mem_singleton] at hr
    exact hr ▸ hrun
  | cons t rest ih =>
    have hs : ∀ u ∈ rest, P (start u) := fun u hu => hstart u (List.mem_cons_of_mem t hu)
    have ha : ∀ u ∈ rest, ∀ run longer, P run → add? run u = some longer → P longer :=
      fun u hu => hadd u (List.mem_cons_of_mem t hu)
    cases h : add? run t with
    | some longer =>
      rw [runsFrom_add h]
      exact ih (hadd t List.mem_cons_self run longer hrun h) hs ha
    | none =>
      rw [runsFrom_stop h]
      intro r hr
      rcases List.mem_cons.mp hr with rfl | hr
      · exact hrun
      · exact ih (hstart t List.mem_cons_self) hs ha r hr

/-- What holds of a run of one tree, and is kept when one is added, holds of every run. -/
theorem runs_induct {ts : List Tree} (hstart : ∀ t ∈ ts, P (start t))
    (hadd : ∀ t ∈ ts, ∀ run longer, P run → add? run t = some longer → P longer) :
    ∀ r ∈ runs start add? ts, P r := by
  cases ts with
  | nil =>
    intro r hr
    cases hr
  | cons t rest =>
    rw [runs_cons]
    refine runsFrom_induct (hstart t List.mem_cons_self) (fun u hu => ?_) (fun u hu => ?_)
    · exact hstart u (List.mem_cons_of_mem t hu)
    · exact hadd u (List.mem_cons_of_mem t hu)

end Keep

section Members

variable {members : ρ → List Tree} (hstart : ∀ t, members (start t) = [t])
  (hadd : ∀ run t longer, add? run t = some longer → members longer = members run ++ [t])

include hstart hadd

/-- No tree is lost, and none changes its place. -/
theorem flatMap_runsFrom (run : ρ) (ts : List Tree) :
    (runsFrom start add? run ts).flatMap members = members run ++ ts := by
  induction ts generalizing run with
  | nil => rw [runsFrom_nil, List.flatMap_singleton, List.append_nil]
  | cons t rest ih =>
    cases h : add? run t with
    | some longer =>
      rw [runsFrom_add h, ih, hadd run t longer h, List.append_assoc]
      rfl
    | none =>
      rw [runsFrom_stop h, List.flatMap_cons, ih, hstart]
      rfl

/-- The members of the runs are the trees that were cut. -/
theorem flatMap_runs (ts : List Tree) : (runs start add? ts).flatMap members = ts := by
  cases ts with
  | nil => rfl
  | cons t rest =>
    rw [runs_cons, flatMap_runsFrom hstart hadd, hstart]
    rfl

omit hstart in
/-- The first of the runs begins with the members of the run under way. -/
theorem exists_runsFrom_eq_cons (run : ρ) (ts : List Tree) :
    ∃ first tail, runsFrom start add? run ts = first :: tail ∧ members run <+: members first := by
  induction ts generalizing run with
  | nil => exact ⟨run, [], rfl, List.prefix_refl _⟩
  | cons t rest ih =>
    cases h : add? run t with
    | some longer =>
      obtain ⟨first, tail, he, hp⟩ := ih longer
      refine ⟨first, tail, (runsFrom_add h).trans he, ?_⟩
      rw [hadd run t longer h] at hp
      exact (List.prefix_append _ _).trans hp
    | none => exact ⟨run, _, runsFrom_stop h, List.prefix_refl _⟩

/-- Each run begins with a tree that the run before did not take. -/
theorem runsFrom_chain (run : ρ) (ts : List Tree) :
    (runsFrom start add? run ts).IsChain fun a b =>
      ∃ t rest, members b = t :: rest ∧ add? a t = none := by
  induction ts generalizing run with
  | nil => exact List.isChain_singleton run
  | cons t rest ih =>
    cases h : add? run t with
    | some longer =>
      rw [runsFrom_add h]
      exact ih longer
    | none =>
      obtain ⟨first, tail, he, more, hm⟩ := exists_runsFrom_eq_cons hadd (start t) rest
      have hc := ih (start t)
      rw [runsFrom_stop h]
      rw [he] at hc ⊢
      rw [hstart] at hm
      exact hc.cons_cons ⟨t, more, hm.symm, h⟩

/-- A run ends where it does not take the first member of the next. -/
theorem runs_chain (ts : List Tree) :
    (runs start add? ts).IsChain fun a b =>
      ∃ t rest, members b = t :: rest ∧ add? a t = none := by
  cases ts with
  | nil => exact List.isChain_nil
  | cons t rest => exact runsFrom_chain hstart hadd (start t) rest

end Members

end Runs

end RegexTree.Tree
