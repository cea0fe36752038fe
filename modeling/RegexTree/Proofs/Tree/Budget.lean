/-
  Heights and copies of repetitions in normal form.

  Two numbers of a tree decide whether it may be repeated: how many repetitions stand on one another
  at its root (`repeatHeight`), and whether the copies that its counted repetitions come to fit a
  budget (`fitsBudget`).  Both are asked when the sign is read, of an operand that is in normal form
  already.

  * A repetition in front of anything else has height 0, and what is made of at least two parts is a
    sequence or a choice, or a literal or class that they were joined to (`repeatHeight_sequence`,
    `repeatHeight_choice`).
  * How many copies a list of parts comes to is what the parts come to (`fitAll`), and putting them
    into normal form does not change it (`fitsBudget_sequence`, `fitsBudget_choice`).  For sequences
    that is a law of `SequenceLaw`; for choices the point is that what is taken out of several
    branches is equal in all of them, so it fits the budget in all or in none (`fitAll_taken_out`).

  The budget is divided from the root down, so both are functions of it, and the equations are
  between functions.
-/
import RegexTree.Proofs.Tree.NormalForm
import RegexTree.Tree.Repetition

namespace RegexTree.Tree

/-! ## Heights -/

theorem repeatHeight_node (l : Label) (subs : List Tree) :
    (node l subs).repeatHeight =
      if l.op.isRepeat then 1 + (subs.map repeatHeight).headD 0 else 0 :=
  fold_node _ l subs

theorem repeatHeight_eq_zero {t : Tree} (h : t.op.isRepeat = false) : t.repeatHeight = 0 := by
  obtain ⟨l, subs⟩ := t
  rw [op_node] at h
  rw [repeatHeight_node, h]
  rfl

theorem repeatHeight_leaf {t : Tree} (h : t.op.arity = .leaf) : t.repeatHeight = 0 := by
  refine repeatHeight_eq_zero ?_
  cases hop : t.op
  all_goals
    rw [hop] at h
    first
    | rfl
    | cases h

/-- A class and the dot for it have none. -/
theorem repeatHeight_asDot (t : Tree) : (Assembly.asDot t).repeatHeight = t.repeatHeight := by
  by_cases hdot : t.DotClass
  · obtain ⟨op, hop, he⟩ := asDot_of_dotClass hdot
    rw [he, repeatHeight_eq_zero (t := t) (by rw [hdot.1]; rfl)]
    rcases hop with rfl | rfl
    all_goals exact repeatHeight_eq_zero rfl
  · rw [asDot_of_not hdot]

/-- A sequence of several pieces is no repetition. -/
theorem repeatHeight_sequence {pieces : List Tree} (h : ∀ t ∈ pieces, t.Normal)
    (hlen : 2 ≤ pieces.length) : (sequence pieces).repeatHeight = 0 := by
  refine repeatHeight_eq_zero ?_
  rcases op_sequence (fun t ht => (h t ht).reduced) hlen with hop | hop
  all_goals
    rw [hop]
    rfl

theorem repeatHeight_choice {branches : List Tree} (h : ∀ t ∈ branches, t.Normal)
    (hlen : 2 ≤ branches.length) : (choice branches).repeatHeight = 0 := by
  refine repeatHeight_eq_zero ?_
  rcases choice_compound (fun t ht => (h t ht).reduced) hlen with hop | hop
  all_goals
    rw [hop]
    rfl

/-! ## Copies -/

/-- Anything but a count hands the budget on as it is. -/
theorem fitsBudget_of_ne {l : Label} (hop : l.op ≠ .counted) (subs : List Tree) (n : Nat) :
    (node l subs).fitsBudget n = subs.all (·.fitsBudget n) := by
  rw [fitsBudget, fold_node, if_neg hop, List.all_map]
  rfl

/-- A count divides it by the copies it makes, if there are any. -/
theorem fitsBudget_counted {l : Label} (hop : l.op = .counted) (subs : List Tree) (n : Nat) :
    (node l subs).fitsBudget n =
      if l.max = 0 then true
      else if n < l.copyCount then false
      else subs.all (·.fitsBudget (if l.copyCount = 0 then n else n / l.copyCount)) := by
  rw [fitsBudget, fold_node, if_pos hop, List.all_map]
  rfl

theorem fitsBudget_leaf {t : Tree} (ht : t.Shaped) (harity : t.op.arity = .leaf) (n : Nat) :
    t.fitsBudget n = true := by
  obtain ⟨l, subs⟩ := t
  rw [op_node] at harity
  have hne : l.op ≠ .counted := Op.ne_of_arity harity (by decide)
  rw [fitsBudget_of_ne hne, show subs = [] from ht.here.leaf harity]
  rfl

/-- Equal trees come to the same copies, since bounds are compared. -/
theorem fitsBudget_of_equal {t u : Tree} (ht : t.Shaped) (hu : u.Shaped)
    (h : t.equal u = true) : t.fitsBudget = u.fitsBudget := by
  refine equal_induct (P := fun t u => t.fitsBudget = u.fitsBudget) ?_ ht hu h
  intro l m subs subs' hagree hsubs
  have hop := Label.op_of_agrees hagree
  have hall : ∀ n, subs.all (·.fitsBudget n) = subs'.all (·.fitsBudget n) := by
    intro n
    induction hsubs with
    | nil => rfl
    | cons he _ ih => rw [List.all_cons, List.all_cons, he, ih]
  funext n
  by_cases hc : l.op = .counted
  · have hm := hc
    rw [hop] at hm
    obtain ⟨hmin, hmax⟩ := Label.bounds_of_agrees hagree hc
    have hcopies : l.copyCount = m.copyCount := by
      rw [Label.copyCount, Label.copyCount, hmin, hmax]
    rw [fitsBudget_counted hc, fitsBudget_counted hm, hmax, hcopies]
    simp only [hall]
  · have hm := hc
    rw [hop] at hm
    rw [fitsBudget_of_ne hc, fitsBudget_of_ne hm, hall]

/-- The trees fit within a budget, each for itself. -/
def fitAll (ts : List Tree) (n : Nat) : Bool := ts.all (·.fitsBudget n)

theorem fitAll_cons (t : Tree) (rest : List Tree) (n : Nat) :
    fitAll (t :: rest) n = (t.fitsBudget n && fitAll rest n) := rfl

theorem fitAll_singleton (t : Tree) : fitAll [t] = t.fitsBudget := by
  funext n
  exact Bool.and_true _

/-- Putting pieces together in a sequence does not change the copies that they come to. -/
theorem sequenceLaw_fitAll : SequenceLaw Shaped fitAll where
  kept := kept_shaped
  tail t ps qs h := by
    funext n
    rw [fitAll_cons, fitAll_cons, h]
  spliced l subs rest hop := by
    funext n
    rw [fitAll_cons, fitsBudget_of_ne (by rw [hop]; decide), fitAll, List.all_append]
    rfl
  empty l subs rest hop hq := by
    funext n
    rw [fitAll_cons, fitsBudget_leaf hq (by rw [op_node, hop]; rfl), Bool.true_and]
  joined t u rest ht hu h := by
    obtain ⟨hop, hop', -⟩ := canJoin_iff.mp h
    have hj := kept_shaped.joined t u ht hu h
    funext n
    rw [fitAll_cons, fitAll_cons, fitAll_cons,
      fitsBudget_leaf hj (by rw [joined_op, hop]; rfl), fitsBudget_leaf ht (by rw [hop]; rfl),
      fitsBudget_leaf hu (by rw [hop']; rfl), Bool.true_and, Bool.true_and]
  split t s rest ht hop hs hne := by
    have hdropped := kept_shaped.dropped t s.length ht hop
    funext n
    rw [fitAll_cons, fitAll_cons, fitAll_cons, fitsBudget_leaf hdropped (arity_dropRunes hop _),
      fitsBudget_leaf ht (by rw [hop]; rfl),
      fitsBudget_leaf (kept_shaped.begun t s ht hop hs hne) rfl, Bool.true_and]

/-- A sequence comes to the copies of its pieces. -/
theorem fitsBudget_sequence {pieces : List Tree} (h : ∀ t ∈ pieces, t.Shaped) :
    (sequence pieces).fitsBudget = fitAll pieces := by
  rw [← fitAll_singleton]
  exact sequenceLaw_fitAll.sequence h

/-- What shares a conjunct everywhere has it once. -/
theorem all_and_const {ts : List Tree} {f g : Tree → Bool} {c : Bool} (hne : ts ≠ [])
    (h : ∀ t ∈ ts, f t = (c && g t)) : ts.all f = (c && ts.all g) := by
  induction ts with
  | nil => exact absurd rfl hne
  | cons t rest ih =>
    obtain ⟨ht, hrest⟩ := List.forall_mem_cons.mp h
    rw [List.all_cons, List.all_cons, ht]
    cases rest with
    | nil => simp
    | cons u more =>
      rw [ih (List.cons_ne_nil u more) hrest]
      cases c <;> simp

/-- A piece taken out of branches that begin with it comes to copies once, and not in each. -/
theorem fitAll_taken_out {lead rest : Tree} {drop : Tree → Tree} {ts : List Tree}
    (hlead : lead.Shaped) (hrest : rest.Shaped) (hne : ts ≠ [])
    (hdrop : ∀ t ∈ ts, fitAll [lead, drop t] = fitAll [t])
    (hfit : fitAll [rest] = fitAll (ts.map drop)) :
    fitAll [sequence [lead, rest]] = fitAll ts := by
  rw [fitAll_singleton] at hfit
  rw [fitAll_singleton, fitsBudget_sequence (List.forall_mem_cons.mpr
    ⟨hlead, List.forall_mem_singleton.mpr hrest⟩)]
  funext n
  rw [fitAll_cons, fitAll_singleton, hfit, fitAll, List.all_map, fitAll]
  refine (all_and_const hne fun t ht => ?_).symm
  have hsplit := congrFun (hdrop t ht) n
  rw [fitAll_cons, fitAll_singleton, fitAll_singleton] at hsplit
  exact hsplit.symm

/-- Taking out what branches share does not change the copies that they come to. -/
theorem choiceLaw_fitAll : ChoiceLaw Shaped fun ts us => fitAll us = fitAll ts where
  kept := kept_shaped
  refl _ := rfl
  trans h h' := h'.trans h
  append h h' := by
    funext n
    rw [fitAll, fitAll, List.all_append, List.all_append]
    exact congrArg₂ (· && ·) (congrFun h n) (congrFun h' n)
  splice l subs hop _ := by
    funext n
    rw [fitAll_singleton, fitsBudget_of_ne (by rw [hop]; decide)]
    rfl
  gather branches _ := by
    funext n
    rw [fitAll_singleton, branching, fitsBudget_of_ne (by decide)]
    rfl
  text fold shared ts rest hne hts htsne hrest hfit := by
    have hlit : (literal shared { foldCase := fold }).Shaped := (literal_normal hne _).shaped
    refine fitAll_taken_out hlit hrest htsne (fun t ht => ?_) hfit
    obtain ⟨hshaped, hfold, hshared⟩ := hts t ht
    have hlaw := sequenceLaw_fitAll.dropLeadingText hshaped hne hshared
    rwa [hfold] at hlaw
  piece lead ts rest hfixed hts htsne hlead hrest hfit := by
    refine fitAll_taken_out hlead hrest htsne (fun t ht => ?_) hfit
    obtain ⟨hshaped, p, hp, he⟩ := hts t ht
    have hpshaped : p.Shaped := (leadingPiece?_eq_some hp).1 ▸ kept_shaped.front hshaped
    have hsame : lead.fitsBudget = p.fitsBudget := by
      rcases he with rfl | he
      · rfl
      · exact fitsBudget_of_equal hlead hpshaped he
    have hlaw := sequenceLaw_fitAll.dropLeadingPiece hp
    funext n
    rw [← hlaw, fitAll_cons lead, fitAll_cons p, hsame]

/-- A choice comes to the copies of its branches. -/
theorem fitsBudget_choice {branches : List Tree} (h : ∀ t ∈ branches, t.Shaped) :
    (choice branches).fitsBudget = fitAll branches := by
  rw [← fitAll_singleton]
  exact (choiceLaw_fitAll.choice h).2

theorem fitsBudget_asDot {t : Tree} (ht : t.Shaped) :
    (Assembly.asDot t).fitsBudget = t.fitsBudget := by
  by_cases hdot : t.DotClass
  · obtain ⟨op, hop, he⟩ := asDot_of_dotClass hdot
    funext n
    rw [he, hdot.subs_eq_nil ht, fitsBudget_leaf ht hdot.arity]
    rcases hop with rfl | rfl
    all_goals
      rw [fitsBudget_of_ne (by simp)]
      rfl
  · rw [asDot_of_not hdot]

end RegexTree.Tree
