/-
  How many copies a tree comes to.

  On the way from the root to a leaf each counted repetition multiplies what is below it, until one
  never happens: below a count with the upper bound 0 nothing is copied, and the check looks no
  further (`copiesOn`).  The check itself divides a budget from the root down.  Dividing a number of
  times is being at most the product (`fitsBudget_iff`): no way down may come to more copies than
  the budget allows.

  Simplifying makes those copies.  A count over a tree becomes as many copies of it as its larger
  bound says, or its lower bound if it has no upper one, and never fewer leaves than one; all other
  nodes keep the number of their leaves (`unrollNode_cases`).  So the leaves of a tree that fits a
  budget become at most that many times as many (`leafCount_unroll_le`), by induction on the tree
  and for all budgets at once, since the budget below a count is another one.
-/
import RegexTree.Proofs.Match.Simplify
import RegexTree.Proofs.Tree.Budget
import Mathlib.Algebra.GroupWithZero.Nat

namespace RegexTree

/-- The factor by which a counted repetition multiplies what is below it. -/
def Label.copyFactor (l : Label) : Nat :=
  if 0 < l.max then l.max.toNat else if 0 < l.min then l.min.toNat else 1

namespace Tree

/-! ## Ways down -/

/-- The labels on each way from the root down to a node without children. -/
def paths : Tree → List (List Label) :=
  fold fun l subs parts => if subs.isEmpty then [[l]] else parts.flatten.map (l :: ·)

/-- The copies that the counted repetitions on a way down come to, as far as the first one that
    never happens. -/
def copiesOn : List Label → Nat
  | [] => 1
  | l :: rest =>
    if l.op = .counted then
      if l.max = 0 then 1 else l.copyFactor * copiesOn rest
    else copiesOn rest

/-- A way down a tree is its root and a way down a child, or the root alone. -/
theorem mem_paths_node {l : Label} {subs : List Tree} {path : List Label} :
    path ∈ (node l subs).paths ↔
      (subs = [] ∧ path = [l]) ∨ ∃ t ∈ subs, ∃ rest ∈ t.paths, path = l :: rest := by
  rw [paths, fold_node]
  cases subs with
  | nil => simp
  | cons t more =>
    constructor
    · intro h
      obtain ⟨rest, hrest, rfl⟩ := List.mem_map.mp h
      obtain ⟨part, hpart, hmem⟩ := List.mem_flatten.mp hrest
      obtain ⟨u, hu, rfl⟩ := List.mem_map.mp hpart
      exact Or.inr ⟨u, hu, rest, hmem, rfl⟩
    · rintro (⟨hnil, -⟩ | ⟨u, hu, rest, hrest, rfl⟩)
      · cases hnil
      · exact List.mem_map_of_mem (List.mem_flatten_of_mem (List.mem_map_of_mem hu) hrest)

/-- What holds of all ways down from a node is told by the ways down from its children. -/
theorem forall_paths_node {P : List Label → Prop} {l : Label} {subs : List Tree} :
    (∀ path ∈ (node l subs).paths, P path) ↔
      (subs = [] → P [l]) ∧ ∀ t ∈ subs, ∀ rest ∈ t.paths, P (l :: rest) := by
  constructor
  · intro h
    constructor
    · intro hnil
      exact h [l] (mem_paths_node.mpr (Or.inl ⟨hnil, rfl⟩))
    · intro t ht rest hrest
      exact h (l :: rest) (mem_paths_node.mpr (Or.inr ⟨t, ht, rest, hrest, rfl⟩))
  · rintro ⟨hleaf, hsubs⟩ path hpath
    rcases mem_paths_node.mp hpath with ⟨hnil, rfl⟩ | ⟨t, ht, rest, hrest, rfl⟩
    · exact hleaf hnil
    · exact hsubs t ht rest hrest

/-- There is a way down every tree. -/
theorem exists_mem_paths (t : Tree) : ∃ path, path ∈ t.paths := by
  induction t using induct with
  | step l subs ih =>
    cases subs with
    | nil => exact ⟨[l], mem_paths_node.mpr (Or.inl ⟨rfl, rfl⟩)⟩
    | cons t more =>
      obtain ⟨rest, hrest⟩ := ih t List.mem_cons_self
      exact ⟨l :: rest, mem_paths_node.mpr (Or.inr ⟨t, List.mem_cons_self, rest, hrest, rfl⟩)⟩

theorem one_le_copyFactor (l : Label) : 1 ≤ l.copyFactor := by
  unfold Label.copyFactor
  split
  · omega
  · split <;> omega

/-- A way down comes to one copy at least. -/
theorem one_le_copiesOn (path : List Label) : 1 ≤ copiesOn path := by
  induction path with
  | nil => exact Nat.le_refl 1
  | cons l rest ih =>
    rw [copiesOn]
    split
    · split
      · exact Nat.le_refl 1
      · exact Nat.mul_pos (one_le_copyFactor l) ih
    · exact ih

/-- Unless the repetition never happens, its factor is the number of copies, but at least 1. -/
theorem copyFactor_eq {l : Label} (h : l.max ≠ 0) : l.copyFactor = max 1 l.copyCount := by
  unfold Label.copyFactor Label.copyCount
  split
  · rw [if_neg (by omega), Nat.max_eq_right (by omega)]
  · rw [if_pos (show l.max < 0 by omega)]
    split
    · rw [Nat.max_eq_right (by omega)]
    · rw [Nat.max_eq_left (by omega)]

/-- A count fits a budget if it never happens, or if its copies fit and the operand fits what they
    leave of it. -/
theorem fitsBudget_counted_iff {l : Label} (hop : l.op = .counted) {subs : List Tree} {n : Nat} :
    (node l subs).fitsBudget n = true ↔
      l.max = 0 ∨ l.copyCount ≤ n ∧ ∀ t ∈ subs, t.fitsBudget (n / max 1 l.copyCount) = true := by
  have hshare : (if l.copyCount = 0 then n else n / l.copyCount) = n / max 1 l.copyCount := by
    split
    · next h => rw [h, Nat.max_zero, Nat.div_one]
    · next h => rw [Nat.max_eq_right (Nat.pos_of_ne_zero h)]
  rw [fitsBudget_counted hop, hshare]
  by_cases hmax : l.max = 0
  · simp [hmax]
  · rw [if_neg hmax]
    by_cases hlt : n < l.copyCount
    · rw [if_pos hlt]
      constructor
      · intro h
        cases h
      · rintro (h | h)
        · exact absurd h hmax
        · omega
    · rw [if_neg hlt, List.all_eq_true]
      exact ⟨fun h => Or.inr ⟨Nat.le_of_not_lt hlt, h⟩, fun h => (h.resolve_left hmax).2⟩

/-- A tree fits a budget just if no way down comes to more copies.  By induction on the tree, for
    all budgets: below a count the budget is divided, and a product is at most a number just if one
    factor is at most the quotient by the other. -/
theorem fitsBudget_iff {t : Tree} {n : Nat} (hn : 1 ≤ n) :
    t.fitsBudget n = true ↔ ∀ path ∈ t.paths, copiesOn path ≤ n := by
  induction t using induct generalizing n with
  | step l subs ih =>
    rw [forall_paths_node]
    by_cases hop : l.op = .counted
    · rw [fitsBudget_counted_iff hop]
      simp only [copiesOn, if_pos hop]
      by_cases hmax : l.max = 0
      · simp only [if_pos hmax]
        exact ⟨fun _ => ⟨fun _ => hn, fun _ _ _ _ => hn⟩, fun _ => Or.inl hmax⟩
      · simp only [if_neg hmax, Nat.mul_one]
        rw [copyFactor_eq hmax]
        have hpos : 0 < max 1 l.copyCount := Nat.lt_of_lt_of_le Nat.one_pos (Nat.le_max_left 1 _)
        constructor
        · rintro (h | ⟨hcount, hsubs⟩)
          · exact absurd h hmax
          · have hle : max 1 l.copyCount ≤ n := Nat.max_le.mpr ⟨hn, hcount⟩
            refine ⟨fun _ => hle, fun t ht rest hrest => ?_⟩
            have hrest := (ih t ht (Nat.div_pos hle hpos)).mp (hsubs t ht) rest hrest
            rw [Nat.mul_comm]
            exact (Nat.le_div_iff_mul_le hpos).mp hrest
        · rintro ⟨hleaf, hsubs⟩
          -- some way down ends below the node, and the node has its part in the copies there
          have hle : max 1 l.copyCount ≤ n := by
            cases subs with
            | nil => exact hleaf rfl
            | cons t more =>
              obtain ⟨rest, hrest⟩ := exists_mem_paths t
              exact Nat.le_trans (Nat.le_mul_of_pos_right _ (one_le_copiesOn rest))
                (hsubs t List.mem_cons_self rest hrest)
          refine Or.inr ⟨Nat.le_trans (Nat.le_max_right 1 _) hle, fun t ht => ?_⟩
          refine (ih t ht (Nat.div_pos hle hpos)).mpr fun rest hrest => ?_
          refine (Nat.le_div_iff_mul_le hpos).mpr ?_
          rw [Nat.mul_comm]
          exact hsubs t ht rest hrest
    · rw [fitsBudget_of_ne hop, List.all_eq_true]
      simp only [copiesOn, if_neg hop]
      constructor
      · intro h
        exact ⟨fun _ => hn, fun t ht => (ih t ht hn).mp (h t ht)⟩
      · rintro ⟨-, h⟩ t ht
        exact (ih t ht hn).mpr (h t ht)

/-! ## Leaves -/

/-- The number of nodes without children. -/
def leafCount (t : Tree) : Nat := t.preorder.countP (·.2 == 0)

/-- The leaves of several trees. -/
def leavesOf (ts : List Tree) : Nat := (ts.map leafCount).sum

theorem leavesOf_nil : leavesOf [] = 0 := rfl

theorem leavesOf_cons (t : Tree) (rest : List Tree) :
    leavesOf (t :: rest) = t.leafCount + leavesOf rest := by
  rw [leavesOf, List.map_cons, List.sum_cons]
  rfl

theorem leavesOf_append (ts us : List Tree) :
    leavesOf (ts ++ us) = leavesOf ts + leavesOf us := by
  rw [leavesOf, List.map_append, List.sum_append]
  rfl

/-- Copies have the leaves of one as many times. -/
theorem leavesOf_replicate (n : Nat) (t : Tree) :
    leavesOf (List.replicate n t) = n * t.leafCount := by
  induction n with
  | zero => rw [List.replicate_zero, leavesOf_nil, Nat.zero_mul]
  | succ n ih => rw [List.replicate_succ, leavesOf_cons, ih, Nat.succ_mul, Nat.add_comm]

/-- A node without children is a leaf; others have the leaves of their children. -/
theorem leafCount_node (l : Label) (subs : List Tree) :
    (node l subs).leafCount = if subs = [] then 1 else leavesOf subs := by
  have hsubs : (subs.map preorder).flatten.countP (·.2 == 0) = leavesOf subs := by
    rw [List.countP_flatten, List.map_map]
    rfl
  rw [leafCount, preorder_node, List.countP_cons, hsubs]
  cases subs with
  | nil => rfl
  | cons t more => simp

theorem leafCount_one (l : Label) (t : Tree) : (node l [t]).leafCount = t.leafCount := by
  rw [leafCount_node, if_neg (List.cons_ne_nil t []), leavesOf_cons, leavesOf_nil, Nat.add_zero]

theorem leafCount_relabel (f : Label → Label) (t : Tree) : (t.relabel f).leafCount = t.leafCount := by
  obtain ⟨l, subs⟩ := t
  rw [relabel, leafCount_node, leafCount_node]

/-- There is a leaf in every tree. -/
theorem one_le_leafCount (t : Tree) : 1 ≤ t.leafCount := by
  induction t using induct with
  | step l subs ih =>
    rw [leafCount_node]
    split
    · exact Nat.le_refl 1
    · next hne =>
      obtain ⟨t, more, rfl⟩ := List.exists_cons_of_ne_nil hne
      rw [leavesOf_cons]
      exact Nat.le_add_right_of_le (ih t List.mem_cons_self)

/-- If each tree of a list becomes at most `n` times as large, so does the list. -/
theorem leavesOf_le {n : Nat} {f : Tree → Tree} {ts : List Tree}
    (h : ∀ t ∈ ts, (f t).leafCount ≤ n * t.leafCount) :
    leavesOf (ts.map f) ≤ n * leavesOf ts := by
  induction ts with
  | nil => exact Nat.zero_le _
  | cons t rest ih =>
    obtain ⟨ht, hrest⟩ := List.forall_mem_cons.mp h
    rw [List.map_cons, leavesOf_cons, leavesOf_cons, Nat.mul_add]
    exact Nat.add_le_add ht (ih hrest)

/-! ## Leaves of what simplifying makes -/

theorem leafCount_repeated (op : Op) (flags : Flags) (t : Tree) :
    (repeated op flags t).leafCount = t.leafCount := by
  rcases repeated_cases op flags t with ⟨-, h⟩ | ⟨-, -, h⟩ | h
  · rw [h]
  · rw [h]
  · rw [h, leafCount_one]

/-- Splicing a tree loses nothing but an empty sequence. -/
theorem leavesOf_spliced_le (op : Op) (t : Tree) : leavesOf (spliced op t) ≤ t.leafCount := by
  obtain ⟨l, subs⟩ := t
  rw [spliced]
  split
  · rw [subs_node, leafCount_node]
    split
    · next hnil =>
      rw [hnil]
      exact Nat.zero_le 1
    · exact Nat.le_refl _
  · exact Nat.le_refl _

/-- Putting parts in a row adds no leaf. -/
theorem leafCount_inSequence_le {parts : List Tree} (hne : parts ≠ []) :
    (inSequence parts).leafCount ≤ leavesOf parts := by
  have hflat : leavesOf (parts.flatMap (spliced .concat)) ≤ leavesOf parts := by
    clear hne
    induction parts with
    | nil => exact Nat.le_refl _
    | cons t rest ih =>
      rw [List.flatMap_cons, leavesOf_append, leavesOf_cons]
      exact Nat.add_le_add (leavesOf_spliced_le _ t) ih
  rw [inSequence, branching, leafCount_node]
  split
  · obtain ⟨t, rest, rfl⟩ := List.exists_cons_of_ne_nil hne
    rw [leavesOf_cons]
    exact Nat.le_add_right_of_le (one_le_leafCount t)
  · exact hflat

/-- Optional copies, one in another, are as many as there are. -/
theorem leafCount_optional_le (flags : Flags) (t : Tree) (n : Nat) :
    (optional flags t n).leafCount ≤ (n + 1) * t.leafCount := by
  induction n with
  | zero => rw [optional, leafCount_repeated, Nat.zero_add, Nat.one_mul]
  | succ n ih =>
    rw [optional, leafCount_repeated]
    refine Nat.le_trans (leafCount_inSequence_le (List.cons_ne_nil _ _)) ?_
    rw [leavesOf_cons, leavesOf_cons, leavesOf_nil, Nat.succ_mul (n + 1)]
    omega

/-- A count with an upper bound comes to that many copies. -/
theorem leavesOf_copies_le {min max : Int} (hmin : 0 ≤ min) (hmax : min ≤ max) (flags : Flags)
    (t : Tree) : leavesOf (copies min max flags t) ≤ max.toNat * t.leafCount := by
  rw [copies, leavesOf_append, leavesOf_replicate]
  split
  · next hlt =>
    have hopt := leafCount_optional_le flags t (max - min - 1).toNat
    rw [leavesOf_cons, leavesOf_nil, Nat.add_zero]
    have hsum : max.toNat = min.toNat + ((max - min - 1).toNat + 1) := by omega
    rw [hsum, Nat.add_mul]
    exact Nat.add_le_add_left hopt _
  · next hge =>
    have heq : min = max := Int.le_antisymm hmax (Int.not_lt.mp hge)
    rw [leavesOf_nil, heq, Nat.add_zero]

/-- Every count comes to its number of copies, or to one, in each of the forms that it is written
    out to. -/
theorem leafCount_counted_le {l : Label} (hmin : 0 ≤ l.min) (hmax : l.max = -1 ∨ l.min ≤ l.max)
    (flags : Flags) (t : Tree) :
    (counted l.min l.max flags t).leafCount ≤ max 1 l.copyCount * t.leafCount := by
  have hone : t.leafCount ≤ max 1 l.copyCount * t.leafCount :=
    Nat.le_mul_of_pos_left _ (Nat.lt_of_lt_of_le Nat.one_pos (Nat.le_max_left 1 _))
  have hleaf := Nat.le_trans (one_le_leafCount t) hone
  unfold counted
  split
  · exact hleaf
  · split
    · exact hone
    · split
      · next hopen =>
        split
        · rwa [leafCount_repeated]
        · split
          · rwa [leafCount_repeated]
          · refine Nat.le_trans (leafCount_inSequence_le (by simp)) ?_
            rw [leavesOf_append, leavesOf_replicate, leavesOf_cons, leavesOf_nil, Nat.add_zero,
              leafCount_repeated, ← Nat.succ_mul]
            refine Nat.mul_le_mul_right _ ?_
            rw [Label.copyCount, if_pos (by omega)]
            omega
      · next hbound =>
        split
        · exact hone
        · have hle : l.min ≤ l.max := hmax.resolve_left hbound
          have hcount : l.copyCount = l.max.toNat := if_neg (by omega)
          have hcopies := Nat.le_trans (leavesOf_copies_le hmin hle flags t)
            (Nat.mul_le_mul_right _ (Nat.le_max_right 1 _))
          rw [← hcount] at hcopies
          split
          · exact hleaf
          · next only honly =>
            rw [honly, leavesOf_cons, leavesOf_nil, Nat.add_zero] at hcopies
            exact hcopies
          · next hnil _ => exact Nat.le_trans (leafCount_inSequence_le hnil) hcopies

/-- What becomes of a node that is no counted repetition. -/
theorem unrollNode_cases {l : Label} (hop : l.op ≠ .counted) (subs unrolled : List Tree) :
    (∃ m, unrollNode l subs unrolled = node m unrolled) ∨
      (l.op.isRepeat = true ∧
        unrollNode l subs unrolled = repeated l.op l.flags (unrolled.headD empty)) ∨
      unrollNode l subs unrolled = node l subs := by
  unfold unrollNode
  split
  · exact Or.inl ⟨_, rfl⟩
  · exact Or.inl ⟨_, rfl⟩
  · exact Or.inl ⟨_, rfl⟩
  · next h => exact Or.inr (Or.inl ⟨by rw [h]; rfl, rfl⟩)
  · next h => exact Or.inr (Or.inl ⟨by rw [h]; rfl, rfl⟩)
  · next h => exact Or.inr (Or.inl ⟨by rw [h]; rfl, rfl⟩)
  · next h => exact absurd h hop
  · exact Or.inr (Or.inr rfl)

/-- Below a node that multiplies nothing, the leaves are those of the children. -/
theorem leafCount_many_le {l m : Label} {subs : List Tree} {n : Nat} (hn : 1 ≤ n)
    (h : ∀ t ∈ subs, t.unroll.leafCount ≤ n * t.leafCount) :
    (node m (subs.map unroll)).leafCount ≤ n * (node l subs).leafCount := by
  rw [leafCount_node, leafCount_node]
  by_cases hnil : subs = []
  · rw [if_pos hnil, if_pos (List.map_eq_nil_iff.mpr hnil), Nat.mul_one]
    exact hn
  · rw [if_neg hnil, if_neg (fun he => hnil (List.map_eq_nil_iff.mp he))]
    exact leavesOf_le h

/-- Of a tree that fits a budget, simplifying makes at most as many copies of each leaf.  By
    induction on the tree, for all budgets: below a count there are the quotient's copies, times
    those that the count makes. -/
theorem leafCount_unroll_le {t : Tree} (ht : t.Everywhere ProperNode) {n : Nat} (hn : 1 ≤ n)
    (hfits : t.fitsBudget n = true) : t.unroll.leafCount ≤ n * t.leafCount := by
  induction t using induct generalizing n with
  | step l subs ih =>
    rw [everywhere_node] at ht
    obtain ⟨hnode, hsubs⟩ := ht
    by_cases hop : l.op = .counted
    · obtain ⟨t, rfl⟩ := hnode.operand (by rw [hop]; rfl)
      obtain ⟨hmin, hmax⟩ := hnode.bounds hop
      rw [unroll_node, unrollNode, hop, leafCount_one]
      show (counted l.min l.max l.flags t.unroll).leafCount ≤ n * t.leafCount
      rcases (fitsBudget_counted_iff hop).mp hfits with hzero | ⟨hcount, hrest⟩
      · -- nothing is left of what never happens, not even of what is too large
        have hempty : l.min = 0 ∧ l.max = 0 := by omega
        rw [counted, if_pos hempty]
        exact Nat.mul_pos hn (one_le_leafCount t)
      · have hcounted := leafCount_counted_le hmin hmax l.flags t.unroll
        have hle : max 1 l.copyCount ≤ n := Nat.max_le.mpr ⟨hn, hcount⟩
        have hpos : 0 < max 1 l.copyCount := Nat.lt_of_lt_of_le Nat.one_pos (Nat.le_max_left 1 _)
        have ht := ih t List.mem_cons_self (hsubs t List.mem_cons_self) (Nat.div_pos hle hpos)
          (hrest t List.mem_cons_self)
        calc (counted l.min l.max l.flags t.unroll).leafCount
            ≤ max 1 l.copyCount * t.unroll.leafCount := hcounted
          _ ≤ max 1 l.copyCount * (n / max 1 l.copyCount * t.leafCount) :=
              Nat.mul_le_mul_left _ ht
          _ = max 1 l.copyCount * (n / max 1 l.copyCount) * t.leafCount := (Nat.mul_assoc _ _ _).symm
          _ ≤ n * t.leafCount := Nat.mul_le_mul_right _ (Nat.mul_div_le n _)
    · rw [fitsBudget_of_ne hop, List.all_eq_true] at hfits
      have hbelow : ∀ t ∈ subs, t.unroll.leafCount ≤ n * t.leafCount := fun t ht =>
        ih t ht (hsubs t ht) hn (hfits t ht)
      rw [unroll_node]
      rcases unrollNode_cases hop subs (subs.map unroll) with ⟨m, hm⟩ | ⟨hrepeat, hm⟩ | hm
      · rw [hm]
        exact leafCount_many_le hn hbelow
      · obtain ⟨t, rfl⟩ := hnode.operand (Op.arity_of_isRepeat hrepeat)
        rw [hm, leafCount_repeated, leafCount_one]
        exact hbelow t List.mem_cons_self
      · rw [hm]
        exact Nat.le_mul_of_pos_left _ hn

end Tree

end RegexTree
