/-
  How deep captures and repetitions stand in one another.

  On a way down from the root the captures are counted one by one, and at any node also the
  repetitions that stand directly on one another there; `nesting` is the largest sum that is met.
  It is no count of all repetitions on the way: those in different captures, or with a sequence
  between them, are not added up, since the limit that is checked while reading does not add them up
  either.

  A tree of nesting `n` has at most `n` captures on any way down, and wherever repetitions stand
  directly on one another, at most as many of them as the captures above leave of `n`
  (`Shaped.stacksWithin`).  That is said of a way down as a list of labels (`StacksWithin`), so that
  the result speaks of no function of trees but the list of ways.

  Sequences and choices are nested no deeper than their parts (`kept_nesting`): they are no
  captures, and what is joined or taken out was there before.
-/
import RegexTree.Proofs.Tree.Copies

namespace RegexTree.Tree

/-- What the node adds to the depth of all that is below it. -/
def captureStep (l : Label) : Nat := if l.op = .capture then 1 else 0

/-- The captures above a place, and the repetitions directly on one another there: the most that
    they come to at any place in the tree. -/
def nesting : Tree → Nat :=
  fold fun l subs parts =>
    max (node l subs).repeatHeight (captureStep l + parts.foldr max 0)

/-- The captures on a way down. -/
def capturesOn (path : List Label) : Nat := path.countP (·.op == .capture)

/-- On the way down there are at most `n` captures, and wherever repetitions stand directly on one
    another there, they and the captures above them are at most `n`. -/
def StacksWithin (n : Nat) (path : List Label) : Prop :=
  capturesOn path ≤ n ∧
    ∀ above chain below, path = above ++ chain ++ below → (∀ l ∈ chain, l.op.isRepeat = true) →
      capturesOn above + chain.length ≤ n

theorem capturesOn_cons (l : Label) (path : List Label) :
    capturesOn (l :: path) = captureStep l + capturesOn path := by
  rw [capturesOn, List.countP_cons, captureStep, capturesOn, Nat.add_comm]
  simp only [beq_iff_eq]

/-- A bound on the largest number is a bound on all. -/
theorem foldr_max_le {ns : List Nat} {n : Nat} : ns.foldr max 0 ≤ n ↔ ∀ m ∈ ns, m ≤ n := by
  induction ns with
  | nil => simp
  | cons m rest ih => rw [List.foldr_cons, Nat.max_le, ih, List.forall_mem_cons]

/-- A node keeps a bound if its own stack does, and its operands keep what it leaves of the
    bound. -/
theorem nesting_le_iff {l : Label} {subs : List Tree} {n : Nat} :
    (node l subs).nesting ≤ n ↔
      (node l subs).repeatHeight ≤ n ∧ captureStep l ≤ n ∧
        ∀ t ∈ subs, t.nesting ≤ n - captureStep l := by
  have hnode : (node l subs).nesting =
      max (node l subs).repeatHeight (captureStep l + (subs.map nesting).foldr max 0) :=
    fold_node _ l subs
  have hparts : (subs.map nesting).foldr max 0 ≤ n - captureStep l ↔
      ∀ t ∈ subs, t.nesting ≤ n - captureStep l := by
    rw [foldr_max_le, List.forall_mem_map]
  rw [hnode, Nat.max_le, ← hparts]
  refine and_congr_right fun _ => ?_
  omega

/-- At a node that neither captures nor repeats, only what is below it counts. -/
theorem nesting_plain_le_iff {l : Label} (hrep : l.op.isRepeat = false) (hcap : l.op ≠ .capture)
    {subs : List Tree} {n : Nat} :
    (node l subs).nesting ≤ n ↔ ∀ t ∈ subs, t.nesting ≤ n := by
  have hheight : (node l subs).repeatHeight = 0 := repeatHeight_eq_zero hrep
  rw [nesting_le_iff, hheight, captureStep, if_neg hcap, Nat.sub_zero]
  exact ⟨fun h => h.2.2, fun h => ⟨Nat.zero_le n, Nat.zero_le n, h⟩⟩

/-- What reads no child, or all of them, neither captures nor repeats. -/
theorem nesting_le_iff_of_arity {l : Label} {arity : Arity} (h : l.op.arity = arity)
    (hone : arity ≠ .one) {subs : List Tree} {n : Nat} :
    (node l subs).nesting ≤ n ↔ ∀ t ∈ subs, t.nesting ≤ n :=
  nesting_plain_le_iff (Op.isRepeat_of_arity (h ▸ hone)) (Op.ne_of_arity h hone.symm)

theorem nesting_leaf {t : Tree} (ht : t.Shaped) (h : t.op.arity = .leaf) : t.nesting = 0 := by
  obtain ⟨l, subs⟩ := t
  rw [op_node] at h
  obtain rfl : subs = [] := ht.here.leaf h
  rw [← Nat.le_zero, nesting_le_iff_of_arity h (by decide)]
  exact fun _ ht => absurd ht List.not_mem_nil

/-! ## Ways down -/

/-- Repetitions at the top of a way down stand directly on one another: the height counts them. -/
theorem Shaped.length_le_repeatHeight {t : Tree} (ht : t.Shaped) {chain below : List Label}
    (hpath : chain ++ below ∈ t.paths) (hchain : ∀ l ∈ chain, l.op.isRepeat = true) :
    chain.length ≤ t.repeatHeight := by
  induction t using induct generalizing chain with
  | step l subs ih =>
    cases chain with
    | nil => exact Nat.zero_le _
    | cons m rest =>
      obtain ⟨hm, hrest⟩ := List.forall_mem_cons.mp hchain
      rw [List.cons_append] at hpath
      -- a repetition has one child, and the way down goes on there
      rcases mem_paths_node.mp hpath with ⟨rfl, he⟩ | ⟨u, hu, path, hmem, he⟩
      · obtain ⟨rfl, -⟩ := List.cons.inj he
        obtain ⟨s, hs⟩ := ht.here.one (Op.arity_of_isRepeat hm)
        cases hs
      · obtain ⟨rfl, rfl⟩ := List.cons.inj he
        obtain ⟨s, rfl⟩ := ht.here.one (Op.arity_of_isRepeat hm)
        rw [repeatHeight_node, if_pos hm, List.map_singleton, List.headD_cons, List.length_cons]
        obtain rfl := List.mem_singleton.mp hu
        have hle := ih u hu (ht.below hu) hmem hrest
        omega

theorem stacksWithin_nil (n : Nat) : StacksWithin n [] := by
  refine ⟨Nat.zero_le n, fun above chain below hsplit _ => ?_⟩
  obtain ⟨hfront, -⟩ := List.append_eq_nil_iff.mp hsplit.symm
  obtain ⟨rfl, rfl⟩ := List.append_eq_nil_iff.mp hfront
  exact Nat.zero_le n

/-- One node more at the top takes one capture away from what is below it, if it is one. -/
theorem StacksWithin.cons {n : Nat} {l : Label} {rest : List Label}
    (hbelow : StacksWithin (n - captureStep l) rest) (hstep : captureStep l ≤ n)
    (htop : ∀ chain below, l :: rest = chain ++ below → (∀ m ∈ chain, m.op.isRepeat = true) →
      chain.length ≤ n) : StacksWithin n (l :: rest) := by
  constructor
  · have hle := hbelow.1
    rw [capturesOn_cons]
    omega
  · intro above chain below hsplit hrepeat
    cases above with
    | nil =>
      have hle := htop chain below hsplit hrepeat
      show 0 + chain.length ≤ n
      omega
    | cons m above =>
      obtain ⟨rfl, hrest⟩ := List.cons.inj hsplit
      have hle := hbelow.2 above chain below hrest hrepeat
      rw [capturesOn_cons]
      omega

/-- The nesting bounds what stands in one another on every way down. -/
theorem Shaped.stacksWithin {t : Tree} (ht : t.Shaped) {n : Nat} (hn : t.nesting ≤ n) :
    ∀ path ∈ t.paths, StacksWithin n path := by
  induction t using induct generalizing n with
  | step l subs ih =>
    obtain ⟨hheight, hstep, hsubs⟩ := nesting_le_iff.mp hn
    have hnode : ∀ rest, l :: rest ∈ (node l subs).paths →
        StacksWithin (n - captureStep l) rest → StacksWithin n (l :: rest) := by
      intro rest hpath hbelow
      refine hbelow.cons hstep fun chain below hsplit hrepeat => ?_
      exact Nat.le_trans (ht.length_le_repeatHeight (hsplit ▸ hpath) hrepeat) hheight
    intro path hpath
    rcases mem_paths_node.mp hpath with ⟨-, rfl⟩ | ⟨t, hsub, rest, hrest, rfl⟩
    · exact hnode [] hpath (stacksWithin_nil _)
    · exact hnode rest hpath (ih t hsub (ht.below hsub) (hsubs t hsub) rest hrest)

/-! ## Sequences and choices -/

/-- Putting parts together nests nothing deeper. -/
theorem kept_nesting (n : Nat) : Kept fun t => t.nesting ≤ n where
  empty := Nat.zero_le n
  subs t ht hop s hs := by
    obtain ⟨l, subs⟩ := t
    rw [op_node] at hop
    exact (nesting_plain_le_iff (by rw [hop]; rfl) (by rw [hop]; decide)).mp ht s hs
  branches t ht hop s hs := by
    obtain ⟨l, subs⟩ := t
    rw [op_node] at hop
    exact (nesting_plain_le_iff (by rw [hop]; rfl) (by rw [hop]; decide)).mp ht s hs
  joined t u ht _ h := by
    obtain ⟨l, subs⟩ := t
    have hop : l.op = .literal := (canJoin_iff.mp h).1
    rw [joined_node]
    rw [nesting_plain_le_iff (by rw [hop]; rfl) (by rw [hop]; decide)] at ht ⊢
    exact ht
  many l subs harity h := (nesting_le_iff_of_arity harity (by decide)).mpr h
  begun _ _ _ _ _ _ := Nat.zero_le n
  dropped t k ht hop := by
    obtain ⟨l, subs⟩ := t
    rw [op_node] at hop
    rw [nesting_plain_le_iff (by rw [hop]; rfl) (by rw [hop]; decide)] at ht
    rw [dropRunes_literal (t := node l subs) hop]
    split
    · exact (nesting_plain_le_iff rfl (by simp)).mpr ht
    · exact (nesting_plain_le_iff rfl (by simp)).mpr ht

/-- A class and the dot for it are leaves. -/
theorem nesting_asDot {t : Tree} (ht : t.Shaped) {n : Nat} (h : t.nesting ≤ n) :
    (Assembly.asDot t).nesting ≤ n := by
  by_cases hdot : t.DotClass
  · obtain ⟨op, hop, he⟩ := asDot_of_dotClass hdot
    rw [he, hdot.subs_eq_nil ht]
    rcases hop with rfl | rfl
    · exact Nat.zero_le n
    · exact Nat.zero_le n
  · rwa [asDot_of_not hdot]

end RegexTree.Tree
