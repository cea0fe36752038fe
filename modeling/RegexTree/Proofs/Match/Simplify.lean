/-
  What simplifying keeps.

  Writing `x{n,m}` as copies, `x**` as `x*` and `x??` as `x?` never changes what matches, nor the
  order of preference (`like_counted`, `like_star`, `like_quest`).  Writing `x++` as `x+` may:
  an iteration of the outer plus may match the empty text first and set a capture that the inner
  plus, whose further iterations must take something, leaves as it is.  So there is one condition
  on the nodes of a tree, `NothingNew`, and it is exact:

  * `simplify_sameMatches_iff`: if the condition holds below the root, then simplifying keeps the
    matches just in case that it holds at the root;
  * `simplify_sameMatches_of_still`: it holds if whatever is required once and may go on without
    bound sets no capture where it matches the empty text, as is so when it has no captures
    (`still_results`).
-/
import RegexTree.Proofs.Match.Earlier
import RegexTree.Proofs.Match.NormalForm
import RegexTree.Proofs.Match.Still
import RegexTree.Proofs.Tree.Everywhere
import RegexTree.Tree.Simplify

namespace RegexTree

open Matcher

/-- How often the operand is required before it may go on without bound; none if the operation is
    another one, or requires nothing. -/
def Label.rounds? (l : Label) : Option Nat :=
  match l.op with
  | .plus => some 1
  | .counted => if l.max = -1 ∧ 1 ≤ l.min then some l.min.toNat else none
  | _ => none

/-- One operand where there should be one, and bounds that say how often it comes. -/
structure ProperNode (l : Label) (subs : List Tree) : Prop where
  operand : l.op.arity = .one → ∃ t, subs = [t]
  bounds : l.op = .counted → 0 ≤ l.min ∧ (l.max = -1 ∨ l.min ≤ l.max)

namespace Tree

/-- A plus over the simplified operand would be left out: that is a plus itself, and as greedy. -/
def Merges (flags : Flags) (t : Tree) : Prop :=
  t.unroll.op = .plus ∧ t.unroll.flags.nonGreedy = flags.nonGreedy

/-- Where simplifying leaves out that the operand may go on after the rounds that are required,
    going on would give nothing but later duplicates. -/
def NothingNew (l : Label) (subs : List Tree) : Prop :=
  ∀ t ∈ subs.head?, t.Merges l.flags → ∀ n ∈ l.rounds?,
    Like (both (exactly t.results n) (star l.flags.nonGreedy t.results)) (exactly t.results n)

/-! ## The nodes that simplifying makes -/

/-- A sequence that is made without joining anything matches its parts in their order. -/
theorem results_inSequence (parts : List Tree) :
    (inSequence parts).results = inOrder (parts.map results) := by
  rw [inSequence, branching, results_of_concat rfl]
  induction parts with
  | nil => rfl
  | cons t rest ih =>
    have hone : inOrder ((spliced .concat t).map results) = t.results := by
      obtain ⟨l, subs⟩ := t
      rw [spliced]
      split
      · next hop => exact (results_of_concat hop subs).symm
      · exact inOrder_singleton _
    rw [List.flatMap_cons, List.map_append, inOrder_append, ih, hone, List.map_cons, inOrder_cons]

/-- The three ways to put an operation over a tree. -/
theorem repeated_cases (op : Op) (flags : Flags) (t : Tree) :
    (t.op = .emptyMatch ∧ repeated op flags t = t) ∨
      (t.op = op ∧ t.flags.nonGreedy = flags.nonGreedy ∧ repeated op flags t = t) ∨
      repeated op flags t = node { op, flags := { flags with simple := false } } [t] := by
  unfold repeated
  split
  · next hop => exact Or.inl ⟨hop, rfl⟩
  · split
    · next hsame => exact Or.inr (Or.inl ⟨hsame.1, hsame.2, rfl⟩)
    · exact Or.inr (Or.inr rfl)

/-- An operation that does nothing to the empty match, and nothing more when it is done twice, may
    be left out where simplifying leaves it out. -/
theorem like_repeated {op : Op} {flags : Flags} {f : Matcher → Matcher}
    (hresults : ∀ (l : Label) (ms : List Matcher), l.op = op →
      l.flags.nonGreedy = flags.nonGreedy → l.results ms = f (ms.headD fail))
    (hstay : Like stay (f stay)) (htwice : ∀ m, Like (f m) (f (f m))) (t : Tree) :
    Like (repeated op flags t).results (f t.results) := by
  rcases repeated_cases op flags t with ⟨hop, h⟩ | ⟨hop, hlazy, h⟩ | h
  · rw [h, results_of_empty hop]
    exact hstay
  · obtain ⟨l, subs⟩ := t
    rw [h, results_node, hresults l _ hop hlazy]
    exact htwice _
  · rw [h, results_node, hresults _ _ rfl rfl]
    exact Like.refl _

/-- Putting a star on a tree matches any number of it, also where the star is left out because the
    tree is a star already or is empty. -/
theorem like_star (flags : Flags) (t : Tree) :
    Like (repeated .star flags t).results (star flags.nonGreedy t.results) := by
  refine like_repeated (fun l ms hop hlazy => ?_) ?_ (fun m => (star_star _ m).symm) t
  · rw [Label.results, hop, ← hlazy]
  · rw [star_stay]
    exact Like.refl stay

/-- Putting a question mark on a tree matches it or nothing, also where the sign is left out. -/
theorem like_quest (flags : Flags) (t : Tree) :
    Like (repeated .quest flags t).results (atMost flags.nonGreedy t.results 1) := by
  refine like_repeated (f := fun m => atMost flags.nonGreedy m 1) (fun l ms hop hlazy => ?_)
    (atMost_stay _ 1).symm (fun m => (atMost_atMost _ m).symm) t
  rw [Label.results, hop, ← hlazy]

/-- A plus that is not left out. -/
theorem results_plus {flags : Flags} {t : Tree}
    (h : ¬(t.op = .plus ∧ t.flags.nonGreedy = flags.nonGreedy)) :
    (repeated .plus flags t).results = plus flags.nonGreedy t.results := by
  rcases repeated_cases .plus flags t with ⟨hop, he⟩ | ⟨hop, hlazy, -⟩ | he
  · rw [he, results_of_empty hop, plus_stay]
  · exact absurd ⟨hop, hlazy⟩ h
  · rw [he, results_node]
    rfl

/-- Each optional copy stands around the ones after it. -/
theorem like_optional (flags : Flags) (t : Tree) (n : Nat) :
    Like (optional flags t n).results (atMost flags.nonGreedy t.results (n + 1)) := by
  induction n with
  | zero => exact like_quest flags t
  | succ n ih =>
    have hinner : Like (inSequence [t, optional flags t n]).results
        (both t.results (atMost flags.nonGreedy t.results (n + 1))) := by
      rw [results_inSequence, List.map_cons, List.map_singleton, inOrder_cons, inOrder_singleton]
      exact (Like.refl t.results).both ih
    rw [atMost_succ flags.nonGreedy t.results (n + 1)]
    exact (like_quest flags _).trans (hinner.atMost _ 1)

theorem results_inSequence_replicate (n : Nat) (t u : Tree) :
    (inSequence (List.replicate n t ++ [u])).results = both (exactly t.results n) u.results := by
  rw [results_inSequence, List.map_append, List.map_replicate, inOrder_append, inOrder_replicate,
    List.map_singleton, inOrder_singleton]

/-- The copies of a repetition with an upper bound, one after the other. -/
theorem like_copies {min max : Int} (hmax : min ≤ max) (flags : Flags) (t : Tree) :
    Like (inOrder ((copies min max flags t).map results))
      (Matcher.counted min max flags.nonGreedy t.results) := by
  have hnot : ¬max < min := by omega
  rw [copies, List.map_append, List.map_replicate, inOrder_append, inOrder_replicate,
    Matcher.counted, if_neg hnot]
  refine (Like.refl _).both ?_
  split
  · next hlt =>
    have hcount : (max - min).toNat = (max - min - 1).toNat + 1 := by omega
    rw [List.map_singleton, inOrder_singleton, hcount]
    exact like_optional flags t _
  · next hge =>
    have hcount : (max - min).toNat = 0 := by omega
    rw [hcount]
    exact Like.refl stay

/-- Without an upper bound a counted repetition is a star after the rounds that are required. -/
theorem like_counted_open {min : Int} (hmin : 0 ≤ min) {flags : Flags} {t : Tree}
    (ht : t.op ≠ .emptyMatch)
    (h : 1 ≤ min → ¬(t.op = .plus ∧ t.flags.nonGreedy = flags.nonGreedy)) :
    Like (counted min (-1) flags t).results
      (Matcher.counted min (-1) flags.nonGreedy t.results) := by
  have hlt : -1 < min := by omega
  rw [counted, if_neg (by omega), if_neg ht, if_pos rfl, Matcher.counted, if_pos hlt]
  split
  · next hzero =>
    rw [hzero]
    show Like _ (both stay _)
    rw [stay_both]
    exact like_star flags t
  split
  · next hone =>
    rw [hone, results_plus (h (by omega))]
    show Like _ (both (exactly t.results 1) _)
    rw [exactly_one]
    exact Like.refl _
  · -- the plus is the last of the rounds that are required, and those after it
    have hcount : min.toNat = (min - 1).toNat + 1 := by omega
    rw [results_inSequence_replicate, results_plus (h (by omega)), hcount, exactly_add,
      both_assoc, exactly_one]
    exact Like.refl _

/-- With an upper bound it is the copies of its operand. -/
theorem like_counted_bounded {min max : Int} (hmin : 0 ≤ min) (hmax : min ≤ max)
    (hzero : ¬(min = 0 ∧ max = 0)) {flags : Flags} {t : Tree} (ht : t.op ≠ .emptyMatch) :
    Like (counted min max flags t).results
      (Matcher.counted min max flags.nonGreedy t.results) := by
  have hcopies := like_copies hmax flags t
  rw [counted, if_neg hzero, if_neg ht, if_neg (by omega)]
  split
  · next hone =>
    rw [hone.1, hone.2]
    show Like _ (both (exactly t.results 1) stay)
    rw [both_stay, exactly_one]
    exact Like.refl _
  split
  · next hnil =>
    -- no copies at all: the upper bound is zero
    rw [copies, List.append_eq_nil_iff, List.replicate_eq_nil_iff] at hnil
    split at hnil
    · cases hnil.2
    · omega
  · next only honly =>
    rw [honly, List.map_singleton, inOrder_singleton] at hcopies
    exact hcopies
  · rw [results_inSequence]
    exact hcopies

/-- A counted repetition, unless a plus at its end is left out. -/
theorem like_counted {min max : Int} (hmin : 0 ≤ min) (hmax : max = -1 ∨ min ≤ max) {flags : Flags}
    {t : Tree} (h : max = -1 → 1 ≤ min → ¬(t.op = .plus ∧ t.flags.nonGreedy = flags.nonGreedy)) :
    Like (counted min max flags t).results (Matcher.counted min max flags.nonGreedy t.results) := by
  by_cases hzero : min = 0 ∧ max = 0
  · rw [counted, if_pos hzero, hzero.1, hzero.2]
    show Like stay (both stay stay)
    rw [stay_both]
    exact Like.refl stay
  by_cases ht : t.op = .emptyMatch
  · rw [counted, if_neg hzero, if_pos ht, results_of_empty ht]
    exact (counted_stay _ _ _).symm
  rcases hmax with rfl | hmax
  · exact like_counted_open hmin ht (h rfl)
  · exact like_counted_bounded hmin hmax hzero ht

/-- A counted repetition whose last plus is left out keeps the rounds that are required. -/
theorem results_counted_merged {min : Int} (hmin : 1 ≤ min) {flags : Flags} {t : Tree}
    (hop : t.op = .plus) (hlazy : t.flags.nonGreedy = flags.nonGreedy) :
    (counted min (-1) flags t).results = exactly t.results min.toNat := by
  have hself : repeated .plus flags t = t := by
    unfold repeated
    rw [if_neg (by rw [hop]; decide), if_pos ⟨hop, hlazy⟩]
  unfold counted
  rw [if_neg (by omega), if_neg (by rw [hop]; decide), if_pos rfl, if_neg (by omega), hself]
  split
  · next hone =>
    rw [hone]
    exact (exactly_one _).symm
  · have hcount : min.toNat = (min - 1).toNat + 1 := by omega
    rw [results_inSequence_replicate, hcount, exactly_add, exactly_one]

/-! ## One node -/

/-- An operand that is required and may go on: the rounds that are required, and a star. -/
theorem results_of_rounds {l : Label} {n : Nat} (h : l.rounds? = some n) (m : Matcher) :
    l.results [m] = both (exactly m n) (star l.flags.nonGreedy m) := by
  rw [Label.rounds?] at h
  rw [Label.results]
  cases hop : l.op with
  | plus =>
    rw [hop] at h
    cases h
    rw [exactly_one]
    rfl
  | counted =>
    rw [hop] at h
    dsimp only at h ⊢
    split at h
    · next hunbounded =>
      cases h
      rw [Matcher.counted, if_pos (by omega)]
      rfl
    · cases h
  | _ =>
    rw [hop] at h
    cases h

/-- Where a plus is left out, the rounds that are required are what is left. -/
theorem results_merged {l : Label} {subs : List Tree} {u : Tree} {n : Nat} (h : l.rounds? = some n)
    (hop : u.op = .plus) (hlazy : u.flags.nonGreedy = l.flags.nonGreedy) :
    (unrollNode l subs [u]).results = exactly u.results n := by
  rw [Label.rounds?] at h
  rw [unrollNode]
  cases hl : l.op with
  | plus =>
    rw [hl] at h
    cases h
    show (repeated .plus l.flags u).results = _
    rw [repeated, if_neg (by rw [hop]; decide), if_pos ⟨hop, hlazy⟩, exactly_one]
  | counted =>
    rw [hl] at h
    dsimp only at h ⊢
    split at h
    · next hunbounded =>
      cases h
      rw [hunbounded.1]
      exact results_counted_merged hunbounded.2 hop hlazy
    · cases h
  | _ =>
    rw [hl] at h
    cases h

/-- A node whose operand is simplified matches like the node, unless a plus is left out; one case
    for each operation, and for the two with required rounds the condition is what keeps the
    plus. -/
theorem like_unrollNode {l : Label} {subs unrolled : List Tree} (hl : ProperNode l subs)
    (hlen : unrolled.length = subs.length)
    (h : ∀ u ∈ unrolled.head?, ∀ n, l.rounds? = some n →
      ¬(u.op = .plus ∧ u.flags.nonGreedy = l.flags.nonGreedy)) :
    Like (unrollNode l subs unrolled).results (l.results (unrolled.map results)) := by
  have hone : l.op.arity = .one → ∃ u, unrolled = [u] := by
    intro harity
    obtain ⟨t, rfl⟩ := hl.operand harity
    exact List.length_eq_one_iff.mp hlen
  rw [unrollNode]
  cases hop : l.op with
  | capture | concat | alternate =>
    rw [results_node, Label.results, Label.results, hop]
    exact Like.refl _
  | star =>
    obtain ⟨u, rfl⟩ := hone (by rw [hop]; rfl)
    rw [Label.results, hop]
    exact like_star l.flags u
  | quest =>
    obtain ⟨u, rfl⟩ := hone (by rw [hop]; rfl)
    rw [Label.results, hop]
    exact like_quest l.flags u
  | plus =>
    obtain ⟨u, rfl⟩ := hone (by rw [hop]; rfl)
    rw [Label.results, hop]
    show Like (repeated .plus l.flags u).results (plus l.flags.nonGreedy u.results)
    rw [results_plus (h u rfl 1 (by rw [Label.rounds?, hop]))]
    exact Like.refl _
  | counted =>
    obtain ⟨u, rfl⟩ := hone (by rw [hop]; rfl)
    obtain ⟨hmin, hmax⟩ := hl.bounds hop
    rw [Label.results, hop]
    refine like_counted hmin hmax fun hunbounded hpos => h u rfl l.min.toNat ?_
    rw [Label.rounds?, hop]
    exact if_pos ⟨hunbounded, hpos⟩
  | _ =>
    have harity : l.op.arity = .leaf := by rw [hop]; rfl
    rw [results_node, ← Label.results_reads, ← l.results_reads (unrolled.map results),
      Label.reads_leaf harity, Label.reads_leaf harity]
    exact Like.refl _

theorem arity_of_rounds {l : Label} {n : Nat} (h : l.rounds? = some n) : l.op.arity = .one := by
  rw [Label.rounds?] at h
  cases hop : l.op with
  | plus | counted => rfl
  | _ =>
    rw [hop] at h
    cases h

/-- An operation that has required rounds has one at least. -/
theorem rounds_ne_zero {l : Label} {n : Nat} (h : l.rounds? = some n) : n ≠ 0 := by
  rw [Label.rounds?] at h
  cases hop : l.op with
  | plus =>
    rw [hop] at h
    cases h
    exact Nat.one_ne_zero
  | counted =>
    rw [hop] at h
    dsimp only at h
    split at h
    · cases h
      omega
    · cases h
  | _ =>
    rw [hop] at h
    cases h

/-- Over operands that keep their results a node keeps its own just in case that the rounds left
    out would have given nothing new. -/
theorem unroll_like_iff {l : Label} {subs : List Tree} (hl : ProperNode l subs)
    (hsubs : ∀ t ∈ subs, Like t.unroll.results t.results) :
    Like (node l subs).unroll.results (node l subs).results ↔ NothingNew l subs := by
  rw [unroll_node, results_node]
  -- either a plus is left out here, which the condition is about, or nothing is
  by_cases hmerged : ∃ t ∈ subs.head?, t.Merges l.flags ∧ ∃ n, l.rounds? = some n
  · obtain ⟨t, ht, ⟨hop, hlazy⟩, n, hn⟩ := hmerged
    obtain ⟨u, rfl⟩ := hl.operand (arity_of_rounds hn)
    obtain rfl : u = t := Option.some.inj ht
    have hkept : Like (exactly u.unroll.results n) (exactly u.results n) :=
      (hsubs u List.mem_cons_self).exactly n
    rw [List.map_singleton, results_merged hn hop hlazy, List.map_singleton, results_of_rounds hn]
    constructor
    · rintro h v hv - m hm
      obtain rfl : u = v := Option.some.inj hv
      obtain rfl : n = m := Option.some.inj (hn.symm.trans hm)
      exact (hkept.symm.trans h).symm
    · intro h
      exact hkept.trans (h u rfl ⟨hop, hlazy⟩ n hn).symm
  · have hnothing : NothingNew l subs := fun t ht hm n hn => absurd ⟨t, ht, hm, n, hn⟩ hmerged
    refine iff_of_true ?_ hnothing
    have hoperands : List.Forall₂ Like ((subs.map unroll).map results) (subs.map results) := by
      rw [List.map_map, List.forall₂_map_left_iff, List.forall₂_map_right_iff, List.forall₂_same]
      exact hsubs
    refine (like_unrollNode hl (List.length_map _) fun u hu n hn hm => hmerged ?_).trans
      (l.results_like hoperands)
    rw [List.head?_map, Option.mem_def, Option.map_eq_some_iff] at hu
    obtain ⟨t, ht, rfl⟩ := hu
    exact ⟨t, ht, hm, n, hn⟩

/-! ## A condition on the operands -/

/-- An operand that sets nothing where it matches the empty text gives nothing new when it goes
    on. -/
theorem nothingNew_of_still {l : Label} {subs : List Tree}
    (hsubs : ∀ t ∈ subs, Like t.unroll.results t.results)
    (hstill : ∀ t ∈ subs, Still t.results) : NothingNew l subs := by
  intro t ht hmerges n hn
  have hmem : t ∈ subs := List.mem_of_mem_head? ht
  obtain ⟨m, hm⟩ : ∃ m, t.unroll.results = plus l.flags.nonGreedy m := by
    obtain ⟨hop, hlazy⟩ := hmerges
    generalize t.unroll = u at hop hlazy
    obtain ⟨k, operands⟩ := u
    rw [op_node] at hop
    rw [flags_node] at hlazy
    exact ⟨(operands.map results).headD fail, by rw [results_node, Label.results, hop, ← hlazy]⟩
  have hlike := hsubs t hmem
  have hplus : Still (plus l.flags.nonGreedy m) := hm ▸ Still.of_like (hstill t hmem) hlike.symm
  rw [hm] at hlike
  obtain ⟨k, rfl⟩ : ∃ k, n = k + 1 := Nat.exists_eq_succ_of_ne_zero (rounds_ne_zero hn)
  have hround := hlike.symm.exactly (k + 1)
  refine (hround.both (hlike.symm.star _)).trans ?_
  exact (both_star_of_still (Still.of_plus hplus) l.flags.nonGreedy k).trans hround.symm

/-- What has no captures sets nothing. -/
theorem still_results {t : Tree} (h : t.Everywhere fun l _ => l.op ≠ .capture) :
    Still t.results := by
  induction t using induct with
  | step l subs ih =>
    rw [everywhere_node] at h
    rw [results_node]
    refine Label.results_still h.1 fun m hm => ?_
    obtain ⟨u, hu, rfl⟩ := List.mem_map.mp hm
    exact ih u hu (h.2 u hu)

/-! ## Trees -/

/-- Under the condition at every node a tree that is rewritten matches like the tree; by induction,
    one node at a time. -/
theorem unroll_like {t : Tree} (ht : t.Everywhere ProperNode) (hnew : t.Everywhere NothingNew) :
    Like t.unroll.results t.results := by
  induction t using induct with
  | step l subs ih =>
    rw [everywhere_node] at ht hnew
    exact (unroll_like_iff ht.1 fun u hu => ih u hu (ht.2 u hu) (hnew.2 u hu)).mpr hnew.1

/-- The mark of a simplified tree changes nothing. -/
theorem results_simplify {t : Tree} (hroot : t.flags.simple = false) :
    t.simplify.results = t.unroll.results := by
  rw [simplify, if_neg (by simp [hroot])]
  obtain ⟨l, subs⟩ := t.unroll
  rw [relabel, results_node, results_node]
  rfl

/-- Simplifying keeps the results and their order of preference, up to later duplicates, just in
    case that no rounds are left out at the root which would have given something new; below the
    root none may be. -/
theorem simplify_sameMatches_iff {t : Tree} (hroot : t.flags.simple = false)
    (ht : t.Everywhere ProperNode) (hbelow : ∀ s ∈ t.subs, s.Everywhere NothingNew) :
    t.SameMatches t.simplify ↔ NothingNew t.label t.subs := by
  obtain ⟨l, subs⟩ := t
  rw [sameMatches_iff_like, results_simplify hroot]
  rw [everywhere_node] at ht
  have hsubs : ∀ s ∈ subs, Like s.unroll.results s.results := fun s hs =>
    unroll_like (ht.2 s hs) (hbelow s hs)
  exact ⟨fun h => (unroll_like_iff ht.1 hsubs).mp h.symm,
    fun h => ((unroll_like_iff ht.1 hsubs).mpr h).symm⟩

/-- A plus of a plus. -/
def plusOfPlus (t : Tree) : Tree := node { op := .plus } [node { op := .plus } [t]]

/-- A plus has no bounds that could be out of order. -/
theorem properNode_plus (t : Tree) : ProperNode { op := .plus } [t] where
  operand _ := ⟨t, rfl⟩
  bounds h := absurd h (by decide)

/-- A plus over a plus is a proper tree if the operand is. -/
theorem plusOfPlus_proper {t : Tree} (ht : t.Everywhere ProperNode) :
    (plusOfPlus t).Everywhere ProperNode := by
  rw [plusOfPlus, everywhere_node, List.forall_mem_singleton, everywhere_node,
    List.forall_mem_singleton]
  exact ⟨properNode_plus _, properNode_plus t, ht⟩

/-- One literal in a plus of a plus: nothing is lost. -/
theorem plusOfPlus_literal_sameMatches :
    (plusOfPlus (literal [97] {})).SameMatches (plusOfPlus (literal [97] {})).simplify := by
  have hleaf : (literal [97] {}).Everywhere ProperNode :=
    everywhere_leaf.mpr ⟨fun h => absurd h (by decide), fun h => absurd h (by decide)⟩
  have hbelow : ∀ s ∈ (plusOfPlus (literal [97] {})).subs, s.Everywhere NothingNew := by
    rw [plusOfPlus, subs_node, List.forall_mem_singleton, everywhere_node,
      List.forall_mem_singleton, literal, everywhere_leaf]
    refine ⟨fun t ht hmerges => ?_, fun t ht => by cases ht⟩
    obtain rfl := Option.some.inj ht
    exact absurd hmerges.1 (by decide)
  have hproper := plusOfPlus_proper hleaf
  refine (simplify_sameMatches_iff rfl hproper hbelow).mpr ?_
  refine nothingNew_of_still (fun t ht => unroll_like (hproper.below ht) (hbelow t ht)) ?_
  rintro t ht
  obtain rfl := List.mem_singleton.mp ht
  refine still_results ?_
  rw [everywhere_node, List.forall_mem_singleton, literal, everywhere_leaf]
  exact ⟨by decide, by decide⟩

/-- A choice with an empty capture in a plus of a plus: simplified, the pattern no longer finds
    that the capture takes the empty text before the second character. -/
theorem plusOfPlus_emptyCapture_loses :
    let t := plusOfPlus (node { op := .alternate }
      [node { op := .capture, cap := 1 } [empty], literal [97] {}])
    t.flags.simple = false ∧ t.Everywhere ProperNode ∧ ¬t.SameMatches t.simplify := by
  intro t
  refine ⟨rfl, plusOfPlus_proper ?_, fun h => ?_⟩
  · rw [everywhere_node, List.forall_mem_cons, List.forall_mem_singleton, everywhere_node,
      List.forall_mem_singleton, empty, leaf, literal, everywhere_leaf, everywhere_leaf]
    refine ⟨⟨fun h => ?_, fun h => ?_⟩, ⟨⟨fun _ => ⟨_, rfl⟩, fun h => ?_⟩, fun h => ?_, fun h => ?_⟩,
      fun h => ?_, fun h => ?_⟩
    all_goals exact absurd h (by decide)
  · have htext := h (Cursor.ofText ['a', 'a'])
    revert htext
    decide +kernel

/-- Simplifying keeps the results and their order of preference if the operand of a repetition
    that is required and may go on without bound sets nothing where it matches the empty text. -/
theorem simplify_sameMatches_of_still {t : Tree} (hroot : t.flags.simple = false)
    (ht : t.Everywhere ProperNode)
    (hstill : t.Everywhere fun l subs => l.rounds?.isSome → ∀ s ∈ subs, Still s.results) :
    t.SameMatches t.simplify := by
  rw [sameMatches_iff_like, results_simplify hroot]
  suffices h : Like t.unroll.results t.results from h.symm
  clear hroot
  induction t using induct with
  | step l subs ih =>
    rw [everywhere_node] at ht hstill
    have hsubs : ∀ s ∈ subs, Like s.unroll.results s.results := fun s hs =>
      ih s hs (ht.2 s hs) (hstill.2 s hs)
    refine (unroll_like_iff ht.1 hsubs).mpr fun s hs hm n hn => ?_
    exact nothingNew_of_still hsubs (hstill.1 (by rw [hn]; rfl)) s hs hm n hn

end Tree

end RegexTree
