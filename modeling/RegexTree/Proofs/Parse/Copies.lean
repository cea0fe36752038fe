/-
  Counted repetitions in what is read stay within a bound.

  A repetition is checked when it is read, before anything is joined or factored, and only if one of
  its bounds is at least 2.  The check is on the tree as it stands then, and the tree changes later.
  That it is enough rests on three things:

  * no other operation multiplies copies, and a bound below 2 makes one copy at most
    (`Quantifier.Valid.copyCount_le_one`), so a repetition that is not checked does not change the
    product (`fitsBudget_over`);
  * putting parts together does not change them, since joining and factoring never move a part into
    or out of a repetition (`fitsBudget_sequence`, `fitsBudget_choice`);
  * the class that becomes a dot is a leaf.

  So no way down the tree of a pattern comes to more than `maxRepeat` copies
  (`parsePattern_bounded`), and simplifying, which writes the copies out, makes at most that many of
  each leaf (`parsePattern_copies_le`).
-/
import RegexTree.Proofs.Parse.Normal
import RegexTree.Proofs.Tree.Copies

namespace RegexTree

open RegexTree.Tree

/-- A node in normal form has its operand and bounds in order. -/
theorem ProperNode.of_normal {l : Label} {subs : List Tree} (h : NormalNode l subs) :
    ProperNode l subs := by
  refine ⟨fun hop => ?_, fun hop => ?_⟩
  · have hfits := h.fits
    rw [hop] at hfits
    exact List.length_eq_one_iff.mp hfits
  · obtain ⟨hmin, -, hmax⟩ := h.bounds hop
    exact ⟨hmin, hmax.imp id And.left⟩

/-- A repetition that is read without a check multiplies nothing. -/
theorem Quantifier.Valid.copyCount_le_one {q : Quantifier} (hq : q.Valid)
    (hop : q.op = .counted) (hsmall : ¬(2 ≤ q.min ∨ 2 ≤ q.max)) (flags : Flags) :
    Label.copyCount { op := q.op, flags, min := q.min, max := q.max } ≤ 1 := by
  have hbounds := hq.bounds hop
  unfold Label.copyCount
  split
  · show q.min.toNat ≤ 1
    omega
  · show q.max.toNat ≤ 1
    omega

namespace Parse

/-- Normal form, and copies within the bound. -/
abbrev Bounded (t : Tree) : Prop := t.Normal ∧ t.fitsBudget maxRepeat = true

theorem bounded_leaf {t : Tree} (ht : t.Normal) (harity : t.op.arity = .leaf) : Bounded t :=
  ⟨ht, fitsBudget_leaf ht.shaped harity maxRepeat⟩

/-- A repetition that passed its check, or needs none, is within the bound if its operand is. -/
theorem fitsBudget_over {q : Quantifier} (hq : q.Valid) {t : Tree}
    (ht : t.fitsBudget maxRepeat = true) (flags : Flags)
    (hchecked : q.op = .counted ∧ (2 ≤ q.min ∨ 2 ≤ q.max) →
      (q.over flags t).fitsBudget maxRepeat = true) :
    (q.over flags t).fitsBudget maxRepeat = true := by
  by_cases hop : q.op = .counted
  · by_cases hlarge : 2 ≤ q.min ∨ 2 ≤ q.max
    · exact hchecked ⟨hop, hlarge⟩
    · have hcount := hq.copyCount_le_one hop hlarge flags
      refine (fitsBudget_counted_iff hop).mpr (Or.inr ⟨?_, ?_⟩)
      · exact Nat.le_trans hcount (by decide)
      · rw [Nat.max_eq_left hcount, Nat.div_one]
        exact List.forall_mem_singleton.mpr ht
  · rw [Quantifier.over, fitsBudget_of_ne hop, List.all_cons, ht]
    rfl

/-- Whatever the reader makes of parts within the bound is within it. -/
theorem keeps_bounded : Keeps Bounded Bounded .normal where
  piece _ h := h
  simple _ flags hop := bounded_leaf (simpleLeaf_normal hop flags) (Op.arity_of_isSimple hop)
  literal flags _ _ := bounded_leaf (literal_normal (List.cons_ne_nil _ _) flags) rfl
  charClass flags x hx :=
    bounded_leaf (Assembly.classPiece_normal hx flags) (Assembly.arity_classPiece flags x)
  branch ts h := by
    have hnormal : ∀ t ∈ ts, t.Normal := fun t ht => (h t ht).1
    have hsequence := sequence_normal hnormal
    refine ⟨asDot_normal hsequence, ?_⟩
    show (Assembly.asDot (sequence ts)).fitsBudget maxRepeat = true
    rw [fitsBudget_asDot hsequence.shaped,
      fitsBudget_sequence fun t ht => (hnormal t ht).shaped, fitAll, List.all_eq_true]
    exact fun t ht => (h t ht).2
  choice ts hne h := by
    have hnormal : ∀ t ∈ ts, t.Normal := fun t ht => (h t ht).1
    refine ⟨choice_normal hne hnormal, ?_⟩
    show (Tree.choice ts).fitsBudget maxRepeat = true
    rw [fitsBudget_choice fun t ht => (hnormal t ht).shaped, fitAll, List.all_eq_true]
    exact fun t ht => (h t ht).2
  repetition q flags t hq ht hchecked :=
    ⟨over_normal hq ht.1 flags, fitsBudget_over hq ht.2 flags hchecked⟩
  capture flags cap name t _ ht := by
    refine ⟨captureOf_normal ht.1 flags cap name, ?_⟩
    rw [captureOf, fitsBudget_of_ne (by simp), List.all_cons, ht.2]
    rfl

end Parse

/-- What a pattern is read to has proper nodes and stays within the bound. -/
theorem parsePattern_bounded {pattern : String} {flags : Flags} {nestLimit : Nat} {p : Pattern}
    (hp : parsePattern pattern flags nestLimit = .ok p) :
    p.root.Everywhere ProperNode ∧ p.root.fitsBudget maxRepeat = true := by
  by_cases hlit : flags.literal = true
  · rw [parsePattern, parseWith, if_pos hlit] at hp
    cases hp
    refine ⟨everywhere_leaf.mpr ⟨fun h => ?_, fun h => ?_⟩, ?_⟩
    · cases h
    · cases h
    · exact fitsBudget_of_ne (by simp) [] maxRepeat
  · rw [Bool.not_eq_true] at hlit
    obtain ⟨hnormal, hfits⟩ := Parse.parseWith_keeps Parse.keeps_bounded hlit hp
    exact ⟨hnormal.imp fun _ _ => ProperNode.of_normal, hfits⟩

/-- No way down the tree of a pattern comes to more copies than a count may hold, and simplifying
    the tree makes at most as many nodes without children of each. -/
theorem parsePattern_copies_le {pattern : String} {flags : Flags} {nestLimit : Nat} {p : Pattern}
    (hp : parsePattern pattern flags nestLimit = .ok p) :
    (∀ path ∈ p.root.paths, copiesOn path ≤ 1000) ∧
      p.root.simplify.leafCount ≤ 1000 * p.root.leafCount := by
  obtain ⟨hproper, hfits⟩ := parsePattern_bounded hp
  constructor
  · exact (fitsBudget_iff (by decide)).mp hfits
  · unfold simplify
    split
    · exact Nat.le_mul_of_pos_left _ (by decide)
    · rw [leafCount_relabel]
      exact leafCount_unroll_le hproper (by decide) hfits

/-- A bound that is reached, with a count that is too large inside of one that never happens. -/
theorem parsePattern_copies_le_nested :
    ∃ p, parsePattern "(?:(?:ab\x7b4\x7d|a(c\x7b3,\x7d)?)\x7b0,5\x7d(?:(?:d\x7b999\x7d)\x7b0\x7d)+)\x7b50\x7d"
        .perl 10 = .ok p ∧
      p.root.print =
        "(?:(?:a(?:b\x7b4\x7d|(c\x7b3,\x7d)?))\x7b0,5\x7d(?:(?:d\x7b999\x7d)\x7b0\x7d)+)\x7b50\x7d" ∧
      (∀ path ∈ p.root.paths, copiesOn path ≤ 1000) ∧
      p.root.simplify.leafCount ≤ 1000 * p.root.leafCount := by
  obtain ⟨p, hp, hprint⟩ := exists_of_map_eq_ok (f := fun p : Pattern => p.root.print)
    (e := parsePattern
      "(?:(?:ab\x7b4\x7d|a(c\x7b3,\x7d)?)\x7b0,5\x7d(?:(?:d\x7b999\x7d)\x7b0\x7d)+)\x7b50\x7d" .perl 10)
    (b := "(?:(?:a(?:b\x7b4\x7d|(c\x7b3,\x7d)?))\x7b0,5\x7d(?:(?:d\x7b999\x7d)\x7b0\x7d)+)\x7b50\x7d")
    (by decide +kernel)
  exact ⟨p, hp, hprint, parsePattern_copies_le hp⟩

end RegexTree
