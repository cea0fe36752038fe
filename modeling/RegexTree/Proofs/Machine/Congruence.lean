/-
  Comparing trees is a congruence.

  On trees that have the children which their operations read, and no others, comparing always has
  an answer, and trees that it finds equal cannot be told apart by what is done with trees.  They
  have the same compact form, printed form and captures, they are equal when they are simplified,
  and lists of them collapse to equal trees, whatever the operation (`equal_congruence`).  So a flag
  that comparing passes over has no influence on any of these.

  `collapse` may be called with an operation that is neither a sequence nor a choice, and what it
  makes then is a node over parts that are spliced (`collapsed`).  If that operation reads one
  operand only, and there are several, the two results are equal as far as comparing looks at them;
  asking the machine to compare them would go through children that nobody has, which is why the
  statement on comparing the results leaves those operations out.

  Most of it has been proved of trees already; here it is put in terms of what the machine computes,
  where an operand that is missing makes it stuck.
-/
import RegexTree.Proofs.Parse.Captures
import RegexTree.Proofs.Print.Unique
import RegexTree.Proofs.Tree.Congruence
import RegexTree.Tree.Captures

namespace RegexTree.Machine

open RegexTree.Tree
open Assembly (bare)

/-! ## Collapsing under any operation -/

/-- What parts collapse to. -/
def collapsed (op : Op) : List Tree → Tree
  | [only] => only
  | subs =>
    if op = .concat then bare .concat (flatParts subs)
    else if op = .alternate then choice subs
    else branching op (subs.flatMap (spliced op))

theorem collapsed_of_ne (op : Op) {subs : List Tree} (h : subs.length ≠ 1) :
    collapsed op subs =
      if op = .concat then bare .concat (flatParts subs)
      else if op = .alternate then choice subs
      else branching op (subs.flatMap (spliced op)) := by
  match subs, h with
  | [], _ => rfl
  | _ :: _ :: _, _ => rfl

/-- Collapsing has a value where all operands are there. -/
theorem collapse_eq (op : Op) {subs : List Tree} (hfull : ∀ t ∈ subs, t.Everywhere HasOperand) :
    collapse op subs = .ok (collapsed op subs) := by
  by_cases hone : subs.length = 1
  · obtain ⟨t, rfl⟩ := List.length_eq_one_iff.mp hone
    rfl
  rw [collapsed_of_ne op hone]
  have hcollapse := collapseWithin.eq_3 op subs ((subs.map mass).foldr (· + ·) 0) fun t ht =>
    hone (by rw [ht]; rfl)
  by_cases hconcat : op = .concat
  · rw [if_pos hconcat, collapse, hcollapse, hconcat, foldl_pushSub_concat]
    rfl
  rw [if_neg hconcat]
  by_cases halternate : op = .alternate
  · rw [if_pos halternate, halternate]
    exact collapse_alternate hfull
  · rw [if_neg halternate, collapse, hcollapse, foldl_pushSub_of_ne hconcat, List.nil_append,
      if_neg halternate, pure_eq_ok, ok_bind, if_neg (not_or.mpr ⟨hconcat, halternate⟩)]
    rfl

/-- No operand is missing in what parts collapse to, unless the operation itself reads one. -/
theorem collapsed_operands {op : Op} (harity : op.arity ≠ .one) {subs : List Tree}
    (hfull : ∀ t ∈ subs, t.Everywhere HasOperand) :
    (collapsed op subs).Everywhere HasOperand := by
  by_cases hone : subs.length = 1
  · obtain ⟨t, rfl⟩ := List.length_eq_one_iff.mp hone
    exact hfull t List.mem_cons_self
  rw [collapsed_of_ne op hone]
  split
  · exact kept_operands.bare rfl (forall_flatParts kept_operands.toKeptByParts hfull)
  split
  · exact (kept_operands.choiceLaw.choice hfull).1
  · exact everywhere_node.mpr ⟨fun h => absurd h harity, operands_of_spliced hfull⟩

/-- Equal lists collapse to equal trees, whatever the operation. -/
theorem collapsed_congr (op : Op) {ts us : List Tree}
    (h : List.Forall₂ (fun t u => t.Shaped ∧ u.Shaped ∧ t.equal u = true) ts us) :
    (collapsed op ts).equal (collapsed op us) = true := by
  have hequal : EqualAll ts us := h.imp fun _ _ htu => htu.2.2
  by_cases hone : ts.length = 1
  · obtain ⟨t, rfl⟩ := List.length_eq_one_iff.mp hone
    obtain ⟨u, rfl⟩ := List.length_eq_one_iff.mp (hequal.length_eq ▸ hone)
    exact (List.forall₂_cons.mp hequal).1
  rw [collapsed_of_ne op hone, collapsed_of_ne op (hequal.length_eq ▸ hone)]
  split
  · exact bare_congr _ (joinLiterals_congr (flatMap_spliced_congr rfl hequal))
  split
  · exact choice_congr h
  · -- all children of these trees are read, so that those of equal trees are equal
    refine branching_congr op (List.rel_flatMap h fun t u htu => ?_)
    obtain ⟨ht, hu, htu⟩ := htu
    exact spliced_congr htu fun _ => subs_of_equal htu ht.here.reads_eq hu.here.reads_eq

/-! ## The congruence -/

theorem equal_of_shaped {t u : Tree} (ht : t.Shaped) (hu : u.Shaped) :
    equal t u = .ok (t.equal u) :=
  equal_eq (operands_of_shaped ht) (operands_of_shaped hu)

/-- The machine finds them equal just if they are. -/
theorem equal_iff {t u : Tree} (ht : t.Shaped) (hu : u.Shaped) :
    equal t u = .ok true ↔ t.equal u = true := by
  rw [equal_of_shaped ht hu, Except.ok.injEq]

/-- Comparing is an equivalence on trees that have a shape. -/
theorem equal_equivalence :
    Equivalence fun t u : { t : Tree // t.Shaped } => equal t u = .ok true where
  refl t := (equal_iff t.2 t.2).mpr (equal_refl t.1)
  symm {t u} h := by
    rw [equal_iff t.2 u.2] at h
    rw [equal_iff u.2 t.2]
    exact equal_symm h
  trans {t u v} h h' := by
    rw [equal_iff t.2 u.2] at h
    rw [equal_iff u.2 v.2] at h'
    rw [equal_iff t.2 v.2]
    exact equal_trans h h'

section

variable {t u : Tree} (ht : t.Shaped) (hu : u.Shaped) (h : equal t u = .ok true)

include ht hu h

/-- Equal trees are shown alike. -/
theorem shown_of_equal :
    t.isComplete = true ∧ u.isComplete = true ∧ t.dump = u.dump ∧ t.print = u.print := by
  have hequal := (equal_iff ht hu).mp h
  refine ⟨isComplete_of_operands (operands_of_shaped ht),
    isComplete_of_operands (operands_of_shaped hu), dump_congr ht hu hequal, ?_⟩
  rw [print, print, (printsAs_of_equal ht hu hequal).printed]

theorem capNames_of_equal : t.maxCap = u.maxCap ∧ t.capNames = u.capNames := by
  have hcaptures := captures_of_equal ht hu ((equal_iff ht hu).mp h)
  constructor
  · rw [maxCap, maxCap, hcaptures]
  · rw [capNames, capNames, maxCap, maxCap, hcaptures]

/-- Equal trees can be simplified, and come to equal ones. -/
theorem simplify_of_equal (hts : t.flags.simple = false) (hus : u.flags.simple = false) :
    t.isUnrollable = true ∧ u.isUnrollable = true ∧ equal t.simplify u.simplify = .ok true := by
  refine ⟨isUnrollable_of_operands (operands_of_shaped ht),
    isUnrollable_of_operands (operands_of_shaped hu), ?_⟩
  rw [equal_iff (shaped_simplify ht) (shaped_simplify hu)]
  exact simplify_congr hts hus ((equal_iff ht hu).mp h)

end

/-- Equal lists are collapsed to equal trees. -/
theorem collapse_of_equal (op : Op) {ts us : List Tree}
    (h : List.Forall₂ (fun t u => t.Shaped ∧ u.Shaped ∧ equal t u = .ok true) ts us) :
    ∃ r s, collapse op ts = .ok r ∧ collapse op us = .ok s ∧ r.equal s = true ∧
      (op.arity ≠ .one → equal r s = .ok true) := by
  have hequal : List.Forall₂ (fun t u => t.Shaped ∧ u.Shaped ∧ t.equal u = true) ts us :=
    h.imp fun t u htu => ⟨htu.1, htu.2.1, (equal_iff htu.1 htu.2.1).mp htu.2.2⟩
  obtain ⟨hts, hright⟩ := (List.forall₂_and_left ts us).mp hequal
  obtain ⟨hus, -⟩ := (List.forall₂_and_left us ts).mp (List.Forall₂.flip hright)
  have htsFull : ∀ t ∈ ts, t.Everywhere HasOperand := fun t ht => operands_of_shaped (hts t ht)
  have husFull : ∀ u ∈ us, u.Everywhere HasOperand := fun u hu => operands_of_shaped (hus u hu)
  have hresult := collapsed_congr op hequal
  refine ⟨_, _, collapse_eq op htsFull, collapse_eq op husFull, hresult, fun harity => ?_⟩
  rw [equal_eq (collapsed_operands harity htsFull) (collapsed_operands harity husFull), hresult]

/-- On trees that have the children which are read, and no others, comparing is an equivalence.
    Equal trees have the same forms and captures, and if neither is marked as simple they are
    equal when they are simplified.  Lists of equal trees collapse to equal trees; a unary operation
    may be left without its operand, and then these cannot be compared. -/
theorem equal_congruence :
    Equivalence (fun t u : { t : Tree // t.Shaped } => equal t u = .ok true) ∧
      (∀ t u : Tree, t.Shaped → u.Shaped → equal t u = .ok true →
        (t.isComplete = true ∧ u.isComplete = true ∧ t.dump = u.dump ∧ t.print = u.print) ∧
          (t.maxCap = u.maxCap ∧ t.capNames = u.capNames) ∧
          (t.flags.simple = false → u.flags.simple = false →
            t.isUnrollable = true ∧ u.isUnrollable = true ∧
              equal t.simplify u.simplify = .ok true)) ∧
      ∀ (op : Op) (ts us : List Tree),
        List.Forall₂ (fun t u => t.Shaped ∧ u.Shaped ∧ equal t u = .ok true) ts us →
          ∃ r s, collapse op ts = .ok r ∧ collapse op us = .ok s ∧ r.equal s = true ∧
            (op.arity ≠ .one → equal r s = .ok true) := by
  refine ⟨equal_equivalence, fun t u ht hu h => ⟨?_, ?_, ?_⟩, fun op ts us h => ?_⟩
  · exact shown_of_equal ht hu h
  · exact capNames_of_equal ht hu h
  · exact simplify_of_equal ht hu h
  · exact collapse_of_equal op h

/-- A repetition and two literals, read under different flags that nothing looks at. -/
theorem equal_congruence_otherFlags :
    let t := node { op := .counted, min := 2, max := 3 } [literal [97] {}]
    let u := node { op := .counted, flags := .perl, min := 2, max := 3 }
      [literal [97] { oneLine := true, simple := true }]
    let ts := [literal [97, 98] {}, literal [97, 99] {}]
    let us := [literal [97, 98] { dotNL := true }, literal [97, 99] .perl]
    t.Shaped ∧ u.Shaped ∧ equal t u = .ok true ∧ t.flags.simple = false ∧ u.flags.simple = false ∧
      t.print = u.print ∧ equal t.simplify u.simplify = .ok true ∧
      List.Forall₂ (fun t u => t.Shaped ∧ u.Shaped ∧ equal t u = .ok true) ts us ∧
      ∃ r s, collapse .alternate ts = .ok r ∧ collapse .alternate us = .ok s ∧
        equal r s = .ok true := by
  intro t u ts us
  have hshaped (runes : List Nat) (flags : Flags) : (literal runes flags).Shaped :=
    everywhere_leaf.mpr ⟨fun _ => rfl, fun h => (by cases h)⟩
  have hcounted (flags flags' : Flags) :
      (node { op := .counted, flags, min := 2, max := 3 } [literal [97] flags']).Shaped :=
    everywhere_node.mpr ⟨⟨fun h => (by cases h), fun _ => ⟨_, rfl⟩⟩,
      List.forall_mem_singleton.mpr (hshaped _ _)⟩
  have hequal : equal t u = .ok true := by decide +kernel
  have hlists : List.Forall₂ (fun t u => t.Shaped ∧ u.Shaped ∧ equal t u = .ok true) ts us := by
    refine List.Forall₂.cons ⟨hshaped _ _, hshaped _ _, by decide +kernel⟩
      (List.Forall₂.cons ⟨hshaped _ _, hshaped _ _, by decide +kernel⟩ List.Forall₂.nil)
  obtain ⟨-, hsame, hcollapse⟩ := equal_congruence
  obtain ⟨⟨-, -, -, hprint⟩, -, hsimplify⟩ := hsame t u (hcounted _ _) (hcounted _ _) hequal
  obtain ⟨r, s, hr, hs, -, hrs⟩ := hcollapse .alternate ts us hlists
  exact ⟨hcounted _ _, hcounted _ _, hequal, rfl, rfl, hprint, (hsimplify rfl rfl).2.2, hlists,
    r, s, hr, hs, hrs (by decide)⟩

end RegexTree.Machine
