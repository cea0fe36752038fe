/-
  The normal form of trees, and the operations that keep it.

  `NormalNode` says what holds at every node of a tree that the reader makes: it has as many
  children as its operation reads, sequences and choices are neither nested nor of one part, no two
  neighbours in a sequence are literals that could be one, no two neighbours in a choice begin with
  something that could be taken out of them (`Apart`), no literal is without runes, and a class is a
  clean list of ranges that no literal stands for.

  The first half of that is about neighbours and the second about single nodes, and they are proved
  apart: a normal tree is a reduced one (`Tree.Reduced`, in which nothing is left to put together or
  to take out) whose nodes are well formed by themselves (`WellFormedNode`, a property of the kind
  that everything keeps).  So sequences and choices of normal parts are normal (`sequence_normal`,
  `choice_normal`) by two theorems that are proved elsewhere, for each of the halves.

  What is proved here is that pieces are normal.  A class is rewritten to a literal if it has one
  rune, or two that fold to one another; the proof follows the forms that a clean list may have
  (`proper_nil` to `proper_many`), and in each of them a list that is kept as a class is `Proper`
  (`classPiece_normal`).  A class that is all runes, or all but the newline, becomes a dot where a
  branch ends (`asDot_normal`).
-/
import RegexTree.Proofs.Ranges.Clean
import RegexTree.Proofs.Tree.ReducedChoice
import RegexTree.Syntax.Count

namespace RegexTree

/-! ## What is normal -/

/-- A clean class that no literal stands for: it is neither one rune nor a rune with its only fold
    partner. -/
structure Ranges.Proper (x : Ranges) : Prop where
  clean : x.Clean
  notOne : ¬∃ a, ∀ c, x.has c = true ↔ c = a
  notPair : ¬∃ a b, Unicode.isFoldPair a b = true ∧ ∀ c, x.has c = true ↔ c = a ∨ c = b

/-- The number of children that an operation has. -/
def Arity.Fits : Arity → (count : Nat) → Prop
  | .leaf, count => count = 0
  | .one, count => count = 1
  | .many, count => 2 ≤ count

/-- A node of a tree in normal form. -/
structure NormalNode (l : Label) (subs : List Tree) : Prop where
  notMarker : l.op.isMarker = false
  fits : l.op.arity.Fits subs.length
  notNested : l.op.arity = .many → ∀ t ∈ subs, t.op ≠ l.op
  /-- Neighbours in a sequence are not literals that both fold or both do not. -/
  unjoinable : l.op = .concat → Tree.Unjoinable subs
  /-- Neighbours in a choice have no beginning in common. -/
  factored : l.op = .alternate → subs.IsChain Tree.Apart
  bounds : l.op = .counted →
    0 ≤ l.min ∧ l.min ≤ maxRepeat ∧ (l.max = -1 ∨ l.min ≤ l.max ∧ l.max ≤ maxRepeat)
  text : l.op = .literal → l.runes ≠ []
  ranges : l.op = .charClass → ∃ x : Ranges, l.runes = x.runes ∧ x.Proper

namespace Tree

/-- Every node of the tree is in normal form. -/
abbrev Normal (t : Tree) : Prop := t.Everywhere NormalNode

/-- What is asked of a normal node beside that it is reduced. -/
structure WellFormedNode (l : Label) (subs : List Tree) : Prop where
  leaf : l.op.arity = .leaf → subs = []
  notMarker : l.op.isMarker = false
  bounds : l.op = .counted →
    0 ≤ l.min ∧ l.min ≤ maxRepeat ∧ (l.max = -1 ∨ l.min ≤ l.max ∧ l.max ≤ maxRepeat)
  ranges : l.op = .charClass → ∃ x : Ranges, l.runes = x.runes ∧ x.Proper

/-- Being well formed asks nothing of sequences and choices, and of a literal no more than that it
    has no children. -/
theorem wellFormedNode_local : Local (fun _ _ => True) WellFormedNode where
  many l subs h := by
    refine ⟨?_, ?_, ?_, ?_⟩
    all_goals cases hop : l.op <;> simp_all [Op.arity, Op.isMarker]
  empty l h := by
    refine ⟨fun _ => rfl, ?_, ?_, ?_⟩
    all_goals simp [h, Op.isMarker]
  literal l h := by
    refine ⟨fun _ _ _ => trivial, fun _ => ⟨fun _ => rfl, ?_, ?_, ?_⟩⟩
    all_goals simp [h, Op.isMarker]
  childless l subs h hl := hl.leaf (by rw [h]; rfl)

/-- A node is normal if it is reduced and well formed. -/
theorem normalNode_iff {l : Label} {subs : List Tree} :
    NormalNode l subs ↔ ReducedNode l subs ∧ WellFormedNode l subs := by
  constructor
  · intro h
    have hfits := h.fits
    refine ⟨⟨fun harity => ?_, fun harity => ?_, h.notNested, h.unjoinable, h.factored, h.text⟩,
      ⟨fun harity => ?_, h.notMarker, h.bounds, h.ranges⟩⟩
    all_goals rw [harity] at hfits
    · exact List.length_eq_one_iff.mp hfits
    · exact hfits
    · exact List.length_eq_zero_iff.mp hfits
  · rintro ⟨hr, hw⟩
    refine ⟨hw.notMarker, ?_, hr.notNested, hr.unjoinable, hr.factored, hw.bounds, hr.text,
      hw.ranges⟩
    cases harity : l.op.arity with
    | leaf => exact List.length_eq_zero_iff.mpr (hw.leaf harity)
    | one => exact List.length_eq_one_iff.mpr (hr.operand harity)
    | many => exact hr.parts harity

/-- A normal tree is a reduced one whose nodes are well formed by themselves. -/
theorem normal_iff {t : Tree} : t.Normal ↔ t.Reduced ∧ t.Everywhere WellFormedNode := by
  constructor
  · intro ht
    exact ⟨ht.imp fun _ _ h => (normalNode_iff.mp h).1, ht.imp fun _ _ h => (normalNode_iff.mp h).2⟩
  · rintro ⟨hr, hw⟩
    exact (hr.and hw).imp fun _ _ h => normalNode_iff.mpr h

namespace Normal

variable {t : Tree} (ht : t.Normal)

include ht

/-- There is nothing to put together or take out in a normal tree. -/
theorem reduced : t.Reduced := (normal_iff.mp ht).1

/-- A normal tree has the children that its operations read. -/
theorem shaped : t.Shaped :=
  ht.imp fun _ _ h => ⟨(normalNode_iff.mp h).2.leaf, (normalNode_iff.mp h).1.operand⟩

/-- A leaf has no children. -/
theorem subs_eq_nil (harity : t.op.arity = .leaf) : t.subs = [] := ht.shaped.here.leaf harity

/-- A sequence or a choice has at least two children. -/
theorem two_le_length (harity : t.op.arity = .many) : 2 ≤ t.subs.length :=
  ht.reduced.two_le_length harity

end Normal

/-! ## Leaves -/

/-- An operation that reads nothing of its label makes a normal leaf. -/
theorem plainLeaf_normal {l : Label} (harity : l.op.arity = .leaf) (hmarker : l.op.isMarker = false)
    (htext : l.op ≠ .literal) (hclass : l.op ≠ .charClass) : (node l []).Normal := by
  refine normal_iff.mpr ⟨leaf_reduced harity (fun h => absurd h htext) (by simp), ?_⟩
  refine everywhere_leaf.mpr ⟨fun _ => rfl, hmarker, fun h => ?_, fun h => absurd h hclass⟩
  rw [h] at harity
  cases harity

theorem empty_normal : empty.Normal :=
  plainLeaf_normal rfl rfl (by decide) (by decide)

/-- A literal is normal if it has a rune. -/
theorem literal_normal {runes : List Nat} (h : runes ≠ []) (flags : Flags) :
    (literal runes flags).Normal :=
  normal_iff.mpr ⟨literal_reduced h flags,
    (wellFormedNode_local.everywhere_literal rfl).mpr ⟨rfl, fun _ _ => trivial⟩⟩

/-- A class is normal if no literal stands for it. -/
theorem charClass_normal {x : Ranges} (h : x.Proper) (flags : Flags) :
    (charClass x flags).Normal := by
  refine normal_iff.mpr ⟨leaf_reduced rfl (fun h => nomatch h) (by simp), everywhere_leaf.mpr ?_⟩
  exact ⟨fun _ => rfl, rfl, fun h => (nomatch h), fun _ => ⟨x, rfl, h⟩⟩

end Tree

/-! ## Classes -/

open Unicode in
theorem Unicode.isFoldPair_comm (a b : Nat) : isFoldPair a b = isFoldPair b a := by
  rw [Bool.eq_iff_iff]
  simp only [isFoldPair, Bool.and_eq_true, bne_iff_ne, beq_iff_eq]
  constructor
  · rintro ⟨⟨hne, hab⟩, hba⟩
    exact ⟨⟨hne.symm, hba⟩, hab⟩
  · rintro ⟨⟨hne, hab⟩, hba⟩
    exact ⟨⟨hne.symm, hba⟩, hab⟩

namespace Ranges

/-- Both ends of a range of a clean list are runes of the list. -/
theorem Clean.has_ends {x : Ranges} (hx : x.Clean) {r : Range} (hr : r ∈ x) :
    x.has r.lo = true ∧ x.has r.hi = true := by
  have hv := (hx.valid r hr).1
  exact ⟨has_iff.mpr ⟨r, hr, Nat.le_refl _, hv⟩, has_iff.mpr ⟨r, hr, hv, Nat.le_refl _⟩⟩

theorem proper_nil : Proper [] := by
  refine ⟨clean_nil, ?_, ?_⟩
  · rintro ⟨a, h⟩
    exact absurd ((h a).mpr rfl) Bool.false_ne_true
  · rintro ⟨a, b, -, h⟩
    exact absurd ((h a).mpr (Or.inl rfl)) Bool.false_ne_true

/-- One range, if it is no single rune and no two that fold to one another. -/
theorem proper_one {a : Range} (hx : Clean [a]) (hone : a.lo ≠ a.hi)
    (hpair : ¬(a.lo + 1 = a.hi ∧ Unicode.isFoldPair a.lo a.hi = true)) : Proper [a] := by
  have hv : a.lo ≤ a.hi := (hx.valid a List.mem_cons_self).1
  obtain ⟨hlo, hhi⟩ := hx.has_ends List.mem_cons_self
  refine ⟨hx, ?_, ?_⟩
  · rintro ⟨c, h⟩
    exact hone (((h _).mp hlo).trans ((h _).mp hhi).symm)
  · rintro ⟨p, q, hpq, h⟩
    have hends : a.lo = p ∧ a.hi = q ∨ a.lo = q ∧ a.hi = p := by
      have h1 := (h _).mp hlo
      have h2 := (h _).mp hhi
      omega
    -- the rune after the first is one of the two, so it is the last
    have hnext : a.lo + 1 = a.hi := by
      have h1 := (h (a.lo + 1)).mp (has_iff.mpr ⟨a, List.mem_cons_self, by omega, by omega⟩)
      omega
    rcases hends with ⟨rfl, rfl⟩ | ⟨rfl, rfl⟩
    · exact hpair ⟨hnext, hpq⟩
    · rw [Unicode.isFoldPair_comm] at hpq
      exact hpair ⟨hnext, hpq⟩

/-- Two ranges, if they are not two runes of one orbit. -/
theorem proper_two {a b : Range} (hx : Clean [a, b])
    (hpair : ¬(a.lo = a.hi ∧ b.lo = b.hi ∧ Unicode.isFoldPair a.lo b.lo = true)) :
    Proper [a, b] := by
  have hva : a.lo ≤ a.hi := (hx.valid a (by simp)).1
  have hvb : b.lo ≤ b.hi := (hx.valid b (by simp)).1
  have hab : a.hi + 1 < b.lo := (clean_cons.mp hx).2.1 b (by simp)
  obtain ⟨halo, hahi⟩ := hx.has_ends (r := a) (by simp)
  obtain ⟨hblo, hbhi⟩ := hx.has_ends (r := b) (by simp)
  refine ⟨hx, ?_, ?_⟩
  · rintro ⟨c, h⟩
    have h1 := (h _).mp halo
    have h2 := (h _).mp hblo
    omega
  · rintro ⟨p, q, hpq, h⟩
    have h1 := (h _).mp halo
    have h2 := (h _).mp hahi
    have h3 := (h _).mp hblo
    have h4 := (h _).mp hbhi
    have hends : a.lo = p ∧ b.lo = q ∨ a.lo = q ∧ b.lo = p := by omega
    rcases hends with ⟨rfl, rfl⟩ | ⟨rfl, rfl⟩
    · exact hpair ⟨by omega, by omega, hpq⟩
    · rw [Unicode.isFoldPair_comm] at hpq
      exact hpair ⟨by omega, by omega, hpq⟩

/-- Three ranges are too many for a literal. -/
theorem proper_many {a b c : Range} {rest : Ranges} (hx : Clean (a :: b :: c :: rest)) :
    Proper (a :: b :: c :: rest) := by
  have hva : a.lo ≤ a.hi := (hx.valid a (by simp)).1
  have hvb : b.lo ≤ b.hi := (hx.valid b (by simp)).1
  have hab : a.hi + 1 < b.lo := (clean_cons.mp hx).2.1 b (by simp)
  have hbc : b.hi + 1 < c.lo := (clean_cons.mp (clean_cons.mp hx).2.2).2.1 c (by simp)
  have ha := (hx.has_ends (r := a) (by simp)).1
  have hb := (hx.has_ends (r := b) (by simp)).1
  have hc := (hx.has_ends (r := c) (by simp)).1
  refine ⟨hx, ?_, ?_⟩
  · rintro ⟨d, h⟩
    have h1 := (h _).mp ha
    have h2 := (h _).mp hb
    omega
  · rintro ⟨p, q, -, h⟩
    have h1 := (h _).mp ha
    have h2 := (h _).mp hb
    have h3 := (h _).mp hc
    omega

end Ranges

namespace Assembly

open RegexTree.Tree

/-- What a class is rewritten to is a leaf. -/
theorem arity_classPiece (flags : Flags) (x : Ranges) : (classPiece flags x).op.arity = .leaf := by
  unfold classPiece
  split
  · split
    · rfl
    · split
      · rfl
      · rfl
  · split
    · rfl
    · rfl
  · rfl

/-- The piece for a class is normal, by the forms that a clean list may have. -/
theorem classPiece_normal {x : Ranges} (hx : x.Clean) (flags : Flags) :
    (classPiece flags x).Normal := by
  unfold classPiece
  split
  · split
    · exact literal_normal (List.cons_ne_nil _ _) _
    · next hone =>
      split
      · exact literal_normal (List.cons_ne_nil _ _) _
      · next hpair => exact charClass_normal (Ranges.proper_one hx hone hpair) flags
  · split
    · exact literal_normal (List.cons_ne_nil _ _) _
    · next hpair => exact charClass_normal (Ranges.proper_two hx hpair) flags
  · next hone htwo =>
    refine charClass_normal ?_ flags
    match x with
    | [] => exact Ranges.proper_nil
    | [a] => exact absurd rfl (hone a)
    | [a, b] => exact absurd rfl (htwo a b)
    | a :: b :: c :: rest => exact Ranges.proper_many hx

end Assembly

/-! ## Dots -/

namespace Tree

/-- The class of all runes, or of all but the newline. -/
def DotClass (t : Tree) : Prop :=
  t.op = .charClass ∧ (t.runes = Ranges.full.runes ∨ t.runes = Ranges.fullButNewline.runes)

instance (t : Tree) : Decidable t.DotClass := inferInstanceAs (Decidable (_ ∧ _))

theorem DotClass.arity {t : Tree} (h : t.DotClass) : t.op.arity = .leaf := by
  rw [h.1]
  rfl

theorem DotClass.subs_eq_nil {t : Tree} (h : t.DotClass) (ht : t.Shaped) : t.subs = [] :=
  ht.here.leaf h.arity

theorem asDot_of_not {t : Tree} (h : ¬t.DotClass) : Assembly.asDot t = t := by
  unfold Assembly.asDot
  split
  · next hop =>
    rw [if_neg fun hfull => h ⟨hop, Or.inl hfull⟩, if_neg fun hnl => h ⟨hop, Or.inr hnl⟩]
  · rfl

/-- What stands for a class of all runes is a dot. -/
theorem asDot_of_dotClass {t : Tree} (h : t.DotClass) :
    ∃ op : Op, (op = .anyChar ∨ op = .anyCharNotNL) ∧
      Assembly.asDot t = node { t.label with op, runes := [] } t.subs := by
  obtain ⟨l, subs⟩ := t
  obtain ⟨hop, hrunes⟩ := h
  rw [Assembly.asDot, if_pos hop]
  split
  · exact ⟨.anyChar, Or.inl rfl, rfl⟩
  · next hfull =>
    rw [if_pos (hrunes.resolve_left hfull)]
    exact ⟨.anyCharNotNL, Or.inr rfl, rfl⟩

/-- A dot is a leaf without runes. -/
theorem asDot_normal {t : Tree} (ht : t.Normal) : (Assembly.asDot t).Normal := by
  by_cases hdot : t.DotClass
  · obtain ⟨op, hop, he⟩ := asDot_of_dotClass hdot
    rw [he, ht.subs_eq_nil (by rw [hdot.1]; rfl)]
    rcases hop with rfl | rfl
    · exact plainLeaf_normal rfl rfl (by simp) (by simp)
    · exact plainLeaf_normal rfl rfl (by simp) (by simp)
  · rwa [asDot_of_not hdot]

/-! ## Sequences and choices -/

/-- Normal form passes to the parts of a sequence, and to two literals that are joined. -/
theorem kept_normal : KeptByParts Normal where
  empty := empty_normal
  subs _ ht _ _ hs := ht.below hs
  joined t u ht hu h := by
    rw [normal_iff] at ht hu ⊢
    exact ⟨joined_reduced ht.1 h, wellFormedNode_local.kept.joined t u ht.2 hu.2 h⟩

/-- A sequence of normal pieces is normal. -/
theorem sequence_normal {pieces : List Tree} (h : ∀ t ∈ pieces, t.Normal) :
    (sequence pieces).Normal := by
  have hparts := fun t ht => normal_iff.mp (h t ht)
  refine normal_iff.mpr ⟨sequence_reduced fun t ht => (hparts t ht).1, ?_⟩
  exact wellFormedNode_local.kept.sequence fun t ht => (hparts t ht).2

/-- A choice of normal branches is normal. -/
theorem choice_normal {branches : List Tree} (hne : branches ≠ [])
    (h : ∀ t ∈ branches, t.Normal) : (choice branches).Normal := by
  have hparts := fun t ht => normal_iff.mp (h t ht)
  refine normal_iff.mpr ⟨choice_reduced hne fun t ht => (hparts t ht).1, ?_⟩
  exact (wellFormedNode_local.kept.choiceLaw.choice fun t ht => (hparts t ht).2).1

end Tree

end RegexTree
