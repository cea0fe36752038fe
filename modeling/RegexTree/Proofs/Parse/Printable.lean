/-
  What holds of the labels of the trees that the reader makes, beside their normal form.

  The runes of a literal are code points, and if it folds, each stands for its orbit; the numbers of
  counted repetitions inside one another come to no more copies than allowed; captures have names
  that can be read again, and what they hold is a finished branch or choice, which is no class of
  all runes because such a class has become a dot (`PrintableNode`).

  These are the facts that reading a printed form relies on.  They are stated of one node and its
  operands (`PrintableNode`) and hold everywhere in a tree, so they go through sequences and choices
  by the same laws as normal form does: what joining and factoring make anew is a literal or a node
  over parts that were there (`printableNode_local`).

  Only a class that is a whole branch, with factoring done around it, may stay a class of all runes.
  It is read again as a dot, which is the one way in which a printed form may be read as another
  tree.
-/
import RegexTree.Proofs.Parse.Normal
import RegexTree.Proofs.Tree.Budget
import RegexTree.Proofs.Unicode.Orbits

namespace RegexTree

open RegexTree.Tree

/-- The rune is a code point, and where letters stand for all of their case it is the smallest of
    its orbit. -/
def PrintableRune (fold : Bool) (r : Nat) : Prop :=
  r ≤ maxRune ∧ (fold = true → Unicode.minFold r = r)

/-- A node whose printed form can be read again. -/
structure PrintableNode (l : Label) (subs : List Tree) : Prop where
  notNoMatch : l.op ≠ .noMatch
  literal : l.op = .literal → subs = [] ∧ ∀ r ∈ l.runes, PrintableRune l.flags.foldCase r
  budget : l.op = .counted → 2 ≤ l.min ∨ 2 ≤ l.max → (node l subs).fitsBudget maxRepeat = true
  name : l.op = .capture → ∀ n ∈ l.name, isCaptureName n.toList = true
  body : l.op = .capture → ∀ t ∈ subs, ¬t.DotClass

/-- A normal tree whose printed form can be read again. -/
structure Tree.Printable (t : Tree) : Prop where
  normal : t.Normal
  nodes : t.Everywhere PrintableNode

/-- A node that joining or factoring makes has what its parts have. -/
theorem printableNode_local : Local PrintableRune PrintableNode where
  many l subs h := by
    refine ⟨?_, ?_, ?_, ?_, ?_⟩
    all_goals cases hop : l.op <;> simp_all [Op.arity]
  empty l h := by
    refine ⟨?_, ?_, ?_, ?_, ?_⟩
    all_goals simp [h]
  literal l h := by
    refine ⟨fun hl => (hl.literal h).2, fun hr => ⟨?_, fun _ => ⟨rfl, hr⟩, ?_, ?_, ?_⟩⟩
    all_goals simp [h]
  childless l subs h hl := (hl.literal h).1

/-- A leaf that no condition is about. -/
theorem plainLeaf_printable {l : Label} (harity : l.op.arity = .leaf) (hno : l.op ≠ .noMatch)
    (hlit : l.op ≠ .literal) : (node l []).Everywhere PrintableNode := by
  rw [everywhere_leaf]
  refine ⟨hno, fun h => absurd h hlit, fun h => ?_, fun h => ?_, fun h => ?_⟩
  all_goals
    rw [h] at harity
    cases harity

theorem literal_printable {runes : List Nat} {flags : Flags}
    (h : ∀ r ∈ runes, PrintableRune flags.foldCase r) :
    (Tree.literal runes flags).Everywhere PrintableNode :=
  (printableNode_local.everywhere_literal rfl).mpr ⟨rfl, h⟩

/-- A class has no runes that stand for others, and a literal that is made of one has the least of
    an orbit. -/
theorem classPiece_printable {x : Ranges} (hx : x.Clean) (flags : Flags) :
    (Assembly.classPiece flags x).Everywhere PrintableNode := by
  have hvalid : ∀ a ∈ x, a.lo ≤ maxRune := fun a ha =>
    Nat.le_trans (hx.valid a ha).1 (hx.valid a ha).2
  have hclass : (Tree.charClass x flags).Everywhere PrintableNode :=
    plainLeaf_printable rfl (by simp) (by simp)
  unfold Assembly.classPiece
  split
  · next a =>
    have ha := hvalid a List.mem_cons_self
    split
    · exact literal_printable (List.forall_mem_singleton.mpr ⟨ha, fun h => by cases h⟩)
    · split
      · next hpair =>
        refine literal_printable (List.forall_mem_singleton.mpr ⟨ha, fun _ => ?_⟩)
        exact Unicode.minFold_of_isFoldPair hpair.2 (by omega)
      · exact hclass
  · next a b =>
    have ha := hvalid a List.mem_cons_self
    split
    · next hpair =>
      refine literal_printable (List.forall_mem_singleton.mpr ⟨ha, fun _ => ?_⟩)
      have hab := (Ranges.clean_cons.mp hx).2.1 b List.mem_cons_self
      exact Unicode.minFold_of_isFoldPair hpair.2.2 (by omega)
    · exact hclass
  · exact hclass

/-- What became a dot where it was one is no class of all runes. -/
theorem not_dotClass_asDot (t : Tree) : ¬(Assembly.asDot t).DotClass := by
  by_cases hdot : t.DotClass
  · obtain ⟨op, hop, he⟩ := asDot_of_dotClass hdot
    rw [he]
    rintro ⟨hclass, -⟩
    rcases hop with rfl | rfl
    · cases hclass
    · cases hclass
  · rwa [asDot_of_not hdot]

/-- Writing a class as a dot leaves a node without runes. -/
theorem asDot_printable {t : Tree} (hn : t.Normal) (ht : t.Everywhere PrintableNode) :
    (Assembly.asDot t).Everywhere PrintableNode := by
  by_cases hdot : t.DotClass
  · obtain ⟨op, hop, he⟩ := asDot_of_dotClass hdot
    rw [he, hn.subs_eq_nil (by rw [hdot.1]; rfl)]
    rcases hop with rfl | rfl
    · exact plainLeaf_printable rfl (by simp) (by simp)
    · exact plainLeaf_printable rfl (by simp) (by simp)
  · rwa [asDot_of_not hdot]

theorem Tree.not_dotClass_of_compound {t : Tree} (h : t.Compound) : ¬t.DotClass := by
  rintro ⟨hop, -⟩
  rcases h with h | h
  · rw [h] at hop
    cases hop
  · rw [h] at hop
    cases hop

namespace Parse

/-- The reader makes trees that can be printed; what a group holds is no class of all runes. -/
theorem keeps_printable :
    Keeps Tree.Printable (fun t => t.Printable ∧ ¬t.DotClass) .normal where
  piece _ h := h.1
  simple op flags hop := by
    refine ⟨keeps_normal.simple op flags hop, plainLeaf_printable ?_ ?_ ?_⟩
    all_goals cases op <;> simp_all [Op.isSimple, Op.arity]
  literal flags r hr := by
    refine ⟨keeps_normal.literal flags r hr, literal_printable (List.forall_mem_singleton.mpr ?_)⟩
    cases hfold : flags.foldCase with
    | false => exact ⟨hr, fun h => by cases h⟩
    | true => exact ⟨Nat.le_trans (Unicode.minFold_le_self r) hr, fun _ => Unicode.minFold_minFold r⟩
  charClass flags x hx := ⟨keeps_normal.charClass flags x hx, classPiece_printable hx flags⟩
  branch ts hts := by
    have hnormal := sequence_normal fun t ht => (hts t ht).normal
    have hnodes := printableNode_local.kept.sequence fun t ht => (hts t ht).nodes
    exact ⟨⟨asDot_normal hnormal, asDot_printable hnormal hnodes⟩, not_dotClass_asDot _⟩
  choice ts hne hts := by
    have hnormal : ∀ t ∈ ts, t.Normal := fun t ht => (hts t ht).1.normal
    refine ⟨⟨choice_normal hne hnormal, ?_⟩, ?_⟩
    · exact (printableNode_local.kept.choiceLaw.choice fun t ht => (hts t ht).1.nodes).1
    · -- a single branch has been turned into a dot if it was a class of all runes; of several
      -- branches the choice is no class
      rcases one_or_many hne with ⟨t, rfl⟩ | hlen
      · show ¬(Tree.choice [t]).DotClass
        rw [choice_singleton]
        exact (hts t List.mem_cons_self).2
      · exact not_dotClass_of_compound (choice_compound (fun t ht => (hnormal t ht).reduced) hlen)
  repetition q flags t hq ht hfits := by
    refine ⟨over_normal hq ht.normal flags, everywhere_node.mpr ⟨?_, ?_⟩⟩
    · have hop := hq.isRepeat
      refine ⟨?_, ?_, fun hc hb => hfits ⟨hc, hb⟩, ?_, ?_⟩
      all_goals cases h : q.op <;> simp_all [Op.isRepeat]
    · exact List.forall_mem_singleton.mpr ht.nodes
  capture flags cap name t hname ht := by
    refine ⟨captureOf_normal ht.1.normal flags cap name, everywhere_node.mpr ⟨?_, ?_⟩⟩
    · refine ⟨by simp, (fun h => by cases h), (fun h => by cases h), fun _ => hname, fun _ => ?_⟩
      exact List.forall_mem_singleton.mpr ht.2
    · exact List.forall_mem_singleton.mpr ht.1.nodes

end Parse

/-- The tree of a pattern can be printed, and is itself no class of all runes. -/
theorem parsePattern_printable {pattern : String} {flags : Flags} {nestLimit : Nat} {p : Pattern}
    (hlit : flags.literal = false) (hp : parsePattern pattern flags nestLimit = .ok p) :
    p.root.Printable ∧ ¬p.root.DotClass :=
  Parse.parseWith_keeps Parse.keeps_printable hlit hp

end RegexTree
