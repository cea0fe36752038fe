/-
  Every tree that the reader makes is in normal form.

  Nothing has to be known of runs for that: `Keeps` asks of an assembly that the pieces it makes of
  tokens have a property, that branches and choices of such pieces have it, and that captures and
  repetitions over them do, and gives the property of the whole tree (`Parse.parseWith_keeps`).  The
  leaves are in normal form by their operation, a sequence and a choice because the lists that they
  are made of are settled (`sequence_normal`, `choice_normal`), and what is put over one operand
  because the operand is (`captureOf_normal`, `over_normal`).

  A pattern that is read as a literal as a whole is the one exception, since its runes are not
  folded.
-/
import RegexTree.Proofs.Parse.Related
import RegexTree.Proofs.Tree.NormalForm
import RegexTree.Tree.Print

namespace RegexTree.Parse

open RegexTree.Tree

/-- A capture of a tree in normal form is. -/
theorem captureOf_normal {t : Tree} (ht : t.Normal) (flags : Flags) (cap : Nat)
    (name : Option String) : (captureOf flags cap name t).Normal := by
  refine everywhere_node.mpr ⟨?_, List.forall_mem_singleton.mpr ht⟩
  refine ⟨rfl, rfl, ?_, ?_, ?_, ?_, ?_, ?_⟩
  all_goals
    intro h
    cases h

/-- A repetition over a tree in normal form is in normal form, if its bounds are in order. -/
theorem over_normal {q : Quantifier} (hq : q.Valid) {t : Tree} (ht : t.Normal) (flags : Flags) :
    (q.over flags t).Normal := by
  have hop := hq.isRepeat
  refine everywhere_node.mpr ⟨?_, List.forall_mem_singleton.mpr ht⟩
  refine ⟨?_, ?_, ?_, ?_, ?_, fun h => hq.bounds h, ?_, ?_⟩
  all_goals cases h : q.op <;> simp_all [Op.isRepeat, Op.isMarker, Op.arity, Arity.Fits]

/-- A leaf without runes or ranges has nothing that could be out of order. -/
theorem simpleLeaf_normal {op : Op} (h : op.isSimple = true) (flags : Flags) :
    (leaf op flags).Normal := by
  refine plainLeaf_normal ?_ ?_ ?_ ?_
  all_goals cases op <;> simp_all [Op.isSimple, Op.arity, Op.isMarker]

/-- The assembly in normal form makes normal trees of normal parts. -/
theorem keeps_normal : Keeps Normal Normal .normal where
  piece _ h := h
  simple _ flags hop := simpleLeaf_normal hop flags
  literal flags _ _ := literal_normal (List.cons_ne_nil _ _) flags
  charClass flags _ hx := Assembly.classPiece_normal hx flags
  branch _ h := asDot_normal (sequence_normal h)
  choice _ hne h := choice_normal hne h
  repetition _ flags _ hq ht _ := over_normal hq ht flags
  capture flags cap name _ _ ht := captureOf_normal ht flags cap name

end RegexTree.Parse

namespace RegexTree

/-- The tree of a pattern is in normal form at every node. -/
theorem parsePattern_normal {pattern : String} {flags : Flags} {nestLimit : Nat} {p : Pattern}
    (hlit : flags.literal = false) (hp : parsePattern pattern flags nestLimit = .ok p) :
    p.root.Everywhere NormalNode :=
  Parse.parseWith_keeps Parse.keeps_normal hlit hp

/-- What is computed from the value of a result tells that there is a value. -/
theorem exists_of_map_eq_ok {ε α β : Type} {f : α → β} {b : β} {e : Except ε α}
    (h : e.map f = .ok b) : ∃ a, e = .ok a ∧ f a = b := by
  cases e with
  | error e => cases h
  | ok a =>
    injection h with h
    exact ⟨a, rfl, h⟩

theorem parsePattern_normal_shared : Flags.perl.literal = false ∧
    ∃ p, parsePattern "abc|abd|[e-g]" .perl 10 = .ok p ∧
      p.root.print = "ab(?:c|d)|[e-g]" ∧ p.root.Everywhere NormalNode := by
  obtain ⟨p, hp, hprint⟩ : ∃ p, parsePattern "abc|abd|[e-g]" .perl 10 = .ok p ∧
      p.root.print = "ab(?:c|d)|[e-g]" :=
    exists_of_map_eq_ok (f := fun p : Pattern => p.root.print) (by decide +kernel)
  exact ⟨rfl, p, hp, hprint, parsePattern_normal rfl hp⟩

end RegexTree
