/-
  Different trees print differently.

  Equal trees have the same printed form, since it shows no more of a tree than equality compares
  (`printsAs_of_equal`).  The printer looks at the children of a node too, to see whether one needs
  a group or can be a factor of its own, so the induction is on a relation that says that two trees
  are printed alike and need a group alike (`PrintsAs`).

  The converse is unique readability: read again with classes of all runes left where they are, the
  printed form of a tree gives an equal tree (`exists_parseWith_print_equal`), so that trees with
  one printed form are equal to one and the same tree.  The reader itself would not do for that, as
  it may turn a class into a dot; but the text is the same for both, and so is what any other
  assembly makes of it.

  For the trees of patterns, to be equal and to be printed alike are the same
  (`parsePattern_equal_iff_print_eq`).  The flags and limits under which the two were read may
  differ, if neither of them is one literal as a whole.
-/
import RegexTree.Proofs.Print.RoundTrip

namespace RegexTree

open Assembly (keepingClasses joins_keepingClasses)

namespace Tree

/-! ## Equal trees -/

/-- The trees are printed alike, on their own and wherever they stand. -/
structure PrintsAs (t u : Tree) : Prop where
  printed : t.printed = u.printed
  op : t.op = u.op
  needsGroup : Print.needsGroup t = Print.needsGroup u

section

variable {subs subs' : List Tree}

theorem map_printed_of_printsAs (h : List.Forall₂ PrintsAs subs subs') :
    subs.map printed = subs'.map printed :=
  map_eq_of_forall₂ (h.imp fun _ _ htu => htu.printed)

theorem operand_of_printsAs (h : List.Forall₂ PrintsAs subs subs') (texts : List (List Char)) :
    Print.operand subs texts = Print.operand subs' texts := by
  cases h with
  | nil => rfl
  | cons ht _ =>
    cases texts with
    | nil => rfl
    | cons text texts =>
      rw [Print.operand, Print.operand, ht.needsGroup]

theorem pieces_of_printsAs (h : List.Forall₂ PrintsAs subs subs') (texts : List (List Char)) :
    Print.pieces subs texts = Print.pieces subs' texts := by
  rw [Print.pieces, Print.pieces]
  congr 1
  induction h generalizing texts with
  | nil => rfl
  | cons ht _ ih =>
    cases texts with
    | nil => rfl
    | cons text texts => rw [List.zipWith_cons_cons, List.zipWith_cons_cons, ht.op, ih]

/-- Repetitions whose labels agree have the same sign. -/
theorem operator_of_agrees {l m : Label} (hrepeat : l.op.isRepeat = true)
    (hagree : l.agrees m = true) : Print.operator l = Print.operator m := by
  have hop := Label.op_of_agrees hagree
  unfold Print.operator
  rw [← hop]
  cases hcase : l.op
  case star | plus | quest =>
    rw [Label.nonGreedy_of_agrees hagree hrepeat]
  case counted =>
    obtain ⟨hmin, hmax⟩ := Label.bounds_of_agrees hagree hcase
    rw [Label.nonGreedy_of_agrees hagree hrepeat, hmin, hmax]
  all_goals
    rw [hcase] at hrepeat
    cases hrepeat

/-- A node shows nothing that is not compared. -/
theorem node_of_printsAs {l m : Label} (hagree : l.agrees m = true)
    (h : List.Forall₂ PrintsAs subs subs') (texts : List (List Char)) :
    Print.node l subs texts = Print.node m subs' texts := by
  have hop := Label.op_of_agrees hagree
  have hoperand := operand_of_printsAs h texts
  unfold Print.node
  rw [← hop]
  cases hcase : l.op
  case literal =>
    obtain ⟨hfold, hrunes⟩ := Label.literal_of_agrees hagree hcase
    rw [hfold, hrunes]
  case charClass => rw [Label.charClass_of_agrees hagree hcase]
  case endText => rw [Label.wasDollar_of_agrees hagree hcase]
  case capture =>
    rw [(Label.capture_of_agrees hagree hcase).2]
    cases h with
    | nil => rfl
    | cons ht _ =>
      cases texts with
      | nil => rfl
      | cons text texts =>
        dsimp only
        rw [ht.op]
  case concat => exact pieces_of_printsAs h texts
  case star | plus | quest | counted =>
    dsimp only
    rw [hoperand, operator_of_agrees (by rw [hcase]; rfl) hagree]
  all_goals rfl

/-- Whether an operand needs a group is seen from what is compared. -/
theorem needsGroup_of_agrees {l m : Label} (hagree : l.agrees m = true) (subs subs' : List Tree) :
    Print.needsGroup (node l subs) = Print.needsGroup (node m subs') := by
  have hop := Label.op_of_agrees hagree
  rw [Print.needsGroup, Print.needsGroup, op_node, op_node, ← hop]
  by_cases hlit : l.op = .literal
  · rw [show (node l subs).runes = l.runes from rfl, (Label.literal_of_agrees hagree hlit).2]
    rfl
  · rw [beq_eq_false_iff_ne.mpr hlit, Bool.false_and, Bool.false_and]

end

/-- Equal trees are printed alike. -/
theorem printsAs_of_equal {t u : Tree} (ht : t.Shaped) (hu : u.Shaped) (h : t.equal u = true) :
    PrintsAs t u := by
  refine equal_induct (fun l m subs subs' hagree hsubs => ?_) ht hu h
  refine ⟨?_, Label.op_of_agrees hagree, needsGroup_of_agrees hagree subs subs'⟩
  rw [printed_node, printed_node, map_printed_of_printsAs hsubs, node_of_printsAs hagree hsubs]

end Tree

/-! ## Reading again -/

open RegexTree.Tree

/-- With classes of all runes left as they are, the printed form of every tree is read as an equal
    tree, if there is room. -/
theorem exists_parseWith_print_equal {t : Tree} (ht : t.Printable)
    (hnumbers : NumberedFrom 0 t.captures) (hnames : ((named t.captures).map (·.1)).Nodup) :
    ∃ enough, ∀ limit ≥ enough, ∃ q, parseWith keepingClasses t.print .perl limit = .ok q ∧
      t.equal q.root = true := by
  obtain ⟨enough, henough⟩ := exists_parseWith_print joins_keepingClasses ht hnumbers hnames
  refine ⟨enough, fun limit hlimit => ?_⟩
  obtain ⟨q, hq, hroot⟩ := henough limit hlimit
  refine ⟨q, hq, ?_⟩
  rw [hroot]
  exact equal_sequence_reread joins_keepingClasses ht (Or.inl rfl)

/-- Trees of patterns are equal just if they have the same printed form. -/
theorem parsePattern_equal_iff_print_eq {pattern pattern' : String} {flags flags' : Flags}
    {nestLimit nestLimit' : Nat} {p p' : Pattern} (hlit : flags.literal = false)
    (hlit' : flags'.literal = false) (hp : parsePattern pattern flags nestLimit = .ok p)
    (hp' : parsePattern pattern' flags' nestLimit' = .ok p') :
    p.root.equal p'.root = true ↔ p.root.print = p'.root.print := by
  have ht := (parsePattern_printable hlit hp).1
  have ht' := (parsePattern_printable hlit' hp').1
  constructor
  · intro h
    rw [print, print, (printsAs_of_equal ht.normal.shaped ht'.normal.shaped h).printed]
  · intro h
    obtain ⟨hnumbers, hnames⟩ := parsePattern_captures hp
    obtain ⟨hnumbers', hnames'⟩ := parsePattern_captures hp'
    obtain ⟨enough, henough⟩ := exists_parseWith_print_equal ht hnumbers hnames
    obtain ⟨enough', henough'⟩ := exists_parseWith_print_equal ht' hnumbers' hnames'
    obtain ⟨q, hq, hequal⟩ := henough (max enough enough') (Nat.le_max_left _ _)
    obtain ⟨q', hq', hequal'⟩ := henough' (max enough enough') (Nat.le_max_right _ _)
    -- one text is read as one tree
    rw [h, hq'] at hq
    obtain rfl := Except.ok.inj hq
    exact equal_trans hequal (equal_symm hequal')

/-- Two ways to write a tree, and a third pattern that prefers more iterations. -/
theorem parsePattern_equal_iff_print_eq_greed : Flags.perl.literal = false ∧
    ∃ p p' p'', parsePattern "(?i)ab|ac*?(?P<x>.)" .perl 10 = .ok p ∧
      parsePattern "(?i:a(?:b|c*?(?P<x>[^\\n])))" .perl 10 = .ok p' ∧
      parsePattern "(?i)ab|ac*(?P<x>.)" .perl 10 = .ok p'' ∧
      p.root.print = "(?i:A)(?:(?i:B)|(?i:C)*?(?P<x>(?-s:.)))" ∧
      p.root.equal p'.root = true ∧ p.root.equal p''.root = false := by
  obtain ⟨p, hp, hprint⟩ : ∃ p, parsePattern "(?i)ab|ac*?(?P<x>.)" .perl 10 = .ok p ∧
      p.root.print = "(?i:A)(?:(?i:B)|(?i:C)*?(?P<x>(?-s:.)))" :=
    exists_of_map_eq_ok (f := fun p : Pattern => p.root.print) (by decide +kernel)
  obtain ⟨p', hp', hprint'⟩ : ∃ p, parsePattern "(?i:a(?:b|c*?(?P<x>[^\\n])))" .perl 10 = .ok p ∧
      p.root.print = "(?i:A)(?:(?i:B)|(?i:C)*?(?P<x>(?-s:.)))" :=
    exists_of_map_eq_ok (f := fun p : Pattern => p.root.print) (by decide +kernel)
  obtain ⟨p'', hp'', hprint''⟩ : ∃ p, parsePattern "(?i)ab|ac*(?P<x>.)" .perl 10 = .ok p ∧
      p.root.print = "(?i:A)(?:(?i:B)|(?i:C)*(?P<x>(?-s:.)))" :=
    exists_of_map_eq_ok (f := fun p : Pattern => p.root.print) (by decide +kernel)
  refine ⟨rfl, p, p', p'', hp, hp', hp'', hprint, ?_, ?_⟩
  · rw [parsePattern_equal_iff_print_eq rfl rfl hp hp', hprint, hprint']
  · rw [Bool.eq_false_iff, ne_eq, parsePattern_equal_iff_print_eq rfl rfl hp hp'', hprint,
      hprint'']
    decide

end RegexTree
