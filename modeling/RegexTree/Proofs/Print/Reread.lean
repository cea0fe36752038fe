/-
  What a printed tree reads as.

  The printed form of a tree is read as a list of pieces (`Tree.reread`): a literal as one piece for
  each rune, a sequence as the pieces of its children, everything else as one piece.  The whole of
  the text stands for the branch of these pieces.  The definition follows the tree and is a function
  of it; that the reader does come to these pieces is shown elsewhere, so that what they are can be
  studied without any text.

  Reading makes a dot of a branch that is a class of all runes.  What is said here holds as well if
  such a branch is left as it is (`Assembly.Joins`), and there are two assemblies of that kind: the
  one of the reader (`joins_normal`) and one that keeps such classes (`joins_keepingClasses`).  With
  the second, the branch of the pieces is equal to the tree always.

  * The pieces are in normal form (`reread_normal`), by induction on the tree, with one lemma for
    each kind of node that says what it reads as.
  * They come to as many copies as the tree (`fitAll_reread`), so no repetition in a printed form is
    refused for its size.
-/
import RegexTree.Proofs.Parse.Printable
import RegexTree.Proofs.Syntax.Signs

namespace RegexTree

open Assembly (asDot classPiece)

namespace Assembly

open RegexTree.Tree

/-- Pieces are put together in normal form.  A branch that is a class of all runes may be left as
    it is. -/
structure Joins (A : Assembly) : Prop where
  charClass : A.charClass = classPiece
  choice : A.choice = .choice
  branch : ∀ pieces,
    A.branch pieces = .sequence pieces ∨ A.branch pieces = asDot (.sequence pieces)

/-- The reader writes classes of all runes as dots, and does nothing else to a branch. -/
theorem joins_normal : normal.Joins := ⟨rfl, rfl, fun _ => Or.inr rfl⟩

/-- Trees in normal form, where a branch that is a class of all runes is left as it is. -/
def keepingClasses : Assembly := { normal with branch := .sequence }

/-- The other assembly leaves branches as they are. -/
theorem joins_keepingClasses : keepingClasses.Joins := ⟨rfl, rfl, fun _ => Or.inl rfl⟩

namespace Joins

variable {A : Assembly} (hA : A.Joins) {pieces : List Tree}
include hA

/-- A branch that is no such class is the sequence of its pieces. -/
theorem branch_of_not (h : ¬(Tree.sequence pieces).DotClass) :
    A.branch pieces = .sequence pieces := by
  rcases hA.branch pieces with he | he
  · exact he
  · rw [he, asDot_of_not h]

theorem branch_nil : A.branch [] = .empty := hA.branch_of_not fun hdot => nomatch hdot.1

theorem branch_singleton {t : Tree} (h : ¬t.DotClass) : A.branch [t] = t := by
  rw [hA.branch_of_not (by rwa [sequence_singleton]), sequence_singleton]

/-- A branch of pieces in normal form is in normal form. -/
theorem branch_normal (h : ∀ t ∈ pieces, t.Normal) : (A.branch pieces).Normal := by
  rcases hA.branch pieces with he | he
  · exact he ▸ sequence_normal h
  · exact he ▸ asDot_normal (sequence_normal h)

theorem fitsBudget_branch (h : ∀ t ∈ pieces, t.Normal) :
    (A.branch pieces).fitsBudget = fitAll pieces := by
  have hsequence := fitsBudget_sequence fun t ht => (h t ht).shaped
  rcases hA.branch pieces with he | he
  · rw [he, hsequence]
  · rw [he, fitsBudget_asDot (sequence_normal h).shaped, hsequence]

end Joins

end Assembly

namespace Tree

/-! ## Kinds of nodes -/

/-- What is below a tree that can be printed can be printed. -/
theorem Printable.below {t s : Tree} (h : t.Printable) (hs : s ∈ t.subs) : s.Printable :=
  ⟨h.normal.below hs, h.nodes.below hs⟩

/-- A sequence stands in no sequence, and a choice in no choice. -/
theorem Printable.op_sub_ne {l : Label} {subs : List Tree} (h : (node l subs).Printable) {op : Op}
    (hop : l.op = op) (harity : op.arity = .many) : ∀ t ∈ subs, t.op ≠ op := by
  subst hop
  exact h.normal.here.notNested harity

section Kinds

variable {P : Tree → Prop}

/-- Induction on trees that can be printed, with one case for each kind of node and what the normal
    form says of it there: leaves have no children, repetitions and captures have one, and sequences
    and choices have several, none of which is of their own kind. -/
theorem Printable.induct {t : Tree} (ht : t.Printable)
    (empty : ∀ l, (node l []).Printable → l.op = .emptyMatch → P (node l []))
    (simple : ∀ l, (node l []).Printable → l.op.isSimple = true → P (node l []))
    (literal : ∀ l, (node l []).Printable → l.op = .literal → l.runes ≠ [] →
      (∀ r ∈ l.runes, PrintableRune l.flags.foldCase r) → P (node l []))
    (charClass : ∀ l (x : Ranges), (node l []).Printable → l.op = .charClass →
      l.runes = x.runes → x.Proper → P (node l []))
    (capture : ∀ l t, (node l [t]).Printable → l.op = .capture → P t → P (node l [t]))
    (repetition : ∀ l t, (node l [t]).Printable → l.op.isRepeat = true → l.quantifier.Valid →
      P t → P (node l [t]))
    (concat : ∀ l subs, (node l subs).Printable → l.op = .concat → 2 ≤ subs.length →
      (∀ t ∈ subs, P t) → P (node l subs))
    (alternate : ∀ l subs, (node l subs).Printable → l.op = .alternate → 2 ≤ subs.length →
      (∀ t ∈ subs, P t) → P (node l subs)) : P t := by
  induction t using Tree.induct with
  | step l subs ih =>
    have hn : NormalNode l subs := ht.normal.here
    have hp : PrintableNode l subs := ht.nodes.here
    have hsubs : ∀ t ∈ subs, P t := fun t ht' => ih t ht' (ht.below ht')
    have hleaf : l.op.arity = .leaf → subs = [] := ht.normal.shaped.here.leaf
    have hone : l.op.arity = .one → ∃ t, subs = [t] := ht.normal.shaped.here.one
    have hmany : l.op.arity = .many → 2 ≤ subs.length := ht.normal.two_le_length
    have hrepeat : l.op.isRepeat = true → P (node l subs) := by
      intro hop
      obtain ⟨t, rfl⟩ := hone (Op.arity_of_isRepeat hop)
      refine repetition l t ht hop ⟨by rwa [Label.quantifier_op], fun hc => ?_⟩
        (hsubs t List.mem_cons_self)
      rw [Label.quantifier_op] at hc
      rw [Label.quantifier_counted hc]
      exact hn.bounds hc
    have hsimple : l.op.isSimple = true → P (node l subs) := by
      intro hop
      obtain rfl := hleaf (Op.arity_of_isSimple hop)
      exact simple l ht hop
    cases hop : l.op
    case noMatch => exact absurd hop hp.notNoMatch
    case emptyMatch =>
      obtain rfl := hleaf (by rw [hop]; rfl)
      exact empty l ht hop
    case literal =>
      obtain rfl := hleaf (by rw [hop]; rfl)
      exact literal l ht hop (hn.text hop) (hp.literal hop).2
    case charClass =>
      obtain ⟨x, hrunes, hx⟩ := hn.ranges hop
      obtain rfl := hleaf (by rw [hop]; rfl)
      exact charClass l x ht hop hrunes hx
    case capture =>
      obtain ⟨t, rfl⟩ := hone (by rw [hop]; rfl)
      exact capture l t ht hop (hsubs t List.mem_cons_self)
    case concat => exact concat l subs ht hop (hmany (by rw [hop]; rfl)) hsubs
    case alternate => exact alternate l subs ht hop (hmany (by rw [hop]; rfl)) hsubs
    all_goals
      first
      | exact hsimple (by rw [hop]; rfl)
      | exact hrepeat (by rw [hop]; rfl)
      | exact absurd hn.notMarker (by rw [hop]; decide)

end Kinds

/-! ## What is read -/

/-- The flags in force where the leaf is read, with the mark for a dollar. -/
def leafFlags (l : Label) : Flags :=
  match l.op with
  | .anyChar => { Flags.perl with dotNL := true }
  | .beginLine | .endLine => { Flags.perl with oneLine := false }
  | .endText => { Flags.perl with wasDollar := l.flags.wasDollar }
  | _ => .perl

/-- A piece under the repetition that a label writes. -/
def underSign (l : Label) (t : Tree) : Tree :=
  l.quantifier.over { Flags.perl with nonGreedy := l.flags.nonGreedy } t

/-- The pieces that a node is read as, given those of its children. -/
def rereadNode (A : Assembly) (l : Label) (subs : List Tree) (parts : List (List Tree)) :
    List Tree :=
  match l.op with
  | .emptyMatch => [empty]
  | .literal =>
    if l.flags.foldCase then [literal l.runes { Flags.perl with foldCase := true }]
    else l.runes.map fun r => literal [r] .perl
  | .charClass => [classPiece .perl (Ranges.ofRunes l.runes)]
  | .capture => parts.map fun ps => captureOf .perl l.cap l.name (A.branch ps)
  | .star | .plus | .quest | .counted =>
    List.zipWith (fun (t : Tree) ps =>
      underSign l (if Print.needsGroup t then A.branch ps else sequence ps)) subs parts
  | .concat => parts.flatten
  | .alternate => [choice (parts.map A.branch)]
  | op => [leaf op (leafFlags l)]

/-- The pieces that the printed form of a tree is read as. -/
def reread (A : Assembly) : Tree → List Tree := fold (rereadNode A)

/-- The operand that the printed form of a tree is read as under a repetition. -/
def rereadOperand (A : Assembly) (t : Tree) : Tree :=
  if Print.needsGroup t then A.branch (t.reread A) else sequence (t.reread A)

variable {A : Assembly}

/-- A node reads as its kind says, from what its children read as. -/
theorem reread_node (l : Label) (subs : List Tree) :
    (node l subs).reread A = rereadNode A l subs (subs.map (reread A)) :=
  fold_node _ l subs

section Equations

variable {l : Label}

theorem reread_empty (hop : l.op = .emptyMatch) : (node l []).reread A = [empty] := by
  rw [reread_node, rereadNode, hop]

theorem reread_simple (hop : l.op.isSimple = true) :
    (node l []).reread A = [leaf l.op (leafFlags l)] := by
  rw [reread_node, rereadNode]
  cases h : l.op <;> simp_all [Op.isSimple]

/-- A literal that folds is in a group, and is one piece. -/
theorem reread_folded (hop : l.op = .literal) (hfold : l.flags.foldCase = true) :
    (node l []).reread A = [literal l.runes { Flags.perl with foldCase := true }] := by
  rw [reread_node, rereadNode, hop]
  exact if_pos hfold

/-- A literal that does not fold is read rune by rune. -/
theorem reread_literal (hop : l.op = .literal) (hfold : l.flags.foldCase = false) :
    (node l []).reread A = l.runes.map fun r => literal [r] .perl := by
  rw [reread_node, rereadNode, hop]
  exact if_neg (by rw [hfold]; exact Bool.false_ne_true)

/-- A capture holds the branch of what is in it. -/
theorem reread_capture (hop : l.op = .capture) (t : Tree) :
    (node l [t]).reread A = [captureOf .perl l.cap l.name (A.branch (t.reread A))] := by
  rw [reread_node, rereadNode, hop]
  rfl

/-- A repetition stands over its operand as one piece. -/
theorem reread_repetition (hop : l.op.isRepeat = true) (t : Tree) :
    (node l [t]).reread A = [underSign l (t.rereadOperand A)] := by
  rw [reread_node, rereadNode]
  cases h : l.op
  case star | plus | quest | counted => rfl
  all_goals
    rw [h] at hop
    cases hop

/-- A sequence reads as the pieces of its parts. -/
theorem reread_concat (hop : l.op = .concat) (subs : List Tree) :
    (node l subs).reread A = subs.flatMap (reread A) := by
  rw [reread_node, rereadNode, hop, List.flatMap_def]

/-- A choice is in a group, and reads as the choice of its branches. -/
theorem reread_alternate (hop : l.op = .alternate) (subs : List Tree) :
    (node l subs).reread A = [choice (subs.map fun t => A.branch (t.reread A))] := by
  rw [reread_node, rereadNode, hop]
  dsimp only
  rw [List.map_map]
  rfl

/-- A class that no literal stands for is read as itself. -/
theorem classPiece_of_proper {x : Ranges} (hx : x.Proper) (flags : Flags) :
    classPiece flags x = charClass x flags := by
  unfold classPiece
  split
  · next a =>
    split
    · next hone =>
      refine absurd ⟨a.lo, fun c => ?_⟩ hx.notOne
      rw [Ranges.has_iff]
      simp only [List.mem_singleton, exists_eq_left]
      omega
    · split
      · next hpair =>
        refine absurd ⟨a.lo, a.hi, hpair.2, fun c => ?_⟩ hx.notPair
        rw [Ranges.has_iff]
        simp only [List.mem_singleton, exists_eq_left]
        omega
      · rfl
  · next a b =>
    split
    · next hpair =>
      refine absurd ⟨a.lo, b.lo, hpair.2.2, fun c => ?_⟩ hx.notPair
      rw [Ranges.has_iff]
      simp only [List.mem_cons, List.not_mem_nil, or_false, exists_eq_or_imp, exists_eq_left]
      omega
    · rfl
  · rfl

theorem reread_class {x : Ranges} (hop : l.op = .charClass) (hrunes : l.runes = x.runes) :
    (node l []).reread A = [classPiece .perl x] := by
  rw [reread_node, rereadNode, hop]
  dsimp only
  rw [hrunes, Ranges.ofRunes_runes]

/-- If no literal stands for it, that is the class. -/
theorem reread_charClass {x : Ranges} (hop : l.op = .charClass) (hrunes : l.runes = x.runes)
    (hx : x.Proper) : (node l []).reread A = [charClass x .perl] := by
  rw [reread_class hop hrunes, classPiece_of_proper hx]

end Equations

/-! ## The pieces are in normal form -/

theorem normal_singleton {t : Tree} (h : t.Normal) : (∀ p ∈ [t], p.Normal) ∧ [t] ≠ [] :=
  ⟨List.forall_mem_singleton.mpr h, List.cons_ne_nil t []⟩

section

variable (hA : A.Joins)
include hA

/-- What a tree is read as is in normal form, and there is something of it.  By induction on the
    tree, with one case for each kind of node; a sequence is read as the pieces of its parts, which
    are all normal, and everything else as one piece. -/
theorem reread_normal {t : Tree} (ht : t.Printable) :
    (∀ p ∈ t.reread A, p.Normal) ∧ t.reread A ≠ [] := by
  refine ht.induct (P := fun t => (∀ p ∈ t.reread A, p.Normal) ∧ t.reread A ≠ [])
    ?empty ?simple ?literal ?charClass ?capture ?repetition ?concat ?alternate
  case empty =>
    intro l _ hop
    rw [reread_empty hop]
    exact normal_singleton empty_normal
  case simple =>
    intro l _ hop
    rw [reread_simple hop]
    exact normal_singleton (Parse.simpleLeaf_normal hop _)
  case literal =>
    intro l _ hop hne _
    cases hfold : l.flags.foldCase with
    | true =>
      rw [reread_folded hop hfold]
      exact normal_singleton (literal_normal hne _)
    | false =>
      rw [reread_literal hop hfold]
      refine ⟨fun p hp => ?_, fun hnil => hne (List.map_eq_nil_iff.mp hnil)⟩
      obtain ⟨r, -, rfl⟩ := List.mem_map.mp hp
      exact literal_normal (List.cons_ne_nil r []) _
  case charClass =>
    intro l x _ hop hrunes hx
    rw [reread_charClass hop hrunes hx]
    exact normal_singleton (charClass_normal hx _)
  case capture =>
    intro l t _ hop ih
    rw [reread_capture hop]
    exact normal_singleton (Parse.captureOf_normal (hA.branch_normal ih.1) _ _ _)
  case repetition =>
    intro l t _ hop hq ih
    rw [reread_repetition hop]
    refine normal_singleton (Parse.over_normal hq ?_ _)
    rw [rereadOperand]
    split
    · exact hA.branch_normal ih.1
    · exact sequence_normal ih.1
  case concat =>
    intro l subs _ hop hlen ih
    rw [reread_concat hop]
    refine ⟨fun p hp => ?_, fun hnil => ?_⟩
    · obtain ⟨t, ht, hpt⟩ := List.mem_flatMap.mp hp
      exact (ih t ht).1 p hpt
    · obtain ⟨a, ha⟩ := List.exists_mem_of_ne_nil subs (List.ne_nil_of_length_pos (by omega))
      exact (ih a ha).2 (List.flatMap_eq_nil_iff.mp hnil a ha)
  case alternate =>
    intro l subs _ hop hlen ih
    rw [reread_alternate hop]
    refine normal_singleton (choice_normal ?_ fun p hp => ?_)
    · exact List.ne_nil_of_length_pos (by rw [List.length_map]; omega)
    · obtain ⟨t, ht, rfl⟩ := List.mem_map.mp hp
      exact hA.branch_normal (ih t ht).1

theorem reread_shaped {t : Tree} (ht : t.Printable) : ∀ p ∈ t.reread A, p.Shaped := fun p hp =>
  ((reread_normal hA ht).1 p hp).shaped

end

/-- A leaf is read as leaves. -/
theorem reread_leaf {t : Tree} (ht : t.Printable) (h : t.op.arity = .leaf) :
    ∀ p ∈ t.reread A, p.op.arity = .leaf := by
  revert h
  refine ht.induct (P := fun t => t.op.arity = .leaf → ∀ p ∈ t.reread A, p.op.arity = .leaf)
    ?empty ?simple ?literal ?charClass ?capture ?repetition ?concat ?alternate
  case empty =>
    intro l _ hop _
    rw [reread_empty hop]
    exact List.forall_mem_singleton.mpr rfl
  case simple =>
    intro l _ hop h
    rw [reread_simple hop]
    exact List.forall_mem_singleton.mpr h
  case literal =>
    intro l _ hop _ _ _
    cases hfold : l.flags.foldCase with
    | true =>
      rw [reread_folded hop hfold]
      exact List.forall_mem_singleton.mpr rfl
    | false =>
      rw [reread_literal hop hfold]
      intro p hp
      obtain ⟨r, -, rfl⟩ := List.mem_map.mp hp
      rfl
  case charClass =>
    intro l x _ hop hrunes hx _
    rw [reread_charClass hop hrunes hx]
    exact List.forall_mem_singleton.mpr rfl
  case repetition =>
    intro l t _ hop _ _ h
    rw [op_node, Op.arity_of_isRepeat hop] at h
    cases h
  all_goals
    intros
    simp_all [Op.arity]

/-! ## Copies -/

theorem fitAll_flatMap {α : Type} (f : α → List Tree) (xs : List α) (n : Nat) :
    fitAll (xs.flatMap f) n = xs.all fun x => fitAll (f x) n := by
  rw [fitAll, List.all_flatMap]
  rfl

theorem all_of_forall {α : Type} {f g : α → Bool} {xs : List α} (h : ∀ x ∈ xs, f x = g x) :
    xs.all f = xs.all g := by
  rw [Bool.eq_iff_iff, List.all_eq_true, List.all_eq_true]
  exact forall₂_congr fun x hx => by rw [h x hx]

/-- A repetition makes as many copies of one operand as of another that comes to as many. -/
theorem fitsBudget_underSign {l : Label} {t u : Tree} (h : u.fitsBudget = t.fitsBudget) :
    (underSign l u).fitsBudget = (node l [t]).fitsBudget := by
  have hop := l.quantifier_op
  have hall : ∀ n, [u].all (·.fitsBudget n) = [t].all (·.fitsBudget n) := by
    intro n
    rw [List.all_cons, List.all_cons, h]
  funext n
  by_cases hc : l.op = .counted
  · rw [underSign, Quantifier.over, Label.quantifier_counted hc, fitsBudget_counted rfl,
      fitsBudget_counted hc]
    simp only [hall]
    rfl
  · rw [underSign, Quantifier.over, fitsBudget_of_ne (by rwa [hop]), fitsBudget_of_ne hc, hall]

section

variable (hA : A.Joins)
include hA

/-- What a branch comes to is what its pieces come to. -/
theorem fitsBudget_branch_reread {t : Tree} (ht : t.Printable) :
    (A.branch (t.reread A)).fitsBudget = fitAll (t.reread A) :=
  hA.fitsBudget_branch (reread_normal hA ht).1

/-- An operand comes to the copies of what it is read as. -/
theorem fitsBudget_rereadOperand {t : Tree} (ht : t.Printable) :
    (t.rereadOperand A).fitsBudget = fitAll (t.reread A) := by
  rw [rereadOperand]
  split
  · exact fitsBudget_branch_reread hA ht
  · exact fitsBudget_sequence (reread_shaped hA ht)

/-- A leaf comes to no copies, and neither do the leaves that it is read as. -/
theorem fitAll_reread_leaf {t : Tree} (ht : t.Printable) (h : t.op.arity = .leaf) :
    fitAll (t.reread A) = t.fitsBudget := by
  funext n
  rw [fitsBudget_leaf ht.normal.shaped h]
  exact List.all_eq_true.mpr fun p hp =>
    fitsBudget_leaf (reread_shaped hA ht p hp) (reread_leaf ht h p hp) n

/-- The pieces that a tree is read as come to as many copies as the tree, by induction on the tree;
    a group around an operand does not count. -/
theorem fitAll_reread {t : Tree} (ht : t.Printable) : fitAll (t.reread A) = t.fitsBudget := by
  refine ht.induct (P := fun t => fitAll (t.reread A) = t.fitsBudget)
    ?empty ?simple ?literal ?charClass ?capture ?repetition ?concat ?alternate
  case empty =>
    intro l ht hop
    exact fitAll_reread_leaf hA ht (by rw [op_node, hop]; rfl)
  case simple =>
    intro l ht hop
    exact fitAll_reread_leaf hA ht (Op.arity_of_isSimple hop)
  case literal =>
    intro l ht hop _ _
    exact fitAll_reread_leaf hA ht (by rw [op_node, hop]; rfl)
  case charClass =>
    intro l x ht hop _ _
    exact fitAll_reread_leaf hA ht (by rw [op_node, hop]; rfl)
  case capture =>
    intro l t ht hop ih
    have hbody := fitsBudget_branch_reread hA (ht.below List.mem_cons_self)
    funext n
    rw [reread_capture hop, fitAll_singleton, captureOf, fitsBudget_of_ne (by simp),
      fitsBudget_of_ne (by rw [hop]; decide), List.all_cons, List.all_cons, hbody, ih]
  case repetition =>
    intro l t ht hop _ ih
    rw [reread_repetition hop, fitAll_singleton]
    have hoperand := fitsBudget_rereadOperand hA (ht.below List.mem_cons_self)
    exact fitsBudget_underSign (hoperand.trans ih)
  case concat =>
    intro l subs _ hop _ ih
    funext n
    rw [reread_concat hop, fitAll_flatMap, fitsBudget_of_ne (by rw [hop]; decide)]
    exact all_of_forall fun t ht => congrFun (ih t ht) n
  case alternate =>
    intro l subs ht hop _ ih
    have hbranches : ∀ p ∈ subs.map (fun t => A.branch (t.reread A)), p.Shaped := by
      intro p hp
      obtain ⟨t, hsub, rfl⟩ := List.mem_map.mp hp
      exact (hA.branch_normal (reread_normal hA (ht.below hsub)).1).shaped
    funext n
    rw [reread_alternate hop, fitAll_singleton, fitsBudget_choice hbranches,
      fitsBudget_of_ne (by rw [hop]; decide), fitAll, List.all_map]
    refine all_of_forall fun t hsub => ?_
    show (A.branch (t.reread A)).fitsBudget n = t.fitsBudget n
    rw [fitsBudget_branch_reread hA (ht.below hsub), ih t hsub]

end

end Tree

end RegexTree
