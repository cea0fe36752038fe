/-
  Captures are numbered in the order in which they are opened.

  A capture gets its number when its parenthesis is read, long before the tree around it is
  finished.  That the numbers of a tree are in preorder is so a statement on two orders: that in
  which groups are opened, and that in which their trees stand when all is put together.

  * Putting pieces together keeps their captures and the order of those (`captures_sequence`,
    `captures_choice`): literals and empty matches, which are joined and dropped, have none, and
    what neighbouring branches share has none either, as it is taken out only if it is a literal or
    of a fixed width.
  * A state lists its captures as they were opened (`State.opened`): those of the outer levels
    first, each group's own after what stands before it, and the innermost level last.  Opening a
    group adds one at the end, and closing it changes nothing, since the capture of the group stands
    where it stood before.
  * The list has the numbers from 1 on, and no name comes twice (`State.Numbered`).  That is kept by
    every token (`numbered_of_effect`) and so by a run, and it holds of every pattern that is read
    (`parsePattern_numbered`).
-/
import RegexTree.Proofs.Parse.Normal
import RegexTree.Proofs.Parse.Runs
import RegexTree.Tree.Captures

namespace RegexTree

namespace Tree

/-! ## Captures of the parts -/

/-- The captures of a node are its own, if it is one, and then those of its operands. -/
theorem captures_node (l : Label) (subs : List Tree) :
    (node l subs).captures =
      (if l.op = .capture then [(l.cap, l.name)] else []) ++ subs.flatMap captures := by
  rw [captures, preorder_node, List.filterMap_cons, List.filterMap_flatten, List.map_map,
    ← List.flatMap_def]
  by_cases hop : l.op = .capture
  · simp only [if_pos hop]
    rfl
  · simp only [if_neg hop]
    rfl

/-- An operation that does not capture has the captures of its children. -/
theorem captures_of_ne {l : Label} (hop : l.op ≠ .capture) (subs : List Tree) :
    (node l subs).captures = subs.flatMap captures := by
  rw [captures_node, if_neg hop, List.nil_append]

theorem captures_leaf {t : Tree} (ht : t.Shaped) (harity : t.op.arity = .leaf) :
    t.captures = [] := by
  obtain ⟨l, subs⟩ := t
  rw [op_node] at harity
  have hne : l.op ≠ .capture := Op.ne_of_arity harity (by decide)
  rw [captures_of_ne hne, show subs = [] from ht.here.leaf harity, List.flatMap_nil]

/-- Equal trees have the same captures, as numbers and names are compared. -/
theorem captures_of_equal {t u : Tree} (ht : t.Shaped) (hu : u.Shaped) (h : t.equal u = true) :
    t.captures = u.captures := by
  refine equal_induct (P := fun t u => t.captures = u.captures) ?_ ht hu h
  intro l m subs subs' hagree hsubs
  have hop := Label.op_of_agrees hagree
  have hall : subs.flatMap captures = subs'.flatMap captures := by
    induction hsubs with
    | nil => rfl
    | cons he _ ih => rw [List.flatMap_cons, List.flatMap_cons, he, ih]
  rw [captures_node, captures_node, hall, hop]
  split
  · next hm =>
    obtain ⟨hcap, hname⟩ := Label.capture_of_agrees hagree (hop.trans hm)
    rw [hcap, hname]
  · rfl

/-- Writing a class as a dot leaves the captures, of which there are none. -/
theorem captures_asDot {t : Tree} (ht : t.Shaped) : (Assembly.asDot t).captures = t.captures := by
  by_cases hdot : t.DotClass
  · obtain ⟨op, hop, he⟩ := asDot_of_dotClass hdot
    rw [he, hdot.subs_eq_nil ht, captures_leaf ht hdot.arity]
    rcases hop with rfl | rfl
    · rfl
    · rfl
  · rw [asDot_of_not hdot]

/-- Each way to shorten a list of pieces keeps their captures. -/
theorem sequenceLaw_captures : SequenceLaw Shaped fun ts => ts.flatMap captures where
  kept := kept_shaped
  tail t ps qs h := by rw [List.flatMap_cons, List.flatMap_cons, h]
  spliced l subs rest hop := by
    rw [List.flatMap_append, List.flatMap_cons, captures_of_ne (by rw [hop]; decide)]
  empty l subs rest hop hq := by
    rw [List.flatMap_cons, captures_leaf hq (by rw [op_node, hop]; rfl), List.nil_append]
  joined t u rest ht hu h := by
    obtain ⟨hop, hop', -⟩ := canJoin_iff.mp h
    have hj := kept_shaped.joined t u ht hu h
    rw [List.flatMap_cons, List.flatMap_cons, List.flatMap_cons,
      captures_leaf hj (by rw [joined_op, hop]; rfl), captures_leaf ht (by rw [hop]; rfl),
      captures_leaf hu (by rw [hop']; rfl)]
    rfl
  split t s rest ht hop hs hne := by
    have hdropped := kept_shaped.dropped t s.length ht hop
    rw [List.flatMap_cons, List.flatMap_cons, List.flatMap_cons,
      captures_leaf hdropped (arity_dropRunes hop _), captures_leaf ht (by rw [hop]; rfl),
      captures_leaf (kept_shaped.begun t s ht hop hs hne) rfl]
    rfl

/-- A sequence has the captures of its pieces. -/
theorem captures_sequence {pieces : List Tree} (h : ∀ t ∈ pieces, t.Shaped) :
    (sequence pieces).captures = pieces.flatMap captures := by
  have hlaw := sequenceLaw_captures.sequence h
  rwa [List.flatMap_singleton] at hlaw

/-- A tree of a fixed width has no captures: it is a leaf, or a count over one. -/
theorem captures_of_isFixedWidth {t : Tree} (ht : t.Shaped) (h : t.isFixedWidth = true) :
    t.captures = [] := by
  have hone : ∀ u : Tree, u.Shaped → u.isOneRune = true → u.captures = [] := by
    intro u hu hone
    refine captures_leaf hu ?_
    unfold isOneRune at hone
    split at hone
    · next hop => rw [hop]; rfl
    · next hop => rw [hop]; rfl
    · next hop => rw [hop]; rfl
    · next hop => rw [hop]; rfl
    · cases hone
  rw [isFixedWidth, Bool.or_eq_true] at h
  rcases h with h | h
  · exact hone t ht h
  · obtain ⟨l, subs⟩ := t
    rw [op_node] at h
    cases hop : l.op
    case counted =>
      rw [hop] at h
      obtain ⟨u, rfl⟩ := ht.here.one (by rw [label_node, hop]; rfl)
      simp only [label_node, subs_node, List.head?_cons, Option.any_some, Bool.and_eq_true] at h
      rw [captures_of_ne (by rw [hop]; decide), List.flatMap_singleton]
      exact hone u (ht.below List.mem_cons_self) h.2
    all_goals
      rw [hop] at h
      first
      | exact captures_leaf ht (by rw [op_node, hop]; rfl)
      | cases h

/-- Each way to factor a list of branches keeps their captures: what is taken out once, and stood in
    several of them, has none. -/
theorem choiceLaw_captures :
    ChoiceLaw Shaped fun ts us => us.flatMap captures = ts.flatMap captures where
  kept := kept_shaped
  refl _ := rfl
  trans h h' := h'.trans h
  append h h' := by rw [List.flatMap_append, List.flatMap_append, h, h']
  splice l subs hop _ := by
    rw [List.flatMap_singleton, captures_of_ne (by rw [hop]; decide)]
  gather branches _ := by
    rw [List.flatMap_singleton, branching, captures_of_ne (by decide)]
  text fold shared ts rest hne hts _ hrest hcaps := by
    have hlit : (literal shared { foldCase := fold }).Shaped := (literal_normal hne _).shaped
    rw [List.flatMap_singleton, List.flatMap_map] at hcaps
    rw [List.flatMap_singleton, captures_sequence (List.forall_mem_cons.mpr
      ⟨hlit, List.forall_mem_singleton.mpr hrest⟩), List.flatMap_cons, List.flatMap_singleton,
      captures_leaf hlit rfl, List.nil_append, hcaps]
    refine List.flatMap_congr fun t ht => ?_
    obtain ⟨hshaped, hfold, hshared⟩ := hts t ht
    have hlaw := sequenceLaw_captures.dropLeadingText hshaped hne hshared
    rw [List.flatMap_cons, List.flatMap_singleton, List.flatMap_singleton, hfold,
      captures_leaf hlit rfl] at hlaw
    exact hlaw
  piece lead ts rest hfixed hts _ hlead hrest hcaps := by
    rw [List.flatMap_singleton, List.flatMap_map] at hcaps
    rw [List.flatMap_singleton, captures_sequence (List.forall_mem_cons.mpr
      ⟨hlead, List.forall_mem_singleton.mpr hrest⟩), List.flatMap_cons, List.flatMap_singleton,
      captures_of_isFixedWidth hlead hfixed, List.nil_append, hcaps]
    refine List.flatMap_congr fun t ht => ?_
    obtain ⟨hshaped, p, hp, he⟩ := hts t ht
    have hpshaped : p.Shaped := (leadingPiece?_eq_some hp).1 ▸ kept_shaped.front hshaped
    have hnone : p.captures = [] := by
      rcases he with rfl | he
      · exact captures_of_isFixedWidth hpshaped hfixed
      · rw [← captures_of_equal hlead hpshaped he]
        exact captures_of_isFixedWidth hlead hfixed
    have hlaw := sequenceLaw_captures.dropLeadingPiece hp
    rw [List.flatMap_cons, List.flatMap_singleton, List.flatMap_singleton, hnone] at hlaw
    exact hlaw

/-- A choice has the captures of its branches. -/
theorem captures_choice {branches : List Tree} (h : ∀ t ∈ branches, t.Shaped) :
    (choice branches).captures = branches.flatMap captures := by
  have hlaw := (choiceLaw_captures.choice h).2
  rwa [List.flatMap_singleton] at hlaw

end Tree

/-! ## Numbers and names -/

/-- The captures have the numbers after `k`, in their order. -/
def NumberedFrom : (k : Nat) → List (Nat × Option String) → Prop
  | _, [] => True
  | k, (cap, _) :: rest => cap = k + 1 ∧ NumberedFrom (k + 1) rest

/-- Numbers go on where those before them ended. -/
theorem numberedFrom_append {k : Nat} {xs ys : List (Nat × Option String)} :
    NumberedFrom k (xs ++ ys) ↔ NumberedFrom k xs ∧ NumberedFrom (k + xs.length) ys := by
  induction xs generalizing k with
  | nil => exact ⟨fun h => ⟨trivial, h⟩, fun h => h.2⟩
  | cons x rest ih =>
    rw [List.cons_append, NumberedFrom, NumberedFrom, ih, List.length_cons,
      show k + (rest.length + 1) = k + 1 + rest.length by omega, and_assoc]

/-- The names of captures, with their numbers. -/
def named (caps : List (Nat × Option String)) : List (String × Nat) :=
  caps.flatMap fun (cap, name) => name.toList.map fun name => (name, cap)

/-- Names are looked up in one part and then in the other. -/
theorem named_append (xs ys : List (Nat × Option String)) :
    named (xs ++ ys) = named xs ++ named ys :=
  List.flatMap_append

namespace Parse

open RegexTree.Tree

/-! ## What a state holds -/

/-- The captures of all that was read on a level. -/
def Level.captures (level : Level) : List (Nat × Option String) :=
  (level.branches.reverse ++ level.pieces.reverse).flatMap Tree.captures

/-- The captures before the innermost open group and those of the open groups, as they were
    opened. -/
def openedIn : List OpenGroup → List (Nat × Option String)
  | [] => []
  | group :: groups => openedIn groups ++ group.outer.captures ++ group.capture.toList

/-- The captures that were opened, in the order in which they were. -/
def State.opened (s : State) : List (Nat × Option String) := openedIn s.groups ++ s.level.captures

/-- The captures are numbered as they were opened, and no name is used twice. -/
structure State.Numbered (s : State) : Prop where
  numbers : NumberedFrom 0 s.opened
  count : s.captures = s.opened.length
  names : s.names = named s.opened
  nodup : (s.names.map (·.1)).Nodup

/-- A piece that is pushed stands after all others. -/
theorem Level.captures_push (level : Level) (t : Tree) :
    (level.push t).captures = level.captures ++ t.captures := by
  rw [captures, captures, push, List.reverse_cons, ← List.append_assoc, List.flatMap_append,
    List.flatMap_singleton]

/-- Every tree of the level is in normal form. -/
structure Level.Normal (level : Level) : Prop where
  branches : ∀ t ∈ level.branches, t.Normal
  pieces : ∀ t ∈ level.pieces, t.Normal

/-- The branch that is being read has the captures of its pieces. -/
theorem Level.captures_branch {level : Level} (h : level.Normal) :
    (Assembly.normal.branch level.pieces.reverse).captures =
      level.pieces.reverse.flatMap Tree.captures := by
  have hpieces : ∀ t ∈ level.pieces.reverse, t.Normal := fun t ht =>
    h.pieces t (List.mem_reverse.mp ht)
  show (Assembly.asDot (sequence level.pieces.reverse)).captures = _
  rw [captures_asDot (sequence_normal hpieces).shaped,
    captures_sequence fun t ht => (hpieces t ht).shaped]

/-- A bar finishes the branch and changes no capture. -/
theorem Level.captures_bar {level : Level} (h : level.Normal) :
    (level.bar .normal).captures = level.captures := by
  rw [captures, captures, bar, List.reverse_nil, List.append_nil, List.reverse_cons,
    List.flatMap_append, List.flatMap_append, List.flatMap_singleton, captures_branch h]

theorem Level.captures_finish {level : Level} (h : level.Normal) :
    (level.finish .normal).captures = level.captures := by
  have hall : ∀ t ∈ level.allBranches .normal, t.Normal := by
    intro t ht
    rcases List.mem_cons.mp (List.mem_reverse.mp ht) with rfl | ht
    · exact keeps_normal.branch _ fun u hu => h.pieces u (List.mem_reverse.mp hu)
    · exact h.branches t ht
  show (Tree.choice (level.allBranches .normal)).captures = _
  rw [captures_choice fun t ht => (hall t ht).shaped, allBranches, List.reverse_cons,
    List.flatMap_append, List.flatMap_singleton, captures_branch h, captures,
    List.flatMap_append]

/-! ## Tokens -/

/-- The state is related to itself, all of its trees being in normal form. -/
abbrev State.Normal (s : State) : Prop :=
  StateRelated (fun t u => t = u ∧ t.Normal) (fun t u => t = u ∧ t.Normal) s s

/-- The level of a state in normal form is in normal form. -/
theorem State.Normal.level {s : State} (h : s.Normal) : s.level.Normal :=
  ⟨(forall₂_eq_and (StateRelated.level h).branches).2,
    (forall₂_eq_and (StateRelated.level h).pieces).2⟩

/-- A piece without captures opens none, wherever it is pushed. -/
theorem opened_push (s : State) {t : Tree} (ht : t.captures = []) : (s.push t).opened = s.opened := by
  rw [State.opened, State.opened, State.push, Level.captures_push, ht, List.append_nil]

/-- What was opened before a group, and the capture that the group is. -/
theorem opened_of_openGroup {setting : Setting} {s t : State} {flags : Flags}
    {capture : Option (Nat × Option String)} (h : s.openGroup setting flags capture = .ok t) :
    t.opened = s.opened ++ capture.toList ∧ t.captures = s.captures ∧ t.names = s.names := by
  obtain ⟨-, rfl⟩ := openGroup_eq_ok.mp h
  refine ⟨?_, rfl, rfl⟩
  show openedIn s.groups ++ s.level.captures ++ capture.toList ++ [] = _
  rw [List.append_nil, State.opened]

/-- A group holds its capture before those that were opened in it. -/
theorem opened_of_closeGroup {setting : Setting} (hset : setting.assembly = .normal) {s t : State}
    (hs : s.Normal) (h : s.closeGroup setting = .ok t) :
    t.opened = s.opened ∧ t.captures = s.captures ∧ t.names = s.names := by
  obtain ⟨group, groups, hgroups, rfl⟩ := closeGroup_eq_ok.mp h
  refine ⟨?_, rfl, rfl⟩
  have hpiece : (group.piece (s.level.finish setting.assembly)).captures =
      group.capture.toList ++ s.level.captures := by
    rw [hset, ← Level.captures_finish hs.level, OpenGroup.piece]
    split
    · next hc => rw [hc]; rfl
    · next cap name hc =>
      rw [captures_node, if_pos rfl, List.flatMap_singleton, hc]
      rfl
  rw [State.opened, State.opened, Level.captures_push, hpiece, hgroups, openedIn,
    ← List.append_assoc, ← List.append_assoc]

/-- A repetition has the captures of its operand. -/
theorem opened_of_quantify {setting : Setting} {s t : State} {start rest : List Char}
    {q : Quantifier} (hq : q.Valid) (h : s.quantify setting start rest q = .ok t) :
    t.opened = s.opened ∧ t.captures = s.captures ∧ t.names = s.names := by
  obtain ⟨-, operand, pieces, hpieces, -, -, rfl⟩ := quantify_eq_ok.mp h
  refine ⟨?_, rfl, rfl⟩
  have htree : (s.repeated q operand).captures = operand.captures := by
    rw [State.repeated, Quantifier.over, captures_of_ne hq.ne_capture, List.flatMap_singleton]
  rw [State.opened, State.opened, Level.captures, Level.captures, hpieces]
  simp only [List.reverse_cons, List.flatMap_append, List.flatMap_singleton, htree]

/-- What a token does to the captures: nothing, or one is opened under the next number and a name
    that is not used. -/
theorem opened_of_effect {setting : Setting} (hset : setting.assembly = .normal) {s s' : State}
    (hs : s.Normal) {start rest : List Char} {token : Token} (htoken : token.Valid)
    (h : s.effect setting start rest token = .ok s') :
    (s'.opened = s.opened ∧ s'.captures = s.captures ∧ s'.names = s.names) ∨
      ∃ name : Option String, (∀ n ∈ name, n ∉ s.names.map (·.1)) ∧
        s'.opened = s.opened ++ [(s.captures + 1, name)] ∧ s'.captures = s.captures + 1 ∧
        s'.names = s.names ++ named [(s.captures + 1, name)] := by
  -- only a token that opens a capture changes what is open; the others move what was opened from
  -- one place of the state to another
  cases token with
  | capture name =>
    obtain ⟨hfree, hopen⟩ := openCapture_eq_ok.mp h
    obtain ⟨hopened, hcaptures, hnames⟩ := opened_of_openGroup hopen
    refine Or.inr ⟨name, hfree, hopened, hcaptures, hnames.trans ?_⟩
    rw [named, List.flatMap_singleton]
  | group flags =>
    obtain ⟨hopened, hkept⟩ := opened_of_openGroup h
    exact Or.inl ⟨hopened.trans (List.append_nil _), hkept⟩
  | setFlags flags =>
    cases h
    exact Or.inl ⟨rfl, rfl, rfl⟩
  | bar =>
    cases h
    refine Or.inl ⟨?_, rfl, rfl⟩
    rw [State.opened, State.opened, hset, Level.captures_bar hs.level]
  | close => exact Or.inl (opened_of_closeGroup hset hs h)
  | simple piece =>
    obtain ⟨op, flags, hop, rfl⟩ := htoken
    cases h
    have hnone := captures_leaf (simpleLeaf_normal hop flags).shaped (Op.arity_of_isSimple hop)
    exact Or.inl ⟨opened_push s hnone, rfl, rfl⟩
  | text runes =>
    cases h
    refine Or.inl (List.foldlRecOn (motive := fun t : State => t.opened = s.opened ∧
      t.captures = s.captures ∧ t.names = s.names) runes _ ⟨rfl, rfl, rfl⟩ fun t ht r _ => ?_)
    exact ⟨(opened_push t rfl).trans ht.1, ht.2⟩
  | bracket b =>
    cases h
    refine Or.inl ⟨opened_push s ?_, rfl, rfl⟩
    rw [hset]
    have hnormal := keeps_normal.charClass s.flags _ (b.ranges_clean s.flags htoken)
    exact captures_leaf hnormal.shaped (Assembly.arity_classPiece s.flags _)
  | repetition q => exact Or.inl (opened_of_quantify htoken h)

/-- Every token keeps the numbering. -/
theorem numbered_of_effect {setting : Setting} (hset : setting.assembly = .normal) {s s' : State}
    (hs : s.Normal) (hnum : s.Numbered) {start rest : List Char} {token : Token}
    (htoken : token.Valid) (h : s.effect setting start rest token = .ok s') : s'.Numbered := by
  rcases opened_of_effect hset hs htoken h with ⟨ho, hc, hn⟩ | ⟨name, hfree, ho, hc, hn⟩
  · refine ⟨?_, ?_, ?_, ?_⟩
    · rw [ho]
      exact hnum.numbers
    · rw [hc, ho]
      exact hnum.count
    · rw [hn, ho]
      exact hnum.names
    · rw [hn]
      exact hnum.nodup
  · refine ⟨?_, ?_, ?_, ?_⟩
    · rw [ho, numberedFrom_append, ← hnum.count]
      exact ⟨hnum.numbers, (Nat.zero_add _).symm ▸ rfl, trivial⟩
    · rw [hc, ho, hnum.count, List.length_append]
      rfl
    · rw [hn, ho, named_append, hnum.names]
    · rw [hn, List.map_append, List.nodup_append]
      cases name with
      | none => exact ⟨hnum.nodup, List.nodup_nil, fun _ _ _ hb => absurd hb List.not_mem_nil⟩
      | some n =>
        refine ⟨hnum.nodup, List.pairwise_singleton _ n, fun a ha b hb => ?_⟩
        rw [List.mem_singleton.mp hb]
        rintro rfl
        exact hfree a rfl ha

/-! ## Runs -/

/-- A token keeps a state normal. -/
theorem State.Normal.apply {setting : Setting} (hset : setting.assembly = .normal) {s next : State}
    (hs : s.Normal) {start rest : List Char} {token : Token} (htoken : token.Valid)
    (h : s.apply setting start rest token = .ok next) : next.Normal := by
  have hset' : SettingRelated .normal .normal setting setting := ⟨hset, hset, rfl, rfl⟩
  have hrel : Agree (StateRelated _ _) (s.apply setting start rest token)
      (s.apply setting start rest token) :=
    apply_related keeps_normal.related hset' hs htoken
  rwa [h] at hrel

/-- What every token keeps a run keeps, by induction on the text that is left. -/
theorem numbered_of_run {setting : Setting} (hset : setting.assembly = .normal) {s s' : State}
    (hs : s.Normal) (hnum : s.Numbered) {text : List Char}
    (h : s.run setting text = .ok s') : s'.Numbered ∧ s'.Normal := by
  refine run_induct (M := fun s _ s' => s.Normal → s.Numbered → s'.Numbered ∧ s'.Normal) ?_ ?_ h hs
    hnum
  · intro s hs hnum
    exact ⟨hnum, hs⟩
  · intro s c tail token rest next s' hread happly ih hs hnum
    have hvalid := readToken_valid hread
    refine ih (hs.apply hset hvalid happly) ?_
    obtain ⟨middle, heffect, rfl⟩ := effect_of_apply happly
    have hkept := numbered_of_effect hset hs hnum hvalid heffect
    exact ⟨hkept.numbers, hkept.count, hkept.names, hkept.nodup⟩

end Parse

/-- The captures of a pattern are those of its tree: they are numbered from 1 on in their order,
    and no name comes twice. -/
structure Pattern.Numbered (p : Pattern) : Prop where
  numbers : NumberedFrom 0 p.root.captures
  count : p.captures = p.root.captures.length
  names : p.names = named p.root.captures
  nodup : (p.names.map (·.1)).Nodup

/-- The captures of a pattern are numbered as they were opened, and stand so in its tree, since at
    the end no group is open and the tree has all that was opened. -/
theorem parsePattern_numbered {pattern : String} {flags : Flags} {nestLimit : Nat} {p : Pattern}
    (hp : parsePattern pattern flags nestLimit = .ok p) : p.Numbered := by
  rw [parsePattern, parseWith] at hp
  split at hp
  · cases hp
    exact ⟨trivial, rfl, rfl, List.nodup_nil⟩
  · dsimp only at hp
    split at hp
    · cases hp
    · next s hrun =>
      split at hp
      · next hclosed =>
        cases hp
        have hstart : Parse.State.Normal { flags } :=
          ⟨rfl, Parse.LevelRelated.empty, List.Forall₂.nil, rfl, rfl, rfl⟩
        have hfirst : Parse.State.Numbered { flags } := ⟨trivial, rfl, rfl, List.nodup_nil⟩
        obtain ⟨hnum, hnormal⟩ := Parse.numbered_of_run rfl hstart hfirst hrun
        have hopened : s.opened = (s.level.finish .normal).captures := by
          rw [Parse.Level.captures_finish hnormal.level, Parse.State.opened,
            List.isEmpty_iff.mp hclosed]
          rfl
        refine ⟨?_, ?_, ?_, hnum.nodup⟩
        · show NumberedFrom 0 (s.level.finish .normal).captures
          rw [← hopened]
          exact hnum.numbers
        · show s.captures = (s.level.finish .normal).captures.length
          rw [← hopened]
          exact hnum.count
        · show s.names = named (s.level.finish .normal).captures
          rw [← hopened]
          exact hnum.names
      · cases hp

/-- The captures of the tree of a pattern are numbered from 1 on, a capture before those inside it
    and those from left to right, and no name comes twice. -/
theorem parsePattern_captures {pattern : String} {flags : Flags} {nestLimit : Nat} {p : Pattern}
    (hp : parsePattern pattern flags nestLimit = .ok p) :
    NumberedFrom 0 p.root.captures ∧ ((named p.root.captures).map (·.1)).Nodup := by
  have hnum := parsePattern_numbered hp
  exact ⟨hnum.numbers, hnum.names ▸ hnum.nodup⟩

end RegexTree
