/-
  Reading a printed tree.

  If the printed forms of the children are read as they should be, so is that of the node: a
  repetition takes the operand before it, a capture what is in its parentheses, and the texts of a
  sequence or a choice are read one after the other.

  * A repetition is read as such only if its operand is one piece, which is why the printer puts
    everything else in a group (`reads_operand`); and the reader compares height and copies of the
    operand, for which there has to be room.
  * A capture may hold a choice without a group around it, since it is a group itself
    (`reads_body`).
  * The branches of a choice are read with bars between them, each on a level that is empty but for
    the branches before it (`reads_branches`); the induction is on the branches that are left.

  By induction the printed form of every tree is read as it should be, if there is room for the
  groups in it (`exists_rereads`).  How much room that is depends on the tree, and no limit that is
  smaller than its depth will do, so the statement is that some limit is enough.
-/
import RegexTree.Proofs.Print.Leaves

namespace RegexTree.Parse

open RegexTree.Tree

section

variable {setting : Setting} {room : Nat} {s : State} {t : Tree}

/-! ## Repetitions -/

/-- A repetition takes the last piece, if it may stand so deep and comes to few enough copies. -/
theorem quantify_extended {l : Label} {u : Tree} {caps : List (Nat × Option String)}
    (hflags : s.flags = .perl) (hroom : s.groups.length + u.repeatHeight < setting.nestLimit)
    (hfits : l.op = .counted → 2 ≤ l.min ∨ 2 ≤ l.max →
      (underSign l u).fitsBudget maxRepeat = true) (start rest : List Char) :
    ((s.extended [u] caps).mark none).quantify setting start rest l.quantifier =
      .ok ((s.extended [underSign l u] caps).mark none) := by
  have htree : ((s.extended [u] caps).mark none).repeated l.quantifier u = underSign l u := by
    show s.repeated l.quantifier u = _
    rw [State.repeated, hflags, Label.quantifier_turned, underSign]
    cases l.flags.nonGreedy <;> rfl
  refine quantify_eq_ok.mpr ⟨?_, u, s.level.pieces, rfl, hroom, fun hop hmany => ?_, ?_⟩
  · -- no repetition is noted
    exact ite_self none
  · rw [Label.quantifier_op] at hop
    rw [Label.quantifier_counted hop] at hmany
    rw [htree]
    exact hfits hop hmany
  · rw [htree]
    rfl

/-- A sign after an operand puts the operand under the repetition. -/
theorem Reads.repetition {l : Label} {u : Tree} {text : List Char}
    {caps : List (Nat × Option String)} (hflags : s.flags = .perl) (hq : l.quantifier.Valid)
    (hoperand : Reads setting true s text (s.extended [u] caps))
    (hroom : s.groups.length + u.repeatHeight < setting.nestLimit)
    (hfits : l.op = .counted → 2 ≤ l.min ∨ 2 ≤ l.max →
      (underSign l u).fitsBudget maxRepeat = true) :
    Reads setting false s (text ++ Print.operator l) (s.extended [underSign l u] caps) := by
  intro before rest hrest
  have hstop : rest.head? ≠ some '?' := hrest.resolve_left Bool.false_ne_true
  obtain ⟨c, more, htext, hread⟩ := readToken_operator hq
  obtain ⟨last, hlast, hrun⟩ := hoperand before (Print.operator l ++ rest) (Or.inl rfl)
  obtain rfl := hlast rfl
  rw [List.append_assoc, hrun, htext, List.cons_append]
  refine ⟨some (c :: (more ++ rest)), fun h => absurd h Bool.false_ne_true, ?_⟩
  have hread' : readToken ((s.extended [u] caps).mark none).flags c (more ++ rest) =
      .ok (.repetition l.quantifier, rest) := by
    show readToken s.flags c (more ++ rest) = _
    rw [hflags]
    exact hread rest hstop
  refine run_token hread' ?_
  rw [State.apply, State.effect, quantify_extended hflags hroom hfits]
  rfl

/-- The text of an operand. -/
def printedOperand (t : Tree) : List Char :=
  if Print.needsGroup t then Print.grouped t.printed else t.printed

/-- What needs no group under a repetition is read as one piece. -/
theorem reread_of_not_needsGroup {A : Assembly} {t : Tree} (ht : t.Printable)
    (h : Print.needsGroup t = false) :
    t.reread A = [sequence (t.reread A)] := by
  simp only [Print.needsGroup, Bool.or_eq_false_iff, beq_eq_false_iff_ne, Bool.and_eq_false_iff,
    decide_eq_false_iff_not] at h
  obtain ⟨⟨⟨-, hconcat⟩, -⟩, hliteral⟩ := h
  rcases reread_cases ht hconcat with ⟨u, hu⟩ | ⟨hop, hne, hr⟩
  · rw [hu, sequence_singleton]
  · have hshort := hliteral.resolve_left fun hnot => hnot hop
    obtain ⟨r, rest, hrunes⟩ := List.exists_cons_of_ne_nil hne
    rw [hrunes, List.length_cons] at hshort
    obtain rfl : rest = [] := List.length_eq_zero_iff.mp (by omega)
    rw [hr, hrunes, List.map_singleton, sequence_singleton]

/-- An operand is read as one piece, in a group if it needs one. -/
theorem reads_operand {t : Tree} (ht : t.Printable)
    (h : Rereads setting room t) {s : State} (hs : s.Ready setting (room + 1) t.captures) :
    Reads setting true s (printedOperand t)
      (s.extended [t.rereadOperand setting.assembly] t.captures) := by
  rw [printedOperand, rereadOperand]
  split
  · exact h.bare.grouped h.head hs
  · next hgroup =>
    rw [Bool.not_eq_true] at hgroup
    have hpiece := h.piece s (hs.mono (Nat.le_succ room))
    have hop : t.op ≠ .alternate := by
      intro hop
      simp [Print.needsGroup, hop] at hgroup
    rw [hgroup, printedPiece, if_neg hop, reread_of_not_needsGroup ht hgroup] at hpiece
    exact hpiece

/-- A repetition takes the piece before it, if there is room for its height. -/
theorem rereads_repetition (hA : setting.assembly.Joins) {l : Label} {t : Tree}
    (ht : (node l [t]).Printable) (hop : l.op.isRepeat = true) (hq : l.quantifier.Valid)
    (h : Rereads setting room t) :
    Rereads setting (room + 1 + (t.rereadOperand setting.assembly).repeatHeight + 1)
      (node l [t]) := by
  have hsub := ht.below List.mem_cons_self
  have hne : l.op ≠ .alternate ∧ l.op ≠ .capture :=
    ⟨Op.ne_of_isRepeat hop rfl, Op.ne_of_isRepeat hop rfl⟩
  have htext : (node l [t]).printed = printedOperand t ++ Print.operator l := by
    rw [printed_node]
    unfold Print.node
    cases hcase : l.op
    case star | plus | quest | counted => rfl
    all_goals
      rw [hcase] at hop
      cases hop
  have hcaptures : (node l [t]).captures = t.captures := by
    rw [captures_of_ne hne.2, List.flatMap_singleton]
  have hbegins : Begins (printedOperand t) := by
    rw [printedOperand]
    split
    · exact begins_grouped _
    · exact h.head
  refine Rereads.of_piece hA hne.1 (htext ▸ hbegins.append _) fun s hs => ?_
  have hroom := hs.room
  rw [hcaptures] at hs
  rw [htext, hcaptures, reread_repetition hop,
    show Print.needsGroup (node l [t]) = true by simp [Print.needsGroup, hop]]
  -- room for a group around the operand, for the repetitions directly below, and for this one
  refine Reads.repetition hs.flags hq (reads_operand hsub h (hs.mono (by omega))) (by omega)
    fun hcount hmany => ?_
  rw [fitsBudget_underSign ((fitsBudget_rereadOperand hA hsub).trans (fitAll_reread hA hsub))]
  exact ht.nodes.here.budget hcount hmany

/-! ## Captures -/

/-- What is printed of the body of a capture. -/
def printedBody (t : Tree) : List Char := if t.op = .emptyMatch then [] else t.printed

/-- What a capture holds does not begin with a question mark. -/
theorem head?_printedBody (h : Begins t.printed) : (printedBody t).head? ≠ some '?' := by
  rw [printedBody]
  split
  · simp
  · exact h.head?_ne

/-- An empty body is read as the empty match, which is left out of it. -/
theorem reads_body (hA : setting.assembly.Joins) (ht : t.Printable)
    (h : Rereads setting room t) {s : State}
    (hlevel : s.level = {}) (hs : s.Ready setting room t.captures) :
    ∃ level : Level,
      level.finish setting.assembly = setting.assembly.branch (t.reread setting.assembly) ∧
      Reads setting false s (printedBody t) ((s.extended [] t.captures).onLevel level) := by
  rw [printedBody]
  split
  · next hop =>
    have hleaf : t.op.arity = .leaf := by
      rw [hop]
      rfl
    refine ⟨{}, ?_, ?_⟩
    · obtain ⟨l, subs⟩ := t
      obtain rfl : subs = [] := ht.normal.shaped.here.leaf hleaf
      rw [reread_empty (l := l) hop]
      exact (finish_pieces hA []).trans
        (hA.branch_nil.trans (hA.branch_singleton (t := empty) fun hdot => nomatch hdot.1).symm)
    · rw [captures_leaf ht.normal.shaped hleaf, State.extended_nil]
      have hsame : s.onLevel {} = s := by
        rw [State.onLevel, ← hlevel]
      rw [hsame]
      exact reads_nil s
  · exact h.bare s hlevel hs

/-- A capture gets the next number and holds what is read in it, which may be a choice without a
    group of its own. -/
theorem rereads_capture (hA : setting.assembly.Joins) {l : Label}
    (ht : (node l [t]).Printable) (hop : l.op = .capture) (h : Rereads setting room t) :
    Rereads setting (room + 1) (node l [t]) := by
  have hsub := ht.below List.mem_cons_self
  have htext : (node l [t]).printed = Print.opening l.name ++ (printedBody t ++ [')']) := by
    rw [printed_node, ← List.append_assoc]
    unfold Print.node
    rw [hop]
    rfl
  have hbegins : Begins (node l [t]).printed := by
    rw [htext]
    cases l.name with
    | none => exact begins_opening _
    | some n => exact begins_opening _
  refine Rereads.of_piece hA (by rw [op_node, hop]; decide) hbegins fun s hs => ?_
  have hroom := hs.room
  have hcaptures : (node l [t]).captures = (l.cap, l.name) :: t.captures := by
    rw [captures_node, if_pos hop, List.flatMap_singleton]
    rfl
  rw [hcaptures] at hs
  obtain ⟨hcap, hnumbers⟩ := hs.admits.numbers
  -- the name is none of those before it
  have hfree : ∀ n ∈ l.name, n ∉ s.names.map (·.1) := by
    intro n hn hmem
    have hnodup := hs.admits.nodup
    rw [List.map_append, List.nodup_append] at hnodup
    refine hnodup.2.2 n hmem n ?_ rfl
    rw [Option.mem_def.mp hn]
    exact List.mem_cons_self
  have hinside : ((s.extended [] [(s.captures + 1, l.name)]).inside s.flags
      (some (s.captures + 1, l.name))).Ready setting room t.captures := by
    have hall : s.Admits ([(l.cap, l.name)] ++ t.captures) := hs.admits
    have hadmits := (State.admits_append hall []).2
    rw [hcap] at hadmits
    refine ⟨hs.flags, ?_, hadmits.numbers, hadmits.nodup⟩
    show (_ :: s.groups).length + room ≤ _
    rw [List.length_cons]
    omega
  obtain ⟨level, hfinish, hbody⟩ := reads_body hA hsub h rfl hinside
  have hread := Reads.capture hs.flags (by omega) (ht.nodes.here.name hop) hfree rfl hbody
    (head?_printedBody h.head) hfinish
  rw [htext, hcaptures, reread_capture hop, hcap,
    show Print.needsGroup (node l [t]) = false by simp [Print.needsGroup, hop, Op.isRepeat]]
  exact hread

/-! ## Sequences -/

/-- Trees one after the other are read as their pieces. -/
theorem reads_pieces {ts : List Tree} (h : ∀ t ∈ ts, Rereads setting room t) {s : State}
    (hs : s.Ready setting room (ts.flatMap Tree.captures)) :
    Reads setting false s (ts.flatMap printedPiece)
      (s.extended (ts.flatMap (reread setting.assembly)) (ts.flatMap Tree.captures)) := by
  induction ts generalizing s with
  | nil =>
    rw [List.flatMap_nil, List.flatMap_nil, List.flatMap_nil, State.extended_nil]
    exact reads_nil s
  | cons t rest ih =>
    obtain ⟨ht, hrest⟩ := List.forall_mem_cons.mp h
    rw [List.flatMap_cons] at hs
    obtain ⟨hfirst, hsecond⟩ := State.admits_append hs.admits (t.reread setting.assembly)
    have hpiece := ht.piece s ⟨hs.flags, hs.room, hfirst⟩
    have hmore := ih hrest (s := s.extended (t.reread setting.assembly) t.captures)
      ⟨hs.flags, hs.room, hsecond⟩
    rw [State.extended_extended] at hmore
    rw [List.flatMap_cons, List.flatMap_cons, List.flatMap_cons]
    refine hpiece.append hmore ?_
    cases rest with
    | nil => simp
    | cons u more =>
      have hu := (hrest u List.mem_cons_self).head
      rw [List.flatMap_cons]
      exact ((begins_printedPiece hu).append _).head?_ne

/-- The texts of a sequence are read one after the other. -/
theorem rereads_concat (hA : setting.assembly.Joins) {l : Label} {subs : List Tree}
    (hop : l.op = .concat) (hlen : 2 ≤ subs.length) (h : ∀ t ∈ subs, Rereads setting room t) :
    Rereads setting room (node l subs) := by
  have htext : (node l subs).printed = subs.flatMap printedPiece := by
    have hzip : ∀ ts : List Tree, (List.zipWith (fun (t : Tree) text =>
        if t.op = .alternate then Print.grouped text else text) ts (ts.map printed)).flatten =
          ts.flatMap printedPiece := by
      intro ts
      rw [List.zipWith_map_right, List.zipWith_self, List.flatMap_def]
      rfl
    rw [printed_node]
    unfold Print.node
    rw [hop]
    exact hzip subs
  have hbegins : Begins (node l subs).printed := by
    rw [htext]
    match subs, hlen with
    | first :: _ :: _, _ =>
      rw [List.flatMap_cons]
      exact (begins_printedPiece (h first List.mem_cons_self).head).append _
  refine Rereads.of_piece hA (by rw [op_node, hop]; decide) hbegins fun s hs => ?_
  rw [captures_of_ne (by rw [hop]; decide)] at hs ⊢
  rw [htext, reread_concat hop,
    show Print.needsGroup (node l subs) = true by simp [Print.needsGroup, hop]]
  exact reads_pieces h hs

/-! ## Choices -/

theorem onLevel_onLevel (s : State) (a b : Level) : (s.onLevel a).onLevel b = s.onLevel b := rfl

theorem extended_onLevel {s : State} (ps : List Tree) (xs ys : List (Nat × Option String))
    (middle level : Level) :
    (((s.extended ps xs).onLevel middle).extended [] ys).onLevel level =
      (s.extended [] (xs ++ ys)).onLevel level := by
  simp [State.extended, State.onLevel, named_append, Nat.add_assoc]

/-- A bar after the pieces of a branch ends the branch. -/
theorem reads_bar {s : State} {bs ps : List Tree}
    (hlevel : s.level = { branches := bs, pieces := ps.reverse }) :
    Reads setting true s ['|'] (s.onLevel { branches := setting.assembly.branch ps :: bs }) := by
  refine reads_token [] (fun _ => rfl) (fun q h => nomatch h) fun before start rest => ?_
  show Except.ok ((s.mark before).onLevel (s.level.bar setting.assembly)) = _
  rw [hlevel, Level.bar]
  show Except.ok ((s.mark before).onLevel
    { branches := setting.assembly.branch ps.reverse.reverse :: bs }) = _
  rw [List.reverse_reverse]
  rfl

/-- A choice begins as its first branch does. -/
theorem begins_branches {ts : List Tree} (hne : ts ≠ []) (h : ∀ t ∈ ts, Begins t.printed) :
    Begins (['|'].intercalate (ts.map printed)) := by
  obtain ⟨t, rest, rfl⟩ := List.exists_cons_of_ne_nil hne
  have ht := h t List.mem_cons_self
  rw [List.map_cons]
  cases rest with
  | nil => rwa [List.map_nil, List.intercalate_singleton]
  | cons u more =>
    rw [List.intercalate_cons_of_ne_nil (by simp), List.append_assoc]
    exact ht.append _

/-- The branches of a choice are read one after the other with bars between them, by induction on
    the branches that are left; those that were read are on the level already, in reverse. -/
theorem reads_branches {ts : List Tree} (hne : ts ≠ [])
    (h : ∀ t ∈ ts, Rereads setting room t ∧ t.op ≠ .alternate) {s : State} {bs : List Tree}
    (hlevel : s.level = { branches := bs })
    (hs : s.Ready setting room (ts.flatMap Tree.captures)) :
    ∃ level : Level,
      level.allBranches setting.assembly =
          bs.reverse ++ ts.map (fun t => setting.assembly.branch (t.reread setting.assembly)) ∧
        Reads setting false s (['|'].intercalate (ts.map printed))
          ((s.extended [] (ts.flatMap Tree.captures)).onLevel level) := by
  induction ts generalizing s bs with
  | nil => exact absurd rfl hne
  | cons t rest ih =>
    obtain ⟨⟨ht, hop⟩, hrest⟩ := List.forall_mem_cons.mp h
    rw [List.flatMap_cons] at hs ⊢
    obtain ⟨hfirst, hsecond⟩ := State.admits_append hs.admits (t.reread setting.assembly)
    have hpiece := ht.piece s ⟨hs.flags, hs.room, hfirst⟩
    rw [printedPiece, if_neg hop, extended_of_level hlevel] at hpiece
    cases rest with
    | nil =>
      refine ⟨{ branches := bs, pieces := (t.reread setting.assembly).reverse }, ?_, ?_⟩
      · rw [Level.allBranches, List.reverse_reverse, List.reverse_cons]
        rfl
      · rw [List.map_singleton, List.intercalate_singleton, List.flatMap_nil, List.append_nil]
        exact hpiece.unsettled
    | cons u more =>
      -- the bar makes a branch of the pieces, and the other trees are read after it
      have hbar : Reads setting true _ ['|'] _ := reads_bar (s := (s.extended [] t.captures).onLevel
        { branches := bs, pieces := (t.reread setting.assembly).reverse }) rfl
      obtain ⟨level, hbranches, hmore⟩ := ih (List.cons_ne_nil u more) hrest
        (s := ((s.extended [] t.captures).onLevel
          { branches := bs, pieces := (t.reread setting.assembly).reverse }).onLevel
            { branches := setting.assembly.branch (t.reread setting.assembly) :: bs })
        rfl ⟨hs.flags, hs.room, hsecond.numbers, hsecond.nodup⟩
      have hhead := begins_branches (List.cons_ne_nil u more) fun v hv => (hrest v hv).1.head
      refine ⟨level, ?_, ?_⟩
      · rw [hbranches, List.reverse_cons, List.append_assoc]
        rfl
      · have hall := hpiece.append (hbar.append hmore hhead.head?_ne) (by simp)
        rw [onLevel_onLevel, extended_onLevel] at hall
        rw [List.map_cons, List.intercalate_cons_of_ne_nil (by simp), List.append_assoc]
        exact hall

/-- The texts of a choice are read branch by branch, in a group. -/
theorem rereads_alternate (hA : setting.assembly.Joins) {l : Label} {subs : List Tree}
    (ht : (node l subs).Printable) (hop : l.op = .alternate) (hlen : 2 ≤ subs.length)
    (h : ∀ t ∈ subs, Rereads setting room t) : Rereads setting (room + 1) (node l subs) := by
  have hne : subs ≠ [] := List.ne_nil_of_length_pos (Nat.lt_of_lt_of_le Nat.zero_lt_two hlen)
  have htext : (node l subs).printed = ['|'].intercalate (subs.map printed) := by
    rw [printed_node]
    unfold Print.node
    rw [hop]
  have hbegins : Begins (node l subs).printed := by
    rw [htext]
    exact begins_branches hne fun t hsub => (h t hsub).head
  -- two branches or more make a choice or a sequence, of which no dot is made
  have hdot : ¬(choice (subs.map fun t =>
      setting.assembly.branch (t.reread setting.assembly))).DotClass := by
    refine not_dotClass_of_compound (choice_compound (fun p hp => Normal.reduced ?_) (by rwa [List.length_map]))
    obtain ⟨t, hsub, rfl⟩ := List.mem_map.mp hp
    exact hA.branch_normal (reread_normal hA (ht.below hsub)).1
  have hwhole : setting.assembly.branch ((node l subs).reread setting.assembly) =
      choice (subs.map fun t => setting.assembly.branch (t.reread setting.assembly)) := by
    rw [reread_alternate hop, hA.branch_singleton hdot]
  refine Rereads.of_bare hop hbegins (by rw [hwhole, reread_alternate hop]) fun s hl hs => ?_
  rw [captures_of_ne (by rw [hop]; decide)] at hs ⊢
  obtain ⟨level, hbranches, hread⟩ := reads_branches hne
    (fun t hsub => ⟨h t hsub, ht.op_sub_ne hop rfl t hsub⟩) hl hs
  refine ⟨level, ?_, htext ▸ hread⟩
  rw [hwhole]
  show setting.assembly.choice (level.allBranches setting.assembly) = _
  rw [hA.choice, hbranches]
  rfl

end

/-! ## All trees -/

section

variable {A : Assembly}

/-- There is room for all of a list of trees if there is for each. -/
theorem exists_room {ts : List Tree}
    (h : ∀ t ∈ ts, ∃ room, ∀ setting : Setting, setting.assembly = A → Rereads setting room t) :
    ∃ room, ∀ setting : Setting, setting.assembly = A → ∀ t ∈ ts, Rereads setting room t := by
  induction ts with
  | nil => exact ⟨0, fun _ _ t ht => absurd ht List.not_mem_nil⟩
  | cons t rest ih =>
    obtain ⟨ht, hrest⟩ := List.forall_mem_cons.mp h
    obtain ⟨room, hroom⟩ := ht
    obtain ⟨more, hmore⟩ := ih hrest
    refine ⟨max room more, fun setting hset => List.forall_mem_cons.mpr ⟨?_, fun u hu => ?_⟩⟩
    · exact (hroom setting hset).mono (Nat.le_max_left room more)
    · exact (hmore setting hset u hu).mono (Nat.le_max_right room more)

/-- With enough room the printed form of every tree is read as it should be, by induction on the
    tree: for a node there has to be room for each of its children, and for one group more. -/
theorem exists_rereads (hA : A.Joins) {t : Tree} (ht : t.Printable) :
    ∃ room, ∀ setting : Setting, setting.assembly = A → Rereads setting room t := by
  refine ht.induct
    (P := fun t => ∃ room, ∀ setting : Setting, setting.assembly = A → Rereads setting room t)
    ?empty ?simple ?literal ?charClass ?capture ?repetition ?concat ?alternate
  case empty =>
    intro l _ hop
    exact ⟨1, fun _ hset => rereads_empty (hset ▸ hA) hop⟩
  case simple =>
    intro l _ hop
    exact ⟨1, fun _ hset => rereads_simple (hset ▸ hA) hop⟩
  case literal =>
    intro l _ hop hne hrunes
    exact ⟨1, fun _ hset => rereads_literal (hset ▸ hA) hop hne hrunes⟩
  case charClass =>
    intro l x _ hop hrunes hx
    exact ⟨1, fun _ hset => rereads_charClass (hset ▸ hA) hop hrunes hx.clean⟩
  case capture =>
    intro l t ht hop ⟨room, h⟩
    exact ⟨room + 1, fun setting hset => rereads_capture (hset ▸ hA) ht hop (h setting hset)⟩
  case repetition =>
    intro l t ht hop hq ⟨room, h⟩
    refine ⟨room + 1 + (t.rereadOperand A).repeatHeight + 1, fun setting hset => ?_⟩
    subst hset
    exact rereads_repetition hA ht hop hq (h setting rfl)
  case concat =>
    intro l subs ht hop hlen ih
    obtain ⟨room, h⟩ := exists_room ih
    exact ⟨room, fun setting hset => rereads_concat (hset ▸ hA) hop hlen (h setting hset)⟩
  case alternate =>
    intro l subs ht hop hlen ih
    obtain ⟨room, h⟩ := exists_room ih
    exact ⟨room + 1, fun setting hset =>
      rereads_alternate (hset ▸ hA) ht hop hlen (h setting hset)⟩

end

end RegexTree.Parse
