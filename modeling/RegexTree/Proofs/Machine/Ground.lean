/-
  What stands under the innermost open group.

  `ground` is the stack from the marker of the innermost open group down.  There are two things that
  change it: a group that is opened puts a marker on the stack, which has the flags in force, and a
  group that is closed takes the marker away and leaves what was below it.  Everything else is done
  above the marker (`step_moves`).

  For most of that no state and no text has to be known: whatever the stack is, pushing, joining and
  repeating look no further down than the marker, since that is no literal and no operand.  So the
  lemmas here are about any parser and cursor, one for each function of the machine, and say that if
  it gives a result the ground is as before (`Stays`) or a group was opened (`Opens`).  `Gives` is
  that: it says nothing if there is an error, or if the machine is stuck, and so it passes through
  `bind` without a condition.

  Only for a bar and for a closing parenthesis the stack has to be one that holds a state
  (`verticalBar_stays`, `rightParen_closes`), since these look for markers.
-/
import RegexTree.Proofs.Machine.Step

namespace RegexTree.Machine

open Cursor RegexTree.Tree
open Parse (State OpenGroup Setting)

/-! ## What a computation gives -/

/-- Whatever the computation gives has the property. -/
def Gives {α : Type} (m : Guarded α) (Q : α → Prop) : Prop := ∀ a, m = .ok a → Q a

section

variable {α β : Type} {m : Guarded α} {f : α → Guarded β} {P : α → Prop} {Q : β → Prop}

theorem gives_ok {a : α} (h : P a) : Gives (.ok a) P := by
  rintro _ ⟨⟩
  exact h

theorem gives_error (e : Fault) : Gives (.error e) P := by
  rintro _ ⟨⟩

theorem gives_fail (code : ErrorCode) (shown : List Char) : Gives (fail code shown) P :=
  gives_error _

/-- What the first step gives is where the second begins. -/
theorem Gives.bind (h : Gives m P) (hf : ∀ a, P a → Gives (f a) Q) : Gives (m >>= f) Q := by
  cases m with
  | error e => exact gives_error e
  | ok a => exact hf a (h a rfl)

/-- Nothing need be known of what is computed first. -/
theorem gives_bind (hf : ∀ a, Gives (f a) Q) : Gives (m >>= f) Q :=
  Gives.bind (P := fun _ => True) (fun _ _ => trivial) fun a _ => hf a

theorem Gives.imp {P' : α → Prop} (h : Gives m P) (himp : ∀ a, P a → P' a) : Gives m P' :=
  fun a ha => himp a (h a ha)

theorem gives_failSince (code : ErrorCode) (c : Cursor) (start : Nat) :
    Gives (failSince code c start) P :=
  gives_bind fun _ => gives_fail _ _

end

/-! ## The ground -/

/-- The same stands under the innermost open group, and as many groups are open. -/
structure Stays (p q : Parser) : Prop where
  ground : ground q.stack = ground p.stack
  depth : q.depth = p.depth

/-- A group was opened: its marker is at the top and has the flags that were in force. -/
structure Opens (p q : Parser) (paren : Tree) (below : List Tree) : Prop where
  stack : q.stack = paren :: below
  op : paren.op = .leftParen
  flags : paren.flags = p.flags
  ground : Machine.ground below = Machine.ground p.stack
  depth : q.depth = p.depth + 1

/-- The innermost group was closed: one piece stands in the place of its marker, and the flags are
    those of the marker. -/
structure Closes (p q : Parser) (paren : Tree) (below : List Tree) : Prop where
  ground : Machine.ground p.stack = paren :: below
  op : paren.op = .leftParen
  stack : ∃ t : Tree, t.op.isMarker = false ∧ q.stack = t :: below
  flags : q.flags = paren.flags
  depth : q.depth + 1 = p.depth

/-- The parser opens a group, or does what it does above the marker of the innermost one. -/
def Climbs (p q : Parser) : Prop := Stays p q ∨ ∃ paren below, Opens p q paren below

theorem Stays.refl (p : Parser) : Stays p p := ⟨rfl, rfl⟩

theorem Stays.trans {p q r : Parser} (h : Stays p q) (h' : Stays q r) : Stays p r :=
  ⟨h'.ground.trans h.ground, h'.depth.trans h.depth⟩

/-! ## Pushing -/

/-- Joining the two entries on the top stays above a marker. -/
theorem maybeConcat_ground (next : Option (Nat × Flags)) (stack : List Tree) :
    Gives (Parser.maybeConcat next stack) fun r => ground r.2 = ground stack := by
  rw [Parser.maybeConcat]
  rcases stack with _ | ⟨top, _ | ⟨below, rest⟩⟩
  · exact gives_ok rfl
  · exact gives_ok rfl
  · rw [if_neg (by simp)]
    simp only [List.getElem?_cons_zero, List.getElem?_cons_succ, must_some, ok_bind]
    split
    · next hcan =>
      -- two literals are no markers, and neither is what they are joined to
      obtain ⟨hbelow, htop, -⟩ := canJoin_iff.mp hcan
      have hjoined : (joined below top).op ≠ .leftParen := by
        rw [joined_op, hbelow]
        decide
      have hstack : ground (top :: below :: rest) = ground rest := by
        rw [ground_cons_of_ne (by rw [htop]; decide), ground_cons_of_ne (by rw [hbelow]; decide)]
      rw [hstack]
      cases next with
      | none => exact gives_ok (ground_cons_of_ne hjoined rest)
      | some r =>
        obtain ⟨l, subs⟩ := top
        have hnext : l.op ≠ .leftParen := by
          rw [show l.op = .literal from htop]
          decide
        refine gives_ok ?_
        exact (ground_cons_of_ne (t := node { l with runes := [r.1], flags := r.2 } subs)
          hnext _).trans (ground_cons_of_ne hjoined rest)
    · exact gives_ok rfl

section

variable {p : Parser}

/-- An entry that is not the marker of a group is pushed above the marker of the innermost one. -/
theorem push_stays {t : Tree} (ht : t.op ≠ .leftParen) : Gives (p.push t) (Stays p) := by
  refine gives_bind fun stand => ?_
  cases stand with
  | none =>
    refine (maybeConcat_ground none p.stack).bind fun r hr => gives_ok ⟨?_, rfl⟩
    exact (ground_cons_of_ne ht _).trans hr
  | some stand =>
    refine (maybeConcat_ground _ p.stack).bind fun r hr => ?_
    obtain ⟨merged, stack⟩ := r
    cases merged with
    | true => exact gives_ok ⟨hr, rfl⟩
    | false =>
      obtain ⟨l, subs⟩ := t
      have hliteral : (node { l with op := .literal, runes := l.runes.take 1, flags := stand.2 }
          subs).op ≠ .leftParen := (nofun : Op.literal ≠ .leftParen)
      exact gives_ok ⟨(ground_cons_of_ne hliteral stack).trans hr, rfl⟩

theorem literal_stays (r : Nat) : Gives (p.literal r) (Stays p) :=
  push_stays (t := State.literalPiece p.flags r) (nofun : Op.literal ≠ .leftParen)

theorem pushClass_stays (runes : List Nat) : Gives (p.pushClass runes) (Stays p) :=
  push_stays (nofun : Op.charClass ≠ .leftParen)

/-- A node without operands comes to the top, with its label changed. -/
theorem pushOp_gives {op : Op} (hop : op ≠ .charClass) (f : Label → Label) :
    Gives (p.pushOp op f) fun q => ∃ below, q = { p with
      stack := (leaf op p.flags).relabel f :: below } ∧ ground below = ground p.stack := by
  rw [Parser.pushOp, Parser.push, classLiteral?_of_ne (t := leaf op p.flags) hop, ok_bind]
  dsimp only
  cases hconcat : Parser.maybeConcat none p.stack with
  | error e => exact gives_error e
  | ok r =>
    have hr := maybeConcat_ground none p.stack r hconcat
    rw [ok_bind, pure_eq_ok, ok_bind]
    dsimp only
    rw [List.getElem?_cons_zero, must_some, ok_bind, replace_of_lt (by simp), ok_bind]
    exact gives_ok ⟨_, rfl, hr⟩

/-- Pushing anything that is no marker stays above the marker. -/
theorem pushOp_stays {op : Op} (hop : op ≠ .charClass) {f : Label → Label}
    (hf : (f { op, flags := p.flags }).op ≠ .leftParen) : Gives (p.pushOp op f) (Stays p) := by
  refine (pushOp_gives hop f).imp ?_
  rintro q ⟨below, rfl, hbelow⟩
  have hop' : ((leaf op p.flags).relabel f).op ≠ .leftParen := hf
  exact ⟨(ground_cons_of_ne hop' below).trans hbelow, rfl⟩

/-! ## Repetition -/

/-- A repetition takes the place of its operand, which is no marker. -/
theorem overTop_stays (c : Cursor) (q : Quantifier) (hq : q.op ≠ .leftParen) (before : Nat)
    (last : Option Nat) : Gives (p.overTop c q before last) (Stays p) := by
  unfold Parser.overTop
  split
  · exact gives_failSince _ _ _
  · split
    · exact gives_failSince _ _ _
    · next operand stack hstack =>
      split
      · exact gives_failSince _ _ _
      · next hmark =>
        have hoperand : operand.op ≠ .leftParen := fun hop => hmark (by rw [hop]; rfl)
        refine gives_bind fun height => ?_
        split
        · exact gives_fail _ _
        · refine gives_bind fun fits => ?_
          split
          · refine gives_ok ⟨?_, rfl⟩
            rw [hstack, ground_cons_of_ne hoperand]
            refine ground_cons_of_ne ?_ stack
            exact hq
          · exact gives_failSince _ _ _

/-- A repetition takes the top entry and puts it back. -/
theorem quantify_stays (c : Cursor) {op : Op} (hop : op ≠ .leftParen) (min max : Int)
    (before : Nat) (last : Option Nat) :
    Gives (p.quantify c op min max before last) fun r => Stays p r.1 := by
  refine gives_bind fun turned => ?_
  exact (overTop_stays _ _ hop _ _).bind fun q hq => gives_ok hq

/-! ## Groups -/

/-- A group that is opened puts its marker on the stack. -/
theorem openGroup_opens (capture : Bool) (name : Option String) (c : Cursor) :
    Gives (p.openGroup capture name c) fun q => ∃ paren below, Opens p q paren below := by
  unfold Parser.openGroup
  split
  · exact gives_fail _ _
  · rw [word]
    split
    · rw [ok_bind]
      refine (pushOp_gives (by decide) _).imp ?_
      rintro q ⟨below, rfl, hbelow⟩
      exact ⟨_, below, rfl, rfl, rfl, hbelow, rfl⟩
    · exact gives_error _

/-- The flags do not count. -/
theorem Opens.withFlags {q : Parser} {paren : Tree} {below : List Tree}
    (h : Opens p q paren below) (flags : Flags) : Opens p { q with flags } paren below :=
  ⟨h.stack, h.op, h.flags, h.ground, h.depth⟩

/-- Switches open a group or set flags, by induction on the loop, which changes nothing in the
    parser before its end. -/
theorem switches_climbs (start steps : Nat) (flags : Flags) (off seen : Bool) (c : Cursor) :
    Gives (p.switches start steps flags off seen c) fun r => Climbs p r.1 := by
  induction steps generalizing flags off seen c with
  | zero => exact gives_error _
  | succ steps ih =>
    rw [Parser.switches]
    split
    · refine gives_bind fun popped => ?_
      obtain ⟨ch, c⟩ := popped
      dsimp only
      split
      · exact ih _ _ _ _
      · split
        · split
          · exact gives_failSince _ _ _
          · exact ih _ _ _ _
        · split
          · split
            · exact gives_failSince _ _ _
            · split
              · refine (openGroup_opens false none c).bind ?_
                rintro q ⟨paren, below, hopen⟩
                exact gives_ok (Or.inr ⟨paren, below, hopen.withFlags _⟩)
              · exact gives_ok (Or.inl ⟨rfl, rfl⟩)
          · exact gives_failSince _ _ _
    · exact gives_failSince _ _ _

theorem namedCapture_climbs (skipped : Nat) (c : Cursor) :
    Gives (p.namedCapture skipped c) fun r => Climbs p r.1 := by
  unfold Parser.namedCapture
  split
  · exact gives_fail _ _
  · refine gives_bind fun shown => gives_bind fun text => gives_bind fun name => ?_
    split
    · exact gives_fail _ _
    · refine gives_bind fun c => ?_
      exact (openGroup_opens true _ c).bind fun q hopen => gives_ok (Or.inr hopen)

/-- A group with a question mark opens a group, or sets flags and nothing else. -/
theorem specialGroup_climbs (c : Cursor) :
    Gives (p.specialGroup c) fun r => Climbs p r.1 := by
  unfold Parser.specialGroup
  dsimp only
  split
  · exact namedCapture_climbs 4 c
  · split
    · exact namedCapture_climbs 3 c
    · exact gives_bind fun c => switches_climbs _ _ _ _ _ c

/-! ## Escapes -/

theorem literals_stays (stop steps : Nat) (c : Cursor) :
    Gives (Parser.literals stop steps p c) fun r => Stays p r.1 := by
  induction steps generalizing p c with
  | zero => exact gives_error _
  | succ steps ih =>
    rw [Parser.literals]
    split
    · refine gives_bind fun popped => (literal_stays _).bind fun q hq => ?_
      exact (ih _).imp fun r hr => hq.trans hr
    · exact gives_ok (Stays.refl p)

theorem quoted_stays (c : Cursor) : Gives (p.quoted c) fun r => Stays p r.1 := by
  refine (literals_stays _ _ c).bind fun r hr => ?_
  exact gives_bind fun c => gives_ok hr

theorem op_of_assertion? {ch : Char} {op : Op} (h : assertion? ch = some op) :
    op ≠ .charClass ∧ op ≠ .leftParen := by
  unfold assertion? at h
  split at h
  all_goals cases h
  all_goals exact ⟨by decide, by decide⟩

theorem perlEscape?_stays (c : Cursor) :
    Gives (p.perlEscape? c) fun done => ∀ r ∈ done, Stays p r.1 := by
  have hnone : Gives (.ok none) fun done : Option (Parser × Cursor) => ∀ r ∈ done, Stays p r.1 :=
    gives_ok fun r hr => absurd hr (Option.not_mem_none r)
  have hsome : ∀ {m : Guarded (Parser × Cursor)}, Gives m (fun r => Stays p r.1) →
      Gives (m >>= fun r => .ok (some r)) fun done => ∀ r ∈ done, Stays p r.1 := fun hm =>
    hm.bind fun r hr => gives_ok fun r' hr' => by cases hr'; exact hr
  unfold Parser.perlEscape?
  refine gives_bind fun text => ?_
  split
  · exact hnone
  · split
    · exact gives_bind fun shown => gives_fail _ _
    · split
      · exact gives_bind fun c => hsome (quoted_stays c)
      · split
        · exact hnone
        · next op hassert =>
          obtain ⟨hclass, hparen⟩ := op_of_assertion? hassert
          refine gives_bind fun c => (pushOp_stays hclass hparen).bind fun q hq => ?_
          exact gives_ok fun r hr => by cases hr; exact hq

/-- An escape is one piece. -/
theorem plainEscape_stays (c : Cursor) : Gives (p.plainEscape c) fun r => Stays p r.1 := by
  unfold Parser.plainEscape
  refine gives_bind fun group => ?_
  split
  · refine gives_bind fun runes => ?_
    exact (pushClass_stays runes).bind fun q hq => gives_ok hq
  · refine gives_bind fun found => ?_
    exact (literal_stays _).bind fun q hq => gives_ok hq

/-- Whatever follows a backslash is pushed, piece by piece. -/
theorem backslash_stays (c : Cursor) : Gives (p.backslash c) fun r => Stays p r.1 := by
  have hperl : Gives (if p.flags.perlX then p.perlEscape? c else pure none)
      fun done => ∀ r ∈ done, Stays p r.1 := by
    split
    · exact perlEscape?_stays c
    · exact gives_ok fun r hr => absurd hr (Option.not_mem_none r)
  refine hperl.bind fun done hdone => ?_
  cases done with
  | none => exact plainEscape_stays c
  | some r => exact gives_ok (hdone r rfl)

/-! ## One token -/

/-- What is read at a place that is no bar, no closing parenthesis and no repetition opens a group
    or is pushed above the marker. -/
theorem piece_climbs {ch : Char} (hbar : ch ≠ '|') (hclose : ch ≠ ')') (c : Cursor) :
    Gives (p.piece c ch) fun r => Climbs p r.1 := by
  have hstays : ∀ {m : Guarded Parser} {c : Cursor}, Gives m (Stays p) →
      Gives (m >>= fun q => .ok (q, c)) fun r => Climbs p r.1 := fun hm =>
    hm.bind fun q hq => gives_ok (Or.inl hq)
  unfold Parser.piece
  rw [if_neg hbar, if_neg hclose]
  split
  · split
    · exact specialGroup_climbs c
    · refine gives_bind fun c => ?_
      exact (openGroup_opens true none c).bind fun q hopen => gives_ok (Or.inr hopen)
  split
  · refine gives_bind fun c => hstays (pushOp_stays ?_ ?_)
    · split
      all_goals decide
    · show (if p.flags.oneLine then Op.beginText else Op.beginLine) ≠ .leftParen
      split
      all_goals decide
  split
  · refine gives_bind fun c => ?_
    split
    · exact hstays (pushOp_stays (by decide) (nofun : Op.endText ≠ .leftParen))
    · exact hstays (pushOp_stays (by decide) (nofun : Op.endLine ≠ .leftParen))
  split
  · refine gives_bind fun c => hstays (pushOp_stays ?_ ?_)
    · split
      all_goals decide
    · show (if p.flags.dotNL then Op.anyChar else Op.anyCharNotNL) ≠ .leftParen
      split
      all_goals decide
  split
  · exact gives_bind fun found => hstays (pushClass_stays found.1)
  split
  · exact (backslash_stays c).imp fun r hr => Or.inl hr
  · exact gives_bind fun popped => hstays (literal_stays _)

/-- A brace repeats the top entry, or is a literal. -/
theorem brace_stays (c : Cursor) (last : Option Nat) :
    Gives (p.brace c last) fun r => Stays p r.1 := by
  unfold Parser.brace
  refine gives_bind fun count => ?_
  split
  · refine gives_bind fun c => gives_bind fun c => ?_
    exact (literal_stays _).bind fun q hq => gives_ok hq
  · split
    · exact gives_failSince _ _ _
    · exact (quantify_stays _ (by decide) _ _ _ _).bind fun r hr => gives_ok hr

/-! ## Steps -/

variable {limit : Nat} {s : State} (h : Mirrors limit p s) (hs : SoundState s)

include h hs

/-- A bar stands above the marker of the innermost group. -/
theorem verticalBar_stays : Gives p.verticalBar (Stays p) := by
  obtain ⟨bars, hbars, hbelow, hstack⟩ := h.ground hs
  have hpieces : ∀ t ∈ s.level.pieces, t.Normal := fun t ht => (hs.pieces t ht).normal
  obtain ⟨bars', hbars', hbar⟩ := verticalBar_eq hpieces hbars hbelow hstack
  have hbranches : ∀ b ∈ (s.level.bar .normal).branches, b.Normal := by
    refine List.forall_mem_cons.mpr ⟨asDot_normal (sequence_normal fun t ht => ?_), fun b hb => ?_⟩
    · exact hpieces t (List.mem_reverse.mp ht)
    · exact (hs.branches b hb).normal
  rw [hbar]
  refine gives_ok ⟨?_, rfl⟩
  exact (ground_append (hbars'.not_isParen hbranches) _).trans hbelow.ground

/-- A closing parenthesis closes the innermost group. -/
theorem rightParen_closes (c : Cursor) :
    Gives (p.rightParen c) fun q => ∃ paren below, Closes p q paren below := by
  cases hgroups : s.groups with
  | nil =>
    rw [h.rightParen_of_nil hs hgroups]
    exact gives_fail _ _
  | cons group groups =>
    obtain ⟨bars, rest, hbars, hrest, hground, hright⟩ := h.rightParen_of_cons hs hgroups c
    rw [hright]
    refine gives_ok ⟨paren group, _, hground, rfl, ⟨_, ?_, rfl⟩, rfl, ?_⟩
    · rw [OpenGroup.piece]
      split
      · exact hs.finish.normal.here.notMarker
      · rfl
    · rw [h.depth, hgroups]
      rfl

/-- A step opens a group, closes one, or stays above the innermost marker; by the sign at the
    cursor. -/
theorem step_moves (c : Cursor) (last : Option Nat) :
    Gives (p.step c last) fun r => Climbs p r.1 ∨ ∃ paren below, Closes p r.1 paren below := by
  unfold Parser.step
  refine gives_bind fun ch => ?_
  split
  · next op hsign =>
    have hop : op ≠ .leftParen := by
      unfold sign? at hsign
      split at hsign
      all_goals cases hsign
      all_goals decide
    refine gives_bind fun after => ?_
    exact (quantify_stays after hop _ _ _ _).bind fun r hr => gives_ok (Or.inl (Or.inl hr))
  · split
    · exact (brace_stays c last).imp fun r hr => Or.inl (Or.inl hr)
    · have hdone : ∀ {m : Guarded (Parser × Cursor)},
          Gives m (fun r => Climbs p r.1 ∨ ∃ paren below, Closes p r.1 paren below) →
          Gives (m >>= fun r => .ok (r.1, r.2, (none : Option Nat)))
            fun r => Climbs p r.1 ∨ ∃ paren below, Closes p r.1 paren below := fun hm =>
        hm.bind fun r hr => gives_ok hr
      refine hdone ?_
      by_cases hbar : ch = '|'
      · subst hbar
        refine gives_bind fun c => ?_
        exact (verticalBar_stays h hs).bind fun q hq => gives_ok (Or.inl (Or.inl hq))
      · by_cases hclose : ch = ')'
        · subst hclose
          refine gives_bind fun c => ?_
          exact (rightParen_closes h hs c).bind fun q hq => gives_ok (Or.inr hq)
        · exact (piece_climbs hbar hclose c).imp fun r hr => Or.inl hr

end

end RegexTree.Machine
