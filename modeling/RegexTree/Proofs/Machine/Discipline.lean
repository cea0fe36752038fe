/-
  The discipline of the stack.

  Groups, branches and pieces share one stack, and markers on it say where a group begins and where
  a branch ends.  What holds of it at every place that is reached between two tokens:

  * the depth is the number of markers of groups (`Reached.depth`);
  * between two of them stands at most one bar, which never stands at the bottom
    (`Mirrors.segments`), with the branches before it under it and the pieces of the branch under
    way above it;
  * what stands below a marker has stood there since the group was opened, under the flags that the
    marker has (`Reached.openSince`, `Reached.keeps`).

  So a closing parenthesis finds the group that it closes (`Reached.close_ok`), or there is none and
  it is an error (`Reached.close_error`), and at the end a group is left open just if more than one
  tree is left (`Reached.finish`).

  The first and the last are proved of the step: one that opens a group puts a marker above all
  else, one that closes it takes that marker, and every other step leaves all from the last marker
  down as it is (`Reached.moves`).  The second is read off the state that the stack holds, whose
  levels are the segments.
-/
import RegexTree.Proofs.Machine.Ground
import RegexTree.Proofs.Machine.Run

namespace RegexTree.Machine

open Cursor RegexTree.Tree
open Parse (State OpenGroup Setting)

/-! ## Markers -/

/-- The number of markers of groups on the stack. -/
def parens (stack : List Tree) : Nat := stack.countP isParen

theorem parens_append {above : List Tree} (h : ∀ t ∈ above, isParen t = false)
    (below : List Tree) : parens (above ++ below) = parens below := by
  rw [parens, List.countP_append, List.countP_eq_zero.mpr fun t ht => by rw [h t ht]; decide,
    Nat.zero_add]
  rfl

theorem parens_paren {t : Tree} (h : t.op = .leftParen) (below : List Tree) :
    parens (t :: below) = parens below + 1 :=
  List.countP_cons_of_pos (isParen_iff.mpr h)

/-- The entries above the marker of the innermost group, and what stands under it. -/
theorem exists_above (stack : List Tree) :
    ∃ above, stack = above ++ ground stack ∧ ∀ t ∈ above, isParen t = false :=
  ⟨stack.takeWhile fun t => !isParen t, List.takeWhile_append_dropWhile.symm, fun t ht => by
    simpa using List.all_eq_true.mp List.all_takeWhile t ht⟩

/-- All markers are at or below the innermost one. -/
theorem parens_ground (stack : List Tree) : parens (ground stack) = parens stack := by
  obtain ⟨above, hstack, habove⟩ := exists_above stack
  conv_rhs => rw [hstack, parens_append habove]

/-- A marker stands on the stack just if it stands on the ground. -/
theorem suffix_ground_iff {paren : Tree} (h : paren.op = .leftParen) {below stack : List Tree} :
    paren :: below <:+ ground stack ↔ paren :: below <:+ stack := by
  refine ⟨fun hsuffix => hsuffix.trans (List.dropWhile_suffix _), fun hsuffix => ?_⟩
  induction stack with
  | nil => exact hsuffix
  | cons t stack ih =>
    by_cases hop : t.op = .leftParen
    · rwa [ground_paren hop]
    · rw [ground_cons_of_ne hop]
      refine ih ((List.suffix_cons_iff.mp hsuffix).resolve_left fun he => hop ?_)
      cases he
      exact h

section

variable {p q : Parser} {paren : Tree} {below : List Tree} (hdepth : p.depth = parens p.stack)

include hdepth

/-- The depth counts the markers still, after a step that stays above them. -/
theorem Stays.parens (h : Stays p q) : q.depth = parens q.stack := by
  rw [h.depth, hdepth, ← parens_ground, ← h.ground, parens_ground]

/-- A group is opened above as many markers as groups are open. -/
theorem Opens.parens_below (h : Opens p q paren below) : p.depth = parens below := by
  rw [hdepth, ← parens_ground, ← h.ground, parens_ground]

theorem Opens.parens (h : Opens p q paren below) : q.depth = parens q.stack := by
  rw [h.depth, h.parens_below hdepth, h.stack, parens_paren h.op]

/-- As many groups stay open as there are markers below that of the group that is closed. -/
theorem Closes.parens_below (h : Closes p q paren below) : q.depth = parens below := by
  have hclosed := h.depth
  rw [hdepth, ← parens_ground, h.ground, parens_paren h.op] at hclosed
  exact Nat.succ.inj hclosed

theorem Closes.parens (h : Closes p q paren below) : q.depth = parens q.stack := by
  obtain ⟨t, ht, hstack⟩ := h.stack
  rw [h.parens_below hdepth, hstack]
  exact (parens_append (List.forall_mem_singleton.mpr (isParen_of_not_isMarker ht)) below).symm

end

/-! ## Segments -/

/-- Among the entries there is at most one bar, and below it an entry that is no marker. -/
structure Segment (entries : List Tree) : Prop where
  bars : entries.countP (·.op == .verticalBar) ≤ 1
  below : ∀ newer bar older, entries = newer ++ bar :: older → bar.op = .verticalBar →
    ∃ t ∈ older, t.op.isMarker = false

/-- Pieces, and the branches before them with their bar. -/
theorem segment_of_bars {entries branches bars : List Tree} (hbars : Bars branches bars)
    (hentries : ∀ t ∈ entries, t.Normal) (hbranches : ∀ b ∈ branches, b.Normal) :
    Segment (entries ++ bars) := by
  have hnone : ∀ {ts : List Tree}, (∀ t ∈ ts, t.Normal) →
      ∀ bar : Tree, bar.op = .verticalBar → bar ∉ ts := fun hts bar hbar hmem => by
    have hmark := (hts bar hmem).here.notMarker
    rw [show bar.label.op = .verticalBar from hbar] at hmark
    cases hmark
  have hzero : ∀ {ts : List Tree}, (∀ t ∈ ts, t.Normal) →
      ts.countP (·.op == .verticalBar) = 0 := fun hts =>
    List.countP_eq_zero.mpr fun t ht hbar => hnone hts t (beq_iff_eq.mp hbar) ht
  -- markers are no trees in normal form, so the only bar there can be is the one of the level
  cases hbars with
  | none =>
    rw [List.append_nil]
    refine ⟨(hzero hentries).le.trans (Nat.zero_le 1), fun newer bar older he hbar => ?_⟩
    refine absurd ?_ (hnone hentries bar hbar)
    rw [he]
    exact List.mem_append_right _ List.mem_cons_self
  | @some bar raw older hbar hraw =>
    have holder : ∀ t ∈ raw :: older, t.Normal := List.forall_mem_cons.mpr
      ⟨hraw, fun t ht => hbranches t (List.mem_cons_of_mem _ ht)⟩
    refine ⟨?_, fun newer bar' older' he hbar' => ?_⟩
    · rw [List.countP_append, List.countP_cons, hzero hentries, hzero holder]
      split
      all_goals omega
    · obtain ⟨-, -, rfl⟩ := (List.append_cons_inj_of_notMem (hnone hentries bar' hbar')
        (hnone holder bar' hbar')).mp he
      exact ⟨raw, List.mem_cons_self, hraw.here.notMarker⟩

/-- The segments of a stack are the one above the innermost marker and those below. -/
theorem segments_append {entries rest : List Tree} (hentries : ∀ t ∈ entries, isParen t = false)
    (hsegment : Segment entries) (hrest : rest = [] ∨ ∃ marker below, rest = marker :: below ∧
      isParen marker = true ∧ ∀ segment ∈ below.splitOnP isParen, Segment segment) :
    ∀ segment ∈ (entries ++ rest).splitOnP isParen, Segment segment := by
  rcases hrest with rfl | ⟨marker, below, rfl, hmarker, hbelow⟩
  · rw [List.append_nil, List.splitOnP_eq_singleton hentries]
    exact List.forall_mem_singleton.mpr hsegment
  · rw [List.splitOnP_append_cons_of_forall_mem hentries _ hmarker]
    exact List.forall_mem_cons.mpr ⟨hsegment, hbelow⟩

/-- The pieces and branches that a level holds are in normal form. -/
def NormalLevel (level : Parse.Level) : Prop :=
  (∀ t ∈ level.pieces, t.Normal) ∧ ∀ b ∈ level.branches, b.Normal

theorem SoundState.level_normal {s : State} (h : SoundState s) : NormalLevel s.level :=
  ⟨fun t ht => (h.pieces t ht).normal, fun b hb => (h.branches b hb).normal⟩

theorem SoundState.outer_normal {s : State} (h : SoundState s) :
    ∀ group ∈ s.groups, NormalLevel group.outer := by
  intro group hgroup
  have hrelated := List.forall₂_same.mp h.groups group hgroup
  exact ⟨fun t ht => ((Parse.forall₂_eq_and hrelated.outer.pieces).2 t ht).normal,
    fun b hb => ((Parse.forall₂_eq_and hrelated.outer.branches).2 b hb).normal⟩

/-- The entries of a level are no markers of groups, and a segment. -/
theorem segment_of_level {level : Parse.Level} (h : NormalLevel level) {entries bars : List Tree}
    (hentries : ∀ t ∈ entries, t.Normal) (hbars : Bars level.branches bars) :
    (∀ t ∈ entries ++ bars, isParen t = false) ∧ Segment (entries ++ bars) := by
  refine ⟨fun t ht => ?_, segment_of_bars hbars hentries h.2⟩
  rcases List.mem_append.mp ht with ht | ht
  · exact isParen_of_not_isMarker (hentries t ht).here.notMarker
  · exact hbars.not_isParen h.2 t ht

/-- Under the level under way stand the segments of the groups around it, each below its marker. -/
theorem Below.segments {groups : List OpenGroup} {stack : List Tree} (h : Below groups stack)
    (hgroups : ∀ group ∈ groups, NormalLevel group.outer) :
    stack = [] ∨ ∃ marker below, stack = marker :: below ∧ isParen marker = true ∧
      ∀ segment ∈ below.splitOnP isParen, Segment segment := by
  induction h with
  | nil => exact Or.inl rfl
  | @cons group groups bars rest hcapture hbars hrest ih =>
    obtain ⟨hgroup, hgroups⟩ := List.forall_mem_cons.mp hgroups
    obtain ⟨hentries, hsegment⟩ := segment_of_level hgroup (settled_normal hgroup.1) hbars
    refine Or.inr ⟨_, _, rfl, rfl, ?_⟩
    rw [← List.append_assoc]
    exact segments_append hentries hsegment (ih hgroups)

/-- Between two markers of groups, and above and below all of them, stand segments. -/
theorem Mirrors.segments {limit : Nat} {p : Parser} {s : State} (h : Mirrors limit p s)
    (hs : SoundState s) : ∀ segment ∈ p.stack.splitOnP isParen, Segment segment := by
  obtain ⟨bars, hbars, hbelow, hstack⟩ := h.ground hs
  obtain ⟨hentries, hsegment⟩ :=
    segment_of_level hs.level_normal (onStack_normal hs.level_normal.1) hbars
  rw [hstack, ← List.append_assoc]
  exact segments_append hentries hsegment (hbelow.segments hs.outer_normal)

/-! ## Groups since they were opened -/

section

variable (pattern : List Char) (flags : Flags) (limit : Nat)

/-- The group with the marker `paren` was opened by a step from `before`, on top of the entries
    `below`, and every step since then has left the marker and the entries where they are. -/
inductive OpenSince (before : Parser) (paren : Tree) (below : List Tree) :
    Parser → Cursor → Option Nat → Prop where
  | opened {p : Parser} {c c' : Cursor} {last last' : Option Nat}
      (h : Reached pattern flags limit before c last) (hmore : c.more = true)
      (hstep : before.step c last = .ok (p, c', last')) (hdepth : p.depth = before.depth + 1)
      (hstack : p.stack = paren :: below) : OpenSince before paren below p c' last'
  | kept {p p' : Parser} {c c' : Cursor} {last last' : Option Nat}
      (h : OpenSince before paren below p c last) (hmore : c.more = true)
      (hstep : p.step c last = .ok (p', c', last')) (hstack : paren :: below <:+ p'.stack) :
      OpenSince before paren below p' c' last'

end

section

variable {pattern : List Char} {flags : Flags} {limit : Nat} (hlimit : limit < 2 ^ 32) {p : Parser}
  {c : Cursor} {last : Option Nat}

include hlimit

/-- What a step does to the groups, at a place that is reached. -/
theorem Reached.moves {p' : Parser} {c' : Cursor} {last' : Option Nat}
    (h : Reached pattern flags limit p c last) (hstep : p.step c last = .ok (p', c', last')) :
    Climbs p p' ∨ ∃ paren below, Closes p p' paren below := by
  obtain ⟨s, rest, hfollows⟩ := h.follows hlimit
  exact step_moves hfollows.parser hfollows.standing.sound c last _ hstep

/-- The depth is the number of markers of groups. -/
theorem Reached.depth (h : Reached pattern flags limit p c last) : p.depth = parens p.stack := by
  induction h with
  | start => rfl
  | @step p p' c c' last last' h hmore hstep ih =>
    rcases h.moves hlimit hstep with (hstays | ⟨paren, below, hopens⟩) | ⟨paren, below, hcloses⟩
    · exact hstays.parens ih
    · exact hopens.parens ih
    · exact hcloses.parens ih

/-- Every group on the stack has been open since a step that opened it, under the flags that its
    marker has. -/
theorem Reached.openSince (h : Reached pattern flags limit p c last) {paren : Tree}
    {below : List Tree} (hop : paren.op = .leftParen) (hsuffix : paren :: below <:+ p.stack) :
    ∃ before, OpenSince pattern flags limit before paren below p c last ∧
      paren.flags = before.flags ∧ before.depth = parens below := by
  induction h generalizing paren below with
  | start => cases List.suffix_nil.mp hsuffix
  | @step p p' c c' last last' h hmore hstep ih =>
    -- a marker that was there before the step has stood there since its group was opened
    have hkept : paren :: below <:+ ground p.stack → ∃ before,
        OpenSince pattern flags limit before paren below p' c' last' ∧
          paren.flags = before.flags ∧ before.depth = parens below := fun hold => by
      obtain ⟨before, hsince, hboth⟩ := ih hop ((suffix_ground_iff hop).mp hold)
      exact ⟨before, hsince.kept hmore hstep hsuffix, hboth⟩
    rcases h.moves hlimit hstep with (hstays | ⟨paren', below', hopens⟩) | ⟨paren', below', hcloses⟩
    · exact hkept (hstays.ground ▸ (suffix_ground_iff hop).mpr hsuffix)
    · rw [hopens.stack] at hsuffix
      rcases List.suffix_cons_iff.mp hsuffix with he | hold
      · cases he
        exact ⟨p, .opened h hmore hstep hopens.depth hopens.stack, hopens.flags,
          hopens.parens_below (h.depth hlimit)⟩
      · rw [← hopens.stack] at hsuffix
        exact hkept (hopens.ground ▸ (suffix_ground_iff hop).mpr hold)
    · obtain ⟨t, ht, hstack⟩ := hcloses.stack
      refine hkept ?_
      rw [hcloses.ground]
      rw [hstack] at hsuffix
      refine ((List.suffix_cons_iff.mp hsuffix).resolve_left fun he => ?_).trans
        (List.suffix_cons _ _)
      cases he
      rw [hop] at ht
      cases ht

/-- A step leaves a group as it is, with all that stands below its marker, or closes it. -/
theorem Reached.keeps (h : Reached pattern flags limit p c last) {p' : Parser} {c' : Cursor}
    {last' : Option Nat} (hstep : p.step c last = .ok (p', c', last')) {paren : Tree}
    {below : List Tree} (hop : paren.op = .leftParen) (hsuffix : paren :: below <:+ p.stack) :
    paren :: below <:+ p'.stack ∨
      (p'.depth = parens below ∧ ∃ t : Tree, t.op.isMarker = false ∧ p'.stack = t :: below) := by
  have hground := (suffix_ground_iff hop).mpr hsuffix
  rcases h.moves hlimit hstep with (hstays | ⟨paren', below', hopens⟩) | ⟨paren', below', hcloses⟩
  · exact Or.inl ((suffix_ground_iff hop).mp (hstays.ground ▸ hground))
  · refine Or.inl ?_
    rw [hopens.stack]
    rw [← hopens.ground] at hground
    exact ((suffix_ground_iff hop).mp hground).trans (List.suffix_cons _ _)
  · obtain ⟨t, ht, hstack⟩ := hcloses.stack
    rw [hcloses.ground] at hground
    rcases List.suffix_cons_iff.mp hground with he | hold
    · cases he
      exact Or.inr ⟨hcloses.parens_below (h.depth hlimit), t, ht, hstack⟩
    · refine Or.inl ?_
      rw [hstack]
      exact hold.trans (List.suffix_cons _ _)

/-! ## Closing parentheses -/

omit hlimit in
/-- At a closing parenthesis the machine closes a group. -/
theorem Follows.step_close {setting : Setting} {s : State} {tail : List Char}
    (h : Follows setting (p, c, last) (s, ')' :: tail)) :
    p.step c last = p.rightParen (place setting.pattern tail) >>= fun q =>
      .ok (q, place setting.pattern tail, none) := by
  have hcursor : c = place setting.pattern (')' :: tail) := h.cursor
  have hpiece : p.step c last = p.piece c ')' >>= fun r => .ok (r.1, r.2, none) := by
    rw [Parser.step, hcursor, peek_place]
    rfl
  have hclose : p.piece c ')' = skipAscii c 1 >>= fun c => p.rightParen c >>= fun q => .ok (q, c) :=
    rfl
  rw [hpiece, hclose, hcursor, skipAscii_one h.standing.here (by decide), ok_bind]
  cases p.rightParen (place setting.pattern tail) with
  | error e => rfl
  | ok q => rfl

omit hlimit in
theorem Follows.exists_of_peek {setting : Setting} {s : State} {rest : List Char} {ch : Char}
    (h : Follows setting (p, c, last) (s, rest)) (hpeek : peek c = .ok ch) :
    ∃ tail, rest = ch :: tail := by
  have hcursor : c = place setting.pattern rest := h.cursor
  subst hcursor
  cases rest with
  | nil => cases hpeek
  | cons d tail =>
    cases hpeek
    exact ⟨tail, rfl⟩

/-- A closing parenthesis is an error where no group is open. -/
theorem Reached.close_error (h : Reached pattern flags limit p c last) (hpeek : peek c = .ok ')') :
    p.step c last = .error (.invalid ⟨.unexpectedParen, String.ofList pattern⟩) ↔
      p.depth = 0 := by
  obtain ⟨s, rest, hfollows⟩ := h.follows hlimit
  obtain ⟨tail, rfl⟩ := hfollows.exists_of_peek hpeek
  have hmirrors := hfollows.parser
  have hsound := hfollows.standing.sound
  rw [hfollows.step_close, hmirrors.depth]
  cases hgroups : s.groups with
  | nil =>
    rw [hmirrors.rightParen_of_nil hsound hgroups,
      text_place ((List.suffix_cons _ _).trans hfollows.standing.here)]
    exact iff_of_true rfl rfl
  | cons group groups =>
    obtain ⟨bars, below, -, -, -, hright⟩ := hmirrors.rightParen_of_cons hsound hgroups
      (place pattern tail)
    rw [hright]
    exact iff_of_false (by simp) (by simp)

/-- Where a group is open, a closing parenthesis finds the innermost one, and flags and depth are
    again what they were before it. -/
theorem Reached.close_ok (h : Reached pattern flags limit p c last) (hpeek : peek c = .ok ')')
    (hdepth : 0 < p.depth) :
    ∃ above paren below before p' c', p.stack = above ++ paren :: below ∧
      (∀ t ∈ above, t.op ≠ .leftParen) ∧ paren.op = .leftParen ∧
      OpenSince pattern flags limit before paren below p c last ∧
      p.step c last = .ok (p', c', none) ∧ p'.flags = before.flags ∧ p'.depth = before.depth ∧
      ∃ t : Tree, t.op.isMarker = false ∧ p'.stack = t :: below := by
  obtain ⟨s, rest, hfollows⟩ := h.follows hlimit
  obtain ⟨tail, rfl⟩ := hfollows.exists_of_peek hpeek
  have hmirrors := hfollows.parser
  have hsound := hfollows.standing.sound
  cases hgroups : s.groups with
  | nil =>
    rw [hmirrors.depth, hgroups] at hdepth
    cases hdepth
  | cons group groups =>
    obtain ⟨bars, rest, -, -, -, hright⟩ := hmirrors.rightParen_of_cons hsound hgroups
      (place pattern tail)
    obtain ⟨paren, below, hcloses⟩ := rightParen_closes hmirrors hsound _ _ hright
    obtain ⟨above, hstack, habove⟩ := exists_above p.stack
    rw [hcloses.ground] at hstack
    obtain ⟨before, hsince, hflags, hbefore⟩ := h.openSince hlimit hcloses.op
      (hstack ▸ List.suffix_append above _)
    refine ⟨above, paren, below, before, _, _, hstack, fun t ht hop => ?_, hcloses.op, hsince,
      by rw [hfollows.step_close, hright]; rfl, hcloses.flags.trans hflags,
      (hcloses.parens_below (h.depth hlimit)).trans hbefore.symm, hcloses.stack⟩
    have hnot := habove t ht
    rw [isParen_iff.mpr hop] at hnot
    cases hnot

/-! ## The end of the pattern -/

/-- The steps to a place that is reached are the first steps of the run. -/
theorem Reached.run (h : Reached pattern flags limit p c last) :
    ∃ s rest taken, Follows ⟨.normal, limit, pattern⟩ (p, c, last) (s, rest) ∧
      taken + rest.length ≤ pattern.length ∧ ∀ steps,
        Parser.run (taken + steps) { flags, nestLimit := limit } (.ofText pattern) none =
          p.run steps c last := by
  induction h with
  | start =>
    refine ⟨_, pattern, 0, follows_start pattern flags limit, by rw [Nat.zero_add], fun steps => ?_⟩
    rw [Nat.zero_add]
  | @step p p' c c' last last' h hmore hstep ih =>
    -- `taken` steps lead here, and each of them has taken a character of the pattern
    obtain ⟨s, rest, taken, hfollows, htaken, hrun⟩ := ih
    obtain ⟨ch, tail, rfl⟩ := hfollows.exists_of_more hmore
    obtain ⟨s', rest, hnext, hrest⟩ := hfollows.step_ok rfl hlimit hstep
    have hlen := hrest.length_le
    rw [List.length_cons] at htaken
    refine ⟨s', rest, taken + 1, hnext, by omega, fun steps => ?_⟩
    rw [Nat.add_assoc, Nat.add_comm 1 steps, hrun, Parser.run, if_pos hmore, hstep]
    rfl

/-- At the end one tree is left if no group is open, and else it is told that a parenthesis is
    missing. -/
theorem Reached.finish (h : Reached pattern flags limit p c last) :
    ∃ q, p.finish = .ok q ∧ (q.stack.length ≠ 1 ↔ 0 < p.depth) := by
  obtain ⟨s, rest, hfollows⟩ := h.follows hlimit
  obtain ⟨hbelow, hfinish⟩ := hfollows.parser.finish hfollows.standing.sound
  refine ⟨_, hfinish, ?_⟩
  have hdepth : p.depth = s.groups.length := hfollows.parser.depth
  rw [hdepth]
  generalize ground p.stack = below at hbelow
  generalize s.groups = groups at hbelow
  cases hbelow with
  | nil => exact iff_of_false (by simp) (by simp)
  | cons => exact iff_of_true (by simp) (by simp)

end

/-- A pattern that comes to its end with an open group misses a parenthesis, and no other does. -/
theorem Reached.missingParen {pattern : String} {flags : Flags} {nestLimit : UInt32} {p : Parser}
    {c : Cursor} {last : Option Nat}
    (h : Reached pattern.toList flags nestLimit.toNat p c last) (hend : c.more = false)
    (hlit : flags.literal = false) :
    parsePattern pattern flags nestLimit = .error (.invalid ⟨.missingParen, pattern⟩) ↔
      0 < p.depth := by
  obtain ⟨q, hfinish, hiff⟩ := h.finish nestLimit.toNat_lt
  obtain ⟨s, rest, taken, hfollows, htaken, hrun⟩ := h.run nestLimit.toNat_lt
  have hsteps : Parser.run (pattern.toList.length + 1) { flags, nestLimit := nestLimit.toNat }
      (.ofText pattern.toList) none = .ok p := by
    obtain ⟨steps, he⟩ : ∃ steps, pattern.toList.length + 1 = taken + (steps + 1) :=
      ⟨pattern.toList.length - taken, by omega⟩
    rw [he, hrun, Parser.run, if_neg (by rw [hend]; decide)]
    rfl
  rw [← hiff, parsePattern, hlit, if_neg Bool.false_ne_true]
  rw [hsteps, ok_bind, hfinish, ok_bind]
  cases hstack : q.stack with
  | nil => exact iff_of_true (by rw [fail, String.ofList_toList]) (by simp)
  | cons root rest =>
    cases rest with
    | nil => exact iff_of_false (by simp) (by simp)
    | cons t rest => exact iff_of_true (by rw [fail, String.ofList_toList]) (by simp)

/-! ## The discipline -/

/-- At every place between two tokens: the depth is the number of markers of groups; between two of
    them, and below and above all of them, stands at most one bar, over an entry that is no marker;
    a marker has the flags that were in force just before its group, and no step changes what stands
    below it, but for the one that closes the group.  So a closing parenthesis is an error just if
    the depth is zero, and else finds the marker of its group and brings back flags and depth; and at
    the end more than one tree is left, for which a missing parenthesis is reported, just if the
    depth is not zero. -/
theorem stack_discipline {pattern : String} {flags : Flags} {nestLimit : UInt32} {p : Parser}
    {c : Cursor} {last : Option Nat}
    (h : Reached pattern.toList flags nestLimit.toNat p c last) :
    p.depth = parens p.stack ∧
      (∀ segment ∈ p.stack.splitOnP isParen, Segment segment) ∧
      (∀ paren below, paren.op = .leftParen → paren :: below <:+ p.stack →
        (∃ before, OpenSince pattern.toList flags nestLimit.toNat before paren below p c last ∧
          paren.flags = before.flags ∧ before.depth = parens below) ∧
        ∀ p' c' last', p.step c last = .ok (p', c', last') →
          paren :: below <:+ p'.stack ∨ (p'.depth = parens below ∧
            ∃ t : Tree, t.op.isMarker = false ∧ p'.stack = t :: below)) ∧
      (peek c = .ok ')' →
        (p.step c last = .error (.invalid ⟨.unexpectedParen, pattern⟩) ↔ p.depth = 0) ∧
        (0 < p.depth → ∃ above paren below before p' c', p.stack = above ++ paren :: below ∧
          (∀ t ∈ above, t.op ≠ .leftParen) ∧ paren.op = .leftParen ∧
          OpenSince pattern.toList flags nestLimit.toNat before paren below p c last ∧
          p.step c last = .ok (p', c', none) ∧
          p'.flags = before.flags ∧ p'.depth = before.depth ∧
          ∃ t : Tree, t.op.isMarker = false ∧ p'.stack = t :: below)) ∧
      (c.more = false →
        (∃ q, p.finish = .ok q ∧ (q.stack.length ≠ 1 ↔ 0 < p.depth)) ∧
        (flags.literal = false →
          (parsePattern pattern flags nestLimit = .error (.invalid ⟨.missingParen, pattern⟩) ↔
            0 < p.depth))) := by
  have hlimit := nestLimit.toNat_lt
  refine ⟨h.depth hlimit, ?_, fun paren below hop hsuffix => ⟨?_, ?_⟩, fun hpeek => ⟨?_, ?_⟩,
    fun hend => ⟨?_, ?_⟩⟩
  · obtain ⟨s, rest, hfollows⟩ := h.follows hlimit
    exact hfollows.parser.segments hfollows.standing.sound
  · exact h.openSince hlimit hop hsuffix
  · exact fun p' c' last' hstep => h.keeps hlimit hstep hop hsuffix
  · have herror := h.close_error hlimit hpeek
    rwa [String.ofList_toList] at herror
  · exact h.close_ok hlimit hpeek
  · exact h.finish hlimit
  · exact h.missingParen hend

/-- A group is closed and brings back the flags before it; without its parenthesis it is missed. -/
theorem stack_discipline_nested :
    (∃ p c last, Reached "(?i:a|b)".toList .perl (5 : UInt32).toNat p c last ∧
      peek c = .ok ')' ∧ p.flags = { Flags.perl with foldCase := true } ∧ p.depth = 1 ∧
      ∃ paren below before p' c',
        OpenSince "(?i:a|b)".toList .perl (5 : UInt32).toNat before paren below p c last ∧
          p.step c last = .ok (p', c', none) ∧ p'.flags = before.flags ∧
          p'.depth = before.depth) ∧
      parsePattern "(?i:a|b" .perl 5 = .error (.invalid ⟨.missingParen, "(?i:a|b"⟩) := by
  constructor
  · obtain ⟨p, c, last, h, hpeek, hflags, hdepth⟩ : ∃ p c last,
        Reached "(?i:a|b)".toList .perl (5 : UInt32).toNat p c last ∧ peek c = .ok ')' ∧
          p.flags = { Flags.perl with foldCase := true } ∧ p.depth = 1 :=
      ⟨_, _, _, .step (.step (.step (.step .start rfl rfl) rfl rfl) rfl rfl) rfl rfl, rfl, rfl, rfl⟩
    obtain ⟨-, -, -, hclose, -⟩ := stack_discipline h
    obtain ⟨above, paren, below, before, p', c', -, -, -, hsince, hstep, hflags', hdepth', -⟩ :=
      (hclose hpeek).2 (hdepth ▸ Nat.one_pos)
    exact ⟨p, c, last, h, hpeek, hflags, hdepth, paren, below, before, p', c', hsince, hstep,
      hflags', hdepth'⟩
  · obtain ⟨p, c, last, h, hend, hdepth⟩ : ∃ p c last,
        Reached "(?i:a|b".toList .perl (5 : UInt32).toNat p c last ∧ c.more = false ∧
          p.depth = 1 :=
      ⟨_, _, _, .step (.step (.step (.step .start rfl rfl) rfl rfl) rfl rfl) rfl rfl, rfl, rfl⟩
    obtain ⟨-, -, -, -, hmissing⟩ := stack_discipline h
    exact ((hmissing hend).2 rfl).mpr (hdepth ▸ Nat.one_pos)

end RegexTree.Machine
