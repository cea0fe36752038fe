/-
  The parser does to its stack what is done to the state.

  `Mirrors` says that the parser holds what a state holds: the stack has its pieces, branches and
  open groups, and the flags, the depth, the number of captures and the names are the same.  Pushing
  a piece, ending a branch, opening and closing a group and putting a piece under a repetition keep
  that, or both find the same error; and none of them is stuck.  What the stack comes to is proved
  for stacks; here it is said of the whole parser, with its counters in 32 bits, and beside the
  state.

  The trees have to be `Sound` for that: in normal form, so that what is on the stack is joined and
  factored just as far as the state has it, and literals without anything but runes and flags, as
  the parser uses an entry again for the next literal.

  The depth cannot overflow: it is the number of open groups, and the limit that it is compared with
  is a number of 32 bits itself.
-/
import RegexTree.Proofs.Machine.Stack
import RegexTree.Proofs.Parse.Runs

namespace RegexTree.Machine

open Cursor RegexTree.Tree
open Assembly (asDot classPiece)
open Parse (State OpenGroup Setting Keeps StateRelated)
open Ranges (runes)

/-! ## Sound trees -/

/-- A literal has no bounds, no number and no name. -/
def PlainNode (l : Label) (_ : List Tree) : Prop :=
  l.op = .literal → l = { op := .literal, flags := l.flags, runes := l.runes }

/-- What the reader makes: trees in normal form, with literals that are nothing else. -/
structure Sound (t : Tree) : Prop where
  normal : t.Normal
  plain : t.Everywhere PlainNode

theorem Sound.plainLiteral {t : Tree} (h : Sound t) : PlainLiteral t := by
  intro hop
  have hsubs := h.normal.subs_eq_nil (by rw [hop]; rfl)
  have hlabel := h.plain.here hop
  obtain ⟨l, subs⟩ := t
  rw [subs_node] at hsubs
  rw [hsubs]
  exact congrArg (node · []) hlabel

theorem plainNode_of_ne {l : Label} (h : l.op ≠ .literal) (subs : List Tree) : PlainNode l subs :=
  fun hop => absurd hop h

/-- Everything that makes sequences and choices keeps literals plain. -/
theorem kept_plain : Kept fun t => t.Everywhere PlainNode where
  empty := everywhere_leaf.mpr (plainNode_of_ne (by decide) [])
  subs _ ht _ _ hs := ht.below hs
  branches _ ht _ _ hs := ht.below hs
  many l subs harity h :=
    everywhere_node.mpr ⟨plainNode_of_ne (Op.ne_of_arity harity (by decide)) subs, h⟩
  joined t u ht _ _ := by
    obtain ⟨l, subs⟩ := t
    rw [everywhere_node] at ht
    rw [joined_node, everywhere_node]
    refine ⟨fun hop => ?_, ht.2⟩
    have hl := ht.1 hop
    rw [hl]
  begun t s _ _ _ _ := everywhere_leaf.mpr fun _ => rfl
  dropped t n ht hop := by
    obtain ⟨l, subs⟩ := t
    rw [everywhere_node] at ht
    rw [dropRunes_literal hop, everywhere_node]
    refine ⟨fun hop' => ?_, ht.2⟩
    have hl := ht.1 hop
    rw [label_node] at hop' ⊢
    rw [hl]
    exact congrArg (fun op => ({ op, flags := l.flags, runes := _ } : Label)) hop'

theorem asDot_plain {t : Tree} (ht : t.Everywhere PlainNode) :
    (asDot t).Everywhere PlainNode := by
  by_cases hdot : t.DotClass
  · obtain ⟨op, hop, he⟩ := asDot_of_dotClass hdot
    rw [he, everywhere_node]
    refine ⟨plainNode_of_ne (fun hlit => ?_) _, fun s hs => ht.below hs⟩
    rcases hop with rfl | rfl
    · cases hlit
    · cases hlit
  · rwa [asDot_of_not hdot]

/-- The reader makes sound trees. -/
theorem keeps_sound : Keeps Sound Sound .normal where
  piece _ h := h
  simple op flags hop := by
    refine ⟨Parse.keeps_normal.simple op flags hop, everywhere_leaf.mpr (plainNode_of_ne ?_ [])⟩
    rintro rfl
    cases hop
  literal flags r hr :=
    ⟨Parse.keeps_normal.literal flags r hr, everywhere_leaf.mpr fun _ => rfl⟩
  charClass flags x hx := by
    refine ⟨Parse.keeps_normal.charClass flags x hx, ?_⟩
    show (classPiece flags x).Everywhere PlainNode
    rw [classPiece_eq]
    cases standIn? flags x with
    | none => exact everywhere_leaf.mpr (plainNode_of_ne (by simp) [])
    | some stand => exact everywhere_leaf.mpr fun _ => rfl
  branch ts hts :=
    ⟨Parse.keeps_normal.branch ts fun t ht => (hts t ht).normal,
      asDot_plain (kept_plain.sequence fun t ht => (hts t ht).plain)⟩
  choice ts hne hts :=
    ⟨Parse.keeps_normal.choice ts hne fun t ht => (hts t ht).normal,
      (kept_plain.choiceLaw.choice fun t ht => (hts t ht).plain).1⟩
  repetition q flags t hq ht hfits := by
    refine ⟨Parse.keeps_normal.repetition q flags t hq ht.normal hfits, ?_⟩
    refine everywhere_node.mpr ⟨plainNode_of_ne ?_ _, List.forall_mem_singleton.mpr ht.plain⟩
    intro hop
    have hrepeat := hq.isRepeat
    rw [show q.op = .literal from hop] at hrepeat
    cases hrepeat
  capture flags cap name t hname ht :=
    ⟨Parse.keeps_normal.capture flags cap name t hname ht.normal,
      everywhere_node.mpr ⟨plainNode_of_ne (by simp) _, List.forall_mem_singleton.mpr ht.plain⟩⟩

/-- All that the state holds is sound. -/
abbrev SoundState (s : State) : Prop :=
  StateRelated (fun t u => t = u ∧ Sound t) (fun t u => t = u ∧ Sound t) s s

theorem SoundState.pieces {s : State} (h : SoundState s) : ∀ t ∈ s.level.pieces, Sound t :=
  (Parse.forall₂_eq_and h.level.pieces).2

theorem SoundState.branches {s : State} (h : SoundState s) : ∀ t ∈ s.level.branches, Sound t :=
  (Parse.forall₂_eq_and h.level.branches).2

/-! ## Parsers and states -/

/-- The parser holds what the state holds. -/
structure Mirrors (limit : Nat) (p : Parser) (s : State) : Prop where
  flags : p.flags = s.flags
  nestLimit : p.nestLimit = limit
  captures : p.captures = s.captures
  names : p.names = s.names
  depth : p.depth = s.groups.length
  stack : ∃ bars below, Bars s.level.branches bars ∧ Below s.groups below ∧
    p.stack = onStack s.level.pieces ++ (bars ++ below)

theorem SoundState.finish {s : State} (h : SoundState s) : Sound (s.level.finish .normal) :=
  (h.level.finish keeps_sound.related).2

section

variable {limit : Nat} {p : Parser} {s : State} (h : Mirrors limit p s)

include h

/-- Another stack goes with another level. -/
theorem Mirrors.relevel {level : Parse.Level} {stack bars below : List Tree}
    (hbars : Bars level.branches bars) (hbelow : Below s.groups below)
    (hstack : stack = onStack level.pieces ++ (bars ++ below)) :
    Mirrors limit { p with stack } { s with level } :=
  ⟨h.flags, h.nestLimit, h.captures, h.names, h.depth, bars, below, hbars, hbelow, hstack⟩

/-- A piece that is no class is pushed on both sides. -/
theorem Mirrors.push {t : Tree} (ht : t.op ≠ .charClass) :
    ∃ p', p.push t = .ok p' ∧ Mirrors limit p' (s.push t) := by
  obtain ⟨bars, below, hbars, hbelow, hstack⟩ := h.stack
  have hpush := push_onStack (classLiteral?_of_ne ht p.flags) (hbars.floor hbelow.floor) hstack
  exact ⟨_, hpush, h.relevel hbars hbelow rfl⟩

theorem Mirrors.literal (r : Nat) :
    ∃ p', p.literal r = .ok p' ∧ Mirrors limit p' (s.push (State.literalPiece s.flags r)) := by
  rw [Parser.literal, h.flags]
  exact h.push (Op.noConfusion : (State.literalPiece s.flags r).op ≠ .charClass)

theorem Mirrors.pushOp {op : Op} (hop : op ≠ .charClass) (f : Label → Label) :
    ∃ p', p.pushOp op f = .ok p' ∧
      Mirrors limit p' (s.push ((leaf op s.flags).relabel f)) := by
  obtain ⟨bars, below, hbars, hbelow, hstack⟩ := h.stack
  rw [← h.flags]
  have hpush := pushOp_eq hop f (hbars.floor hbelow.floor) hstack
  exact ⟨_, hpush, h.relevel hbars hbelow rfl⟩

/-- A class is pushed as the piece for it. -/
theorem Mirrors.pushClass (hs : SoundState s) {x : Ranges} (hx : x.Valid) :
    ∃ p', p.pushClass (runes x) = .ok p' ∧
      Mirrors limit p' (s.push (classPiece s.flags x)) := by
  obtain ⟨bars, below, hbars, hbelow, hstack⟩ := h.stack
  rw [← h.flags]
  have hpush := pushClass_onStack hx (fun t ht => (hs.pieces t ht).plainLiteral)
    (hbars.floor hbelow.floor) hstack
  exact ⟨_, hpush, h.relevel hbars hbelow rfl⟩

/-- A bar ends the branch on both sides, and the stack holds it under the new marker. -/
theorem Mirrors.verticalBar (hs : SoundState s) :
    ∃ p', p.verticalBar = .ok p' ∧ Mirrors limit p' { s with level := s.level.bar .normal } := by
  obtain ⟨bars, below, hbars, hbelow, hstack⟩ := h.stack
  obtain ⟨bars', hbars', hbar⟩ :=
    verticalBar_eq (fun t ht => (hs.pieces t ht).normal) hbars hbelow hstack
  exact ⟨_, hbar, h.relevel hbars' hbelow rfl⟩

/-- Above the marker of the innermost group stand the pieces and the branches of the level. -/
theorem Mirrors.ground (hs : SoundState s) :
    ∃ bars, Bars s.level.branches bars ∧ Below s.groups (ground p.stack) ∧
      p.stack = onStack s.level.pieces ++ (bars ++ ground p.stack) := by
  obtain ⟨bars, below, hbars, hbelow, hstack⟩ := h.stack
  have hpieces := onStack_normal fun t ht => (hs.pieces t ht).normal
  have hground : Machine.ground p.stack = below := by
    rw [hstack, ground_append fun t ht => isParen_of_not_isMarker (hpieces t ht).here.notMarker,
      ground_append (hbars.not_isParen fun b hb => (hs.branches b hb).normal), hbelow.ground]
  exact ⟨bars, hbars, hground ▸ hbelow, hground ▸ hstack⟩

/-- The level becomes one tree on top of what stands below. -/
theorem Mirrors.finish (hs : SoundState s) :
    Below s.groups (Machine.ground p.stack) ∧
      p.finish = .ok { p with stack := s.level.finish .normal :: Machine.ground p.stack } := by
  obtain ⟨bars, hbars, hbelow, hstack⟩ := h.ground hs
  exact ⟨hbelow, finish_eq (fun t ht => (hs.pieces t ht).normal) hbars hbelow
    (fun b hb => (hs.branches b hb).normal) hstack⟩

end

/-! ## Groups -/

section

variable {limit : Nat} {p : Parser} {s : State} (h : Mirrors limit p s)

include h

/-- Where no group is open, none is closed. -/
theorem Mirrors.rightParen_of_nil (hs : SoundState s) (hgroups : s.groups = []) (c : Cursor) :
    p.rightParen c = fail .unexpectedParen c.text := by
  obtain ⟨hbelow, hfinish⟩ := h.finish hs
  rw [hgroups] at hbelow
  generalize Machine.ground p.stack = below at hbelow hfinish
  cases hbelow
  rw [Parser.rightParen, hfinish]
  rfl

/-- Closing a group takes the level and the marker off the stack and pushes what they make on the
    level around it, as the state does; the flags and the depth are those from before the group was
    opened. -/
theorem Mirrors.rightParen_of_cons (hs : SoundState s) {group : OpenGroup}
    {groups : List OpenGroup} (hgroups : s.groups = group :: groups) (c : Cursor) :
    ∃ bars rest, Bars group.outer.branches bars ∧ Below groups rest ∧
      Machine.ground p.stack = paren group :: (settled group.outer.pieces ++ (bars ++ rest)) ∧
      p.rightParen c = .ok { p with
        stack := group.piece (s.level.finish .normal) ::
          (settled group.outer.pieces ++ (bars ++ rest))
        depth := groups.length
        flags := group.flags } := by
  obtain ⟨hbelow, hfinish⟩ := h.finish hs
  have hdepth := h.depth
  have hbody := hs.finish.normal
  rw [Parser.rightParen, hfinish, ok_bind]
  rw [hgroups] at hbelow hdepth
  generalize s.level.finish .normal = body at hbody
  generalize Machine.ground p.stack = below at hbelow
  cases hbelow with
  | @cons _ _ bars rest hcapture hbars hrest =>
    refine ⟨bars, rest, hbars, hrest, rfl, ?_⟩
    have hlessen : lessen p.depth 1 = .ok groups.length := by
      rw [hdepth, List.length_cons, lessen_of_le (Nat.succ_le_of_lt (Nat.succ_pos _))]
      rfl
    have hpush : ∀ t : Tree, Parser.classLiteral? group.flags t = .ok none → _ := fun t ht =>
      push_settled (p := { p with
        stack := settled group.outer.pieces ++ (bars ++ rest)
        depth := groups.length
        flags := group.flags }) ht (hbars.floor hrest.floor) rfl
    dsimp only
    rw [if_pos (paren_op group), hlessen, ok_bind]
    have hnumber := paren_cap group
    -- a group without a number leaves its body, which is pushed as it is: in normal form it is no
    -- class that a literal stands for
    cases hcap : group.capture with
    | none =>
      have hpiece : group.piece body = body := by rw [OpenGroup.piece, hcap]
      rw [hcap, Option.elim_none] at hnumber
      rw [if_pos hnumber, hpiece]
      exact hpush body (classLiteral?_of_normal hbody group.flags)
    | some capture =>
      obtain ⟨cap, name⟩ := capture
      have hpiece : group.piece body =
          .node { (paren group).label with op := .capture } ((paren group).subs ++ [body]) := by
        rw [OpenGroup.piece, paren, hcap]
        rfl
      rw [hcap, Option.elim_some] at hnumber
      rw [if_neg (hnumber ▸ hcapture (cap, name) hcap), hpiece]
      exact hpush _ (classLiteral?_of_ne Op.noConfusion group.flags)

variable {setting : Setting} {c : Cursor} (htext : c.text = setting.pattern)

include htext

/-- The innermost group is closed, if there is one. -/
theorem Mirrors.rightParen (hnormal : setting.assembly = .normal) (hs : SoundState s) :
    Agree (Mirrors limit) (p.rightParen c) (s.closeGroup setting) := by
  rw [State.closeGroup, hnormal]
  cases hgroups : s.groups with
  | nil =>
    rw [h.rightParen_of_nil hs hgroups, htext]
    exact .error (.toEnd .unexpectedParen setting.pattern)
  | cons group groups =>
    obtain ⟨bars, rest, hbars, hrest, -, hright⟩ := h.rightParen_of_cons hs hgroups c
    rw [hright]
    exact .ok ⟨rfl, h.nestLimit, h.captures, h.names, rfl, bars, rest, hbars, hrest, rfl⟩

variable (hlimit : setting.nestLimit = limit) (hfits : limit < 2 ^ 32)

include hlimit hfits

/-- A group is opened on both sides, or refused on both.  The depth goes up by one, and it fits 32
    bits as it stays within the limit. -/
theorem Mirrors.openGroup (capture : Bool) {name : Option String}
    (hname : capture = false → name = none) :
    Agree (Mirrors limit) (p.openGroup capture name c)
      (State.openGroup setting
        { s with
          captures := if capture then s.captures + 1 else s.captures
          names := s.names ++ name.toList.map fun name => (name, s.captures + 1) }
        s.flags (if capture then some (s.captures + 1, name) else none)) := by
  obtain ⟨bars, below, hbars, hbelow, hstack⟩ := h.stack
  rw [Parser.openGroup, State.openGroup, h.nestLimit, h.depth, hlimit, htext]
  dsimp only
  split
  · exact .error (.toEnd .nestingDepth setting.pattern)
  · have hword : word (s.groups.length + 1) = .ok (s.groups.length + 1) := word_of_lt (by omega)
    have hpush := fun names captures f => pushOp_eq
      (p := { p with depth := s.groups.length + 1, captures, names, nestLimit := limit })
      (show Op.leftParen ≠ .charClass by decide) f (hbars.floor hbelow.floor) hstack
    rw [hword, ok_bind, hpush, h.flags, h.captures, h.names]
    cases capture with
    | false =>
      refine .ok ⟨rfl, rfl, rfl, ?_, rfl, [], _, .none, .cons ?_ hbars hbelow, ?_⟩
      · rw [hname rfl]
        rfl
      · exact fun capture hcapture => absurd hcapture (Option.not_mem_none capture)
      · rw [hname rfl]
        rfl
    -- the number of a capture is never zero, which is what tells its marker from the other ones
    | true =>
      refine .ok ⟨rfl, rfl, rfl, rfl, rfl, [], _, .none, .cons ?_ hbars hbelow, rfl⟩
      intro capture hcapture
      cases hcapture
      exact Nat.succ_ne_zero s.captures

end

/-! ## Repetition -/

/-- The position where the last token begins, if it was a repetition. -/
def lastPos (setting : Setting) (last : Option (List Char)) : Option Nat :=
  last.map fun last => (place setting.pattern last).pos

/-- Where there is nothing above the markers, a repetition has no operand. -/
theorem overTop_of_floor {p : Parser} (hfloor : Floor p.stack)
    {last : Option Nat} (hlast : (if p.flags.perlX then last else none) = none) (c : Cursor)
    (q : Quantifier) (before : Nat) :
    p.overTop c q before last = failSince .missingRepeatArgument c before := by
  rw [Parser.overTop, hlast]
  cases hstack : p.stack with
  | nil => rfl
  | cons marker others => exact if_pos (hfloor marker (by rw [hstack]; rfl))

/-- The guards of a repetition over an entry that is no marker, in terms of the tree. -/
theorem overTop_of_operand {p : Parser} {operand t : Tree} {stack : List Tree}
    (hstack : p.stack = operand :: stack) (hoperand : operand.Normal)
    (hlimit : p.nestLimit < 2 ^ 32) {q : Quantifier} (hq : q.Valid)
    (ht : q.over { p.flags with nonGreedy := p.flags.nonGreedy != q.turned } operand = t)
    {last : Option Nat} (hlast : (if p.flags.perlX then last else none) = none) (c : Cursor)
    (before : Nat) :
    p.overTop c q before last =
      if p.nestLimit ≤ p.depth + operand.repeatHeight then fail .nestingDepth c.text
      else if q.op = .counted ∧ (2 ≤ q.min ∨ 2 ≤ q.max) ∧ t.fitsBudget maxRepeat = false then
        failSince .invalidRepeatSize c before
      else .ok { p with stack := t :: stack } := by
  subst ht
  obtain ⟨m, hm, hiff⟩ := repeatChain_eq hoperand.shaped hlimit
    (show p.nestLimit - p.depth < p.nestLimit + 1 by omega)
  have hvalid := repeatIsValid_eq (Parse.over_normal hq hoperand
    { p.flags with nonGreedy := p.flags.nonGreedy != q.turned }) (Nat.le_refl maxRepeat)
  have hmark : operand.op.isMarker = false := hoperand.here.notMarker
  rw [Parser.overTop, hlast, hstack]
  dsimp only
  rw [if_neg (ne_true_of_eq_false hmark), hm, ok_bind]
  by_cases hdeep : p.nestLimit ≤ p.depth + operand.repeatHeight
  · rw [if_pos (hiff.mpr hdeep), if_pos hdeep]
  · rw [if_neg fun hle => hdeep (hiff.mp hle), if_neg hdeep]
    by_cases hcounted : q.op = .counted ∧ (2 ≤ q.min ∨ 2 ≤ q.max)
    · rw [if_pos hcounted]
      unfold Quantifier.over at hvalid ⊢
      rw [hvalid, ok_bind]
      split
      · next hfit =>
        rw [if_neg fun hlarge => Bool.false_ne_true (hlarge.2.2.symm.trans hfit)]
        rfl
      · next hlarge => rw [if_pos ⟨hcounted.1, hcounted.2, eq_false_of_ne_true hlarge⟩]
    · rw [if_neg hcounted, if_neg fun hlarge => hcounted ⟨hlarge.1, hlarge.2.1⟩]
      rfl

section

variable {limit : Nat} {p : Parser} {s : State} {setting : Setting} {start rest : List Char}

theorem lastPos_perlX (setting : Setting) (h : p.flags = s.flags) :
    (if p.flags.perlX then lastPos setting s.lastRepeat else none) =
      lastPos setting (if s.flags.perlX then s.lastRepeat else none) := by
  rw [h]
  split
  · rfl
  · rfl

/-- A repetition straight after another one is an error on both sides. -/
theorem overTop_of_last {last : List Char}
    (hcase : (if s.flags.perlX then s.lastRepeat else none) = some last)
    (hsuffix : last <:+ setting.pattern) (hback : rest <:+ last)
    (hpos : (if p.flags.perlX then lastPos setting s.lastRepeat else none) =
      lastPos setting (some last)) (q : Quantifier) (before : Nat) :
    Agree (Mirrors limit)
      (p.overTop (place setting.pattern rest) q before (lastPos setting s.lastRepeat))
      (s.quantify setting start rest q) := by
  rw [Parser.overTop, State.quantify, hpos, hcase]
  dsimp only [lastPos, Option.map_some]
  rw [failSince_place hsuffix hback]
  exact .error _

/-- The newest piece is put under a repetition if the limits allow it. -/
theorem Mirrors.overTop_piece (h : Mirrors limit p s) (hs : SoundState s)
    (hlimit : setting.nestLimit = limit) (hfits : limit < 2 ^ 32)
    (hstart : start <:+ setting.pattern) (hrest : rest <:+ start)
    (hcase : (if s.flags.perlX then s.lastRepeat else none) = none)
    {operand : Tree} {older : List Tree} (hlevel : s.level.pieces = operand :: older)
    {q : Quantifier} (hq : q.Valid) :
    Agree (Mirrors limit)
      (p.overTop (place setting.pattern rest) q (place setting.pattern start).pos
        (lastPos setting s.lastRepeat))
      (s.quantify setting start rest q) := by
  obtain ⟨bars, below, hbars, hbelow, hstack⟩ := h.stack
  have hlast := lastPos_perlX setting h.flags
  rw [hcase] at hlast
  have hoperand := (hs.pieces operand (hlevel ▸ List.mem_cons_self)).normal
  have htop : p.stack = operand :: (settled older ++ (bars ++ below)) := by
    rw [hstack, hlevel, onStack_cons, List.cons_append]
  have htree : q.over { p.flags with nonGreedy := p.flags.nonGreedy != q.turned } operand =
      s.repeated q operand := by
    rw [h.flags]
    rfl
  rw [overTop_of_operand htop hoperand (h.nestLimit ▸ hfits) hq htree hlast, h.nestLimit, h.depth,
    h.flags, Parse.quantify_of_operand hcase hlevel, hlimit, text_place (hrest.trans hstart),
    failSince_place hstart hrest]
  split
  · exact .error _
  · split
    · exact .error _
    · exact .ok ⟨rfl, rfl, h.captures, h.names, rfl, bars, below, hbars, hbelow, rfl⟩

/-- The newest piece is put under a repetition, if there is one and the limits allow it. -/
theorem Mirrors.overTop (h : Mirrors limit p s) (hs : SoundState s)
    (hlimit : setting.nestLimit = limit) (hfits : limit < 2 ^ 32)
    (hstart : start <:+ setting.pattern) (hrest : rest <:+ start)
    (hlast : ∀ last ∈ s.lastRepeat, last <:+ setting.pattern ∧ rest <:+ last) {q : Quantifier}
    (hq : q.Valid) :
    Agree (Mirrors limit)
      (p.overTop (place setting.pattern rest) q (place setting.pattern start).pos
        (lastPos setting s.lastRepeat))
      (s.quantify setting start rest q) := by
  have hpos := lastPos_perlX setting h.flags
  cases hcase : (if s.flags.perlX then s.lastRepeat else none) with
  | some last =>
    rw [hcase] at hpos
    have hmem : last ∈ s.lastRepeat := (Option.ite_none_right_eq_some.mp hcase).2
    exact overTop_of_last hcase (hlast last hmem).1 (hlast last hmem).2 hpos q _
  | none =>
    cases hlevel : s.level.pieces with
    | nil =>
      obtain ⟨bars, below, hbars, hbelow, hstack⟩ := h.stack
      have hfloor : Floor p.stack := by
        rw [hstack, hlevel, onStack, List.nil_append]
        exact hbars.floor hbelow.floor
      rw [hcase] at hpos
      rw [State.quantify, hcase, hlevel, overTop_of_floor hfloor hpos,
        failSince_place hstart hrest]
      exact .error _
    | cons operand older =>
      exact h.overTop_piece hs hlimit hfits hstart hrest hcase hlevel hq

end

end RegexTree.Machine
