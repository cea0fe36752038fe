/-
  The stack holds what the state holds.

  The pieces of the branch under way stand at the top, those before the newest with their literals
  joined (`onStack`).  Below them stand, if there was a bar, a marker and the branches before it,
  and then the same for each group that is open (`Bars`, `Below`).  What the parser does to such a
  stack is what is done to the state.

  * Pushing.  Before an entry is pushed, the two on the top are joined if they can be, so that all
    but the newest are joined always (`maybeConcat_onStack`, `settled_cons`).  Then a class may be
    turned into a literal, and that into more runes of the entry below, whose place it takes
    (`maybeConcat_onStack_next`, `pushClass_onStack`).  A marker is never joined to anything, which
    keeps all of this above it (`canJoin_floor`).
  * Collapsing.  At a bar or at the end of a group the entries above the marker are taken off and
    collapsed.  They are joined already, and a sequence of joined pieces is the sequence of the
    pieces (`sequence_joinLiterals`).  The bar is then moved above the branch (`swapVerticalBar_eq`,
    `verticalBar_eq`).
  * Repetition.  Height and copies of the operand are computed on the tree as the machine has it, in
    numbers of 32 bits that are divided and never by zero (`repeatChain_eq`, `repeatIsValid_eq`).
-/
import RegexTree.Machine.Stack
import RegexTree.Proofs.Machine.Class
import RegexTree.Proofs.Machine.Collapse
import RegexTree.Proofs.Parse.Printable

namespace RegexTree.Machine

open RegexTree.Tree
open Assembly (asDot classPiece)
open Parse (State OpenGroup)
open Ranges (runes)

/-! ## Literals that stand for classes -/

/-- The rune and the flags of the literal that stands for a class, by its ranges. -/
def standIn? (flags : Flags) : Ranges → Option (Nat × Flags)
  | [a] =>
    if a.lo = a.hi then some (a.lo, { flags with foldCase := false })
    else if a.lo + 1 = a.hi ∧ Unicode.isFoldPair a.lo a.hi then
      some (a.lo, { flags with foldCase := true })
    else none
  | [a, b] =>
    if a.lo = a.hi ∧ b.lo = b.hi ∧ Unicode.isFoldPair a.lo b.lo then
      some (a.lo, { flags with foldCase := true })
    else none
  | _ => none

/-- A class is written as a literal if one stands for it. -/
theorem classPiece_eq (flags : Flags) (x : Ranges) :
    classPiece flags x =
      ((standIn? flags x).map fun l => literal [l.1] l.2).getD (charClass x flags) := by
  rcases x with _ | ⟨a, _ | ⟨b, _ | ⟨c, rest⟩⟩⟩
  · rfl
  · rw [classPiece, standIn?]
    split
    · rfl
    · split
      · rfl
      · rfl
  · rw [classPiece, standIn?]
    split
    · rfl
    · rfl
  · rfl

/-- No literal stands for a proper class. -/
theorem standIn?_of_proper {x : Ranges} (hx : x.Proper) (flags : Flags) :
    standIn? flags x = none := by
  rcases x with _ | ⟨a, _ | ⟨b, _ | ⟨c, rest⟩⟩⟩
  · rfl
  · have hvalid := (hx.clean.valid a List.mem_cons_self).1
    have hhas : ∀ c, Ranges.has [a] c = true ↔ a.lo ≤ c ∧ c ≤ a.hi := fun c => by
      simp [Ranges.has, Range.has_iff]
    rw [standIn?, if_neg, if_neg]
    · rintro ⟨hnext, hpair⟩
      refine hx.notPair ⟨a.lo, a.hi, hpair, fun c => ?_⟩
      rw [hhas]
      omega
    · intro hone
      refine hx.notOne ⟨a.lo, fun c => ?_⟩
      rw [hhas]
      omega
  · rw [standIn?, if_neg]
    rintro ⟨ha, hb, hpair⟩
    refine hx.notPair ⟨a.lo, b.lo, hpair, fun c => ?_⟩
    simp only [Ranges.has, List.any_cons, List.any_nil, Bool.or_false, Bool.or_eq_true,
      Range.has_iff]
    omega
  · rfl

/-- A literal that stands for a class has the first rune of it, which is the least. -/
theorem take_one_of_standIn? {flags flags' : Flags} {x : Ranges} {r : Nat}
    (h : standIn? flags x = some (r, flags')) : (runes x).take 1 = [r] := by
  unfold standIn? at h
  split at h
  · split at h
    · cases h
      rfl
    · split at h
      · cases h
        rfl
      · cases h
  · split at h
    · cases h
      rfl
    · cases h
  · cases h

/-- The parser finds the same literal, looking at the ends of the ranges. -/
theorem classLiteral?_runes {t : Tree} {x : Ranges} (hop : t.op = .charClass)
    (hrunes : t.runes = runes x) (hx : x.Valid) (flags : Flags) :
    Parser.classLiteral? flags t = .ok (standIn? flags x) := by
  rw [Parser.classLiteral?, if_pos hop, hrunes]
  rcases x with _ | ⟨a, _ | ⟨b, _ | ⟨c, rest⟩⟩⟩
  · rfl
  · have hvalid := hx a List.mem_cons_self
    have hword : word (a.lo + 1) = .ok (a.lo + 1) :=
      word_of_le (Nat.succ_le_succ (Nat.le_trans hvalid.1 hvalid.2))
    rw [show runes [a] = [a.lo, a.hi] from rfl, standIn?]
    by_cases hone : a.lo = a.hi
    · simp [hone]
    · simp only [List.length_cons, List.length_nil, if_true, List.getElem?_cons_zero,
        List.getElem?_cons_succ, must_some, ok_bind, pure_eq_ok, beq_iff_eq, if_neg hone,
        Parser.isFoldLiteral, hword, Bool.and_eq_true]
      split
      · rfl
      · rfl
  · rw [show runes [a, b] = [a.lo, a.hi, b.lo, b.hi] from rfl, standIn?]
    simp only [List.length_cons, List.length_nil, if_neg (by decide : ¬(0 + 1 + 1 + 1 + 1 = 2)),
      pure_eq_ok, ok_bind, Bool.false_eq_true, if_false, Parser.isFoldLiteral,
      List.getElem?_cons_zero, must_some, Bool.and_eq_true, beq_iff_eq, and_assoc]
    split
    · rfl
    · rfl
  · rfl

theorem classLiteral?_of_ne {t : Tree} (hop : t.op ≠ .charClass) (flags : Flags) :
    Parser.classLiteral? flags t = .ok none := if_neg hop

theorem classLiteral?_of_normal {t : Tree} (ht : t.Normal) (flags : Flags) :
    Parser.classLiteral? flags t = .ok none := by
  by_cases hop : t.op = .charClass
  · obtain ⟨x, hx, hproper⟩ := ht.here.ranges hop
    rw [classLiteral?_runes hop hx hproper.clean.valid, standIn?_of_proper hproper]
  · exact classLiteral?_of_ne hop flags

/-! ## Pieces on the stack -/

/-- The pieces, newest first, with neighbouring literals joined. -/
def settled (pieces : List Tree) : List Tree := (joinLiterals pieces.reverse).reverse

/-- The pieces, newest first, with neighbouring literals joined but for the newest piece. -/
def onStack : List Tree → List Tree
  | [] => []
  | newest :: older => newest :: settled older

/-- What stands below the pieces of a branch: nothing, or a marker and more. -/
def Floor (floor : List Tree) : Prop := ∀ t ∈ floor.head?, t.op.isMarker = true

theorem onStack_cons (t : Tree) (pieces : List Tree) : onStack (t :: pieces) = t :: settled pieces :=
  rfl

/-- The entry is the marker of an open group. -/
def isParen (t : Tree) : Bool := t.op == .leftParen

/-- The stack from the marker of the innermost open group down. -/
def ground (stack : List Tree) : List Tree := stack.dropWhile fun t => !isParen t

theorem isParen_iff {t : Tree} : isParen t = true ↔ t.op = .leftParen := beq_iff_eq

theorem isParen_of_ne {t : Tree} (h : t.op ≠ .leftParen) : isParen t = false :=
  beq_eq_false_iff_ne.mpr h

theorem isParen_of_not_isMarker {t : Tree} (h : t.op.isMarker = false) : isParen t = false :=
  isParen_of_ne fun hop => by
    rw [hop] at h
    cases h

/-- What is above the marker is not part of the ground. -/
theorem ground_append {above : List Tree} (h : ∀ t ∈ above, isParen t = false)
    (below : List Tree) : ground (above ++ below) = ground below :=
  List.dropWhile_append_of_pos fun t ht => by rw [h t ht]; rfl

theorem ground_cons_of_ne {t : Tree} (h : t.op ≠ .leftParen) (stack : List Tree) :
    ground (t :: stack) = ground stack :=
  ground_append (List.forall_mem_singleton.mpr (isParen_of_ne h)) stack

theorem ground_paren {t : Tree} (h : t.op = .leftParen) (below : List Tree) :
    ground (t :: below) = t :: below :=
  List.dropWhile_cons_of_neg (by rw [isParen_iff.mpr h]; decide)

/-- A marker is joined to nothing. -/
theorem canJoin_marker {t u : Tree} (h : t.op.isMarker = true) :
    canJoin t u = false ∧ canJoin u t = false := by
  have hop : t.op ≠ .literal := fun hlit => by
    rw [hlit] at h
    cases h
  constructor
  · rw [Bool.eq_false_iff]
    exact fun hcan => hop (canJoin_iff.mp hcan).1
  · rw [Bool.eq_false_iff]
    exact fun hcan => hop (canJoin_iff.mp hcan).2.1

/-- Entries are not joined where they cannot be. -/
theorem maybeConcat_apart {top : Tree} {stack : List Tree}
    (h : ∀ below ∈ stack.head?, canJoin below top = false) (next : Option (Nat × Flags)) :
    Parser.maybeConcat next (top :: stack) = .ok (false, top :: stack) := by
  rw [Parser.maybeConcat]
  cases stack with
  | nil => rfl
  | cons below rest =>
    rw [if_neg (by simp)]
    simp only [List.getElem?_cons_zero, List.getElem?_cons_succ, must_some, ok_bind,
      h below rfl, Bool.false_eq_true, if_false, pure_eq_ok]

theorem maybeConcat_join {top below : Tree} (h : canJoin below top = true) (rest : List Tree) :
    Parser.maybeConcat none (top :: below :: rest) = .ok (false, joined below top :: rest) := by
  rw [Parser.maybeConcat, if_neg (by simp)]
  simp only [List.getElem?_cons_zero, List.getElem?_cons_succ, must_some, ok_bind, h, if_true]
  rfl

/-- Two literals on the top become one, and the upper entry is used for the next rune. -/
theorem maybeConcat_next {top below : Tree} (h : canJoin below top = true) (rest : List Tree)
    (r : Nat) (flags : Flags) :
    Parser.maybeConcat (some (r, flags)) (top :: below :: rest) =
      .ok (true, top.relabel (fun l => { l with runes := [r], flags }) :: joined below top :: rest) := by
  rw [Parser.maybeConcat, if_neg (by simp)]
  simp only [List.getElem?_cons_zero, List.getElem?_cons_succ, must_some, ok_bind, h, if_true]
  rfl

/-- A piece in front of joined ones is joined to the first of them or stands before it. -/
theorem settled_cons (t : Tree) (pieces : List Tree) :
    (∃ last older, settled pieces = last :: older ∧ canJoin last t = true ∧
        settled (t :: pieces) = joined last t :: older) ∨
      ((∀ last ∈ (settled pieces).head?, canJoin last t = false) ∧
        settled (t :: pieces) = t :: settled pieces) := by
  have hsettled : settled (t :: pieces) =
      (pushSub .concat (joinLiterals pieces.reverse) t).reverse := by
    rw [settled, List.reverse_cons, joinLiterals_concat]
  rw [hsettled, settled]
  rcases List.eq_nil_or_concat (joinLiterals pieces.reverse) with hnil | ⟨older, last, he⟩
  · rw [hnil]
    exact Or.inr ⟨fun last hlast => absurd hlast (Option.not_mem_none last), rfl⟩
  · rw [List.concat_eq_append] at he
    rw [he, pushSub_snoc, List.reverse_append, List.reverse_singleton, List.singleton_append]
    cases hcan : canJoin last t with
    | true =>
      refine Or.inl ⟨last, older.reverse, rfl, hcan, ?_⟩
      rw [if_pos ⟨rfl, rfl⟩, List.reverse_append]
      rfl
    | false =>
      refine Or.inr ⟨fun u hu => ?_, ?_⟩
      · cases hu
        exact hcan
      · rw [if_neg fun h => Bool.false_ne_true h.2, List.reverse_append]
        rfl

/-- Nothing is joined to what the pieces stand on. -/
theorem canJoin_floor {floor : List Tree} (h : Floor floor) (t : Tree) :
    ∀ below ∈ floor.head?, canJoin below t = false :=
  fun below hb => (canJoin_marker (h below hb)).1

theorem canJoin_head {pieces floor : List Tree} {t : Tree} (hfloor : Floor floor)
    (h : ∀ last ∈ pieces.head?, canJoin last t = false) :
    ∀ last ∈ (pieces ++ floor).head?, canJoin last t = false := by
  cases pieces with
  | nil => exact canJoin_floor hfloor t
  | cons last older => exact h

/-- Before another entry is pushed, the pieces are settled. -/
theorem maybeConcat_onStack {floor : List Tree} (hfloor : Floor floor) (pieces : List Tree) :
    Parser.maybeConcat none (onStack pieces ++ floor) = .ok (false, settled pieces ++ floor) := by
  cases pieces with
  | nil =>
    cases floor with
    | nil => rfl
    | cons marker rest =>
      exact maybeConcat_apart (fun below _ => (canJoin_marker (hfloor marker rfl)).2) none
  | cons t older =>
    rw [onStack_cons, List.cons_append]
    rcases settled_cons t older with ⟨last, rest, he, hcan, hnext⟩ | ⟨happart, hnext⟩
    · rw [he, hnext]
      exact maybeConcat_join hcan (rest ++ floor)
    · rw [hnext]
      exact maybeConcat_apart (canJoin_head hfloor happart) none

/-- A literal that has nothing but its flags and runes. -/
def PlainLiteral (t : Tree) : Prop := t.op = .literal → t = literal t.runes t.flags

/-- Before one more rune comes, the pieces are settled; the top entry may hold it already. -/
theorem maybeConcat_onStack_next {pieces floor : List Tree}
    (hpieces : ∀ t ∈ pieces, PlainLiteral t) (hfloor : Floor floor) (r : Nat) (flags : Flags) :
    Parser.maybeConcat (some (r, flags)) (onStack pieces ++ floor) =
        .ok (true, literal [r] flags :: (settled pieces ++ floor)) ∨
      Parser.maybeConcat (some (r, flags)) (onStack pieces ++ floor) =
        .ok (false, settled pieces ++ floor) := by
  cases pieces with
  | nil =>
    refine Or.inr ?_
    cases floor with
    | nil => rfl
    | cons marker rest =>
      exact maybeConcat_apart (fun below _ => (canJoin_marker (hfloor marker rfl)).2) _
  | cons t older =>
    rw [onStack_cons, List.cons_append]
    rcases settled_cons t older with ⟨last, rest, he, hcan, hnext⟩ | ⟨happart, hnext⟩
    · left
      have hplain := hpieces t List.mem_cons_self (canJoin_iff.mp hcan).2.1
      have hnewest : t.relabel (fun l => { l with runes := [r], flags }) = literal [r] flags := by
        rw [hplain]
        rfl
      rw [he, hnext, ← hnewest]
      exact maybeConcat_next hcan (rest ++ floor) r flags
    · right
      rw [hnext]
      exact maybeConcat_apart (canJoin_head hfloor happart) _

/-- Settled pieces stay as they are. -/
theorem maybeConcat_settled {floor : List Tree} (hfloor : Floor floor) (pieces : List Tree)
    (next : Option (Nat × Flags)) :
    Parser.maybeConcat next (settled pieces ++ floor) = .ok (false, settled pieces ++ floor) := by
  have hchain : (settled pieces).IsChain fun a b => canJoin b a = false :=
    List.isChain_reverse.mpr (joinLiterals_unjoinable pieces.reverse)
  generalize settled pieces = entries at hchain
  cases entries with
  | nil =>
    cases floor with
    | nil => rfl
    | cons marker rest =>
      exact maybeConcat_apart (fun below _ => (canJoin_marker (hfloor marker rfl)).2) next
  | cons top rest =>
    refine maybeConcat_apart (canJoin_head hfloor fun below hb => ?_) next
    exact (List.isChain_cons.mp hchain).1 below hb

/-! ## Pushing -/

section Push

variable {p : Parser} {pieces floor : List Tree}

/-- Pushes an entry where no literal stands for it. -/
theorem push_eq {t : Tree} {stack : List Tree} (ht : Parser.classLiteral? p.flags t = .ok none)
    (hstack : Parser.maybeConcat none p.stack = .ok (false, stack)) :
    p.push t = .ok { p with stack := t :: stack } := by
  rw [Parser.push, ht, ok_bind]
  dsimp only
  rw [hstack]
  rfl

/-- A piece is pushed, and those under it are joined. -/
theorem push_onStack {t : Tree} (ht : Parser.classLiteral? p.flags t = .ok none)
    (hfloor : Floor floor) (hstack : p.stack = onStack pieces ++ floor) :
    p.push t = .ok { p with stack := onStack (t :: pieces) ++ floor } :=
  push_eq ht (hstack ▸ maybeConcat_onStack hfloor pieces)

theorem push_settled {t : Tree} (ht : Parser.classLiteral? p.flags t = .ok none)
    (hfloor : Floor floor) (hstack : p.stack = settled pieces ++ floor) :
    p.push t = .ok { p with stack := onStack (t :: pieces) ++ floor } :=
  push_eq ht (hstack ▸ maybeConcat_settled hfloor pieces none)

theorem push_floor {t : Tree} (ht : Parser.classLiteral? p.flags t = .ok none)
    (hfloor : Floor floor) (hstack : p.stack = floor) :
    p.push t = .ok { p with stack := t :: floor } :=
  push_settled ht hfloor (hstack.trans (show floor = settled [] ++ floor from rfl))

/-- A node without operands is pushed, and its label is changed. -/
theorem pushOp_eq {op : Op} (hop : op ≠ .charClass) (f : Label → Label) (hfloor : Floor floor)
    (hstack : p.stack = onStack pieces ++ floor) :
    p.pushOp op f =
      .ok { p with stack := (leaf op p.flags).relabel f :: (settled pieces ++ floor) } := by
  have hleaf := classLiteral?_of_ne (t := leaf op p.flags) hop p.flags
  rw [Parser.pushOp, push_onStack hleaf hfloor hstack, ok_bind, onStack_cons, List.cons_append]
  dsimp only
  rw [List.getElem?_cons_zero, must_some, ok_bind, replace_of_lt (by simp), ok_bind]
  rfl

/-- A class is pushed as the piece that stands for it. -/
theorem pushClass_onStack {x : Ranges} (hx : x.Valid) (hpieces : ∀ t ∈ pieces, PlainLiteral t)
    (hfloor : Floor floor) (hstack : p.stack = onStack pieces ++ floor) :
    p.pushClass (runes x) =
      .ok { p with stack := onStack (classPiece p.flags x :: pieces) ++ floor } := by
  have hliteral := classLiteral?_runes (t := charClass x p.flags) rfl rfl hx p.flags
  rw [classPiece_eq]
  cases hstand : standIn? p.flags x with
  | none =>
    rw [hstand] at hliteral
    exact push_onStack hliteral hfloor hstack
  | some stand =>
    obtain ⟨r, flags⟩ := stand
    have hclass : Parser.classLiteral? p.flags
        (.node { op := .charClass, flags := p.flags, runes := runes x } []) =
          .ok (some (r, flags)) := by rw [← hstand, ← hliteral]; rfl
    rw [Parser.pushClass, Parser.push]
    dsimp only
    rw [hclass, ok_bind, hstack]
    dsimp only
    rcases maybeConcat_onStack_next hpieces hfloor r flags with hmerged | hapart
    · rw [hmerged]
      rfl
    · rw [hapart, ok_bind, if_neg Bool.false_ne_true, relabel, take_one_of_standIn? hstand]
      rfl

end Push

/-! ## What stands below -/

/-- The branches before the one under way, newest first, with the bar that stands on them.  The
    newest of them is not cleaned yet. -/
inductive Bars : (branches stack : List Tree) → Prop where
  | none : Bars [] []
  | some {bar raw : Tree} {branches : List Tree} (hbar : bar.op = .verticalBar)
      (hraw : raw.Normal) : Bars (asDot raw :: branches) (bar :: raw :: branches)

/-- The marker of an open group. -/
def paren (group : OpenGroup) : Tree :=
  .node
    { op := .leftParen
      flags := group.flags
      cap := group.capture.elim 0 (·.1)
      name := group.capture.bind (·.2) } []

theorem paren_op (group : OpenGroup) : (paren group).op = .leftParen := rfl

theorem paren_cap (group : OpenGroup) :
    (paren group).label.cap = group.capture.elim 0 (·.1) := rfl

/-- The open groups, innermost first, each with what was read before it on its level. -/
inductive Below : List OpenGroup → (stack : List Tree) → Prop where
  | nil : Below [] []
  | cons {group : OpenGroup} {groups : List OpenGroup} {bars rest : List Tree}
      (hcapture : ∀ capture ∈ group.capture, capture.1 ≠ 0)
      (hbars : Bars group.outer.branches bars) (hrest : Below groups rest) :
      Below (group :: groups) (paren group :: (settled group.outer.pieces ++ (bars ++ rest)))

/-- What stands below a level is nothing, or a marker. -/
theorem Below.floor {groups : List OpenGroup} {stack : List Tree} (h : Below groups stack) :
    Floor stack := by
  cases h with
  | nil => exact fun t ht => absurd ht (Option.not_mem_none t)
  | cons =>
    intro t ht
    cases ht
    rfl

/-- What stands below a level begins with the marker of the group. -/
theorem Below.ground {groups : List OpenGroup} {stack : List Tree} (h : Below groups stack) :
    ground stack = stack := by
  cases h with
  | nil => rfl
  | cons => exact ground_paren rfl _

/-- There is no marker of a group among the branches. -/
theorem Bars.not_isParen {branches bars : List Tree} (h : Bars branches bars)
    (hbranches : ∀ b ∈ branches, b.Normal) : ∀ t ∈ bars, isParen t = false := by
  cases h with
  | none => exact fun t ht => absurd ht List.not_mem_nil
  | some hbar hraw =>
    refine List.forall_mem_cons.mpr ⟨isParen_of_ne (by rw [hbar]; decide), ?_⟩
    refine List.forall_mem_cons.mpr ⟨isParen_of_not_isMarker hraw.here.notMarker, fun t ht => ?_⟩
    exact isParen_of_not_isMarker (hbranches t (List.mem_cons_of_mem _ ht)).here.notMarker

/-- A bar is something to stand on. -/
theorem Bars.floor {branches bars stack : List Tree} (h : Bars branches bars) (hs : Floor stack) :
    Floor (bars ++ stack) := by
  cases h with
  | none => exact hs
  | some hbar =>
    intro t ht
    cases ht
    rw [hbar]
    rfl

/-! ## Collapsing -/

section Collapse

variable {p : Parser} {pieces branches bars below : List Tree} {groups : List OpenGroup}

/-- What stands above a marker is split off. -/
theorem splitOff_eq {entries floor : List Tree} (h : ∀ t ∈ entries, t.op.isMarker = false)
    (hfloor : Floor floor) :
    Parser.splitOff (entries ++ floor) = .ok (entries.reverse, floor) := by
  have htake : (entries ++ floor).takeWhile (fun t => !t.op.isMarker) = entries := by
    rw [List.takeWhile_append_of_pos fun t ht => by rw [h t ht]; rfl]
    cases floor with
    | nil => simp
    | cons marker rest => simp [hfloor marker rfl]
  have hle : entries.length ≤ (entries ++ floor).length := by
    rw [List.length_append]
    exact Nat.le_add_right _ _
  rw [Parser.splitOff, htake, firstOf_of_le hle, drain_of_le hle, List.take_left, List.drop_left]
  rfl

/-- Joining literals before sequences are taken apart changes nothing. -/
theorem consJoined_consJoined {t u : Tree} (h : canJoin t u = true) (rest : List Tree) :
    consJoined (joined t u) rest = consJoined t (consJoined u rest) := by
  cases rest with
  | nil => exact (consJoined_join h).symm
  | cons v rest =>
    cases hcan : canJoin u v with
    | true =>
      have hleft : canJoin (joined t u) v = true := by rwa [canJoin_joined h]
      have hright : canJoin t (joined u v) = true := by rwa [canJoin_joined_right]
      rw [consJoined_join hcan, consJoined_join hleft, consJoined_join hright, joined_joined]
    | false =>
      have hu : consJoined u (v :: rest) = u :: v :: rest :=
        consJoined_apart fun w hw => by cases hw; exact hcan
      have hj : consJoined (joined t u) (v :: rest) = joined t u :: v :: rest :=
        consJoined_apart fun w hw => by cases hw; rwa [canJoin_joined h]
      rw [hu, hj, consJoined_join h]

/-- What comes before is joined from its end on to what is joined already. -/
theorem joinLiterals_append (before rest : List Tree) :
    joinLiterals (before ++ rest) = before.foldr consJoined (joinLiterals rest) :=
  List.foldr_append

/-- Joining literals first does not change the parts of a sequence. -/
theorem flatParts_joinLiterals (pieces : List Tree) :
    flatParts (joinLiterals pieces) = flatParts pieces := by
  induction pieces with
  | nil => rfl
  | cons t rest ih =>
    rw [flatParts, flatParts] at ih
    rw [joinLiterals_cons, flatParts, flatParts]
    rw [List.flatMap_cons, joinLiterals_append, ← ih]
    cases hrest : joinLiterals rest with
    | nil => rw [← joinLiterals_append]; rfl
    | cons u more =>
      -- two literals that are joined are no sequences, so that nothing is spliced there; in the
      -- other case the parts are spliced one after the other as before
      cases hcan : canJoin t u with
      | true =>
        obtain ⟨hop, hop', -⟩ := canJoin_iff.mp hcan
        have hne : ∀ w : Tree, w.op = .literal → w.op ≠ .concat := fun w hw => by rw [hw]; decide
        rw [consJoined_join hcan, List.flatMap_cons, List.flatMap_cons,
          spliced_of_ne (hne _ ((joined_op t u).trans hop)), spliced_of_ne (hne t hop),
          spliced_of_ne (hne u hop')]
        exact consJoined_consJoined hcan _
      | false =>
        have hapart : consJoined t (u :: more) = t :: u :: more :=
          consJoined_apart fun w hw => by cases hw; exact hcan
        rw [hapart, List.flatMap_cons, joinLiterals_append]

/-- Of two or more pieces only literals are joined to one. -/
theorem op_of_joinLiterals {t u v : Tree} {rest : List Tree}
    (h : joinLiterals (t :: u :: rest) = [v]) : v.op = .literal := by
  obtain ⟨w, more, hw⟩ :=
    List.exists_cons_of_ne_nil (joinLiterals_ne_nil (List.cons_ne_nil u rest))
  rw [joinLiterals_cons, hw] at h
  cases hcan : canJoin t w with
  | true =>
    rw [consJoined_join hcan] at h
    cases h
    rw [joined_op]
    exact (canJoin_iff.mp hcan).1
  | false =>
    rw [consJoined_apart fun x hx => by cases hx; exact hcan] at h
    cases h

/-- The sequence of joined pieces is the sequence of the pieces. -/
theorem sequence_joinLiterals (pieces : List Tree) :
    sequence (joinLiterals pieces) = sequence pieces := by
  rcases pieces with _ | ⟨t, _ | ⟨u, rest⟩⟩
  · rfl
  · rfl
  · have hparts := flatParts_joinLiterals (t :: u :: rest)
    rw [sequence_many (show 2 ≤ (t :: u :: rest).length by simp), ← hparts]
    rcases one_or_many (joinLiterals_ne_nil (List.cons_ne_nil t (u :: rest))) with ⟨v, hv⟩ | hlong
    · have hne : v.op ≠ .concat := by
        rw [op_of_joinLiterals hv]
        decide
      rw [hv, flatParts, List.flatMap_singleton, spliced_of_ne hne]
      rfl
    · rw [sequence_many hlong]

section

variable (hpieces : ∀ t ∈ pieces, t.Normal) (hbranches : ∀ t ∈ branches, t.Normal)
  (hbars : Bars branches bars) (hbelow : Below groups below)

/-- Pieces stay in normal form when they are joined. -/
theorem settled_normal (hpieces : ∀ t ∈ pieces, t.Normal) : ∀ t ∈ settled pieces, t.Normal :=
  fun t ht => forall_joinLiterals kept_normal
    (fun u hu => hpieces u (List.mem_reverse.mp hu)) t (List.mem_reverse.mp ht)

theorem onStack_normal (hpieces : ∀ t ∈ pieces, t.Normal) : ∀ t ∈ onStack pieces, t.Normal := by
  cases pieces with
  | nil => exact fun t ht => absurd ht List.not_mem_nil
  | cons newest older =>
    obtain ⟨hnewest, holder⟩ := List.forall_mem_cons.mp hpieces
    exact List.forall_mem_cons.mpr ⟨hnewest, settled_normal holder⟩

theorem settled_eq_nil_iff : settled pieces = [] ↔ pieces = [] := by
  constructor
  · intro h
    by_contra hne
    exact joinLiterals_ne_nil (List.reverse_ne_nil_iff.mpr hne) (List.reverse_eq_nil_iff.mp h)
  · rintro rfl
    rfl

include hpieces hbars hbelow

/-- The pieces become the sequence of them. -/
theorem concat_eq (hstack : p.stack = onStack pieces ++ (bars ++ below)) :
    p.concat = .ok { p with stack := sequence pieces.reverse :: (bars ++ below) } := by
  have hfloor := hbars.floor hbelow.floor
  have hnormal := settled_normal hpieces
  have hseq : (sequence pieces.reverse).Normal :=
    sequence_normal fun t ht => hpieces t (List.mem_reverse.mp ht)
  have hpush : ∀ t : Tree, t.Normal → { p with stack := bars ++ below }.push t =
      .ok { p with stack := t :: (bars ++ below) } := fun t ht =>
    push_floor (classLiteral?_of_normal ht p.flags) hfloor rfl
  rw [Parser.concat, hstack, maybeConcat_onStack hfloor, ok_bind]
  dsimp only
  rw [splitOff_eq (fun t ht => (hnormal t ht).here.notMarker) hfloor, ok_bind]
  dsimp only
  by_cases hnil : pieces = []
  · rw [hnil]
    exact hpush .empty empty_normal
  · have hne : (settled pieces).reverse.isEmpty = false := by
      rw [List.isEmpty_reverse, List.isEmpty_eq_false_iff]
      exact fun h => hnil (settled_eq_nil_iff.mp h)
    have hcollapse : collapse .concat (settled pieces).reverse = .ok (sequence pieces.reverse) := by
      rw [collapse_concat (by rw [← List.isEmpty_eq_false_iff]; exact hne), settled,
        List.reverse_reverse, sequence_joinLiterals]
    rw [hne, if_neg Bool.false_ne_true, hcollapse]
    exact hpush _ hseq

omit hpieces

/-- The branch is swapped with the bar below it, if there is one. -/
theorem swapVerticalBar_eq {t : Tree} (hstack : p.stack = t :: (bars ++ below)) :
    (branches = [] ∧ p.swapVerticalBar = .ok (false, p)) ∨
      ∃ bar : Tree, bar.op = .verticalBar ∧ p.swapVerticalBar =
        .ok (true, { p with stack := bar :: t :: (branches ++ below) }) := by
  rw [Parser.swapVerticalBar, hstack]
  cases hbars with
  | none =>
    refine Or.inl ⟨rfl, ?_⟩
    cases hbelow with
    | nil => rfl
    | cons => rfl
  | @some bar raw older hbar hraw =>
    refine Or.inr ⟨bar, hbar, ?_⟩
    have hthree : 3 ≤ (t :: bar :: raw :: (older ++ below)).length :=
      Nat.le_add_left 3 (older ++ below).length
    have htwo : ¬(t :: bar :: raw :: (older ++ below)).length < 2 := by omega
    simp only [List.cons_append, if_neg htwo, if_pos hthree, List.getElem?_cons_zero,
      List.getElem?_cons_succ, must_some, ok_bind, hbar, if_true, cleanAlt_of_normal hraw]
    rw [replace_of_lt (by omega), ok_bind]
    rfl

omit hbars

/-- The branches become the choice of them. -/
theorem alternate_eq {t : Tree} (ht : t.Normal) (hbranches : ∀ b ∈ branches, b.Normal)
    (hstack : p.stack = t :: (branches ++ below)) :
    p.alternate = .ok { p with stack := choice (asDot t :: branches).reverse :: below } := by
  have hmarker : ∀ u ∈ t :: branches, u.op.isMarker = false :=
    List.forall_mem_cons.mpr ⟨ht.here.notMarker, fun b hb => (hbranches b hb).here.notMarker⟩
  have hall : ∀ u ∈ (asDot t :: branches).reverse, u.Normal := fun u hu =>
    List.forall_mem_cons.mpr ⟨asDot_normal ht, hbranches⟩ u (List.mem_reverse.mp hu)
  have hchoice : (choice (asDot t :: branches).reverse).Normal :=
    choice_normal (by simp) hall
  rw [Parser.alternate, hstack, ← List.cons_append, splitOff_eq hmarker hbelow.floor, ok_bind]
  simp only [List.reverse_cons, List.getLast?_concat, List.dropLast_concat, cleanAlt_of_normal ht,
    ok_bind]
  rw [← List.reverse_cons, collapse_alternate fun u hu => (hall u hu).reduced.operands, ok_bind]
  exact push_floor (classLiteral?_of_normal hchoice p.flags) hbelow.floor rfl

include hpieces hbars

/-- The level becomes the tree of it. -/
theorem finish_eq (hbranches : ∀ b ∈ branches, b.Normal)
    (hstack : p.stack = onStack pieces ++ (bars ++ below)) :
    p.finish = .ok { p with
      stack := Parse.Level.finish .normal ⟨branches, pieces⟩ :: below } := by
  have hseq : (sequence pieces.reverse).Normal :=
    sequence_normal fun t ht => hpieces t (List.mem_reverse.mp ht)
  rw [Parser.finish, concat_eq hpieces hbars hbelow hstack, ok_bind]
  rcases swapVerticalBar_eq (p := { p with stack := sequence pieces.reverse :: (bars ++ below) })
    hbars hbelow rfl with ⟨hnil, hswap⟩ | ⟨bar, -, hswap⟩
  · subst hnil
    cases hbars
    rw [hswap, ok_bind]
    exact alternate_eq hbelow hseq (fun b hb => absurd hb List.not_mem_nil) rfl
  · rw [hswap, ok_bind]
    exact alternate_eq hbelow hseq hbranches rfl

/-- A bar ends the branch under way. -/
theorem verticalBar_eq (hstack : p.stack = onStack pieces ++ (bars ++ below)) :
    ∃ bars', Bars (asDot (sequence pieces.reverse) :: branches) bars' ∧
      p.verticalBar = .ok { p with stack := bars' ++ below } := by
  have hseq : (sequence pieces.reverse).Normal :=
    sequence_normal fun t ht => hpieces t (List.mem_reverse.mp ht)
  rw [Parser.verticalBar, concat_eq hpieces hbars hbelow hstack, ok_bind]
  rcases swapVerticalBar_eq (p := { p with stack := sequence pieces.reverse :: (bars ++ below) })
    hbars hbelow rfl with ⟨hnil, hswap⟩ | ⟨bar, hbar, hswap⟩
  · subst hnil
    cases hbars
    refine ⟨_, .some (show (leaf .verticalBar p.flags).op = .verticalBar from rfl) hseq, ?_⟩
    rw [hswap, ok_bind]
    exact pushOp_eq (by decide) id hbelow.floor
      (show _ = onStack [sequence pieces.reverse] ++ below from rfl)
  · refine ⟨_, .some hbar hseq, ?_⟩
    rw [hswap]
    rfl

end

end Collapse

/-! ## Repetition -/

/-- The repetitions at the root are counted as far as the limit. -/
theorem repeatChain_eq {limit steps n : Nat} {t : Tree} (ht : t.Shaped) (hlimit : limit < 2 ^ 32)
    (hsteps : limit - n < steps) :
    ∃ m, Parser.repeatChain limit steps n t = .ok m ∧ (limit ≤ m ↔ limit ≤ n + t.repeatHeight) := by
  induction steps generalizing n t with
  | zero => exact absurd hsteps (Nat.not_lt_zero _)
  | succ steps ih =>
    rw [Parser.repeatChain]
    obtain ⟨l, subs⟩ := t
    rw [repeatHeight_node, op_node]
    by_cases hmore : l.op.isRepeat = true ∧ n < limit
    · obtain ⟨operand, hsubs⟩ := ht.here.one (Op.arity_of_isRepeat hmore.1)
      rw [subs_node] at hsubs
      subst hsubs
      rw [if_pos hmore, word_of_lt (by omega), ok_bind, if_pos hmore.1]
      -- the count goes up as the height goes down, and their sum is what the limit is compared with
      obtain ⟨m, hm, hiff⟩ := ih (n := n + 1) (ht.below List.mem_cons_self) (by omega)
      refine ⟨m, hm, hiff.trans ?_⟩
      rw [List.map_cons, List.headD_cons]
      omega
    · rw [if_neg hmore]
      refine ⟨n, rfl, ?_⟩
      split
      · next hrepeat =>
        have hle : limit ≤ n := Nat.le_of_not_lt fun h => hmore ⟨hrepeat, h⟩
        exact iff_of_true hle (Nat.le_trans hle (Nat.le_add_right _ _))
      · omega

/-- The budget is divided at each count, unless that never happens. -/
theorem repeatIsValid_node (l : Label) (subs : List Tree) (n : Int) :
    Parser.repeatIsValid (node l subs) n =
      if l.op = .counted then
        if l.max = 0 then .ok true
        else
          let m := if l.max < 0 then l.min else l.max
          if n < m then .ok false
          else do
            Parser.allHold (subs.map Parser.repeatIsValid) (← (if 0 < m then quotient n m else return n))
      else Parser.allHold (subs.map Parser.repeatIsValid) n := by
  rw [Parser.repeatIsValid, fold_node]

/-- All operands are within the budget, or one is not. -/
theorem allHold_eq {subs : List Tree} {n : Nat}
    (h : ∀ t ∈ subs, Parser.repeatIsValid t n = .ok (t.fitsBudget n)) :
    Parser.allHold (subs.map Parser.repeatIsValid) n = .ok (subs.all (·.fitsBudget n)) := by
  induction subs with
  | nil => rfl
  | cons t rest ih =>
    obtain ⟨ht, hrest⟩ := List.forall_mem_cons.mp h
    rw [List.map_cons, Parser.allHold, ht, ok_bind, List.all_cons]
    cases t.fitsBudget n with
    | true => exact ih hrest
    | false => rfl

/-- The check of the copies divides as the budget does.  By induction on the tree: a quotient by a
    positive number of 32 bits is one, and no smaller than zero. -/
theorem repeatIsValid_eq {t : Tree} (ht : t.Normal) {n : Nat} (hn : n ≤ maxRepeat) :
    Parser.repeatIsValid t n = .ok (t.fitsBudget n) := by
  induction t using induct generalizing n with
  | step l subs ih =>
    -- the budget only shrinks on the way down, so it stays a number of 32 bits
    have hall : ∀ n ≤ maxRepeat, Parser.allHold (subs.map Parser.repeatIsValid) n =
        .ok (subs.all (·.fitsBudget n)) := fun n hn =>
      allHold_eq fun t htm => ih t htm (ht.below htm) hn
    rw [repeatIsValid_node]
    by_cases hop : l.op = .counted
    · have hbounds := ht.here.bounds hop
      rw [label_node] at hbounds
      have hcopies : (if l.max < 0 then l.min else l.max) = (l.copyCount : Int) := by
        rw [Label.copyCount]
        split
        · omega
        · omega
      rw [if_pos hop, fitsBudget_counted hop]
      split
      · rfl
      · dsimp only
        rw [hcopies]
        by_cases hlarge : n < l.copyCount
        · rw [if_pos (Int.ofNat_lt.mpr hlarge), if_pos hlarge]
        · rw [if_neg (fun h => hlarge (Int.ofNat_lt.mp h)), if_neg hlarge]
          -- a count of zero is the lower bound of an open repetition; then nothing is divided
          by_cases hzero : l.copyCount = 0
          · rw [if_neg (by omega), if_pos hzero, pure_eq_ok, ok_bind, hall n hn]
          · have hquotient : quotient n l.copyCount = .ok ((n / l.copyCount : Nat) : Int) := by
              have hle := Nat.le_trans (Nat.div_le_self n l.copyCount) hn
              have hfits : ∀ q : Nat, q ≤ maxRepeat →
                  -0x80000000 ≤ (q : Int) ∧ (q : Int) < 0x80000000 :=
                fun q hq => by
                  have hmax : maxRepeat = 1000 := rfl
                  omega
              rw [quotient, if_neg (by omega), ← Int.ofNat_tdiv, signed_of_mem (hfits _ hle)]
            rw [if_pos (by omega), if_neg hzero, hquotient, ok_bind]
            exact hall _ (Nat.le_trans (Nat.div_le_self n l.copyCount) hn)
    · rw [if_neg hop, fitsBudget_of_ne hop, hall n hn]

end RegexTree.Machine
