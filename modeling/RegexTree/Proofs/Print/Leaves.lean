/-
  Reading printed leaves.

  `Rereads` says of a tree that its printed form is read as the pieces that it stands for: among
  other pieces, where a choice is in a group, and bare where nothing else is on its level.  It asks
  for room for some number of groups, and for the next numbers and new names for the captures of the
  tree (`State.Ready`), so that printed forms may be put together one after the other and in one
  another.  This module has the leaves, and the next ones the nodes over them.

  * A letter or an escape is one token, and a literal as many pieces as it has runes; one that folds
    stands in a group with the flag for it.
  * A class is one token, which is read as the piece for the class.
  * A dot or an anchor is one token in a group with flags, since what it means depends on flags.
  * The empty match is an empty group.

  So every leaf is read as it should be wherever there is room for one group.  None of these texts
  begins with a question mark (`Begins`), which would be read as part of what stands before.
-/
import RegexTree.Proofs.Print.Reads
import RegexTree.Proofs.Print.Faithful

namespace RegexTree.Parse

open RegexTree.Tree
open Assembly (classPiece)

/-! ## Where texts begin -/

/-- The text begins with something else than a question mark. -/
def Begins (text : List Char) : Prop := ∃ c more, text = c :: more ∧ c ≠ '?'

/-- What a printed form begins with is no question mark. -/
theorem Begins.head?_ne {text : List Char} (h : Begins text) : text.head? ≠ some '?' := by
  obtain ⟨c, more, rfl, hc⟩ := h
  exact fun he => hc (Option.some.inj he)

theorem Begins.append {text : List Char} (h : Begins text) (rest : List Char) :
    Begins (text ++ rest) := by
  obtain ⟨c, more, rfl, hc⟩ := h
  exact ⟨c, more ++ rest, rfl, hc⟩

theorem begins_opening (text : List Char) : Begins ('(' :: text) := ⟨'(', text, rfl, by decide⟩

theorem begins_grouped (text : List Char) : Begins (Print.grouped text) := begins_opening _

section

variable {setting : Setting} {s : State}

/-! ## Letters and classes -/

/-- A rune is written as a character that is no sign, or as an escape. -/
theorem begins_letters {runes : List Nat} (hne : runes ≠ []) (h : ∀ r ∈ runes, r ≤ maxRune) :
    Begins (runes.flatMap (Print.escaped · false)) := by
  obtain ⟨r, rest, rfl⟩ := List.exists_cons_of_ne_nil hne
  obtain ⟨c, text, htext, hc, -⟩ := readToken_escaped (h r List.mem_cons_self)
  exact ⟨c, text ++ rest.flatMap (Print.escaped · false), by rw [List.flatMap_cons, htext]; rfl, hc⟩

/-- Printed runes are read one by one. -/
theorem reads_letters {runes : List Nat} (hne : runes ≠ [])
    (h : ∀ r ∈ runes, PrintableRune s.flags.foldCase r) :
    Reads setting true s (runes.flatMap (Print.escaped · false))
      (s.extended (runes.map fun r => literal [r] s.flags) []) := by
  induction runes generalizing s with
  | nil => exact absurd rfl hne
  | cons r rest ih =>
    obtain ⟨hr, hrest⟩ := List.forall_mem_cons.mp h
    obtain ⟨c, text, htext, -, hread⟩ := readToken_escaped hr.1
    have hpiece : State.literalPiece s.flags r = literal [r] s.flags := by
      rw [State.literalPiece]
      split
      · next hfold => rw [hr.2 hfold]
      · rfl
    have hone : Reads setting true s (c :: text) (s.extended [literal [r] s.flags] []) := by
      refine reads_token text (hread s.flags) (fun q h => nomatch h) fun before start more => ?_
      rw [State.extended_singleton, ← hpiece]
      rfl
    rw [List.flatMap_cons, htext, List.map_cons]
    cases rest with
    | nil =>
      rw [List.flatMap_nil, List.append_nil]
      exact hone
    | cons q more =>
      have hmore := ih (s := s.extended [literal [r] s.flags] []) (List.cons_ne_nil q more) hrest
      rw [State.extended_extended] at hmore
      intro before tail _
      obtain ⟨last, -, hrun⟩ := hone before ((q :: more).flatMap (Print.escaped · false) ++ tail)
        (Or.inl rfl)
      obtain ⟨last', hlast', hrun'⟩ := hmore last tail (Or.inl rfl)
      refine ⟨last', hlast', ?_⟩
      rw [List.append_assoc, hrun, hrun']
      rfl

/-- A printed class is read as the piece that stands for the class. -/
theorem reads_charClass {x : Ranges} (hA : setting.assembly.Joins) (hflags : s.flags = .perl)
    (hx : x.Clean) :
    Reads setting true s (Print.charClass x.runes) (s.extended [classPiece .perl x] []) := by
  obtain ⟨text, b, htext, hread, hranges⟩ := readToken_charClass hx
  rw [htext]
  refine reads_token text (hread s.flags) (fun q h => nomatch h) fun before start more => ?_
  show Except.ok ((s.mark before).push (setting.assembly.charClass s.flags (b.ranges s.flags))) = _
  rw [hA.charClass, hflags, hranges .perl rfl rfl, State.extended_singleton]
  rfl

end

/-! ## Trees -/

/-- The text of a tree among other pieces, where a choice is in a group. -/
def printedPiece (t : Tree) : List Char :=
  if t.op = .alternate then Print.grouped t.printed else t.printed

theorem begins_printedPiece {t : Tree} (h : Begins t.printed) : Begins (printedPiece t) := by
  rw [printedPiece]
  split
  · exact begins_grouped _
  · exact h

/-- The state is ready to read captures: it has the flags that printed forms are made for, groups
    may still stand in one another as deep as `room`, and the captures are the next ones. -/
structure State.Ready (setting : Setting) (room : Nat) (caps : List (Nat × Option String))
    (s : State) : Prop where
  flags : s.flags = .perl
  room : s.groups.length + room ≤ setting.nestLimit
  admits : s.Admits caps

/-- The printed form of a tree is read on a level of its own. -/
def ReadsBare (setting : Setting) (room : Nat) (t : Tree) : Prop :=
  ∀ s : State, s.level = {} → s.Ready setting room t.captures →
    ∃ level : Level,
      level.finish setting.assembly = setting.assembly.branch (t.reread setting.assembly) ∧
      Reads setting false s t.printed ((s.extended [] t.captures).onLevel level)

/-- The printed form of a tree is read on a level of its own, and also among other pieces. -/
structure Rereads (setting : Setting) (room : Nat) (t : Tree) : Prop where
  head : Begins t.printed
  bare : ReadsBare setting room t
  piece : ∀ s : State, s.Ready setting room t.captures →
    Reads setting (!Print.needsGroup t) s (printedPiece t)
      (s.extended (t.reread setting.assembly) t.captures)

/-- At the start of a branch the pieces are the branch. -/
theorem extended_of_level {s : State} {bs : List Tree} (h : s.level = { branches := bs })
    (ps : List Tree) (caps : List (Nat × Option String)) :
    s.extended ps caps =
      (s.extended [] caps).onLevel { branches := bs, pieces := ps.reverse } := by
  rw [State.extended, h, List.append_nil]
  rfl

/-- A level with pieces and no bar is finished as the branch of the pieces. -/
theorem finish_pieces {A : Assembly} (hA : A.Joins) (ps : List Tree) :
    Level.finish A { pieces := ps.reverse } = A.branch ps := by
  show A.choice [A.branch ps.reverse.reverse] = _
  rw [hA.choice, List.reverse_reverse, choice_singleton]

section

variable {setting : Setting} {room : Nat} {t : Tree}

theorem State.Ready.mono {s : State} {caps : List (Nat × Option String)} {more : Nat}
    (h : s.Ready setting more caps) (hle : room ≤ more) : s.Ready setting room caps :=
  ⟨h.flags, by have := h.room; omega, h.admits⟩

/-- With more room than is needed it is read as well. -/
theorem Rereads.mono {more : Nat} (h : Rereads setting room t) (hle : room ≤ more) :
    Rereads setting more t :=
  ⟨h.head, fun s hl hs => h.bare s hl (hs.mono hle), fun s hs => h.piece s (hs.mono hle)⟩

/-- What is no choice is read bare as it is read among other pieces. -/
theorem Rereads.of_piece (hA : setting.assembly.Joins) (hop : t.op ≠ .alternate)
    (hhead : Begins t.printed)
    (hpiece : ∀ s : State, s.Ready setting room t.captures →
      Reads setting (!Print.needsGroup t) s t.printed
        (s.extended (t.reread setting.assembly) t.captures)) :
    Rereads setting room t := by
  refine ⟨hhead, fun s hl hs => ⟨_, finish_pieces hA _, ?_⟩, fun s hs => ?_⟩
  · rw [← extended_of_level hl]
    exact (hpiece s hs).unsettled
  · rw [printedPiece, if_neg hop]
    exact hpiece s hs

/-- In a group it is read as one piece. -/
theorem ReadsBare.grouped (h : ReadsBare setting room t)
    (hhead : Begins t.printed) {s : State} (hs : s.Ready setting (room + 1) t.captures) :
    Reads setting true s (Print.grouped t.printed)
      (s.extended [setting.assembly.branch (t.reread setting.assembly)] t.captures) := by
  have hroom := hs.room
  have hinside : (s.inside .perl none).Ready setting room t.captures := by
    refine ⟨rfl, ?_, hs.admits.numbers, hs.admits.nodup⟩
    show (_ :: s.groups).length + room ≤ _
    rw [List.length_cons]
    omega
  obtain ⟨level, hfinish, hbody⟩ := h (s.inside .perl none) rfl hinside
  have hgroup := Reads.group "?:".toList level (by omega)
    (fun rest => by rw [hs.flags]; rfl) hbody hhead.head?_ne hfinish
  rw [Print.grouped, List.append_assoc]
  exact hgroup

/-- A choice is read among other pieces as the group that it is put into. -/
theorem Rereads.of_bare (hop : t.op = .alternate) (hhead : Begins t.printed)
    (hreread : t.reread setting.assembly = [setting.assembly.branch (t.reread setting.assembly)])
    (h : ReadsBare setting room t) : Rereads setting (room + 1) t := by
  refine ⟨hhead, fun s hl hs => h s hl (hs.mono (Nat.le_succ room)), fun s hs => ?_⟩
  have hgroup := h.grouped hhead hs
  rw [← hreread] at hgroup
  rw [printedPiece, if_pos hop, show Print.needsGroup t = true by simp [Print.needsGroup, hop]]
  exact hgroup.unsettled

/-! ## Leaves -/

/-- A leaf that is read on its own, where there is room for one group. -/
theorem Rereads.of_leaf (hA : setting.assembly.Joins) {l : Label} {pieces : List Tree}
    (hleaf : l.op.arity = .leaf)
    (hhead : Begins (node l []).printed) (hreread : (node l []).reread setting.assembly = pieces)
    (h : ∀ s : State, s.flags = .perl → s.groups.length < setting.nestLimit →
      Reads setting true s (node l []).printed (s.extended pieces [])) :
    Rereads setting 1 (node l []) := by
  have hne : l.op ≠ .alternate ∧ l.op ≠ .capture :=
    ⟨Op.ne_of_arity hleaf (by decide), Op.ne_of_arity hleaf (by decide)⟩
  refine Rereads.of_piece hA hne.1 hhead fun s hs => ?_
  have hread := h s hs.flags (by have := hs.room; omega)
  rw [captures_of_ne hne.2, List.flatMap_nil, hreread]
  cases hgroup : Print.needsGroup (node l []) with
  | true => exact hread.unsettled
  | false => exact hread

/-- A piece of one token in a group with flags. -/
theorem reads_flagged (hA : setting.assembly.Joins) {s : State} (opening : List Char)
    {flags : Flags} {c : Char} {u : Tree} (hu : ¬u.DotClass)
    (hroom : s.groups.length < setting.nestLimit)
    (hread : ∀ rest, readToken s.flags '(' (opening ++ rest) = .ok (.group flags, rest))
    (hpiece : ∀ rest, readToken flags c rest = .ok (.simple u, rest)) (hc : c ≠ '?') :
    Reads setting true s ('(' :: opening ++ ([c] ++ [')'])) (s.extended [u] []) := by
  have hbody : Reads setting true (s.inside flags none) [c]
      (((s.inside flags none).extended [] []).onLevel { pieces := [u].reverse }) := by
    rw [← extended_of_level rfl, State.extended_singleton]
    exact reads_token (s := s.inside flags none) [] hpiece (fun q h => nomatch h)
      fun before start rest => rfl
  refine Reads.group opening _ hroom hread hbody (fun he => hc (Option.some.inj he)) ?_
  rw [finish_pieces hA, hA.branch_singleton hu]

/-- The empty match is printed as an empty group. -/
theorem rereads_empty (hA : setting.assembly.Joins) {l : Label} (hop : l.op = .emptyMatch) :
    Rereads setting 1 (node l []) := by
  have htext : (node l []).printed = '(' :: "?:".toList ++ ([] ++ [')']) := by
    rw [printed_node]
    unfold Print.node
    rw [hop]
    rfl
  refine Rereads.of_leaf hA (by rw [hop]; rfl) (by rw [htext]; exact begins_opening _)
    (reread_empty hop)
    fun s hflags hroom => ?_
  have hbody : Reads setting false (s.inside .perl none) []
      (((s.inside .perl none).extended [] []).onLevel {}) := by
    rw [State.extended_nil]
    exact reads_nil _
  rw [htext]
  exact Reads.group "?:".toList {} hroom (fun rest => by rw [hflags]; rfl) hbody (by simp)
    ((finish_pieces hA []).trans hA.branch_nil)

theorem not_dotClass_of_isSimple {op : Op} (hop : op.isSimple = true) (flags : Flags) :
    ¬(leaf op flags).DotClass := by
  rintro ⟨hclass, -⟩
  rw [show op = .charClass from hclass] at hop
  cases hop

/-- A dot or an anchor is printed as a group, or as an escape. -/
theorem begins_simple {l : Label} (hop : l.op.isSimple = true) : Begins (node l []).printed := by
  rw [printed_node]
  unfold Print.node
  cases h : l.op
  all_goals
    rw [h] at hop
    dsimp only
  case endText =>
    split
    · exact begins_opening _
    · exact ⟨_, _, rfl, by decide⟩
  all_goals
    first
    | exact ⟨_, _, rfl, by decide⟩
    | cases hop

/-- An assertion that is written as a backslash and a letter. -/
theorem reads_assertion {s : State} {c : Char} {op : Op} (hflags : s.flags = .perl)
    (hread : ∀ rest, readToken .perl '\\' (c :: rest) = .ok (.simple (leaf op .perl), rest)) :
    Reads setting true s ['\\', c] (s.extended [leaf op .perl] []) := by
  rw [← hflags] at hread
  refine reads_token [c] hread (fun q h => nomatch h) fun before start rest => ?_
  rw [hflags, State.extended_singleton]
  rfl

/-- A leaf of this kind is a letter after a backslash, or a sign in a group with the flags under
    which the sign means just that. -/
theorem reads_simple (hA : setting.assembly.Joins) {l : Label} (hop : l.op.isSimple = true)
    {s : State} (hflags : s.flags = .perl) (hroom : s.groups.length < setting.nestLimit) :
    Reads setting true s (node l []).printed (s.extended [leaf l.op (leafFlags l)] []) := by
  have hflagged : ∀ (opening : List Char) (flags : Flags) (c : Char) (op : Op) (mark : Flags),
      op.isSimple = true →
      (∀ rest, readToken .perl '(' (opening ++ rest) = .ok (.group flags, rest)) →
      (∀ rest, readToken flags c rest = .ok (.simple (leaf op mark), rest)) → c ≠ '?' →
      Reads setting true s ('(' :: opening ++ ([c] ++ [')'])) (s.extended [leaf op mark] []) :=
    fun opening flags c op mark hop hread hpiece hc =>
      reads_flagged hA opening (not_dotClass_of_isSimple hop mark) hroom
        (by rw [hflags]; exact hread) hpiece hc
  rw [printed_node]
  unfold Print.node leafFlags
  cases h : l.op
  case anyCharNotNL =>
    exact hflagged "?-s:".toList .perl '.' _ _ rfl (fun _ => rfl) (fun _ => rfl) (by decide)
  case anyChar =>
    exact hflagged "?s:".toList { Flags.perl with dotNL := true } '.' _ _ rfl (fun _ => rfl)
      (fun _ => rfl) (by decide)
  case beginLine =>
    exact hflagged "?m:".toList { Flags.perl with oneLine := false } '^' _ _ rfl (fun _ => rfl)
      (fun _ => rfl) (by decide)
  case endLine =>
    exact hflagged "?m:".toList { Flags.perl with oneLine := false } '$' _ _ rfl (fun _ => rfl)
      (fun _ => rfl) (by decide)
  case beginText => exact reads_assertion hflags fun _ => rfl
  case endText =>
    dsimp only
    cases hdollar : l.flags.wasDollar with
    | true =>
      exact hflagged "?-m:".toList .perl '$' _ _ rfl (fun _ => rfl) (fun _ => rfl) (by decide)
    | false => exact reads_assertion hflags fun _ => rfl
  case wordBoundary => exact reads_assertion hflags fun _ => rfl
  case noWordBoundary => exact reads_assertion hflags fun _ => rfl
  all_goals
    rw [h] at hop
    cases hop

/-- A dot or an anchor is read in its group. -/
theorem rereads_simple (hA : setting.assembly.Joins) {l : Label}
    (hop : l.op.isSimple = true) : Rereads setting 1 (node l []) :=
  Rereads.of_leaf hA (Op.arity_of_isSimple hop) (begins_simple hop) (reread_simple hop)
    fun _ hflags hroom => reads_simple hA hop hflags hroom

/-- A literal is read rune by rune, in a group if it folds. -/
theorem rereads_literal (hA : setting.assembly.Joins) {l : Label} (hop : l.op = .literal)
    (hne : l.runes ≠ []) (hrunes : ∀ r ∈ l.runes, PrintableRune l.flags.foldCase r) :
    Rereads setting 1 (node l []) := by
  have hhead := begins_letters hne fun r hr => (hrunes r hr).1
  cases hfold : l.flags.foldCase with
  | true =>
    have htext : (node l []).printed =
        '(' :: "?i:".toList ++ (l.runes.flatMap (Print.escaped · false) ++ [')']) := by
      rw [printed_node]
      unfold Print.node
      rw [hop]
      exact if_pos hfold
    refine Rereads.of_leaf hA (by rw [hop]; rfl) (by rw [htext]; exact begins_opening _)
      (reread_folded hop hfold) fun s hflags hroom => ?_
    rw [hfold] at hrunes
    have hletters : Reads setting true (s.inside { Flags.perl with foldCase := true } none)
        (l.runes.flatMap (Print.escaped · false)) _ := reads_letters hne hrunes
    rw [extended_of_level rfl] at hletters
    rw [htext]
    refine Reads.group "?i:".toList _ hroom (fun rest => by rw [hflags]; rfl) hletters
      hhead.head?_ne ?_
    have hletter := sequence_letters { Flags.perl with foldCase := true } hne
    have hdot : ¬(sequence (l.runes.map fun r =>
        literal [r] { Flags.perl with foldCase := true })).DotClass := by
      rw [hletter]
      exact fun hdot => nomatch hdot.1
    rw [finish_pieces hA]
    exact (hA.branch_of_not hdot).trans hletter
  | false =>
    have htext : (node l []).printed = l.runes.flatMap (Print.escaped · false) := by
      rw [printed_node]
      unfold Print.node
      rw [hop]
      exact if_neg (by rw [hfold]; exact Bool.false_ne_true)
    refine Rereads.of_leaf hA (by rw [hop]; rfl) (by rwa [htext]) (reread_literal hop hfold)
      fun s hflags _ => ?_
    rw [htext, ← hflags]
    refine reads_letters hne fun r hr => ?_
    rw [hflags]
    exact ⟨(hrunes r hr).1, fun h => nomatch h⟩

/-- A class is read as the piece for it. -/
theorem rereads_charClass (hA : setting.assembly.Joins) {l : Label} {x : Ranges}
    (hop : l.op = .charClass) (hrunes : l.runes = x.runes) (hx : x.Clean) :
    Rereads setting 1 (node l []) := by
  have htext : (node l []).printed = Print.charClass x.runes := by
    rw [printed_node, ← hrunes]
    unfold Print.node
    rw [hop]
  refine Rereads.of_leaf hA (by rw [hop]; rfl) ?_ (reread_class hop hrunes)
    fun s hflags _ => ?_
  · obtain ⟨text, b, hclass, -⟩ := readToken_charClass hx
    rw [htext, hclass]
    exact ⟨'[', text, rfl, by decide⟩
  · rw [htext]
    exact reads_charClass hA hflags hx

end

end RegexTree.Parse
