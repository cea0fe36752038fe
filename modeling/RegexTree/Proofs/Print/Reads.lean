/-
  Reading a text on its own.

  `Reads` says what a text does to the state wherever it stands: reading it takes one state to the
  other, whatever was read before and whatever follows.  Only a question mark may not follow, unless
  the text is `settled`, since after a repetition it would belong to the sign.  So it is a property
  of the text and two states, and no text around it occurs in it.

  Printed forms are put together in three ways, and each has a rule: texts one after the other
  (`Reads.append`), a text in a group (`Reads.enclosed`, `Reads.group`) and a text in a capture
  (`Reads.capture`).  The basis are texts of one token (`reads_token`).  What a text adds to a state
  is pieces and captures (`State.extended`), and a text inside of a group adds them to the level of
  the group (`State.onLevel`), from which closing the group makes one piece.

  Captures need the names to be new and groups room to be opened; a state that has them is said to
  admit what follows (`State.Admits`).
-/
import RegexTree.Proofs.Parse.Captures
import RegexTree.Proofs.Syntax.Brackets
import RegexTree.Proofs.Syntax.Signs

namespace RegexTree.Parse

open RegexTree.Tree

/-! ## States -/

/-- The state after pieces with captures. -/
def State.extended (s : State) (pieces : List Tree) (caps : List (Nat × Option String)) : State :=
  { s with
    level := { s.level with pieces := pieces.reverse ++ s.level.pieces }
    captures := s.captures + caps.length
    names := s.names ++ named caps }

/-- The captures have the next numbers, and no name comes twice. -/
structure State.Admits (s : State) (caps : List (Nat × Option String)) : Prop where
  numbers : NumberedFrom s.captures caps
  nodup : ((s.names ++ named caps).map (·.1)).Nodup

namespace State

variable {s : State}

theorem extended_nil (s : State) : s.extended [] [] = s := by
  simp [extended, named]

theorem extended_singleton (s : State) (t : Tree) : s.extended [t] [] = s.push t := by
  simp [extended, named, push, Level.push]

/-- What is added in two steps may be added in one. -/
theorem extended_extended (s : State) (ps qs : List Tree) (xs ys : List (Nat × Option String)) :
    (s.extended ps xs).extended qs ys = s.extended (ps ++ qs) (xs ++ ys) := by
  simp [extended, named_append, Nat.add_assoc]

/-- Captures are admitted one after the other. -/
theorem admits_append {xs ys : List (Nat × Option String)} (h : s.Admits (xs ++ ys))
    (ps : List Tree) : s.Admits xs ∧ (s.extended ps xs).Admits ys := by
  obtain ⟨hfirst, hsecond⟩ := numberedFrom_append.mp h.numbers
  have hnodup := h.nodup
  rw [named_append, ← List.append_assoc] at hnodup
  refine ⟨⟨hfirst, ?_⟩, ⟨hsecond, hnodup⟩⟩
  rw [List.map_append] at hnodup
  exact (List.nodup_append.mp hnodup).1

end State

/-! ## Texts -/

/-- Reading the text takes the state to the other one, whatever was read before and whatever
    follows, unless that is a question mark.  After a settled text it may be one, and the last token
    was no repetition. -/
def Reads (setting : Setting) (settled : Bool) (s : State) (text : List Char) (t : State) : Prop :=
  ∀ (before : Option (List Char)) (rest : List Char),
    (settled = true ∨ rest.head? ≠ some '?') →
      ∃ last, (settled = true → last = none) ∧
        (s.mark before).run setting (text ++ rest) = (t.mark last).run setting rest

section

variable {setting : Setting} {s t u : State}

/-- After a token that is no repetition none is noted. -/
theorem run_other {c : Char} {text rest : List Char} {token : Token}
    {before : Option (List Char)} (hread : readToken s.flags c text = .ok (token, rest))
    (hother : ∀ q, token ≠ .repetition q)
    (heffect : (s.mark before).effect setting (c :: text) rest token = .ok (t.mark before)) :
    (s.mark before).run setting (c :: text) = (t.mark none).run setting rest := by
  refine run_token (s := s.mark before) hread ?_
  unfold State.apply
  rw [heffect]
  cases token with
  | repetition q => exact absurd rfl (hother q)
  | _ => rfl

/-- A text of one token that is no repetition. -/
theorem reads_token {c : Char} (text : List Char) {token : Token}
    (hread : ∀ rest, readToken s.flags c (text ++ rest) = .ok (token, rest))
    (hother : ∀ q, token ≠ .repetition q)
    (heffect : ∀ before start rest,
      (s.mark before).effect setting start rest token = .ok (t.mark before)) :
    Reads setting true s (c :: text) t := fun before rest _ =>
  ⟨none, fun _ => rfl, run_other (hread rest) hother (heffect before _ rest)⟩

theorem reads_nil (s : State) : Reads setting false s [] s := fun before _ _ =>
  ⟨before, fun h => absurd h Bool.false_ne_true, rfl⟩

/-- A text that is settled may as well be taken for one that is not. -/
theorem Reads.unsettled {settled : Bool} {text : List Char} (h : Reads setting settled s text t) :
    Reads setting false s text t := by
  intro before rest hrest
  obtain ⟨last, -, hrun⟩ := h before rest (hrest.imp (fun h => absurd h Bool.false_ne_true) id)
  exact ⟨last, fun h => absurd h Bool.false_ne_true, hrun⟩

/-- One text after the other. -/
theorem Reads.append {settled settled' : Bool} {text text' : List Char}
    (h : Reads setting settled s text t) (h' : Reads setting settled' t text' u)
    (hhead : text'.head? ≠ some '?') : Reads setting false s (text ++ text') u := by
  intro before rest hrest
  have hstop : rest.head? ≠ some '?' := hrest.resolve_left Bool.false_ne_true
  have hnext : (text' ++ rest).head? ≠ some '?' := by
    cases text' with
    | nil => exact hstop
    | cons c more => exact hhead
  obtain ⟨last, -, hrun⟩ := h before (text' ++ rest) (Or.inr hnext)
  obtain ⟨last', -, hrun'⟩ := h' last rest (Or.inr hstop)
  refine ⟨last', fun h => absurd h Bool.false_ne_true, ?_⟩
  rw [List.append_assoc, hrun, hrun']

/-! ## Groups -/

/-- The state where the level is another one. -/
def State.onLevel (s : State) (level : Level) : State := { s with level }

/-- A text between what opens a group and the parenthesis that closes it. -/
theorem Reads.enclosed {opening body : List Char} {inner after : State} {settled : Bool}
    (hopen : ∀ before (rest : List Char), rest.head? ≠ some '?' →
      (s.mark before).run setting (opening ++ rest) = (inner.mark none).run setting rest)
    (hbody : Reads setting settled inner body after) (hhead : body.head? ≠ some '?')
    (hclose : ∀ last, (after.mark last).closeGroup setting = .ok (t.mark last)) :
    Reads setting true s (opening ++ (body ++ [')'])) t := by
  intro before rest _
  have hnext : (body ++ ')' :: rest).head? ≠ some '?' := by
    cases body with
    | nil => simp
    | cons c more => exact hhead
  obtain ⟨last, -, hrun⟩ := hbody none (')' :: rest) (Or.inr (by simp))
  refine ⟨none, fun _ => rfl, ?_⟩
  rw [List.append_assoc, List.append_assoc, List.singleton_append, hopen before _ hnext, hrun]
  exact run_other rfl (fun q h => nomatch h) (hclose last)

/-- A group that does not capture is what is in it. -/
theorem Reads.group (opening : List Char) {body : List Char} {flags : Flags} (level : Level)
    {settled : Bool} {caps : List (Nat × Option String)} {b : Tree}
    (hroom : s.groups.length < setting.nestLimit)
    (hread : ∀ rest, readToken s.flags '(' (opening ++ rest) = .ok (.group flags, rest))
    (hbody : Reads setting settled (s.inside flags none) body
      (((s.inside flags none).extended [] caps).onLevel level))
    (hhead : body.head? ≠ some '?') (hfinish : level.finish setting.assembly = b) :
    Reads setting true s ('(' :: opening ++ (body ++ [')'])) (s.extended [b] caps) := by
  refine Reads.enclosed (fun before rest _ => ?_) hbody hhead fun last => ?_
  · refine run_other (hread rest) (fun q h => nomatch h) ?_
    exact openGroup_eq_ok.mpr ⟨hroom, rfl⟩
  · rw [closeGroup_of_groups rfl]
    dsimp only [State.mark, State.onLevel]
    rw [hfinish]
    rfl

theorem named_singleton (cap : Nat) (name : Option String) :
    named [(cap, name)] = name.toList.map fun name => (name, cap) :=
  List.flatMap_singleton _ _

/-- A capture under a name that is not used is opened under the next number. -/
theorem openCapture_of_free {name : Option String} (hroom : s.groups.length < setting.nestLimit)
    (hfree : ∀ n ∈ name, n ∉ s.names.map (·.1)) (start rest : List Char) :
    s.openCapture setting start rest name =
      .ok ((s.extended [] [(s.captures + 1, name)]).inside s.flags
        (some (s.captures + 1, name))) := by
  refine openCapture_eq_ok.mpr ⟨hfree, openGroup_eq_ok.mpr ⟨hroom, ?_⟩⟩
  rw [State.extended, named_singleton]
  rfl

/-- A group that captures. -/
theorem Reads.capture {name : Option String} {body : List Char} {level : Level} {settled : Bool}
    {caps : List (Nat × Option String)} {b : Tree}
    (hflags : s.flags = .perl) (hroom : s.groups.length < setting.nestLimit)
    (hname : ∀ n ∈ name, isCaptureName n.toList = true)
    (hfree : ∀ n ∈ name, n ∉ s.names.map (·.1)) {inner : State}
    (hinner : inner = (s.extended [] [(s.captures + 1, name)]).inside s.flags
      (some (s.captures + 1, name)))
    (hbody : Reads setting settled inner body ((inner.extended [] caps).onLevel level))
    (hhead : body.head? ≠ some '?') (hfinish : level.finish setting.assembly = b) :
    Reads setting true s (Print.opening name ++ (body ++ [')']))
      (s.extended [captureOf .perl (s.captures + 1) name b] ((s.captures + 1, name) :: caps)) := by
  refine Reads.enclosed (fun before rest hrest => ?_) hbody hhead fun last => ?_
  · obtain ⟨text, htext, hread⟩ := readToken_opening hname
    rw [htext, List.cons_append]
    rw [← hflags] at hread
    refine run_other (hread rest hrest) (fun q h => nomatch h) ?_
    rw [hinner]
    exact openCapture_of_free (s := s.mark before) hroom hfree _ rest
  · have hsplit := State.extended_extended s [] [captureOf s.flags (s.captures + 1) name b]
      [(s.captures + 1, name)] caps
    rw [List.nil_append, List.singleton_append] at hsplit
    rw [← hflags, ← hsplit, hinner, closeGroup_of_groups rfl]
    dsimp only [State.mark, State.onLevel]
    rw [hfinish]
    rfl

end

end RegexTree.Parse
