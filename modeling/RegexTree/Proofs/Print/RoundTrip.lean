/-
  Printing a tree and reading it again.

  The printed form of the tree of a pattern can always be read again, under `Flags.perl` and with
  enough room for nesting, and what is read is known (`exists_parseWith_print`): it is the branch of
  the pieces that the tree reads as.  That takes the captures of the tree to have the numbers from 1
  on and names that are new each, as those of patterns do, since a printed form shows no numbers.

  The flags under which the first pattern was read do not matter, as a printed form sets the flags
  that it needs itself; only a pattern that was read as one literal as a whole is left out, since
  its letters may be others than those of the printed form.

  Whether the tree that is read is equal to the first one is then a question on trees alone.  It is
  equal just if no branch of a choice in it is a class of all runes
  (`parsePattern_print_equal_iff`); one that factoring has left as such a class is read again as a
  dot (`parsePattern_print_dotBranch`).
-/
import RegexTree.Proofs.Print.Run

namespace RegexTree

open RegexTree.Tree
open Assembly (asDot)

/-- A printed form that is read as it should be is the text of a whole pattern, too. -/
theorem parseWith_print {A : Assembly} {t : Tree} {room limit : Nat} (hlimit : room ≤ limit)
    (h : Parse.Rereads ⟨A, limit, t.printed⟩ room t) (hnumbers : NumberedFrom 0 t.captures)
    (hnames : ((named t.captures).map (·.1)).Nodup) :
    ∃ q, parseWith A t.print .perl limit = .ok q ∧ q.root = A.branch (t.reread A) := by
  have hready : Parse.State.Ready ⟨A, limit, t.printed⟩ room t.captures { flags := .perl } :=
    ⟨rfl, (Nat.zero_add room).symm ▸ hlimit, hnumbers, hnames⟩
  obtain ⟨level, hfinish, hread⟩ := h.bare _ rfl hready
  obtain ⟨last, -, hrun⟩ := hread none [] (Or.inr (by simp))
  have hrun : Parse.State.run ⟨A, limit, t.printed⟩ { flags := .perl } t.printed =
      .ok ((Parse.State.onLevel (.extended { flags := .perl } [] t.captures) level).mark last) := by
    rw [List.append_nil] at hrun
    exact hrun.trans (by rw [Parse.State.run])
  refine ⟨⟨level.finish A, 0 + t.captures.length, named t.captures⟩, ?_, hfinish⟩
  have htext : t.print.toList = t.printed := String.toList_ofList
  rw [← htext] at hrun
  exact parseWith_of_run rfl hrun rfl

/-- The printed form of a tree that can be printed is read as the branch of the pieces, if groups
    and repetitions may stand in one another as deep as it takes. -/
theorem exists_parseWith_print {A : Assembly} (hA : A.Joins) {t : Tree} (ht : t.Printable)
    (hnumbers : NumberedFrom 0 t.captures) (hnames : ((named t.captures).map (·.1)).Nodup) :
    ∃ enough, ∀ limit ≥ enough, ∃ q, parseWith A t.print .perl limit = .ok q ∧
      q.root = A.branch (t.reread A) := by
  obtain ⟨room, hroom⟩ := Parse.exists_rereads hA ht
  exact ⟨room, fun limit hlimit =>
    parseWith_print hlimit (hroom ⟨A, limit, t.printed⟩ rfl) hnumbers hnames⟩

/-- With enough room a printed form is a pattern, and its tree is the branch of the pieces. -/
theorem exists_parsePattern_print {t : Tree} (ht : t.Printable)
    (hnumbers : NumberedFrom 0 t.captures) (hnames : ((named t.captures).map (·.1)).Nodup) :
    ∃ enough, ∀ limit ≥ enough, ∃ q, parsePattern t.print .perl limit = .ok q ∧
      q.root = asDot (sequence (t.reread .normal)) :=
  exists_parseWith_print Assembly.joins_normal ht hnumbers hnames

/-- The printed form of the tree of a pattern can be read again, and gives an equal tree just if no
    branch of a choice in the tree is a class of all runes. -/
theorem parsePattern_print_equal_iff {pattern : String} {flags : Flags} {nestLimit : Nat}
    {p : Pattern} (hlit : flags.literal = false)
    (hp : parsePattern pattern flags nestLimit = .ok p) :
    ∃ enough, ∀ limit ≥ enough, ∃ q, parsePattern p.root.print .perl limit = .ok q ∧
      (p.root.equal q.root = true ↔ p.root.Everywhere NoDotBranch) := by
  obtain ⟨hprintable, hdot⟩ := parsePattern_printable hlit hp
  obtain ⟨hnumbers, hnames⟩ := parsePattern_captures hp
  obtain ⟨enough, henough⟩ := exists_parsePattern_print hprintable hnumbers hnames
  refine ⟨enough, fun limit hlimit => ?_⟩
  obtain ⟨q, hq, hroot⟩ := henough limit hlimit
  refine ⟨q, hq, ?_⟩
  rw [hroot]
  exact equal_reread_iff hprintable hdot

theorem parsePattern_print_equal_folded : Flags.perl.literal = false ∧
    ∃ p, parsePattern "(?i)(?P<x>ab\x7b2,\x7d?|ac|[^\\n])*|a$" .perl 10 = .ok p ∧
      p.root.print =
        "(?P<x>(?i:A)(?:(?i:B)\x7b2,\x7d?|(?i:C))|(?-s:.))*|(?i:A)(?-m:$)" ∧
      ∃ enough, ∀ limit ≥ enough, ∃ q, parsePattern p.root.print .perl limit = .ok q ∧
        p.root.equal q.root = true := by
  obtain ⟨p, hp, hboth⟩ : ∃ p,
      parsePattern "(?i)(?P<x>ab\x7b2,\x7d?|ac|[^\\n])*|a$" .perl 10 = .ok p ∧
        (p.root.print, p.root.dotBranches) =
          ("(?P<x>(?i:A)(?:(?i:B)\x7b2,\x7d?|(?i:C))|(?-s:.))*|(?i:A)(?-m:$)", 0) :=
    exists_of_map_eq_ok (f := fun p : Pattern => (p.root.print, p.root.dotBranches))
      (by decide +kernel)
  obtain ⟨hprint, hnone⟩ := Prod.mk.inj hboth
  obtain ⟨enough, henough⟩ := parsePattern_print_equal_iff rfl hp
  refine ⟨rfl, p, hp, hprint, enough, fun limit hlimit => ?_⟩
  obtain ⟨q, hq, hiff⟩ := henough limit hlimit
  exact ⟨q, hq, hiff.mpr (noDotBranch_of_dotBranches hnone)⟩

/-- Without what it shares with the next branch, the first branch is a class of all runes; printed
    and read again it is a dot. -/
theorem parsePattern_print_dotBranch :
    ∃ p, parsePattern "a[\\x00-\\x\x7b10ffff\x7d]|a" .perl 1000 = .ok p ∧
      ¬∃ enough, ∀ limit ≥ enough, ∃ q, parsePattern p.root.print .perl limit = .ok q ∧
        p.root.equal q.root = true := by
  obtain ⟨p, hp, hdiffer⟩ : ∃ p,
      parsePattern "a[\\x00-\\x\x7b10ffff\x7d]|a" .perl 1000 = .ok p ∧
        p.root.equal (asDot (sequence (p.root.reread .normal))) = false :=
    exists_of_map_eq_ok
      (f := fun p : Pattern => p.root.equal (asDot (sequence (p.root.reread .normal))))
      (by decide +kernel)
  refine ⟨p, hp, ?_⟩
  rintro ⟨enough, hequal⟩
  obtain ⟨hnumbers, hnames⟩ := parsePattern_captures hp
  obtain ⟨room, hroom⟩ :=
    exists_parsePattern_print (parsePattern_printable rfl hp).1 hnumbers hnames
  obtain ⟨q, hq, he⟩ := hequal (max enough room) (Nat.le_max_left enough room)
  obtain ⟨q', hq', hroot⟩ := hroom (max enough room) (Nat.le_max_right enough room)
  rw [hq] at hq'
  cases hq'
  rw [hroot, hdiffer] at he
  cases he

end RegexTree
