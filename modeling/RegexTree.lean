import RegexTree.Cursor
import RegexTree.Pattern.Builder
import RegexTree.Proofs.Machine.Algebra
import RegexTree.Proofs.Machine.Congruence
import RegexTree.Proofs.Machine.Counts
import RegexTree.Proofs.Machine.Discipline
import RegexTree.Proofs.Machine.Fold
import RegexTree.Proofs.Machine.Settled
import RegexTree.Proofs.Match.Simplify
import RegexTree.Proofs.Parse.Copies
import RegexTree.Proofs.Parse.Folded
import RegexTree.Proofs.Parse.Groups
import RegexTree.Proofs.Parse.Nesting
import RegexTree.Proofs.Parse.Numbering
import RegexTree.Proofs.Parse.Plain
import RegexTree.Proofs.Print.Atoms
import RegexTree.Proofs.Print.Quoted
import RegexTree.Tree.Captures
import RegexTree.Tree.Dump
import RegexTree.Tree.Print
