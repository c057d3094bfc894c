import SyntaxTree.Layout
import SyntaxTree.Slot
import SyntaxTree.Text.Bytes
import SyntaxTree.Trivia
import SyntaxTree.Diagnostic.Snippet
import SyntaxTree.SlotError
import SyntaxTree.Text.Rope
import SyntaxTree.Text.Record
import SyntaxTree.Green.Create
import SyntaxTree.Green.Display
import SyntaxTree.Green.Sharing
import SyntaxTree.Green.Agreement
import SyntaxTree.Red.Walk
import SyntaxTree.Red.Query
import SyntaxTree.Red.Handle
import SyntaxTree.Edit.Display
import SyntaxTree.Edit.Rule
import SyntaxTree.Interner
import SyntaxTree.Typed.Untyped
import SyntaxTree.Typed.Edit
import SyntaxTree.Red.Outline
import SyntaxTree.Typed.Names
import SyntaxTree.Proofs.Splice
import SyntaxTree.Proofs.Validation
import SyntaxTree.Proofs.Sharing
import SyntaxTree.Proofs.Runs
import SyntaxTree.Proofs.Graft
import SyntaxTree.Proofs.Relocation
import SyntaxTree.Proofs.Positions
import SyntaxTree.Proofs.Stepwise
import SyntaxTree.Proofs.Commutation
import SyntaxTree.Proofs.Touching
import SyntaxTree.Proofs.Tour
import SyntaxTree.Proofs.Settled
import SyntaxTree.Proofs.Answers
import SyntaxTree.Proofs.HashConsing
import SyntaxTree.Proofs.Transparency
import SyntaxTree.Proofs.Survival
import SyntaxTree.Proofs.TokenMap
import SyntaxTree.Proofs.Equality
import SyntaxTree.Proofs.Skipping
import SyntaxTree.Proofs.Rechecking
import SyntaxTree.Proofs.Ascent
import SyntaxTree.Proofs.Substitution
import SyntaxTree.Proofs.Access
import SyntaxTree.Proofs.TypedLists
import SyntaxTree.Proofs.Refusals
import SyntaxTree.Proofs.Idempotence
import SyntaxTree.Proofs.Construction
import SyntaxTree.Proofs.TypedEdits
import SyntaxTree.Proofs.Misfits
import SyntaxTree.Proofs.FirstMisfit
import SyntaxTree.Proofs.Trimming
import SyntaxTree.Proofs.Accounting
import SyntaxTree.Proofs.Events
import SyntaxTree.Proofs.Visits
import SyntaxTree.Proofs.BothEnds
import SyntaxTree.Proofs.Translation
