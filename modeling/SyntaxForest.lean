import SyntaxForest.Edit.Blueprint
import SyntaxForest.Proofs.Edit.Atomic
import SyntaxForest.Proofs.Edit.Splice
import SyntaxForest.Session.Command
import SyntaxForest.Subtree.Comparison
import SyntaxForest.Subtree.Cursor
import SyntaxForest.Subtree.Footprint
import SyntaxForest.Subtree.Outline
import SyntaxForest.Text.Interned
import SyntaxForest.Typed.Nodes
import SyntaxForest.Proofs.Subtree.Reading
import SyntaxForest.Proofs.Subtree.Row
import SyntaxForest.Proofs.Edit.Planting
import SyntaxForest.Proofs.Edit.Step
import SyntaxForest.Proofs.Edit.Admission
import SyntaxForest.Proofs.Edit.Child
import SyntaxForest.Proofs.Edit.Scalar
import SyntaxForest.Proofs.Edit.Sequence
import SyntaxForest.Proofs.Edit.Run
import SyntaxForest.Proofs.Session.Run
import SyntaxForest.Proofs.Session.Ownership
import SyntaxForest.Proofs.Session.Refusal
import SyntaxForest.Proofs.Edit.Fitting
import SyntaxForest.Proofs.Session.Misfits
import SyntaxForest.Proofs.Session.Conformance
import SyntaxForest.Proofs.Store.Descent
import SyntaxForest.Proofs.Subtree.Stroll
import SyntaxForest.Proofs.Subtree.Cursor
import SyntaxForest.Proofs.Session.Walks
import SyntaxForest.Proofs.Edit.Stamp
import SyntaxForest.Proofs.Session.Stamps
import SyntaxForest.Proofs.Subtree.Children
import SyntaxForest.Proofs.Subtree.Locator
import SyntaxForest.Proofs.Session.Locators
import SyntaxForest.Proofs.Edit.Visible
import SyntaxForest.Proofs.Subtree.Walk
import SyntaxForest.Proofs.Subtree.Replanting
import SyntaxForest.Proofs.Session.Grafts
import SyntaxForest.Proofs.Subtree.Verdict
import SyntaxForest.Proofs.Subtree.Completion
import SyntaxForest.Proofs.Subtree.Materialization
import SyntaxForest.Proofs.Session.Matching
import SyntaxForest.Proofs.Subtree.Likeness
import SyntaxForest.Proofs.Session.Copies
import SyntaxForest.Proofs.Edit.Change
import SyntaxForest.Proofs.Edit.Mirror
import SyntaxForest.Proofs.Session.Mirrors
import SyntaxForest.Proofs.Subtree.Flip
import SyntaxForest.Proofs.Session.Symmetry
import SyntaxForest.Proofs.Edit.Confined
import SyntaxForest.Proofs.Session.Locality
import SyntaxForest.Proofs.Edit.Worded
import SyntaxForest.Proofs.Session.WellTyped
import SyntaxForest.Proofs.Edit.Answers
import SyntaxForest.Proofs.Edit.Calls
import SyntaxForest.Proofs.Subtree.Iteration
import SyntaxForest.Proofs.Subtree.Legible
import SyntaxForest.Proofs.Session.Answers
import SyntaxForest.Proofs.Edit.Frozen
import SyntaxForest.Proofs.Session.Protection
import SyntaxForest.Proofs.Edit.Account
import SyntaxForest.Proofs.Session.Accounts
import SyntaxForest.Proofs.Edit.Foreign
import SyntaxForest.Proofs.Session.Foreign
import SyntaxForest.Proofs.Text.Quoted
import SyntaxForest.Proofs.Subtree.Encounter
import SyntaxForest.Proofs.Subtree.Outline
import SyntaxForest.Proofs.Session.Encounters
import SyntaxForest.Proofs.Subtree.Coverage
import SyntaxForest.Proofs.Session.Coverage
import SyntaxForest.Proofs.Edit.View
import SyntaxForest.Proofs.Session.Views
import SyntaxForest.Proofs.Edit.Enumeration
import SyntaxForest.Proofs.Session.Enumeration
import SyntaxForest.Proofs.Subtree.Bare
import SyntaxForest.Proofs.Subtree.Readback
import SyntaxForest.Proofs.Session.Outlines
import SyntaxForest.Proofs.Edit.Cycle
import SyntaxForest.Proofs.Session.Cycles
import SyntaxForest.Proofs.Edit.Batch
import SyntaxForest.Proofs.Edit.Inverse
import SyntaxForest.Proofs.Session.Batches
import SyntaxForest.Proofs.Edit.Undo
import SyntaxForest.Proofs.Session.Undoing
import SyntaxForest.Proofs.Session.Searches
import SyntaxForest.Proofs.Edit.Read
import SyntaxForest.Proofs.Edit.Overwrite
import SyntaxForest.Proofs.Session.Writes
import SyntaxForest.Proofs.Subtree.Renumbering
import SyntaxForest.Proofs.Edit.Placeholder
import SyntaxForest.Proofs.Session.Placeholders
import SyntaxForest.Proofs.Edit.Attachment
import SyntaxForest.Proofs.Session.Attachments
import SyntaxForest.Proofs.Subtree.Weight
import SyntaxForest.Proofs.Edit.Balance
import SyntaxForest.Proofs.Session.Footprints
import SyntaxForest.Proofs.Subtree.Costs
import SyntaxForest.Proofs.Session.Costs
import SyntaxForest.Proofs.Subtree.Interruption
import SyntaxForest.Proofs.Session.Interruptions
import SyntaxForest.Proofs.Subtree.Trial
import SyntaxForest.Proofs.Session.Trials
import SyntaxForest.Proofs.Subtree.Block
import SyntaxForest.Proofs.Session.Blocks
import SyntaxForest.Proofs.Subtree.Preorder
import SyntaxForest.Proofs.Subtree.Inscription
import SyntaxForest.Proofs.Edit.Filing
import SyntaxForest.Proofs.Session.Images
