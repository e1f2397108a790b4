import SyntaxForest.Edit.TreeM
import SyntaxForest.Edit.Admission

/-!
# Edit/Scalar — values that are not nodes, and the marks and ranges of nodes

A scalar is replaced by a value that conforms to its type; identifiers and numbers are never empty.  A
value equal to the old one is a change all the same.  Ranges and marks are not properties: setting
them is counted but not announced, and marks can be set on a protected node, so that its protection
can be lifted.
-/

namespace SyntaxForest

/-- The scalar that a property holds. -/
def Tree.scalar (t : Tree) (n : NodeId) (p : Property) : Except Failure Scalar := do
  t.checkProperty n p
  match (← t.look n).slots[p.slot]? with
  | some (.scalar v) => return v
  | some _ => refuse (.wrongForm p .scalar)
  | none => breach (.wrongSlot n.index p.slot)

namespace NodeId

open TreeM

/-- Replaces the scalar that a property holds. -/
def setScalar (n : NodeId) (p : Property) (v : Scalar) : TreeM Unit := do
  look (·.checkProperty n p)
  let ty ← look fun _ => p.scalarType
  look fun _ => unlessRefused (v.conformsTo ty) (.scalarMismatch p ty)
  look fun _ => unlessRefused (!(ty.requiresText && v.isEmptyText)) (.emptyValue p)
  look (·.checkModifiable n)
  let event := .valueChange n p
  tell .pre event
  writeSlot n.index p.slot (.scalar v)
  touch
  tell .post event

/-- Replaces the stretch of text that a node stands for. -/
def setRange (n : NodeId) (range : Span) : TreeM Unit := do
  look (·.own n)
  amend n.index fun r => { r with range := some range }
  touch

/-- Replaces the marks of a node, its protection included. -/
def setFlags (n : NodeId) (flags : Flags) : TreeM Unit := do
  look (·.own n)
  amend n.index fun r => { r with flags }
  touch

end NodeId

end SyntaxForest
