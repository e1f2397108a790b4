import SyntaxForest.Subtree.Basic
import SyntaxForest.Text.Quoted

/-!
# Subtree/Outline — a subtree as indented lines

A node is one line: its kind, its range where known, its scalars.  Below it stands a line for each
property that holds nodes, and below that, two steps further in, the nodes.  A child that is not set
and a list without elements are shown as such; nothing comes to exist for the sake of showing it.

* `Subtree.outline_node` — the equation of the outline.
-/

namespace SyntaxForest

/-- A scalar as it is shown: texts between quotes, words by their spelling. -/
def Scalar.text : Scalar → String
  | symbol text => Text.quoted text
  | prefixOp op => op.token
  | postfixOp op => op.token
  | primitive code => code.token

namespace Outline

/-- Lines that still have to be told how deep they stand. -/
abbrev Lines := Nat → List String

/-- The margin at a depth.  Its width has no bound; a formatter that keeps widths in 16 bits cannot go beyond
65535. -/
def margin (depth : Nat) : String := "".pushn ' ' (2 * depth)

/-- The scalars of a node, each with the name of its property. -/
def scalars (slots : List (Slot Lines × Property)) : String :=
  String.join <| slots.filterMap fun (s, p) => s.scalar?.map fun v => s!" {p.name}={v.text}"

/-- The line of a node. -/
def nodeLine (h : Head) (slots : List (Slot Lines × Property)) : String :=
  h.kind.name ++ (h.range.elim "" fun range => "@" ++ range.text) ++ scalars slots

/-- The lines of one property that holds nodes. -/
def propertyLines (depth : Nat) (s : Slot Lines) (p : Property) : List String :=
  match s with
  | .scalar _ => []
  | .child none => [margin depth ++ p.name ++ " <unset>"]
  | .list [] => [margin depth ++ p.name ++ " []"]
  | .child (some c) => (margin depth ++ p.name) :: c (depth + 1)
  | .list cs => (margin depth ++ p.name) :: cs.flatMap (· (depth + 1))

/-- The lines of a node, given those of its children. -/
def node (h : Head) (slots : List (Slot Lines)) : Lines := fun depth =>
  let named := slots.zip h.kind.storage
  (margin depth ++ nodeLine h named) :: named.flatMap fun (s, p) => propertyLines (depth + 1) s p

end Outline

/-- The lines of a subtree at a given depth. -/
def Subtree.outline (s : Subtree) : Outline.Lines := s.fold Outline.node

theorem Subtree.outline_node (h : Head) (ss : List (Slot Subtree)) :
    (Subtree.node h ss).outline = Outline.node h (ss.map (Slot.map outline)) :=
  fold_node _ h ss

/-- The outline of a node, every line ended. -/
def Tree.outline (t : Tree) (n : NodeId) : Except Failure String := do
  return String.join (((← t.subtree n).outline 0).map (· ++ "\n"))

end SyntaxForest
