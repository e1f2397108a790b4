import SyntaxForest.Subtree.Basic

/-!
# Subtree/Image — subtrees written down as a row

An `Image` is a subtree without its arena: the nodes in preorder, each naming its children by their
position in the row.  Marks are not taken along, ranges and scalars are.

The row of a subtree is laid out from a given position on: a node comes first, then the rows of its
children, one after the other, so every subtree is one block.

* `Subtree.rowFrom_node` — the equation of the layout.
* `Tree.snapshot` — the image of a node.
-/

namespace SyntaxForest

/-- A node of an image.  Children are positions in the row. -/
structure ImageNode where
  kind : Kind
  range : Option Span
  slots : List (Slot Nat)
  deriving DecidableEq, Repr

/-- A subtree as a row of nodes in preorder. -/
structure Image where
  /-- the node the image was taken of -/
  source : NodeId
  nodes : List ImageNode
  deriving DecidableEq, Repr

namespace Image

/-- The number of nodes in the row. -/
def size (i : Image) : Nat := i.nodes.length

/-- A row that still has to be told at which position it starts. -/
abbrev Block := Nat → List ImageNode

/-- Lays out blocks one after the other: where each starts, and the row of all of them. -/
def layBlocks : List Block → (next : Nat) → List Nat × List ImageNode
  | [], _ => ([], [])
  | b :: bs, next =>
    let row := b next
    let rest := layBlocks bs (next + row.length)
    (next :: rest.1, row ++ rest.2)

/-- Lays out the children in a slot. -/
def laySlot : Slot Block → (next : Nat) → Slot Nat × List ImageNode
  | .scalar v, _ => (.scalar v, [])
  | .child none, _ => (.child none, [])
  | .child (some b), next => (.child (some next), b next)
  | .list bs, next =>
    let laid := layBlocks bs next
    (.list laid.1, laid.2)

/-- Lays out the children in all slots, in slot order. -/
def laySlots : List (Slot Block) → (next : Nat) → List (Slot Nat) × List ImageNode
  | [], _ => ([], [])
  | s :: ss, next =>
    let laid := laySlot s next
    let rest := laySlots ss (next + laid.2.length)
    (laid.1 :: rest.1, laid.2 ++ rest.2)

end Image

/-- The row of a subtree that starts at a given position. -/
def Subtree.rowFrom (s : Subtree) (start : Nat) : List ImageNode :=
  s.fold layNode start
where
  /-- Lays out a node with the blocks of its children. -/
  layNode (h : Head) (ss : List (Slot Image.Block)) : Image.Block := fun start =>
    let laid := Image.laySlots ss (start + 1)
    ⟨h.kind, h.range, laid.1⟩ :: laid.2

/-- The image of a subtree. -/
def Subtree.image (s : Subtree) : Image := ⟨s.head.node, s.rowFrom 0⟩

/-- **The equation of the layout**: the node first, its children from the next position on. -/
theorem Subtree.rowFrom_node (h : Head) (ss : List (Slot Subtree)) (start : Nat) :
    (Subtree.node h ss).rowFrom start =
      ⟨h.kind, h.range, (Image.laySlots (ss.map (Slot.map rowFrom)) (start + 1)).1⟩ ::
        (Image.laySlots (ss.map (Slot.map rowFrom)) (start + 1)).2 := by
  unfold Subtree.rowFrom
  rw [fold_node]
  rfl

/-- The image of a node, taken without making placeholders. -/
def Tree.snapshot (t : Tree) (n : NodeId) : Except Failure Image := do
  return (← t.ownSubtree n).image

end SyntaxForest
