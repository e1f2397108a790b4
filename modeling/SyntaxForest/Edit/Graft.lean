import SyntaxForest.Edit.TreeM
import SyntaxForest.Subtree.Image

/-!
# Edit/Graft — images planted into a tree

Planting an image appends its nodes to the arena, in the order of the row, so that position `i` of the
row becomes index `base + i`; then every child is filed under its parent.  The new nodes carry the
marks of the tree and keep their ranges.  The whole image is checked before anything is planted: the
shape of the tree must read every slot that the image populates.

The copy is a new root, and nothing that was there changes, so the stamp does not move.

* `Image.checkPlantable` — the check, node by node in the order of the row.
-/

namespace SyntaxForest

/-- The first slot of an image node that holds children and that the shape does not read is the reason
to refuse it. -/
def ImageNode.checkPlantable (shape : Shape) (node : ImageNode) : Except Failure Unit :=
  (node.slots.zip node.kind.storage).forM fun (s, p) =>
    unlessRefused (!s.isPopulated || node.kind.slotIsLive shape p.slot)
      (.unsupported node.kind p (.notInShape shape))

namespace Image

open TreeM

/-- Every populated slot of the image must be one that the shape reads. -/
def checkPlantable (i : Image) (shape : Shape) : Except Failure Unit :=
  i.nodes.forM (·.checkPlantable shape)

/-- The record of an image node whose row starts at `base`. -/
def recordAt (base : Nat) (flags : Flags) (node : ImageNode) : Record :=
  ⟨node.kind, node.range, flags, none, node.slots.map (Slot.map (base + ·))⟩

/-- Files the children of the image node that became the record at `index`. -/
def fileChildren (base index : Nat) (node : ImageNode) : TreeM Unit :=
  (node.slots.zip node.kind.storage).forM fun (s, p) =>
    s.members.forM fun c => link (base + c) index p

/-- Appends the nodes of the image, files their children, and returns the new root. -/
def plant (i : Image) : TreeM NodeId := do
  let t ← get
  i.nodes.forM fun node => discard (append (recordAt t.size t.config.defaultFlags node))
  i.nodes.zipIdx.forM fun (node, position) => fileChildren t.size (t.size + position) node
  return t.handle t.size

/-- Plants the image as a new root and returns it. -/
def graft (i : Image) : TreeM NodeId := do
  look fun t => i.checkPlantable t.shape
  if i.nodes.isEmpty then
    throw (.broken .emptyImage)
  tell .pre (.clone i.source none)
  let copy ← i.plant
  tell .post (.clone i.source (some copy))
  return copy

end Image

/-- Copies a subtree within its tree and returns the copy. -/
def NodeId.copySubtree (n : NodeId) : TreeM NodeId := do
  (← TreeM.look (·.snapshot n)).graft

end SyntaxForest
