import SyntaxForest.Store.Failure
import SyntaxForest.Store.Tree

/-!
# Store/Reading — looking at single nodes

Readers of nodes come in two manners.  The plain ones (`Tree.kind`, `Tree.parent`, …) fail with
`Failure.foreignRead` on a node of another tree; the ones that take part in edits refuse it
(`Tree.own`).  No reader changes the tree.

* `Tree.own_eq_ok` — a node is accepted exactly by the tree that made its handle.
* `Tree.lineage` — the chain of parents; a chain has at most as many nodes as the arena.
-/

namespace SyntaxForest

namespace Tree

/-- The record at an index. -/
def record (t : Tree) (index : Nat) : Except Failure Record :=
  match t.records[index]? with
  | some r => .ok r
  | none => breach (.missingRecord index)

/-- Accepts a node for reading. -/
def checkReadable (t : Tree) (n : NodeId) : Except Failure Unit :=
  if t.owns n then .ok () else .error (.foreignRead n)

/-- Accepts a node for editing. -/
def own (t : Tree) (n : NodeId) : Except Failure Unit := unlessRefused (t.owns n) .foreignTree

/-- The record of a node that is being read. -/
def look (t : Tree) (n : NodeId) : Except Failure Record := do
  t.checkReadable n
  t.record n.index

/-- The kind of a node. -/
def kind (t : Tree) (n : NodeId) : Except Failure Kind := do
  return (← t.look n).kind

/-- The stretch of text a node stands for, while it is known. -/
def range (t : Tree) (n : NodeId) : Except Failure (Option Span) := do
  return (← t.look n).range

/-- The marks of a node. -/
def flags (t : Tree) (n : NodeId) : Except Failure Flags := do
  return (← t.look n).flags

/-- The node that holds a node. -/
def parent (t : Tree) (n : NodeId) : Except Failure (Option NodeId) := do
  return (← t.look n).location.map fun l => t.handle l.parent

/-- The property of the parent that holds a node, as the shape of the tree reads it. -/
def locationInParent (t : Tree) (n : NodeId) : Except Failure (Option Property) := do
  return (← t.look n).location.map fun l =>
    (l.property.owner.liveProperty? t.shape l.property.slot).getD l.property

/-- The children of a node that the shape of the tree shows, in order.  Nothing comes to exist. -/
def children (t : Tree) (n : NodeId) : Except Failure (List NodeId) := do
  return ((← t.look n).children t.shape).map t.handle

/-- A node, its parent, the parent of that, and so on; at most `fuel` of them. -/
def lineage (t : Tree) : (fuel index : Nat) → Except Failure (List Nat)
  | 0, _ => breach .endless
  | fuel + 1, index => do
    match (← t.record index).location with
    | none => return [index]
    | some l => return index :: (← t.lineage fuel l.parent)

/-- A node followed by its parent, the parent of that, and so on. -/
def ancestors (t : Tree) (n : NodeId) : Except Failure (List NodeId) := do
  t.checkReadable n
  return (← t.lineage t.size n.index).map t.handle

/-- The last of the ancestors. -/
def root (t : Tree) (n : NodeId) : Except Failure NodeId := do
  return (← t.ancestors n).getLastD n

@[simp] theorem own_eq_ok {t : Tree} {n : NodeId} {u : Unit} :
    t.own n = .ok u ↔ n.tree = t.id := by
  simp [own, owns]

@[simp] theorem checkReadable_eq_ok {t : Tree} {n : NodeId} {u : Unit} :
    t.checkReadable n = .ok u ↔ n.tree = t.id := by
  simp only [checkReadable, owns, beq_iff_eq]
  split <;> simp_all

@[simp] theorem own_handle (t : Tree) (i : Nat) : t.own (t.handle i) = .ok () := by simp [handle]

@[simp] theorem checkReadable_handle (t : Tree) (i : Nat) : t.checkReadable (t.handle i) = .ok () := by simp [handle]

theorem record_eq_ok {t : Tree} {i : Nat} {r : Record} :
    t.record i = .ok r ↔ t.records[i]? = some r := by
  unfold record breach
  split <;> simp_all

end Tree

end SyntaxForest
