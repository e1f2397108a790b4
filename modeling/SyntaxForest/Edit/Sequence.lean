import SyntaxForest.Edit.Child

/-!
# Edit/Sequence — lists of children

A `Sequence` is a list property of a node that has been found usable on it.  Its elements are read
through the tree and edited in place; every insertion asks the same questions as a single child does.

A batch is checked as a whole before its first element is attached, so it goes in entirely or not at
all.  Each element of a batch is announced and counted on its own, at its index in the list so far.

* `ListEdit` — the edits as data, and `Sequence.apply`, which performs one.
* `Sequence.push_eq_insert` — pushing is inserting at the end.
-/

namespace SyntaxForest

/-- A list property of a node. -/
structure Sequence where
  node : NodeId
  property : Property
  /-- the type of the elements -/
  elementType : ChildType
  deriving DecidableEq, Repr

namespace Tree

/-- The list that a property holds. -/
def sequence (t : Tree) (n : NodeId) (p : Property) : Except Failure Sequence := do
  t.checkProperty n p
  return ⟨n, p, ← p.elementType⟩

/-- The elements of a list, by index in the arena. -/
def items (t : Tree) (s : Sequence) : Except Failure (List Nat) :=
  t.currentItems s.node s.property.slot

/-- The elements of a list. -/
def elements (t : Tree) (s : Sequence) : Except Failure (List NodeId) := do
  return (← t.items s).map t.handle

/-- An index must be below the bound. -/
def checkIndex (t : Tree) (s : Sequence) (index bound : Nat) : Except Failure Unit := do
  unlessRefused (index < bound) (.indexOutOfBounds index (← t.items s).length)

/-- Every node of a batch must be attachable, and none may come twice. -/
def checkBatch (t : Tree) (s : Sequence) (seen : List NodeId) : List NodeId → Except Failure Unit
  | [] => .ok ()
  | c :: cs => do
    unlessRefused (!seen.contains c) .duplicateInBatch
    t.checkAttachable s.node s.property s.elementType c
    t.checkBatch s (c :: seen) cs

end Tree

namespace Sequence

open TreeM

/-- Attaches one element, without questions. -/
def insertOne (s : Sequence) (index : Nat) (c : NodeId) : TreeM Unit := do
  let event := .addChild s.node s.property index c
  tell .pre event
  link c.index s.node.index s.property
  let items ← look (·.items s)
  if index ≤ items.length then
    writeSlot s.node.index s.property.slot (.list (items.insertIdx index c.index))
  else
    throw (.broken (.lostElement c.index))
  touch
  tell .post event

/-- Attaches elements from an index on, without questions. -/
def insertEach (s : Sequence) (index : Nat) : List NodeId → TreeM Unit
  | [] => return
  | c :: cs => do
    s.insertOne index c
    s.insertEach (index + 1) cs

/-- Attaches a batch from an index on. -/
def insertAll (s : Sequence) (index : Nat) (cs : List NodeId) : TreeM Unit := do
  let items ← look (·.items s)
  look (·.checkIndex s index (items.length + 1))
  look (·.checkModifiable s.node)
  look (·.checkBatch s [] cs)
  s.insertEach index cs

/-- Attaches a node before the element at an index. -/
def insert (s : Sequence) (index : Nat) (c : NodeId) : TreeM Unit := s.insertAll index [c]

/-- Attaches a batch at the end. -/
def extend (s : Sequence) (cs : List NodeId) : TreeM Unit := do
  s.insertAll (← look (·.items s)).length cs

/-- Attaches a node at the end. -/
def push (s : Sequence) (c : NodeId) : TreeM Unit := do
  s.insert (← look (·.items s)).length c

/-- Replaces the element at an index and returns the old one. -/
def set (s : Sequence) (index : Nat) (c : NodeId) : TreeM NodeId := do
  let items ← look (·.items s)
  look (·.checkIndex s index items.length)
  look (·.checkModifiable s.node)
  look (·.checkAttachable s.node s.property s.elementType c)
  match items[index]? with
  | none => throw (.broken (.lostElement s.node.index))
  | some old =>
    let old : NodeId := ⟨s.node.tree, old⟩
    let event := .replaceElement s.node s.property index old c
    tell .pre event
    unlink old.index
    link c.index s.node.index s.property
    writeSlot s.node.index s.property.slot (.list (items.set index c.index))
    touch
    tell .post event
    return old

/-- Detaches the element at an index and returns it. -/
def remove (s : Sequence) (index : Nat) : TreeM NodeId := do
  let items ← look (·.items s)
  look (·.checkIndex s index items.length)
  look (·.checkModifiable s.node)
  s.node.removeElement s.property index

/-- Detaches the first element so many times, and returns what was detached, in order. -/
def removeFirst (s : Sequence) : (count : Nat) → TreeM (List NodeId)
  | 0 => return []
  | count + 1 => do
    let c ← s.node.removeElement s.property 0
    return c :: (← s.removeFirst count)

/-- Detaches every element and returns them in their order. -/
def clear (s : Sequence) : TreeM (List NodeId) := do
  look (·.checkModifiable s.node)
  s.removeFirst (← look (·.items s)).length

theorem push_eq_insert {t : Tree} {s : Sequence} {items : List Nat} (c : NodeId)
    (h : t.items s = .ok items) : s.push c t = s.insert items.length c t := by
  simp [push, look, h, bind, EStateM.bind]

end Sequence

/-- An edit of a list. -/
inductive ListEdit where
  | push (child : NodeId)
  | insert (index : Nat) (child : NodeId)
  | extend (children : List NodeId)
  | set (index : Nat) (child : NodeId)
  | remove (index : Nat)
  | clear
  deriving DecidableEq, Repr

/-- Performs an edit of a list and returns the nodes it detached. -/
def Sequence.apply (s : Sequence) : ListEdit → TreeM (List NodeId)
  | .push c => do
    s.push c
    return []
  | .insert index c => do
    s.insert index c
    return []
  | .extend cs => do
    s.extend cs
    return []
  | .set index c => return [← s.set index c]
  | .remove index => return [← s.remove index]
  | .clear => s.clear

end SyntaxForest
