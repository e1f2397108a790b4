import SyntaxForest.Edit.TreeM
import SyntaxForest.Edit.Admission

/-!
# Edit/Child — single children

A single child is read (`NodeId.child`, `Tree.peekChild`), replaced, cleared, or detached from where it
is.  Reading a mandatory child that is unset makes its **placeholder**: that is no change of the tree,
so it does not count towards the stamp, and it is announced afterwards only.

A sole-element view is read and written like any single child, as long as the list behind it has at
most one element.

* `NodeId.child_of_peek` — a child that is there is returned, and nothing else happens.
-/

namespace SyntaxForest

/-- The child that a property holds, without making a placeholder. -/
def Tree.peekChild (t : Tree) (n : NodeId) (p : Property) : Except Failure (Option NodeId) := do
  t.checkProperty n p
  let _ ← p.childType
  return (← t.currentChild n p).map t.handle

/-- Puts a child into the slot of a single-child property; a list slot then holds nothing else. -/
def TreeM.fill (n : NodeId) (p : Property) (content : List Nat → List Nat) (c : NodeId) :
    TreeM Unit := do
  match (← look (·.look n)).slots[p.slot]? with
  | some (.child _) => writeSlot n.index p.slot (.child (some c.index))
  | some (.list cs) => writeSlot n.index p.slot (.list (content cs))
  | _ => throw (.broken (.wrongSlot n.index p.slot))

namespace NodeId

open TreeM

/-- The child that a property holds.  If there is none and the property has a placeholder, the
placeholder comes to exist and is the answer. -/
def child (n : NodeId) (p : Property) : TreeM (Option NodeId) := do
  match ← look (·.peekChild n p), p.placeholder with
  | some c, _ => return some c
  | none, none => return none
  | none, some kind =>
    let c ← create kind
    link c.index n.index p
    fill n p (· ++ [c.index]) c
    tell .post (.lazyInit n p c)
    return some c

/-- Makes `c` the child that a property holds; the child that was there is detached. -/
def setChild (n : NodeId) (p : Property) (c : NodeId) : TreeM Unit := do
  look (·.checkProperty n p)
  let ty ← look fun _ => p.childType
  look (·.checkModifiable n)
  look (·.checkAttachable n p ty c)
  let old ← look (·.currentChild n p)
  let event := .replaceChild n p (old.map (⟨n.tree, ·⟩)) (some c)
  tell .pre event
  if let some old := old then
    unlink old
  link c.index n.index p
  fill n p (fun _ => [c.index]) c
  touch
  tell .post event

/-- Leaves a single slot unset; `old` is the child that was there. -/
def unsetSingle (n : NodeId) (p : Property) (old : NodeId) : TreeM Unit := do
  let event := .replaceChild n p (some old) none
  tell .pre event
  unlink old.index
  writeSlot n.index p.slot (.child none)
  touch
  tell .post event

/-- Unsets an optional child and returns the child that was there. -/
def clearChild (n : NodeId) (p : Property) : TreeM (Option NodeId) := do
  look (·.checkProperty n p)
  let _ ← look fun _ => p.childType
  look fun _ => unlessRefused (!p.isMandatory) (.mandatoryProperty p)
  look (·.checkModifiable n)
  match ← look (·.currentChild n p) with
  | none => return none
  | some old =>
    let old : NodeId := ⟨n.tree, old⟩
    n.unsetSingle p old
    return some old

/-- Takes the element at an index out of a list, and returns it.  The index must be in range and the
node modifiable. -/
def removeElement (n : NodeId) (p : Property) (index : Nat) : TreeM NodeId := do
  let items ← look (·.currentItems n p.slot)
  match items[index]? with
  | none => throw (.broken (.lostElement n.index))
  | some c =>
    let c : NodeId := ⟨n.tree, c⟩
    let event := .removeChild n p index c
    tell .pre event
    writeSlot n.index p.slot (.list (items.eraseIdx index))
    unlink c.index
    touch
    tell .post event
    return c

/-- Takes a node away from its parent.  A single slot is left unset, and a mandatory one makes a new
placeholder when it is next read; an element leaves its list.  A root stays as it is. -/
def detach (n : NodeId) : TreeM Unit := do
  look (·.own n)
  match (← look (·.record n.index)).location with
  | none => return
  | some ⟨parent, p⟩ =>
    let parent : NodeId := ⟨n.tree, parent⟩
    look (·.checkModifiable parent)
    match p.form with
    | .child _ => parent.unsetSingle p n
    | .list _ =>
      match (← look (·.currentItems parent p.slot)).idxOf? n.index with
      | none => throw (.broken (.lostElement n.index))
      | some index => discard (parent.removeElement p index)
    | .scalar _ => throw (.broken (.wrongSlot parent.index p.slot))

theorem child_of_peek {t : Tree} {n c : NodeId} {p : Property} (h : t.peekChild n p = .ok (some c)) :
    n.child p t = .ok (some c) t := by
  simp [child, look, h, bind, EStateM.bind, pure, EStateM.pure]

end NodeId

end SyntaxForest
