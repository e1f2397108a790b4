import SyntaxForest.Subtree.Walk

/-!
# Subtree/Cursor — the walk one step at a time

A `Cursor` yields the steps of a walk on demand and keeps one pending step only.  It finds its way in
the arena: the first child of a node it enters, the next sibling or the parent of a node it leaves.
Asking it to **skip** drops the descent that is pending: a pending entry becomes the exit from the
parent of the node to be entered.

* `Cursor.next_of_none` — a cursor that has ended stays at its end.
* `Tree.preorder` — all steps from a node, with skips at chosen calls or nodes.
-/

namespace SyntaxForest

namespace Tree

/-- The first child that the shape of the tree shows. -/
def firstChild (t : Tree) (n : NodeId) : Except Failure (Option NodeId) := do
  return (← t.children n).head?

/-- The child of the parent that comes after a node. -/
def nextSibling (t : Tree) (n : NodeId) : Except Failure (Option NodeId) := do
  match ← t.parent n with
  | none => return none
  | some p => return ((← t.children p).dropWhile (· != n))[1]?

end Tree

/-- A walk that waits between its steps. -/
structure Cursor where
  start : NodeId
  pending : Option WalkEvent
  skipping : Bool
  deriving DecidableEq, Repr

namespace Cursor

/-- The walk of a node, before its first step. -/
def starting (start : NodeId) : Cursor := ⟨start, some (.enter start), false⟩

/-- Asks to skip the children of the node entered last. -/
def skip (c : Cursor) : Cursor := { c with skipping := true }

/-- What a skip makes of the pending step. -/
def skipped (t : Tree) : WalkEvent → Except Failure (Option WalkEvent)
  | .enter n => return (← t.parent n).map .leave
  | .leave n => return some (.leave n)

/-- The step after a given one. -/
def following (t : Tree) (start : NodeId) : WalkEvent → Except Failure (Option WalkEvent)
  | .enter n => do
    match ← t.firstChild n with
    | some c => return some (.enter c)
    | none => return some (.leave n)
  | .leave n => do
    if n = start then
      return none
    match ← t.nextSibling n with
    | some s => return some (.enter s)
    | none => return (← t.parent n).map .leave

/-- The next step, and the cursor after it. -/
def next (t : Tree) (c : Cursor) : Except Failure (Option WalkEvent × Cursor) := do
  let pending ← match c.pending with
    | none => pure none
    | some e => if c.skipping then skipped t e else pure (some e)
  match pending with
  | none => return (none, ⟨c.start, none, false⟩)
  | some e => return (some e, ⟨c.start, ← following t c.start e, false⟩)

theorem next_of_none (t : Tree) (start : NodeId) (skipping : Bool) :
    next t ⟨start, none, skipping⟩ = .ok (none, ⟨start, none, false⟩) := rfl

end Cursor

/-- When a walk is asked to skip: before the calls of certain numbers, counted from 0, and right after
it has entered certain nodes. -/
structure SkipPlan where
  beforeCall : Nat → Bool := fun _ => false
  afterEntering : NodeId → Bool := fun _ => false

namespace Cursor

/-- The cursor as it goes into the call with the given number. -/
def beforeCall (plan : SkipPlan) (number : Nat) (c : Cursor) : Cursor :=
  if plan.beforeCall number then c.skip else c

/-- The cursor after a step. -/
def afterStep (plan : SkipPlan) (c : Cursor) : WalkEvent → Cursor
  | .enter n => if plan.afterEntering n then c.skip else c
  | .leave _ => c

/-- The steps up to the end, and the cursor at the end; at most `fuel` calls. -/
def drain (t : Tree) (plan : SkipPlan) :
    (fuel number : Nat) → Cursor → Except Failure (List WalkEvent × Cursor)
  | 0, _, _ => breach .endless
  | fuel + 1, number, c => do
    match ← (c.beforeCall plan number).next t with
    | (none, c) => return ([], c)
    | (some e, c) =>
      let (steps, c) ← drain t plan fuel (number + 1) (afterStep plan c e)
      return (e :: steps, c)

end Cursor

/-- All steps of the walk of a node, and whether the cursor stays at its end.  Every node of the tree is
entered and left at most once, which bounds the number of calls. -/
def Tree.preorder (t : Tree) (n : NodeId) (plan : SkipPlan) :
    Except Failure (List WalkEvent × Bool) := do
  let (steps, c) ← Cursor.drain t plan (2 * t.size + 2) 0 (.starting n)
  return (steps, (← c.next t).1.isNone)

end SyntaxForest
