import SyntaxForest.Subtree.Basic

/-!
# Subtree/Walk — visiting a subtree depth first

A visitor is asked on the way into a node whether to descend, and told on the way out; it is told
whether or not it wanted to descend.  Children come in slot order, lists element by element, and only
the slots that the shape reads are walked.  Visitors run in a monad of the caller's choice, so they may
keep a state or stop the walk by an error, after which nothing more is called.

* `Subtree.walk_node` — the equation of the walk.
* `Tree.recordWalk` — the walk of a recorder, which takes down what it is called with.
-/

namespace SyntaxForest

/-- A step of a walk: into a node, or out of it. -/
inductive WalkEvent where
  | enter (node : NodeId)
  | leave (node : NodeId)
  deriving DecidableEq, Repr

/-- The node that a step is about. -/
def WalkEvent.node : WalkEvent → NodeId
  | enter n | leave n => n

/-- What is called on the way into a node, to say whether to descend, and on the way out. -/
structure Visitor (m : Type → Type) where
  enter : Head → m Bool
  leave : Head → m Unit

namespace Subtree

variable {m : Type → Type} [Monad m]

/-- One node of a walk, given the walks of its children. -/
def walkNode (shape : Shape) (v : Visitor m) (h : Head) (slots : List (Slot (m Unit))) : m Unit := do
  if ← v.enter h then
    ((h.kind.liveOnly shape slots).flatMap Slot.members).forM id
  v.leave h

/-- Visits a subtree depth first. -/
def walk (shape : Shape) (v : Visitor m) (s : Subtree) : m Unit := s.fold (walkNode shape v)

/-- **The equation of the walk**: into the node, through its children if asked to, and out of it. -/
theorem walk_node (shape : Shape) (v : Visitor m) (h : Head) (ss : List (Slot Subtree)) :
    (node h ss).walk shape v = walkNode shape v h (ss.map (Slot.map (walk shape v))) :=
  fold_node _ h ss

end Subtree

/-- Walks below a node of a tree. -/
def Tree.walk {m : Type → Type} [Monad m] (t : Tree) (n : NodeId) (v : Visitor m) :
    Except Failure (m Unit) := do
  return (← t.subtree n).walk t.shape v

/-! ## Recorders -/

/-- A visitor that takes down the steps it hears of. -/
structure Recorder where
  /-- where it does not descend; one that does not hear of entering descends always -/
  refuses : Head → Bool := fun _ => false
  hearsEnter : Bool := true
  hearsLeave : Bool := true
  /-- the length of the record at which it stops the walk -/
  stopsAt : Option Nat := none

/-- A walk that keeps a record and may be stopped at a node. -/
abbrev Recording := EStateM NodeId (Array WalkEvent)

namespace Recorder

/-- Takes down a step, and stops the walk if the record is now long enough. -/
def note (r : Recorder) (e : WalkEvent) : Recording Unit := do
  modify (·.push e)
  if r.stopsAt = some (← get).size then
    throw e.node

/-- The visitor of a recorder. -/
def visitor (r : Recorder) : Visitor Recording where
  enter h := do
    if r.hearsEnter then
      r.note (.enter h.node)
      return !r.refuses h
    else
      return true
  leave h := do
    if r.hearsLeave then
      r.note (.leave h.node)

end Recorder

/-- What a recorder takes down below a node, and the node at which it stopped the walk. -/
def Tree.recordWalk (t : Tree) (n : NodeId) (r : Recorder) :
    Except Failure (List WalkEvent × Option NodeId) := do
  match (← t.walk n r.visitor) #[] with
  | .ok _ log => return (log.toList, none)
  | .error stop log => return (log.toList, some stop)

end SyntaxForest
