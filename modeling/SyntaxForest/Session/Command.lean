import SyntaxForest.Edit.Graft
import SyntaxForest.Edit.Reflection
import SyntaxForest.Session.Basic

/-!
# Session/Command — everything that can happen to a session

An `Edit` is one call on one tree that may change it; a `Command` is an edit of a tree of the session,
or one of the calls that reach from tree to tree.  Calls that only look are functions on trees and need
no command.

A session is **reachable** when commands lead to it from fresh trees; whether a command succeeds or
fails, the session it leaves counts.

* `Session.Reachable.run` — one more command stays within the reachable sessions.
-/

namespace SyntaxForest

/-- One call on one tree. -/
inductive Edit where
  | create (kind : Kind)
  /-- creates a node and gives it a scalar; the node stays if the scalar is refused -/
  | createWith (kind : Kind) (property : Property) (value : Scalar)
  | setRange (node : NodeId) (range : Span)
  | setFlags (node : NodeId) (flags : Flags)
  | child (node : NodeId) (property : Property)
  /-- reads a child that has to be there, as typed handles do -/
  | required (node : NodeId) (property : Property)
  | setChild (node : NodeId) (property : Property) (child : NodeId)
  | clearChild (node : NodeId) (property : Property)
  | detach (node : NodeId)
  | setScalar (node : NodeId) (property : Property) (value : Scalar)
  | value (node : NodeId) (property : Property)
  | setValue (node : NodeId) (property : Property) (value : Value)
  | list (node : NodeId) (property : Property) (edit : ListEdit)
  | copySubtree (node : NodeId)
  /-- replaces the observer; answers whether there was one -/
  | observe (observer : Option Observer)
  deriving DecidableEq, Repr

/-- What a call answers. -/
inductive Reply where
  | done
  | node (node : NodeId)
  | node? (node : Option NodeId)
  | nodes (nodes : List NodeId)
  | value (value : Value)
  | flag (value : Bool)
  | number (number : Nat)
  deriving DecidableEq, Repr

/-- Performs a call. -/
def Edit.run : Edit → TreeM Reply
  | .create kind => return .node (← TreeM.create kind)
  | .createWith kind p v => return .node (← Typed.createWith kind p v).node
  | .setRange n range => do
    n.setRange range
    return .done
  | .setFlags n flags => do
    n.setFlags flags
    return .done
  | .child n p => return .node? (← n.child p)
  | .required n p => return .node (← (⟨n⟩ : Typed p.owner).required p)
  | .setChild n p c => do
    n.setChild p c
    return .done
  | .clearChild n p => return .node? (← n.clearChild p)
  | .detach n => do
    n.detach
    return .done
  | .setScalar n p v => do
    n.setScalar p v
    return .done
  | .value n p => return .value (← n.value p)
  | .setValue n p v => do
    n.setValue p v
    return .done
  | .list n p edit => do
    let s ← TreeM.look (·.sequence n p)
    return .nodes (← s.apply edit)
  | .copySubtree n => return .node (← n.copySubtree)
  | .observe observer => return .flag (← TreeM.observe observer)

/-- One call on a session. -/
inductive Command where
  | edit (tree : Nat) (edit : Edit)
  /-- takes the image of a node and numbers it -/
  | snapshot (tree : Nat) (node : NodeId)
  | graft (tree : Nat) (image : Nat)
  /-- copies a subtree from one tree to another -/
  | clone (source : Nat) (node : NodeId) (target : Nat)
  | cloneAll (source : Nat) (nodes : List NodeId) (target : Nat)
  /-- builds the locator of a node and numbers it -/
  | locate (tree : Nat) (node : NodeId)
  deriving DecidableEq, Repr

namespace Session

/-- Copies a subtree from one tree to another. -/
def clone (source : Nat) (n : NodeId) (target : Nat) : SessionM NodeId := do
  let image ← look fun s => do (← s.tree source).snapshot n
  act target image.graft

/-- Copies subtrees one after the other; the copies made before a failure stay. -/
def cloneAll (source : Nat) (ns : List NodeId) (target : Nat) : SessionM (List NodeId) :=
  ns.mapM fun n => clone source n target

/-- Takes the image of a node, and answers the number of the image. -/
def snapshot (tree : Nat) (n : NodeId) : SessionM Nat := do
  let image ← look fun s => do (← s.tree tree).snapshot n
  let s ← get
  set { s with images := s.images.push image }
  return s.images.size

/-- Builds the locator of a node, and answers the number of the locator. -/
def locate (tree : Nat) (n : NodeId) : SessionM Nat := do
  let locator ← look fun s => do (← s.tree tree).locator n
  let s ← get
  set { s with locators := s.locators.push locator }
  return s.locators.size

/-- Performs a call on a session. -/
def run : Command → SessionM Reply
  | .edit tree e => act tree e.run
  | .snapshot tree n => return .number (← snapshot tree n)
  | .graft tree number => do
    let image ← look (·.image number)
    return .node (← act tree image.graft)
  | .clone source n target => return .node (← clone source n target)
  | .cloneAll source ns target => return .nodes (← cloneAll source ns target)
  | .locate tree n => return .number (← locate tree n)

/-- The session that a call leaves, whether it succeeds or fails. -/
def after (c : Command) (s : Session) : Session :=
  match run c s with
  | .ok _ s | .error _ s => s

/-- The sessions that calls lead to. -/
inductive Reachable : Session → Prop
  | start (configs : List Config) : Reachable (start configs)
  | step {s : Session} (c : Command) : Reachable s → Reachable (after c s)

theorem Reachable.run {s : Session} (cs : List Command) (h : Reachable s) :
    Reachable (cs.foldl (fun s c => after c s) s) := by
  induction cs generalizing s with
  | nil => exact h
  | cons c cs ih => exact ih (.step c h)

end Session

end SyntaxForest
