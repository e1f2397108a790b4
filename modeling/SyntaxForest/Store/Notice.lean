import SyntaxForest.Grammar.Property

/-!
# Store/Notice — handles, and what an observer is told

An accepted change is announced before it happens and again after, with the same event.  Two events
differ: a placeholder that comes to exist is announced after only, and a grafted copy is named only
after.  An observer chooses the phases it listens to.
-/

namespace SyntaxForest

/-- A handle: the tree that owns the node, and its place in the arena. -/
structure NodeId where
  tree : Nat
  index : Nat
  deriving DecidableEq, Repr

/-- A handle in words. -/
def NodeId.text (n : NodeId) : String := s!"NodeId(#{n.tree}:{n.index})"

/-- A row of handles in words. -/
def NodeId.listText (ns : List NodeId) : String := "[" ++ ", ".intercalate (ns.map text) ++ "]"

/-- A change of a tree.  The `node` is always the one whose property changes. -/
inductive Event where
  /-- a single child was replaced; `new` is absent when the slot is left unset -/
  | replaceChild (node : NodeId) (property : Property) (old new : Option NodeId)
  | addChild (node : NodeId) (property : Property) (index : Nat) (child : NodeId)
  | removeChild (node : NodeId) (property : Property) (index : Nat) (child : NodeId)
  /-- an element of a list was replaced in place -/
  | replaceElement (node : NodeId) (property : Property) (index : Nat) (old new : NodeId)
  | valueChange (node : NodeId) (property : Property)
  /-- a placeholder came to exist -/
  | lazyInit (node : NodeId) (property : Property) (child : NodeId)
  /-- a subtree is copied into the tree; the copy has no name before -/
  | clone (source : NodeId) (copy : Option NodeId)
  deriving DecidableEq, Repr

/-- Before or after the change. -/
inductive Phase where
  | pre
  | post
  deriving DecidableEq, Repr

/-- One announcement. -/
structure Notice where
  phase : Phase
  event : Event
  deriving DecidableEq, Repr

/-- A listener, by the phases it takes down. -/
structure Observer where
  hearsPre : Bool
  hearsPost : Bool
  deriving DecidableEq, Repr

/-- Whether announcements of the phase are taken down. -/
def Observer.hears (o : Observer) : Phase → Bool
  | .pre => o.hearsPre
  | .post => o.hearsPost

end SyntaxForest
