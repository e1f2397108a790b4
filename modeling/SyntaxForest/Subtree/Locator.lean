import SyntaxForest.Subtree.Basic

/-!
# Subtree/Locator — nodes by their place in the text

A `Locator` lists the nodes of a subtree whose range is known, in preorder, each with its depth below
the root of the subtree.  It answers for the state of the tree it was built in: once the stamp has
moved it refuses.

* `Locator.covering` — the deepest node whose range contains a span; of several, the last.
* `Locator.covered` — the shallowest node whose range lies inside a span; of several, the first.
-/

namespace SyntaxForest

namespace Locator

/-- A node whose range is known. -/
structure Entry where
  range : Span
  node : NodeId
  depth : Nat
  deriving DecidableEq, Repr

/-- The deeper of two entries; the later one if they are equally deep. -/
def Entry.deeper (best next : Entry) : Entry := if best.depth ≤ next.depth then next else best

/-- The shallower of two entries; the earlier one if they are equally deep. -/
def Entry.shallower (best next : Entry) : Entry := if next.depth < best.depth then next else best

/-- The best of a row of entries, by a choice between two. -/
def best? (choose : Entry → Entry → Entry) : List Entry → Option Entry
  | [] => none
  | e :: es => some (es.foldl choose e)

end Locator

/-- The nodes of a subtree whose range is known, in preorder. -/
structure Locator where
  tree : Nat
  /-- the stamp of the tree at the time -/
  stamp : Nat
  entries : List Locator.Entry
  deriving DecidableEq, Repr

/-- The entries of one node at a given depth, given those of its children. -/
def Subtree.entriesNode (shape : Shape) (h : Head) (slots : List (Slot (Nat → List Locator.Entry)))
    (depth : Nat) : List Locator.Entry :=
  (h.range.map fun range => ⟨range, h.node, depth⟩).toList ++
    ((h.kind.liveOnly shape slots).flatMap Slot.members).flatMap (· (depth + 1))

/-- The entries of a subtree whose root is at a given depth. -/
def Subtree.entries (shape : Shape) (s : Subtree) : (depth : Nat) → List Locator.Entry :=
  s.fold (entriesNode shape)

theorem Subtree.entries_node (shape : Shape) (h : Head) (ss : List (Slot Subtree)) :
    (Subtree.node h ss).entries shape = entriesNode shape h (ss.map (Slot.map (entries shape))) :=
  fold_node _ h ss

/-- The locator of the subtree below a node. -/
def Tree.locator (t : Tree) (n : NodeId) : Except Failure Locator := do
  return ⟨t.id, t.stamp, (← t.subtree n).entries t.shape 0⟩

namespace Locator

/-- A locator answers for its own tree only, and only as long as the tree has not changed. -/
def check (l : Locator) (t : Tree) : Except Failure Unit := do
  unlessRefused (t.id == l.tree) .foreignTree
  unlessRefused (t.stamp == l.stamp) (.stale l.stamp t.stamp)

/-- The innermost node whose range contains the span. -/
def covering (l : Locator) (t : Tree) (span : Span) : Except Failure (Option NodeId) := do
  l.check t
  return (best? .deeper (l.entries.filter fun e => e.range.contains span)).map Entry.node

/-- The outermost node whose range lies inside the span. -/
def covered (l : Locator) (t : Tree) (span : Span) : Except Failure (Option NodeId) := do
  l.check t
  return (best? .shallower (l.entries.filter fun e => span.contains e.range)).map Entry.node

end Locator

end SyntaxForest
