import SyntaxForest.Store.Flags
import SyntaxForest.Store.Slot
import SyntaxForest.Store.Span
import SyntaxForest.Store.Notice

/-!
# Store/Tree — the arena that owns the nodes

A `Tree` is an arena of records: a node is created at the next free index and stays there.  The tree
also carries its configuration, the **stamp** that counts its changes, the observer that listens to
them, and the journal of what the observer was told.

A node is attached by two entries: the slot of its parent, and its own `Location`, which names the
parent and the property that owns the slot.

* `Tree.idOf_of_lt`, `Tree.idOf_wraps` — ids differ up to where the counter comes round, and no further.
* `Tree.start_size` — a tree starts without nodes.
* `Tree.tell_records` — telling an observer changes the journal only.
-/

namespace SyntaxForest

/-- What holds for a whole tree. -/
structure Config where
  /-- the way the grammar is read -/
  shape : Shape := .current
  /-- the marks of every new node -/
  defaultFlags : Flags := {}
  deriving DecidableEq, Repr, Inhabited

/-- A configuration in words. -/
def Config.text (c : Config) : String :=
  "TreeConfig \x7b shape: " ++ c.shape.label ++ ", default_flags: " ++ c.defaultFlags.text ++ " \x7d"

/-- Where a node is attached: its parent, and the property that owns the slot of the parent. -/
structure Location where
  parent : Nat
  property : Property
  deriving DecidableEq, Repr

/-- What the arena keeps of a node.  Children are given by their index. -/
structure Record where
  kind : Kind
  range : Option Span
  flags : Flags
  location : Option Location
  slots : List (Slot Nat)
  deriving DecidableEq, Repr

/-- The record of a detached node without range and children, every scalar at its default. -/
def Record.fresh (kind : Kind) (flags : Flags) : Record :=
  ⟨kind, none, flags, none, kind.freshSlots⟩

/-- The children of a record that a shape shows: live slots in order, lists flattened. -/
def Record.children (r : Record) (shape : Shape) : List Nat :=
  (r.kind.liveOnly shape r.slots).flatMap Slot.members

/-- An arena of nodes. -/
structure Tree where
  /-- what handles name the tree by -/
  id : Nat
  config : Config
  records : Array Record
  /-- the number of changes so far -/
  stamp : Nat
  observer : Option Observer
  /-- all that observers of the tree were told, oldest first -/
  journal : Array Notice
  deriving DecidableEq, Repr

namespace Tree

/-- **The id of the `n`-th tree that is made**, from 0 on.  It is taken from a counter of 32 bits that starts
at 1, and where the counter has come round to 0, this is taken for 1.  Here it is told as the number of the
first tree that has it, so it is one less than the counter. -/
def idOf (n : Nat) : Nat := max ((n + 1) % UInt32.size) 1 - 1

/-- A tree without nodes. -/
def start (id : Nat) (config : Config) : Tree := ⟨id, config, #[], 0, none, #[]⟩

/-- The number of nodes ever created in the tree. -/
def size (t : Tree) : Nat := t.records.size

/-- The way the tree reads the grammar. -/
def shape (t : Tree) : Shape := t.config.shape

/-- The handle of the node at an index. -/
def handle (t : Tree) (index : Nat) : NodeId := ⟨t.id, index⟩

/-- The handle of every node, in order of creation. -/
def nodes (t : Tree) : List NodeId := (List.range t.size).map t.handle

/-- Whether the tree made the handle. -/
def owns (t : Tree) (n : NodeId) : Bool := n.tree == t.id

/-- Writes the event to the journal if the observer listens to the phase. -/
def tell (t : Tree) (phase : Phase) (event : Event) : Tree :=
  if t.observer.any (·.hears phase) then { t with journal := t.journal.push ⟨phase, event⟩ } else t

/-- The tree in one line. -/
def text (t : Tree) : String :=
  s!"Tree \x7b id: TreeId(#{t.id}), shape: " ++ t.shape.label ++
    s!", nodes: {t.size}, stamp: {t.stamp}, .. \x7d"

/-- Up to where the counter comes round, a tree has its number for an id. -/
theorem idOf_of_lt {n : Nat} (h : n + 1 < UInt32.size) : idOf n = n := by
  rw [idOf, Nat.mod_eq_of_lt h, Nat.max_eq_left (Nat.le_add_left 1 n), Nat.add_sub_cancel]

/-- There the first id is given out again. -/
theorem idOf_wraps : idOf (UInt32.size - 1) = idOf 0 := by decide

@[simp] theorem start_size (id : Nat) (config : Config) : (start id config).size = 0 := rfl

@[simp] theorem tell_records (t : Tree) (phase : Phase) (event : Event) :
    (t.tell phase event).records = t.records := by
  unfold tell; split <;> rfl

@[simp] theorem tell_stamp (t : Tree) (phase : Phase) (event : Event) :
    (t.tell phase event).stamp = t.stamp := by
  unfold tell; split <;> rfl

@[simp] theorem tell_id (t : Tree) (phase : Phase) (event : Event) :
    (t.tell phase event).id = t.id := by
  unfold tell; split <;> rfl

@[simp] theorem tell_config (t : Tree) (phase : Phase) (event : Event) :
    (t.tell phase event).config = t.config := by
  unfold tell; split <;> rfl

@[simp] theorem tell_observer (t : Tree) (phase : Phase) (event : Event) :
    (t.tell phase event).observer = t.observer := by
  unfold tell; split <;> rfl

end Tree

end SyntaxForest
