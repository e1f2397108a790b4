import SyntaxForest.Store.Reading

/-!
# Subtree/Basic — a node with everything below it

A `Subtree` is what hangs below a node, read out of the arena: the head of the node and its slots, each
child replaced by the subtree of the child.  Indices are gone, so recursion is on the data, and
**everything that walks, measures, copies or prints a subtree is a fold over it**.

* `Subtree.fold_node` — the equation of the fold.
* `Subtree.induct` — induction with a hypothesis for every child.
* `Tree.subtree` — reads the subtree of a node out of its tree.
-/

namespace SyntaxForest

/-! ## Sums -/

/-- The sum of some numbers. -/
def total (ns : List Nat) : Nat := ns.foldr (· + ·) 0

@[simp] theorem total_nil : total [] = 0 := rfl

@[simp] theorem total_cons (n : Nat) (ns : List Nat) : total (n :: ns) = n + total ns := rfl

@[simp] theorem total_append (ms ns : List Nat) : total (ms ++ ns) = total ms + total ns := by
  induction ms with
  | nil => exact (Nat.zero_add _).symm
  | cons m ms ih => rw [List.cons_append, total_cons, total_cons, ih, Nat.add_assoc]

/-! ## Subtrees -/

/-- What a subtree keeps of a node itself. -/
structure Head where
  node : NodeId
  kind : Kind
  range : Option Span
  flags : Flags
  deriving DecidableEq, Repr

/-- A node with everything below it. -/
inductive Subtree where
  | node (head : Head) (slots : List (Slot Subtree))

namespace Subtree

/-- The node itself. -/
def head : Subtree → Head
  | node h _ => h

/-- The slots, with the subtrees of the children. -/
def slots : Subtree → List (Slot Subtree)
  | node _ ss => ss

/-- The subtrees of the children, in order. -/
def children (s : Subtree) : List Subtree := s.slots.flatMap Slot.members

/-! ## The fold -/

section Fold

variable {β : Type} (f : Head → List (Slot β) → β)

mutual

/-- Replaces every node, from the leaves up, by the value that `f` finds for it. -/
def fold : Subtree → β
  | node h ss => f h (foldSlots ss)

/-- The fold inside the slots of a node. -/
def foldSlots : List (Slot Subtree) → List (Slot β)
  | [] => []
  | s :: ss => foldSlot s :: foldSlots ss

/-- The fold inside one slot. -/
def foldSlot : Slot Subtree → Slot β
  | .scalar v => .scalar v
  | .child c => .child (foldOption c)
  | .list cs => .list (foldList cs)

/-- The fold of a child that may be absent. -/
def foldOption : Option Subtree → Option β
  | none => none
  | some s => some (fold s)

/-- The fold of each element of a list. -/
def foldList : List Subtree → List β
  | [] => []
  | s :: ss => fold s :: foldList ss

end

theorem foldList_eq : ∀ ss, foldList f ss = ss.map (fold f)
  | [] => rfl
  | _ :: ss => congrArg _ (foldList_eq ss)

theorem foldOption_eq : ∀ c, foldOption f c = c.map (fold f)
  | none => rfl
  | some _ => rfl

theorem foldSlot_eq : ∀ s, foldSlot f s = s.map (fold f)
  | .scalar _ => rfl
  | .child c => congrArg Slot.child (foldOption_eq f c)
  | .list cs => congrArg Slot.list (foldList_eq f cs)

theorem foldSlots_eq : ∀ ss, foldSlots f ss = ss.map (Slot.map (fold f))
  | [] => rfl
  | s :: ss => by rw [foldSlots, foldSlot_eq, foldSlots_eq ss]; rfl

/-- **The equation of the fold**: the value of a node from the values of its children. -/
theorem fold_node (h : Head) (ss : List (Slot Subtree)) :
    fold f (node h ss) = f h (ss.map (Slot.map (fold f))) := by
  rw [fold, foldSlots_eq]

end Fold

/-- **Induction on a subtree**: a property holds of every subtree if it holds of each whose children
have it. -/
theorem induct {motive : Subtree → Prop}
    (node : ∀ h ss, (∀ s ∈ ss, ∀ c ∈ s.members, motive c) → motive (.node h ss)) (s : Subtree) :
    motive s := by
  refine Subtree.rec (motive_1 := motive) (motive_2 := fun ss => ∀ s ∈ ss, ∀ c ∈ s.members, motive c)
    (motive_3 := fun s => ∀ c ∈ s.members, motive c) (motive_4 := fun c => ∀ s ∈ c, motive s)
    (motive_5 := fun cs => ∀ c ∈ cs, motive c) node ?_ ?_ ?_ ?_ ?_ ?_ ?_ ?_ ?_ s
  · simp
  · intro s ss hs hss t ht
    rcases List.mem_cons.1 ht with rfl | ht
    · exact hs
    · exact hss t ht
  · simp [Slot.members]
  · intro c hc d hd
    exact hc d (by simpa [Slot.members] using hd)
  · intro cs hcs c hc
    exact hcs c hc
  · simp
  · intro c hc d hd
    rw [Option.mem_def, Option.some.injEq] at hd
    exact hd ▸ hc
  · simp
  · intro c cs hc hcs d hd
    rcases List.mem_cons.1 hd with rfl | hd
    · exact hc
    · exact hcs d hd

/-! ## The nodes of a subtree -/

/-- The number of nodes. -/
def size (s : Subtree) : Nat := s.fold fun _ ss => 1 + total (ss.flatMap Slot.members)

/-- The heads of the nodes: a node first, then its children in order. -/
def heads (s : Subtree) : List Head := s.fold fun h ss => h :: (ss.flatMap Slot.members).flatten

/-- The subtrees of the children that a shape shows. -/
def liveChildren (shape : Shape) (s : Subtree) : List Subtree :=
  (s.head.kind.liveOnly shape s.slots).flatMap Slot.members

theorem size_node (h : Head) (ss : List (Slot Subtree)) :
    (node h ss).size = 1 + total ((ss.flatMap Slot.members).map size) := by
  unfold size
  rw [fold_node, Slot.flatMap_members_map]

theorem heads_node (h : Head) (ss : List (Slot Subtree)) :
    (node h ss).heads = h :: ((ss.flatMap Slot.members).map heads).flatten := by
  unfold heads
  rw [fold_node, Slot.flatMap_members_map]

theorem size_pos (s : Subtree) : 0 < s.size := by
  obtain ⟨h, ss⟩ := s
  rw [size_node]
  omega

/-- The children in one slot weigh no more than those in all slots. -/
theorem total_size_le_of_mem {slot : Slot Subtree} : ∀ {ss : List (Slot Subtree)}, slot ∈ ss →
    total (slot.members.map size) ≤ total ((ss.flatMap Slot.members).map size)
  | [], h => by simp at h
  | s :: ss, h => by
    rw [List.flatMap_cons, List.map_append, total_append]
    rcases List.mem_cons.1 h with rfl | h
    · omega
    · have := total_size_le_of_mem h
      omega

/-- **Going down makes a subtree smaller**: the children in one slot together are smaller than the
subtree. -/
theorem total_size_lt {s : Subtree} {slot : Slot Subtree} (h : slot ∈ s.slots) :
    total (slot.members.map size) < s.size := by
  obtain ⟨head, ss⟩ := s
  rw [size_node]
  have := @total_size_le_of_mem slot ss h
  omega

end Subtree

/-! ## Reading a subtree out of a tree -/

namespace Tree

/-- The subtree below an index, at most `fuel` levels deep.  It is a breach if an index leads nowhere,
the slots of a record do not fit its kind, or the levels do not end. -/
def unfold (t : Tree) : (fuel index : Nat) → Except Failure Subtree
  | 0, _ => breach .endless
  | fuel + 1, index => do
    let r ← t.record index
    if r.kind.fits r.slots then
      let slots ← r.slots.mapM (Slot.mapM (t.unfold fuel))
      return .node ⟨t.handle index, r.kind, r.range, r.flags⟩ slots
    else
      breach (.wrongSlot index r.slots.length)

/-- The subtree of a node that is being read.  No path down is longer than the arena. -/
def subtree (t : Tree) (n : NodeId) : Except Failure Subtree := do
  t.checkReadable n
  t.unfold t.size n.index

/-- The subtree of a node that takes part in an edit. -/
def ownSubtree (t : Tree) (n : NodeId) : Except Failure Subtree := do
  t.own n
  t.unfold t.size n.index

end Tree

end SyntaxForest
