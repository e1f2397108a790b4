import SyntaxForest.Subtree.Image

/-!
# Proofs/Subtree/Inscription — a row that is written while it grows

`Subtree.rowFrom` lays a row out: it knows beforehand where every block starts.  One may as well write the row
down node by node.  A node is put at the end of what has been written, **without slots**, since nobody knows yet
where its children will stand; then the children are written down; and then the slots of the node are filled in.
By that time much may stand behind it, and it has to be found again.

* `Subtree.inscribe` — writes down a subtree, and answers where its root stands.
* `Subtree.inscribe_lays` — **what is written is what the layout says**, behind any row.
* `Tree.inscription_of_snapshot` — so the image of a node is the row that is written.
-/

namespace SyntaxForest

/-- An action on a row that is being written. -/
abbrev Writing := StateM (List ImageNode)

/-- The node of an image that a head stands for, while its slots are not known. -/
def Head.blank (h : Head) : ImageNode := ⟨h.kind, h.range, []⟩

namespace Subtree

/-- Writes down the children in a slot, in order, and answers where they stand. -/
def inscribeSlot : Slot (Writing Nat) → Writing (Slot Nat)
  | .scalar v => return .scalar v
  | .child none => return .child none
  | .child (some c) => return .child (some (← c))
  | .list cs => return .list (← cs.mapM id)

/-- Writes down a node without slots, then its children, and fills in the slots. -/
def inscribeNode (h : Head) (ss : List (Slot (Writing Nat))) : Writing Nat := do
  let position := (← get).length
  modify (· ++ [h.blank])
  let slots ← ss.mapM inscribeSlot
  modify (·.modify position fun node => { node with slots })
  return position

/-- **Writes down a subtree** at the end of a row, and answers where its root stands. -/
def inscribe (s : Subtree) : Writing Nat := s.fold inscribeNode

theorem inscribe_node (h : Head) (ss : List (Slot Subtree)) :
    (node h ss).inscribe = inscribeNode h (ss.map (Slot.map inscribe)) :=
  fold_node _ h ss

theorem inscribeNode_run {h : Head} {ss : List (Slot (Writing Nat))} {row row' : List ImageNode}
    {slots : List (Slot Nat)} (hchildren : (ss.mapM inscribeSlot).run (row ++ [h.blank]) = (slots, row')) :
    (inscribeNode h ss).run row =
      (row.length, row'.modify row.length fun node => { node with slots }) := by
  have hrun : (inscribeNode h ss).run row = (row.length,
      ((ss.mapM inscribeSlot).run (row ++ [h.blank])).2.modify row.length fun node =>
        { node with slots := ((ss.mapM inscribeSlot).run (row ++ [h.blank])).1 }) := rfl
  rw [hrun, hchildren]

end Subtree

/-! ## What is written, and where -/

namespace Writing

variable {α β : Type} {m : Writing α} {laid : Nat → α × List ImageNode}

/-- **The action writes what a layout says**, at the end of any row: it answers the first part of what is laid out
from there on, and leaves the second part behind the row. -/
def Lays (m : Writing α) (laid : (next : Nat) → α × List ImageNode) : Prop :=
  ∀ row : List ImageNode, m.run row = ((laid row.length).1, row ++ (laid row.length).2)

theorem Lays.pure (a : α) : Lays (Pure.pure a) fun _ => (a, []) := fun row =>
  congrArg (Prod.mk a) (List.append_nil row).symm

/-- What is written later stands behind what is written first. -/
theorem Lays.bind {k : α → Writing β} {laid' : α → Nat → β × List ImageNode} (hm : m.Lays laid)
    (hk : ∀ a, (k a).Lays (laid' a)) : (m >>= k).Lays fun next =>
      let rest := laid' (laid next).1 (next + (laid next).2.length)
      (rest.1, (laid next).2 ++ rest.2) := by
  intro row
  calc (m >>= k).run row
      = (k (m.run row).1).run (m.run row).2 := rfl
    _ = (k (laid row.length).1).run (row ++ (laid row.length).2) := by rw [hm row]
    _ = _ := by rw [hk, List.length_append, List.append_assoc]

/-- To answer otherwise writes nothing more. -/
theorem Lays.map (f : α → β) (hm : m.Lays laid) :
    (m >>= fun a => Pure.pure (f a)).Lays fun next => (f (laid next).1, (laid next).2) := by
  intro row
  calc (m >>= fun a => Pure.pure (f a)).run row
      = (f (m.run row).1, (m.run row).2) := rfl
    _ = _ := by rw [hm row]

end Writing

namespace Image

/-- Subtrees that are written down one after the other stand in blocks. -/
theorem lays_blocks {cs : List Subtree} (h : ∀ c ∈ cs, c.inscribe.Lays fun next => (next, c.rowFrom next)) :
    Writing.Lays ((cs.map Subtree.inscribe).mapM id) (layBlocks (cs.map Subtree.rowFrom)) := by
  induction cs with
  | nil => exact .pure []
  | cons c cs ih =>
    obtain ⟨hc, hcs⟩ := List.forall_mem_cons.1 h
    rw [List.map_cons, List.mapM_cons]
    exact hc.bind fun next => (ih hcs).map (next :: ·)

theorem lays_slot {s : Slot Subtree} (h : ∀ c ∈ s.members, c.inscribe.Lays fun next => (next, c.rowFrom next)) :
    Writing.Lays (Subtree.inscribeSlot (s.map Subtree.inscribe)) (laySlot (s.map Subtree.rowFrom)) := by
  rcases s with v | (_ | c) | cs
  · exact .pure (Slot.scalar v)
  · exact .pure (Slot.child none)
  · exact (h c (List.mem_singleton_self c)).map fun next => Slot.child (some next)
  · exact (lays_blocks h).map Slot.list

/-- …slot after slot. -/
theorem lays_slots {ss : List (Slot Subtree)}
    (h : ∀ s ∈ ss, ∀ c ∈ s.members, c.inscribe.Lays fun next => (next, c.rowFrom next)) :
    Writing.Lays ((ss.map (Slot.map Subtree.inscribe)).mapM Subtree.inscribeSlot)
      (laySlots (ss.map (Slot.map Subtree.rowFrom))) := by
  induction ss with
  | nil => exact .pure []
  | cons s ss ih =>
    obtain ⟨hs, hss⟩ := List.forall_mem_cons.1 h
    rw [List.map_cons, List.mapM_cons]
    exact (lays_slot hs).bind fun slot => (ih hss).map (slot :: ·)

end Image

/-- A node that was put at the end of a row is found again, whatever has come behind it. -/
theorem modify_length_append {α : Type} (xs ys : List α) (x : α) (f : α → α) :
    (xs ++ [x] ++ ys).modify xs.length f = xs ++ f x :: ys := by
  rw [List.append_assoc]
  exact List.modifyTailIdx_add (List.modifyHead f) 0 xs (x :: ys)

/-- **A subtree is written as it is laid out**, behind any row. -/
theorem Subtree.inscribe_lays (s : Subtree) : s.inscribe.Lays fun next => (next, s.rowFrom next) := by
  induction s using Subtree.induct with
  | node h ss ih =>
    intro row
    have hchildren := Image.lays_slots ih (row ++ [h.blank])
    rw [List.length_append, List.length_singleton] at hchildren
    rw [inscribe_node, inscribeNode_run hchildren, modify_length_append]
    exact congrArg (fun block => (row.length, row ++ block)) (rowFrom_node h ss row.length).symm

/-- A node of a tree, written down as a row of its own. -/
def Tree.inscription (t : Tree) (n : NodeId) : Except Failure (Nat × List ImageNode) := do
  return (← t.ownSubtree n).inscribe.run []

/-- **The image of a node is the row that is written.** -/
theorem Tree.inscription_of_snapshot {t : Tree} {n : NodeId} {image : Image} (h : t.snapshot n = .ok image) :
    t.inscription n = .ok (0, image.nodes) := by
  obtain ⟨s, hs, himage⟩ := bind_eq_ok.1 h
  cases himage
  exact bind_eq_ok.2 ⟨s, hs, congrArg Except.ok (s.inscribe_lays [])⟩

end SyntaxForest
