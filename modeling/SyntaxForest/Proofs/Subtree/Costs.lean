import SyntaxForest.Proofs.Subtree.Bare
import SyntaxForest.Proofs.Subtree.Encounter
import SyntaxForest.Proofs.Subtree.Weight

/-!
# Proofs/Subtree/Costs — a footprint, node by node

The footprint of a subtree is a recursion over the children that a shape reads; a walk enters one node after the
other, and asks each for its own footprint.  Between the two stands the row `Subtree.costs`, which needs neither
a shape nor a tree.

* `Tree.Shows.footprint_eq` — **the footprint of a subtree is the total of the row**.
* `Tree.Shows.mapM_footprint` — **the nodes that a walk enters cost what the row says**.
* `Subtree.costs_eq_of_rowFrom` — subtrees of the same image have the same row.
-/

namespace SyntaxForest

/-- A total of totals is the total of all. -/
theorem total_flatMap {α : Type} (f : α → List Nat) (xs : List α) :
    total (xs.flatMap f) = total (xs.map fun x => total (f x)) := by
  induction xs with
  | nil => rfl
  | cons x xs ih => rw [List.flatMap_cons, total_append, ih, List.map_cons, total_cons]

namespace Subtree

variable {s s' : Subtree}

/-- **What the nodes cost**, each alone: a node first, then those below its children in order. -/
def costs (s : Subtree) : List Nat :=
  s.fold fun h ss => h.kind.footprint ss :: (ss.flatMap Slot.members).flatten

theorem costs_node (h : Head) (ss : List (Slot Subtree)) :
    (node h ss).costs = h.kind.footprint ss :: (ss.flatMap Slot.members).flatMap costs := by
  unfold costs
  rw [fold_node, Kind.footprint_map, Slot.flatMap_members_map, ← List.flatMap_def]

/-- Handles and marks cost nothing. -/
theorem costs_bare (s : Subtree) : s.bare.costs = s.costs :=
  fold_bare (fun _ _ => rfl) s

theorem costs_eq_of_rowFrom (h : s.rowFrom 0 = s'.rowFrom 0) : s.costs = s'.costs := by
  rw [← costs_bare s, rowFrom_eq_iff.1 h, costs_bare]

end Subtree

namespace Tree

variable {t : Tree} {n : NodeId} {i : Nat} {s : Subtree}

/-- **The footprint of a subtree is the total of what its nodes cost.** -/
theorem Shows.footprint_eq (hv : t.Visible) (hs : t.Shows i s) : s.footprint t.shape = total s.costs := by
  induction hs with
  | @node i r pairs hr hfits hslots hx ih =>
    have hlive := (Shows.node hr hfits hslots hx).liveChildren_eq hv
    rw [Subtree.footprint_node, Subtree.footprintNode, Subtree.map_liveChildren, hlive, Kind.footprint_map,
      Subtree.costs_node, total_cons, total_flatMap]
    exact congrArg (fun ns => _ + total ns) (List.map_congr_left (Slot.forall_mem_flatMap ih))

/-- The row says what the nodes cost. -/
theorem Shows.map_bulk (hs : t.Shows i s) :
    s.nodes.map (fun m => Arena.bulk t.records m.index) = s.costs := by
  induction hs with
  | @node i r pairs hr hfits hslots hx ih =>
    have hchildren : ∀ c ∈ (pairs.map (Slot.map Prod.snd)).flatMap Slot.members,
        c.nodes.map (fun m => Arena.bulk t.records m.index) = c.costs := Slot.forall_mem_flatMap ih
    rw [Subtree.nodes_node, Subtree.costs_node, List.map_cons, List.map_flatMap,
      List.flatMap_congr hchildren, handle, Arena.bulk_of_record hr, hslots, Kind.footprint_map,
      Kind.footprint_map]

/-- **The nodes that a walk enters cost what the row says**, in this order. -/
theorem Shows.mapM_footprint (hv : t.Visible) (hs : t.Shows i s) :
    ((s.steps t.shape fun _ => false).filterMap WalkEvent.entered?).mapM t.footprint = .ok s.costs := by
  rw [hs.entered_eq hv, mapM_eq_ok_map fun m hm => footprint_eq_ok (hs.mem_nodes m hm), hs.map_bulk]

/-- **The nodes below a node are of these footprints**: those that a walk enters, in the order in which it does.
Their total is the footprint of the subtree. -/
structure Tallies (t : Tree) (n : NodeId) (costs : List Nat) : Prop where
  walk : ∃ steps, t.preorder n {} = .ok (steps, true) ∧
    (steps.filterMap WalkEvent.entered?).mapM t.footprint = .ok costs
  sum : t.subtreeFootprint n = .ok (total costs)

theorem Shows.tallies (hf : Arena.Forest t.records) (hv : t.Visible) (hn : n.tree = t.id)
    (hs : t.Shows n.index s) : t.Tallies n s.costs where
  walk := ⟨_, preorder_eq_ok hf hn hs, hs.mapM_footprint hv⟩
  sum := by
    obtain ⟨s', hs', hsubtree, -⟩ := exists_subtree hf hn hs.lt_size
    obtain rfl := hs.unique hs'
    rw [subtreeFootprint_of_subtree hsubtree, hs.footprint_eq hv]

end Tree

end SyntaxForest
