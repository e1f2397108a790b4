import SyntaxForest.Proofs.Edit.Cycle
import SyntaxForest.Proofs.Subtree.Encounter
import SyntaxForest.Proofs.Subtree.Replanting

/-!
# Proofs/Subtree/Block — a planted image is one block of the arena

An image is planted node by node at the end of the arena, and its row is in preorder.  So the copy is not only
somewhere among the new nodes: a walk from its root enters all of them, one index after the other.

* `Tree.Shows.nodes_eq` — **the nodes of a planted block are those of the indices that follow**.
* `Tree.planted_copyAt` — **what has been planted stands in one block** (`Tree.CopyAt`).
* `Tree.CopyAt.mono` — where it stays when more is added.
-/

namespace SyntaxForest

/-! ## Blocks of indices -/

/-- Where blocks abut, the nodes of all of them are those of the indices that follow, if this is so of each. -/
theorem Image.Abut.nodes_eq {start base : Nat} {blocks placed : List (Nat × Subtree)} {row : List ImageNode}
    (h : Abut start blocks row) (handle : Nat → NodeId)
    (hplaced : placed.map Prod.fst = blocks.map fun x => base + x.1)
    (hblocks : ∀ x ∈ blocks, ∀ y ∈ placed, y.1 = base + x.1 →
      y.2.nodes = (List.range' y.1 x.2.size).map handle) :
    (placed.map Prod.snd).flatMap Subtree.nodes =
      (List.range' (base + start) (total ((blocks.map Prod.snd).map Subtree.size))).map handle := by
  induction h generalizing placed with
  | nil start =>
    obtain rfl := List.map_eq_nil_iff.1 hplaced
    rfl
  | @cons start s blocks row _ ih =>
    obtain ⟨y, placed, rfl, hy, hplaced⟩ := List.map_eq_cons_iff.1 hplaced
    have hfirst := hblocks _ List.mem_cons_self y List.mem_cons_self hy
    have hrest := ih hplaced fun x hx y' hy' =>
      hblocks x (List.mem_cons_of_mem _ hx) y' (List.mem_cons_of_mem _ hy')
    rw [Subtree.length_rowFrom, ← Nat.add_assoc] at hrest
    rw [List.map_cons, List.flatMap_cons, hfirst, hrest, hy, ← List.map_append, List.range'_append_1]
    rfl

namespace Tree

variable {u u' : Tree} {start : Nat} {root : NodeId} {i : Image} {T : Typing} {s s' : Subtree}

/-- **The nodes of a planted block are those of the indices that follow**, in order. -/
theorem Shows.nodes_eq {a : Arena} {flags : Flags} {row : List ImageNode}
    (hu : u.records = Arena.plant a flags row) (hrow : s.rowFrom start <+: row.drop start)
    (hs' : u.Shows (a.size + start) s') : s'.nodes = (List.range' (a.size + start) s.size).map u.handle := by
  induction s using Subtree.induct generalizing start s' with
  | node h ss ih =>
    obtain ⟨pairs, rest, rfl, hnode, habut, hrest⟩ := Subtree.exists_abut hrow
    cases hs' with
    | @node _ r pairs' hr hfits hslots hx =>
      obtain ⟨node, hnode', hr'⟩ := Arena.exists_node_of_plant (hu ▸ hr)
      rw [hnode] at hnode'
      cases hnode'
      have hkeys : pairs'.map (Slot.map Prod.fst) = pairs.map (Slot.map fun x => a.size + x.1) := by
        rw [← hslots, hr']
        simp [Image.recordAt, Function.comp_def]
      have hplaced : (pairs'.flatMap Slot.members).map Prod.fst =
          (pairs.flatMap Slot.members).map fun x => a.size + x.1 := by
        rw [← Slot.flatMap_members_map, hkeys, Slot.flatMap_members_map]
      have hchildren := habut.nodes_eq u.handle hplaced fun x hxmem y hy hyx => by
        obtain ⟨slot, hslot, hmem⟩ := Slot.mem_members_of_mem hxmem
        obtain ⟨slot', hslot', hy⟩ := List.mem_flatMap.1 hy
        have hshows := hx slot' hslot' y hy
        rw [hyx] at hshows ⊢
        exact ih slot hslot x.2 hmem (habut.prefix_drop hrest x hxmem) hshows
      rw [Subtree.nodes_node, Subtree.size_node, Slot.flatMap_members_map, Slot.flatMap_members_map, hchildren,
        Nat.add_comm 1, List.range'_succ, List.map_cons]
      rfl

/-! ## Copies where they stand -/

/-- **A copy of an image stands in one block**, from an index on.  Its root has no parent and gives the image back,
and a walk from there enters the nodes of the indices that follow, one for each node of the image. -/
structure CopyAt (u : Tree) (start : Nat) (i : Image) (root : NodeId) : Prop where
  root_eq : root = u.handle start
  parent : u.parent root = .ok none
  image : u.snapshot root = .ok { i with source := root }
  block : ∃ steps, u.preorder root {} = .ok (steps, true) ∧
    steps.filterMap WalkEvent.entered? = (List.range' start i.size).map u.handle

/-- **What has been planted stands in one block.** -/
theorem planted_copyAt (h : u.Sound T) (hv : (u.planted s.image).Visible) (hi : s.image.Sound T)
    (hcheck : s.image.checkPlantable u.shape = .ok ()) :
    (u.planted s.image).CopyAt u.size s.image (u.handle u.size) := by
  have hgrafted := grafted h hi hcheck
  have hf := (h.plant hi).forest
  have hsize : u.size < (u.planted s.image).size := by
    rw [hgrafted.grown, s.size_image]
    exact Nat.lt_add_of_pos_right s.size_pos
  obtain ⟨s', hs', -, -⟩ := exists_subtree hf (n := u.handle u.size) planted_id.symm hsize
  have hwhole : s.rowFrom 0 <+: s.image.nodes.drop 0 := List.prefix_refl _
  refine ⟨by rw [planted_handle], hgrafted.parent, hgrafted.image, _, preorder_eq_ok hf planted_id.symm hs', ?_⟩
  rw [hs'.entered_eq hv, Shows.nodes_eq planted_records hwhole hs', s.size_image]
  rfl

/-- **It stays there when more is added.** -/
theorem CopyAt.mono (h : u.CopyAt start i root) (hf : Arena.Forest u.records) (hf' : Arena.Forest u'.records)
    (hextends : u.Extends u') : u'.CopyAt start i root := by
  obtain ⟨b, hown, himage⟩ := bind_eq_ok.1 h.image
  obtain ⟨⟨⟩, hroot, hunfold⟩ := bind_eq_ok.1 hown
  have hroot := own_eq_ok.1 hroot
  have hroot' := hroot.trans hextends.id.symm
  have hshows := unfold_shows hunfold
  have hlt' := Nat.lt_of_lt_of_le hshows.lt_size hextends.size
  obtain ⟨b', hshows', -, hown'⟩ := exists_subtree hf' hroot' hlt'
  obtain rfl := (hextends.shows hshows).unique hshows'
  have hhandle : u'.handle = u.handle := funext fun j => by rw [handle, handle, hextends.id]
  have hshape : u'.shape = u.shape := congrArg Config.shape hextends.config
  have hwalk : u.preorder root {} = .ok (b.steps u.shape fun _ => false, true) := preorder_eq_ok hf hroot hshows
  have hwalk' : u'.preorder root {} = .ok (b.steps u'.shape fun _ => false, true) :=
    preorder_eq_ok hf' hroot' hshows'
  obtain ⟨steps, hsteps, hentered⟩ := h.block
  refine ⟨hhandle ▸ h.root_eq, parent_eq_none.2 ⟨mem_nodes.2 ⟨hroot', hlt'⟩, ?_⟩,
    bind_eq_ok.2 ⟨b, hown', himage⟩, steps, ?_, hhandle ▸ hentered⟩
  · rw [Arena.locationAt_of_old hextends.old hshows.lt_size]
    exact (parent_eq_none.1 h.parent).2
  · rw [hwalk', hshape, ← hwalk, hsteps]

end Tree

end SyntaxForest
