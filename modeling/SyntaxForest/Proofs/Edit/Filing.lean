import SyntaxForest.Proofs.Subtree.Preorder
import SyntaxForest.Proofs.Subtree.Replanting

/-!
# Proofs/Edit/Filing — every node of a planted image gets its place once

A graft takes the positions that an image names for indices, twice over: new records hold the moved positions in
their slots, and for each position that is named the record there is given a place.  Nothing is asked before an
index is used; that there is a record at each, and that no record is given a place twice, is a matter of the image.

* `Tree.Files` — the places that a graft writes, in order, and what comes of them.
* `Tree.planted_files` — **each new node but the first is filed once**, where it is stored.
* `Image.Sound.graft_cases` — an image is planted so, or it is barred and nothing has happened.
-/

namespace SyntaxForest

namespace Arena

variable {a : Arena} {flags : Flags} {row : List ImageNode} {e : Nat × Location}

/-- A new node is stored in the slot that it is filed under. -/
theorem mem_plant_of_filed (he : e ∈ (Image.edgesFrom 0 row).map (shift a.size)) :
    e.1 ∈ (a.plant flags row).membersAt e.2.parent e.2.property.slot := by
  obtain ⟨⟨c, l⟩, hcl, rfl⟩ := List.mem_map.1 he
  obtain ⟨node, s, content, hnode, hs, hp, hc⟩ := Image.mem_edgesFrom.1 hcl
  obtain ⟨rfl, -⟩ := Kind.storage_slot hp
  exact mem_plant.2 ⟨node, content, c, hnode, hs, hc, rfl⟩

end Arena

namespace Tree

variable {u : Tree} {i : Image} {T : Typing}

/-- **The places that planting an image writes**, one after the other.  Nodes come to exist without places, as many
as the image has, behind those that are there. -/
structure Files (u : Tree) (i : Image) (places : List (Nat × Location)) (u' : Tree) : Prop where
  records : u'.records = Arena.file
    (u.records ++ (i.nodes.map (Image.recordAt u.size u.config.defaultFlags)).toArray) places
  grown : u'.size = u.size + i.size
  /-- every new node but the first is given one place -/
  once : (places.map Prod.fst).Perm (List.range' (u.size + 1) (i.size - 1))
  /-- which is the slot that holds it -/
  stored : ∀ e ∈ places, e.1 ∈ Arena.membersAt u'.records e.2.parent e.2.property.slot
  /-- and there it is found in the end -/
  filed : ∀ e ∈ places, Arena.locationAt u'.records e.1 = some e.2
  root : Arena.locationAt u'.records u.size = none
  /-- what a new record holds in its slots are records behind it -/
  inside : ∀ {j slot c : Nat}, u.size ≤ j → c ∈ Arena.membersAt u'.records j slot → j < c ∧ c < u'.size

/-- **Planting an image files each of its nodes but the first once.** -/
theorem planted_files (hi : i.Sound T) :
    u.Files i ((Image.edgesFrom 0 i.nodes).map (Arena.shift u.size)) (u.planted i) := by
  have ⟨k, hlaid⟩ := hi
  refine ⟨planted_records, size_planted, ?once, ?stored, ?filed, ?root, ?inside⟩
  case once =>
    rw [Arena.map_fst_shift, Image.map_fst_edgesFrom hlaid.fits, ← List.map_add_range']
    exact hi.names_perm.map _
  case stored =>
    rw [planted_records]
    exact fun e he => Arena.mem_plant_of_filed he
  case filed =>
    rw [planted_records]
    refine List.forall_mem_map.2 fun e he => Arena.plant_filed hlaid he
  case root =>
    rw [planted_records]
    exact Arena.plant_root (Image.root_not_named hlaid)
  case inside =>
    intro j slot c hle hc
    rw [planted_records] at hc
    obtain ⟨d, rfl⟩ := Nat.exists_eq_add_of_le hle
    obtain ⟨node, content, c, hnode, hs, hmem, rfl⟩ := Arena.mem_plant.1 hc
    obtain ⟨hbehind, hlt⟩ :=
      hi.lt_of_mem_names hnode (List.mem_flatMap.2 ⟨content, List.mem_of_getElem? hs, hmem⟩)
    rw [size_planted]
    exact ⟨Nat.add_lt_add_left hbehind _, Nat.add_lt_add_left hlt _⟩

end Tree

/-- **An image is planted, each of its nodes filed once, or it is barred** and nothing has happened. -/
theorem Image.Sound.graft_cases {T : Typing} {i : Image} (hi : i.Sound T) (u : Tree) :
    ((∀ k p, ¬i.Exceeds u.shape k p) ∧
        ∃ places u', i.graft u = .ok (u.handle u.size) u' ∧ u.Files i places u') ∨
      ∃ k p, i.Exceeds u.shape k p ∧
        i.graft u = .error (.refused (.unsupported k p (.notInShape u.shape))) u := by
  rcases i.checkPlantable_cases u.shape with ⟨hcheck, hfits⟩ | ⟨k, p, hexceeds, hcheck⟩
  · exact .inl ⟨hfits, _, _, graft_run hi hcheck, Tree.planted_files hi⟩
  · exact .inr ⟨k, p, hexceeds, TreeM.look_bind_error hcheck⟩

end SyntaxForest
