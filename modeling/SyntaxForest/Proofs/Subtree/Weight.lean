import SyntaxForest.Proofs.Edit.Answers
import SyntaxForest.Proofs.Subtree.Replanting
import SyntaxForest.Proofs.Subtree.Walk
import SyntaxForest.Subtree.Footprint

/-!
# Proofs/Subtree/Weight — what nodes weigh, and how far a change of weight is felt

The weight of a node is the footprint of its subtree.  It goes by an equation: what the node costs alone
(`Arena.bulk`), and what the nodes weigh that its slots name (`Arena.offspring`).  The slots that the shape does
not read are empty, so they are not missed.

* `Arena.Forest.mem_offspring_iff` — the children of a node are those that are located there.
* `Tree.subtreeFootprint_eq_ok` — **every node of a forest has its weight**.
* `Tree.weight_eq` — **the equation of weights**.
-/

namespace SyntaxForest

/-! ## Totals -/

section Total

variable {xs ys : List Nat} {w w' : Nat → Nat} {c : Nat}

/-- The order of the summands does not matter. -/
theorem total_perm (h : xs.Perm ys) : total xs = total ys := by
  induction h with
  | nil => rfl
  | cons n _ ih => rw [total_cons, total_cons, ih]
  | swap m n ns => simp only [total_cons, Nat.add_left_comm]
  | trans _ _ ih ih' => exact ih.trans ih'

/-- Where one summand changes, the total changes by as much. -/
theorem total_map_exchange (hxs : xs.Nodup) (hc : c ∈ xs) (h : ∀ d ∈ xs, d ≠ c → w' d = w d) :
    total (xs.map w') + w c = total (xs.map w) + w' c := by
  have hperm := List.perm_cons_erase hc
  have hothers : (xs.erase c).map w' = (xs.erase c).map w := List.map_congr_left fun d hd =>
    h d (List.mem_of_mem_erase hd) (hxs.mem_erase_iff.1 hd).1
  rw [total_perm (hperm.map w'), total_perm (hperm.map w), List.map_cons, List.map_cons, hothers,
    total_cons, total_cons]
  omega

end Total

/-! ## What a node costs alone -/

/-- Whom a slot names does not count. -/
theorem Slot.footprint_map {α β : Type} (f : α → β) (s : Slot α) (form : Form) :
    (s.map f).footprint form = s.footprint form := by
  cases s <;> cases form <;> rfl

theorem Slot.footprint_withMembers (s : Slot Nat) (cs : List Nat) (form : Form) :
    (s.withMembers cs).footprint form = s.footprint form := by
  cases s <;> cases form <;> rfl

theorem Kind.footprint_map {α β : Type} (k : Kind) (f : α → β) (slots : List (Slot α)) :
    k.footprint (slots.map (Slot.map f)) = k.footprint slots := by
  simp only [footprint, List.zip_map_left, List.map_map]
  refine congrArg (fun ns => k.bareFootprint + total ns) (List.map_congr_left fun x _ => ?_)
  exact Slot.footprint_map f x.1 x.2.form

theorem Kind.footprint_modify (k : Kind) {slots : List (Slot Nat)} {s : Nat} {f : Slot Nat → Slot Nat}
    (hf : ∀ content form, (f content).footprint form = content.footprint form) :
    k.footprint (slots.modify s f) = k.footprint slots := by
  refine congrArg (fun ns => k.bareFootprint + total ns) (List.ext_getElem? fun i => ?_)
  rw [List.getElem?_map, List.getElem?_map, List.zip, List.getElem?_zipWith, List.getElem?_zipWith,
    List.getElem?_modify]
  rcases slots[i]? with _ | content <;> rcases k.storage[i]? with _ | p
  · rfl
  · rfl
  · rfl
  · by_cases hs : s = i
    · simp [hs, hf]
    · simp [hs]

namespace Arena

variable {a : Arena} {n i c : Nat} {r : Record} {p : Property} {x : Splice}

/-- What the node at an index costs alone. -/
def bulk (a : Arena) (i : Nat) : Nat := a[i]?.elim 0 fun r => r.kind.footprint r.slots

/-- The children of the node at an index, those in all its slots. -/
def offspring (a : Arena) (i : Nat) : List Nat := a[i]?.elim [] fun r => r.slots.flatMap Slot.members

theorem bulk_of_record (hr : a[i]? = some r) : a.bulk i = r.kind.footprint r.slots := by
  rw [bulk, hr]
  rfl

theorem offspring_of_record (hr : a[i]? = some r) : a.offspring i = r.slots.flatMap Slot.members := by
  rw [offspring, hr]
  rfl

theorem mem_offspring : c ∈ a.offspring i ↔ ∃ s, c ∈ a.membersAt i s := by
  rcases hr : a[i]? with _ | r
  · simp [offspring, membersAt, slotAt, hr]
  · rw [offspring_of_record hr, mem_record_iff hr]

namespace Forest

variable (h : a.Forest)

include h

/-- **The children of a node are those that are located there.** -/
theorem mem_offspring_iff : c ∈ a.offspring i ↔ ∃ l, a.locationAt c = some l ∧ l.parent = i := by
  rw [mem_offspring]
  constructor
  · rintro ⟨s, hc⟩
    obtain ⟨p, -, hl⟩ := h.filed hc
    exact ⟨_, hl, rfl⟩
  · rintro ⟨l, hl, rfl⟩
    exact ⟨_, (h.held hl).2⟩

theorem offspring_nodup : (a.offspring i).Nodup := by
  rcases hr : a[i]? with _ | r
  · rw [offspring, hr]
    exact List.nodup_nil
  · rw [offspring_of_record hr]
    exact h.members_nodup hr

theorem not_below_of_offspring (hc : c ∈ a.offspring i) : ¬a.Below c i := by
  obtain ⟨l, hl, rfl⟩ := h.mem_offspring_iff.1 hc
  exact not_below_parent hl

theorem offspring_lt (hc : c ∈ a.offspring i) : c < a.size := by
  obtain ⟨l, hl, -⟩ := h.mem_offspring_iff.1 hc
  exact lt_size_of_locationAt hl

end Forest

end Arena

/-! ## The equation of weights -/

namespace Tree

variable {t : Tree} {n : NodeId} {i : Nat} {s : Subtree}

/-- **What the node at an index weighs**, with everything below it. -/
def weight (t : Tree) (i : Nat) : Nat := (t.subtreeFootprint (t.handle i)).toOption.getD 0

/-- The footprint of a node is what it costs alone. -/
theorem footprint_eq_ok (hn : n ∈ t.nodes) : t.footprint n = .ok (Arena.bulk t.records n.index) := by
  obtain ⟨r, hr⟩ := exists_look hn
  rw [Arena.bulk_of_record (look_eq_ok.1 hr).2]
  exact bind_eq_ok.2 ⟨r, hr, rfl⟩

theorem subtreeFootprint_of_subtree (h : t.subtree n = .ok s) : t.subtreeFootprint n = .ok (s.footprint t.shape) :=
  bind_eq_ok.2 ⟨s, h, rfl⟩

/-- **The footprint of a subtree is the weight of its node.** -/
theorem subtreeFootprint_eq_ok (hf : Arena.Forest t.records) (hn : n ∈ t.nodes) :
    t.subtreeFootprint n = .ok (t.weight n.index) := by
  obtain ⟨htree, hlt⟩ := mem_nodes.1 hn
  obtain ⟨s, -, hs, -⟩ := exists_subtree hf htree hlt
  rw [weight, handle_index htree, subtreeFootprint_of_subtree hs]
  rfl

/-- …and so for a row of nodes. -/
theorem mapM_subtreeFootprint {ms : List NodeId} (hf : Arena.Forest t.records) (hms : ∀ m ∈ ms, m ∈ t.nodes) :
    ms.mapM t.subtreeFootprint = .ok ((ms.map NodeId.index).map t.weight) := by
  rw [mapM_eq_ok_map fun m hm => subtreeFootprint_eq_ok hf (hms m hm), List.map_map]
  rfl

theorem Shows.weight_eq (hf : Arena.Forest t.records) (h : t.Shows i s) : t.weight i = s.footprint t.shape := by
  obtain ⟨s', hs', hsubtree, -⟩ := exists_subtree (n := t.handle i) hf rfl h.lt_size
  obtain rfl := h.unique hs'
  rw [weight, subtreeFootprint_of_subtree hsubtree]
  rfl

/-- **The equation of weights**: a node weighs what it costs alone, and what its children weigh. -/
theorem weight_eq (hf : Arena.Forest t.records) (hv : t.Visible) (hi : i < t.size) :
    t.weight i = Arena.bulk t.records i + total ((Arena.offspring t.records i).map t.weight) := by
  obtain ⟨s, -, hs⟩ := exists_shows hf hi
  rw [hs.weight_eq hf]
  have hlive := hs.liveChildren_eq hv
  cases hs with
  | @node _ r pairs hr hfits hslots hbelow =>
    have hchildren : (r.slots.flatMap Slot.members).map t.weight =
        ((pairs.map (Slot.map Prod.snd)).flatMap Slot.members).map (Subtree.footprint t.shape) := by
      rw [hslots, Slot.flatMap_members_map, Slot.flatMap_members_map, List.map_map, List.map_map]
      refine List.map_congr_left fun x hx => ?_
      obtain ⟨slot, hslot, hx⟩ := List.mem_flatMap.1 hx
      exact (hbelow slot hslot x hx).weight_eq hf
    rw [Arena.bulk_of_record hr, Arena.offspring_of_record hr, hchildren, Subtree.footprint_node,
      Subtree.footprintNode, Subtree.map_liveChildren, hlive, Kind.footprint_map, Kind.footprint_map]
    rw [hslots, Kind.footprint_map]
    rfl

end Tree

end SyntaxForest
