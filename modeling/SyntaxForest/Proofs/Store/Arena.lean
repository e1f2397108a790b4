import SyntaxForest.Store.Reading
import Mathlib.Data.List.Nodup
import Mathlib.Data.List.Perm.Subperm

/-!
# Proofs/Store/Arena — an arena read downwards and upwards

An attachment is written down twice: a slot of the parent names the child (`Arena.membersAt`), and
the location of the child names the parent and the property that owns the slot
(`Arena.locationAt`, `Arena.storageAt`).  The readings here are total, so that a fact about them
needs no record at hand.

* `Arena.Chain` — the way up from a node to its root, as a relation.
* `Tree.lineage_eq_ok`, `Tree.ancestors_eq_ok` — the walk up of the library finds exactly the chain.
* `Arena.Chain.nodup`, `Arena.Chain.length_le` — a chain does not return to a node, and is no longer
  than the arena.
-/

namespace SyntaxForest

/-- The property that owns a slot is filed under itself. -/
theorem Kind.primary_of_storage {k : Kind} {s : Nat} {p : Property} (h : k.storage[s]? = some p) :
    p.primary = p := by
  obtain ⟨rfl, rfl⟩ := Kind.storage_slot h
  rw [p.storage_primary] at h
  exact Option.some.inj h

/-- A stored property is stored at its slot. -/
theorem Kind.storage_of_mem {k : Kind} {p : Property} (h : p ∈ k.storage) :
    k.storage[p.slot]? = some p ∧ p.owner = k := by
  obtain ⟨i, hi⟩ := List.mem_iff_getElem?.1 h
  obtain ⟨rfl, hk⟩ := Kind.storage_slot hi
  exact ⟨hi, hk⟩

/-- The records of a tree, by index. -/
abbrev Arena := Array Record

namespace Arena

variable {a b : Arena} {i j s : Nat} {r : Record} {l : Location} {chain chain' : List Nat}

/-- The kind of the node at an index. -/
def kindAt (a : Arena) (i : Nat) : Option Kind := a[i]?.map Record.kind

/-- The content of a slot. -/
def slotAt (a : Arena) (i s : Nat) : Option (Slot Nat) := a[i]?.bind (·.slots[s]?)

/-- The children that a slot names, in order. -/
def membersAt (a : Arena) (i s : Nat) : List Nat := (a.slotAt i s).elim [] Slot.members

/-- Where the node at an index is attached. -/
def locationAt (a : Arena) (i : Nat) : Option Location := a[i]?.bind Record.location

/-- The property that owns a slot. -/
def storageAt (a : Arena) (i s : Nat) : Option Property := (a.kindAt i).bind (·.storage[s]?)

theorem kindAt_of_record (h : a[i]? = some r) : a.kindAt i = some r.kind := by simp [kindAt, h]

theorem slotAt_of_record (h : a[i]? = some r) : a.slotAt i s = r.slots[s]? := by simp [slotAt, h]

theorem membersAt_of_record (h : a[i]? = some r) :
    a.membersAt i s = (r.slots[s]?).elim [] Slot.members := by
  rw [membersAt, slotAt_of_record h]

theorem membersAt_of_slot {content : Slot Nat} (h : a.slotAt i s = some content) :
    a.membersAt i s = content.members := by simp [membersAt, h]

theorem locationAt_of_record (h : a[i]? = some r) : a.locationAt i = r.location := by
  simp [locationAt, h]

theorem storageAt_of_record (h : a[i]? = some r) : a.storageAt i s = r.kind.storage[s]? := by
  simp [storageAt, kindAt_of_record h]

theorem locationAt_eq_some :
    a.locationAt i = some l ↔ ∃ r, a[i]? = some r ∧ r.location = some l := by
  simp [locationAt, Option.bind_eq_some_iff]

theorem lt_size_of_locationAt (h : a.locationAt i = some l) : i < a.size := by
  obtain ⟨r, hr, -⟩ := locationAt_eq_some.1 h
  exact (Array.getElem?_eq_some_iff.1 hr).1

theorem exists_record (h : i < a.size) : ∃ r, a[i]? = some r :=
  ⟨a[i], Array.getElem?_eq_getElem h⟩

theorem lt_size_of_record (h : a[i]? = some r) : i < a.size :=
  (Array.getElem?_eq_some_iff.1 h).1

/-- The property that owns a slot has that slot, and belongs to the kind of the node. -/
theorem slot_of_storageAt {p : Property} (h : a.storageAt i s = some p) :
    p.slot = s ∧ a.kindAt i = some p.owner := by
  obtain ⟨k, hk, hp⟩ := Option.bind_eq_some_iff.1 h
  obtain ⟨hs, ho⟩ := Kind.storage_slot hp
  exact ⟨hs, ho ▸ hk⟩

theorem lt_size_of_storageAt {p : Property} (h : a.storageAt i s = some p) : i < a.size := by
  obtain ⟨r, hr, -⟩ := Option.map_eq_some_iff.1 (slot_of_storageAt h).2
  exact lt_size_of_record hr

/-- Any property of a node's kind is filed under the owner of its slot. -/
theorem storageAt_slot {p : Property} (h : a.kindAt i = some p.owner) :
    a.storageAt i p.slot = some p.primary := by
  rw [storageAt, h]
  exact p.storage_primary

/-- The property that owns a slot is filed under itself. -/
theorem primary_of_storageAt {p : Property} (h : a.storageAt i s = some p) : p.primary = p := by
  obtain ⟨k, -, hp⟩ := Option.bind_eq_some_iff.1 h
  exact Kind.primary_of_storage hp

/-! ## The way up -/

/-- **The way up** from a node: the node, its parent, and so on up to one without a parent. -/
inductive Chain (a : Arena) : Nat → List Nat → Prop
  | root {i : Nat} : i < a.size → a.locationAt i = none → Chain a i [i]
  | up {i : Nat} {l : Location} {chain : List Nat} :
    a.locationAt i = some l → Chain a l.parent chain → Chain a i (i :: chain)

namespace Chain

theorem mem_self (h : a.Chain i chain) : i ∈ chain := by
  cases h <;> exact List.mem_cons_self

theorem unique (h : a.Chain i chain) (h' : a.Chain i chain') : chain = chain' := by
  induction h generalizing chain' with
  | root _ hl =>
    cases h' with
    | root _ _ => rfl
    | up hl' _ => rw [hl] at hl'; cases hl'
  | up hl _ ih =>
    cases h' with
    | root _ hl' => rw [hl] at hl'; cases hl'
    | up hl' h' =>
      rw [hl] at hl'
      cases hl'
      rw [ih h']

/-- A node on the way up has the rest of the way as its own. -/
theorem of_mem (h : a.Chain i chain) (hj : j ∈ chain) :
    ∃ rest, a.Chain j rest ∧ rest <:+ chain := by
  induction h with
  | root hi hl =>
    obtain rfl := List.mem_singleton.1 hj
    exact ⟨_, .root hi hl, List.suffix_refl _⟩
  | up hl h ih =>
    rcases List.mem_cons.1 hj with rfl | hj
    · exact ⟨_, .up hl h, List.suffix_refl _⟩
    · obtain ⟨rest, hr, hs⟩ := ih hj
      exact ⟨rest, hr, hs.trans (List.suffix_cons _ _)⟩

theorem lt_size (h : a.Chain i chain) (hj : j ∈ chain) : j < a.size := by
  obtain ⟨_, hr, -⟩ := h.of_mem hj
  cases hr with
  | root hi _ => exact hi
  | up hl _ => exact lt_size_of_locationAt hl

/-- **A chain does not return**: a second visit would have the whole chain as a proper part of
itself. -/
theorem nodup (h : a.Chain i chain) : chain.Nodup := by
  induction h with
  | root _ _ => exact List.nodup_singleton _
  | @up i l chain hl h ih =>
    refine List.nodup_cons.2 ⟨fun hi => ?_, ih⟩
    obtain ⟨rest, hr, hs⟩ := h.of_mem hi
    rw [hr.unique (.up hl h)] at hs
    have := hs.length_le
    rw [List.length_cons] at this
    omega

theorem length_le (h : a.Chain i chain) : chain.length ≤ a.size := by
  have hsub : chain ⊆ List.range a.size := fun j hj => List.mem_range.2 (h.lt_size hj)
  simpa using (List.subperm_of_subset h.nodup hsub).length_le

/-- No node stands above its own parent. -/
theorem not_mem_parent (h : a.Chain l.parent chain) (hl : a.locationAt i = some l) : i ∉ chain :=
  (List.nodup_cons.1 (Chain.up hl h).nodup).1

/-- Changes off the way up leave it as it is. -/
theorem congr (h : a.Chain i chain) (hsize : a.size ≤ b.size)
    (hloc : ∀ j ∈ chain, b.locationAt j = a.locationAt j) : b.Chain i chain := by
  induction h with
  | root hi hl => exact .root (by omega) ((hloc _ List.mem_cons_self).trans hl)
  | up hl _ ih =>
    exact .up ((hloc _ List.mem_cons_self).trans hl)
      (ih fun j hj => hloc j (List.mem_cons_of_mem _ hj))

end Chain

end Arena

/-! ## The walk up of the library -/

namespace Tree

variable {t : Tree} {n c : NodeId} {fuel i : Nat} {chain : List Nat}

open Arena

theorem lineage_eq_ok :
    t.lineage fuel i = .ok chain ↔ Chain t.records i chain ∧ chain.length ≤ fuel := by
  induction fuel generalizing i chain with
  | zero =>
    simp only [lineage, breach_ne_ok, false_iff, not_and]
    intro h
    have := List.length_pos_of_mem h.mem_self
    omega
  | succ fuel ih =>
    simp only [lineage, bind_eq_ok, record_eq_ok]
    constructor
    · rintro ⟨r, hr, h⟩
      rcases hl : r.location with _ | l <;> rw [hl] at h
      · cases h
        refine ⟨.root (lt_size_of_record hr) ?_, by simp⟩
        rw [locationAt_of_record hr, hl]
      · obtain ⟨rest, hrest, h⟩ := bind_eq_ok.1 h
        cases h
        obtain ⟨hc, hle⟩ := ih.1 hrest
        exact ⟨.up ((locationAt_of_record hr).trans hl) hc, by simpa using hle⟩
    · rintro ⟨hc, hle⟩
      cases hc with
      | root hi hl =>
        obtain ⟨r, hr⟩ := exists_record hi
        refine ⟨r, hr, ?_⟩
        rw [← locationAt_of_record hr, hl]
        rfl
      | up hl hc =>
        obtain ⟨r, hr, hl'⟩ := locationAt_eq_some.1 hl
        refine ⟨r, hr, ?_⟩
        rw [hl']
        exact bind_eq_ok.2 ⟨_, ih.2 ⟨hc, by simpa using hle⟩, rfl⟩

/-- **The ancestors of a node are its chain**, as handles. -/
theorem ancestors_eq_ok {ns : List NodeId} :
    t.ancestors n = .ok ns ↔
      n.tree = t.id ∧ ∃ chain, Chain t.records n.index chain ∧ ns = chain.map t.handle := by
  simp only [ancestors, bind_eq_ok, checkReadable_eq_ok, lineage_eq_ok, size]
  constructor
  · rintro ⟨⟨⟩, hn, chain, ⟨hc, -⟩, h⟩
    cases h
    exact ⟨hn, chain, hc, rfl⟩
  · rintro ⟨hn, chain, hc, rfl⟩
    exact ⟨⟨⟩, hn, chain, ⟨hc, hc.length_le⟩, rfl⟩

@[simp] theorem mem_nodes : n ∈ t.nodes ↔ n.tree = t.id ∧ n.index < t.size := by
  obtain ⟨tree, index⟩ := n
  simp [nodes, handle, and_comm, eq_comm]

theorem handle_index (h : n.tree = t.id) : t.handle n.index = n := by
  rw [handle, ← h]

/-- The nodes of one tree are told apart by their indices. -/
theorem eq_of_index (hc : c.tree = t.id) (hn : n.tree = t.id) (h : c.index = n.index) : c = n := by
  rw [← handle_index hc, ← handle_index hn, h]

theorem mem_map_handle (h : c.tree = t.id) : c ∈ chain.map t.handle ↔ c.index ∈ chain := by
  refine ⟨fun hc => ?_, fun hc => List.mem_map.2 ⟨c.index, hc, handle_index h⟩⟩
  obtain ⟨i, hi, rfl⟩ := List.mem_map.1 hc
  exact hi

end Tree

end SyntaxForest
