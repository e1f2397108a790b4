import SyntaxForest.Proofs.Edit.View
import SyntaxForest.Proofs.Edit.Visible
import SyntaxForest.Proofs.Subtree.Reading
import Mathlib.Data.List.Basic
import Mathlib.Data.List.Induction

/-!
# Proofs/Edit/Enumeration — the children of a node, property by property

The properties that a shape offers of a kind are declared in one table, the stores in another, and a child is
filed under the property that owns its store.  Whoever goes through the properties on offer and asks each what
it holds (`Tree.collected`) finds the children that the shape shows, in the same order, and finds each of them
under the property that the child itself names.

* `Kind.properties_slots` — the properties on offer read the live slots, in order.
* `Tree.collect_eq_ok` — what is found under one property.
* `Tree.Enumerates` — what is asked of such a reading as a whole, shown of every tree by `Tree.enumerates`.
-/

namespace SyntaxForest

/-! ## The tables -/

namespace Kind

variable {k : Kind} {shape : Shape} {p : Property}

/-- **The properties on offer read the live slots**, each slot once, in order. -/
theorem properties_slots (shape : Shape) (k : Kind) :
    (k.properties shape).map Property.slot = (List.range k.storage.length).filter (k.slotIsLive shape) := by
  cases shape <;> cases k <;> rfl

/-- A property on offer is one of the kind, and it is the one through which the shape reads its slot. -/
theorem liveProperty?_of_mem (h : p ∈ k.properties shape) :
    p.owner = k ∧ k.liveProperty? shape p.slot = some p := by
  revert p
  cases shape <;> cases k <;> decide

theorem slotIsLive_of_mem (h : p ∈ k.properties shape) : k.slotIsLive shape p.slot = true :=
  List.any_eq_true.2 ⟨p, h, beq_self_eq_true _⟩

/-- The items that a shape offers, picked by the numbers of the live slots. -/
theorem liveOnly_eq_filterMap {α : Type} (shape : Shape) (k : Kind) (xs : List α) :
    k.liveOnly shape xs = ((List.range xs.length).filter (k.slotIsLive shape)).filterMap (xs[·]?) := by
  induction xs using List.reverseRecOn with
  | nil => rfl
  | append_singleton xs x ih =>
    have hold : ∀ i ∈ (List.range xs.length).filter (k.slotIsLive shape), (xs ++ [x])[i]? = xs[i]? :=
      fun i hi => List.getElem?_append_left (List.mem_range.1 (List.mem_filter.1 hi).1)
    rw [liveOnly, List.zipIdx_append, List.filterMap_append, ← liveOnly, ih, List.length_append,
      List.length_singleton, List.range_succ, List.filter_append, List.filterMap_append,
      List.filterMap_congr hold]
    congr 1
    by_cases hlive : k.slotIsLive shape xs.length = true <;> simp [hlive]

/-- **The children that a shape shows**, property by property. -/
theorem flatMap_liveOnly {α : Type} {slots : List (Slot α)} (shape : Shape) (hfits : k.fits slots = true) :
    (k.liveOnly shape slots).flatMap Slot.members =
      (k.properties shape).flatMap fun p => (slots[p.slot]?).elim [] Slot.members := by
  have hlen : slots.length = k.storage.length := by
    simp only [fits, Bool.and_eq_true, beq_iff_eq] at hfits
    exact hfits.1
  rw [liveOnly_eq_filterMap, hlen, ← properties_slots, List.filterMap_map,
    List.filterMap_eq_flatMap_toList, List.flatMap_assoc]
  refine List.flatMap_congr fun p _ => ?_
  change ((slots[p.slot]?).toList).flatMap Slot.members = _
  cases slots[p.slot]? <;> simp

end Kind

/-! ## What a node holds under one property -/

namespace Tree

variable {t : Tree} {n c : NodeId} {k : Kind} {p : Property} {l : Location}

/-- What a property holds, with nothing coming to exist: no node for a scalar, at most one for a single child,
the elements of a list.  A view of a longer list does not answer; its list does. -/
def collect (t : Tree) (n : NodeId) (p : Property) : Except Failure (List NodeId) :=
  match p.form with
  | .scalar _ => return []
  | .list _ => do t.elements (← t.sequence n p)
  | .child _ =>
    match t.peekChild n p with
    | .error (.refused (.unsupported _ _ (.multipleElements _))) => do t.elements (← t.sequence n p.primary)
    | found => return (← found).toList

/-- What each property on offer holds, in the order of the grammar. -/
def collected (t : Tree) (n : NodeId) : Except Failure (List (Property × List NodeId)) := do
  ((← t.kind n).properties t.shape).mapM fun p => return (p, ← t.collect n p)

/-- The elements of the list that a property or its store is. -/
theorem elements_of_slot {ty : ChildType} {items : List Nat} (hn : n.tree = t.id) (hp : t.Offers n.index p)
    (hform : p.form = .list ty) (hs : Arena.slotAt t.records n.index p.slot = some (.list items)) :
    (do t.elements (← t.sequence n p)) = .ok (items.map t.handle) :=
  bind_eq_ok.2 ⟨⟨n, p, ty⟩, Sequence.sequence_eq_ok.2 ⟨⟨hn, hp, hform⟩, rfl, rfl⟩,
    bind_eq_ok.2 ⟨items, Sequence.items_eq_ok.2 ⟨hn, hs⟩, rfl⟩⟩

/-- **What is found under a property** is what its slot holds. -/
theorem collect_eq_ok (hf : Arena.Forest t.records) (hn : n.tree = t.id) (hp : t.Offers n.index p) :
    t.collect n p = .ok ((Arena.membersAt t.records n.index p.slot).map t.handle) := by
  rw [collect]
  rcases hform : p.form with sty | ty | ty
  · obtain ⟨r, hr, ho, -⟩ := hp
    obtain ⟨v, hs⟩ := exists_scalar hf hr ho hform
    rw [Arena.membersAt_of_content hr hs]
    rfl
  · rcases hview : p.isSoleElementView with _ | _
    · obtain ⟨c, hs, hpeek⟩ := peekChild_direct hf hn hp hform hview
      rw [hpeek, Arena.membersAt_of_slot hs]
      cases c <;> rfl
    · obtain ⟨items, hs⟩ := hp.exists_items hf hview
      rw [Arena.membersAt_of_slot hs]
      obtain ⟨rfl, hpeek⟩ | ⟨c, rfl, hpeek⟩ | ⟨-, hpeek⟩ := peekChild_view hn hp hview hs <;> rw [hpeek]
      · rfl
      · rfl
      · obtain ⟨_, hlist⟩ := Property.form_of_view hview
        exact elements_of_slot hn hp.primary hlist (by rwa [p.primary_slot])
  · obtain ⟨content, _, hs, hfits, -⟩ := hf.exists_slotAt hp.kindAt (by rw [hform]; rfl)
    rw [Property.primary_of_list hform, hform] at hfits
    obtain ⟨items, rfl⟩ := Slot.eq_list_of_fits hfits
    rw [Arena.membersAt_of_slot hs]
    exact elements_of_slot hn hp hform hs

/-- A property that does not answer for the number of its elements has that many. -/
theorem length_of_many {count : Nat} (hf : Arena.Forest t.records) (hn : n.tree = t.id)
    (hp : t.Offers n.index p)
    (h : t.peekChild n p = refuse (.unsupported k p (.multipleElements count))) :
    (Arena.membersAt t.records n.index p.slot).length = count := by
  have hproperty : t.checkProperty n p = .ok () := checkProperty_iff.2 ⟨hn, hp⟩
  rcases hform : p.form with _ | ty | _
  · simp [peekChild, hproperty, Property.childType, hform, refuse, bind, Except.bind] at h
  · rcases hview : p.isSoleElementView with _ | _
    · obtain ⟨c, -, hpeek⟩ := peekChild_direct hf hn hp hform hview
      cases h.symm.trans hpeek
    · obtain ⟨items, hs⟩ := hp.exists_items hf hview
      rw [Arena.membersAt_of_slot hs]
      obtain ⟨-, hpeek⟩ | ⟨c, -, hpeek⟩ | ⟨-, hpeek⟩ := peekChild_view hn hp hview hs
      · cases h.symm.trans hpeek
      · cases h.symm.trans hpeek
      · cases h.symm.trans hpeek
        rfl
  · simp [peekChild, hproperty, Property.childType, hform, refuse, bind, Except.bind] at h

/-! ## What a node holds -/

/-- **A reading that finds the children of a node, property by property.** -/
structure Enumerates (t : Tree) (n : NodeId) (rows : List (Property × List NodeId)) : Prop where
  properties : ∃ k, t.kind n = .ok k ∧ rows.map Prod.fst = k.properties t.shape
  children : t.children n = .ok (rows.flatMap Prod.snd)
  /-- what is found names the node as its parent, and the property it was found under as its place -/
  filed : ∀ row ∈ rows, ∀ c ∈ row.2,
    t.parent c = .ok (some n) ∧ t.locationInParent c = .ok (some row.1)
  /-- under a view of too long a list, all its elements are found -/
  many : ∀ row ∈ rows, ∀ k count,
    t.peekChild n row.1 = refuse (.unsupported k row.1 (.multipleElements count)) → row.2.length = count
  /-- no child is left out -/
  complete : ∀ c, t.parent c = .ok (some n) → ∃ row ∈ rows, c ∈ row.2

/-- What is found under a property. -/
def row (t : Tree) (n : NodeId) (p : Property) : Property × List NodeId :=
  (p, (Arena.membersAt t.records n.index p.slot).map t.handle)

/-- A child is found by its parent under the property that it names. -/
theorem filed_of_mem (hf : Arena.Forest t.records) (hn : n.tree = t.id)
    (hk : Arena.kindAt t.records n.index = some k) (hp : p ∈ k.properties t.shape)
    (hc : c ∈ (t.row n p).2) : t.parent c = .ok (some n) ∧ t.locationInParent c = .ok (some p) := by
  obtain ⟨d, hd, rfl⟩ := List.mem_map.1 hc
  obtain ⟨ho, hlive⟩ := Kind.liveProperty?_of_mem hp
  obtain ⟨q, hq, hl⟩ := hf.filed hd
  obtain rfl : p.primary = q := Option.some.inj ((Arena.storageAt_slot (ho ▸ hk)).symm.trans hq)
  obtain ⟨r, hr, hloc⟩ := Arena.locationAt_eq_some.1 hl
  refine ⟨parent_eq_some.2 ⟨rfl, _, hl, handle_index hn⟩, bind_eq_ok.2 ⟨r, look_eq_ok.2 ⟨rfl, hr⟩, ?_⟩⟩
  rw [hloc, Option.map_some, p.primary_owner, p.primary_slot, ho, hlive]
  rfl

/-- **Whoever goes through the properties on offer finds the children.** -/
theorem enumerates (hf : Arena.Forest t.records) (hv : t.Visible) (hn : n ∈ t.nodes) :
    ∃ rows, t.collected n = .ok rows ∧ t.Enumerates n rows := by
  obtain ⟨hn, hlt⟩ := mem_nodes.1 hn
  obtain ⟨r, hr⟩ := Arena.exists_record hlt
  have hk := Arena.kindAt_of_record hr
  have hkind : t.kind n = .ok r.kind := kind_eq_ok.2 ⟨hn, hk⟩
  have hoffers : ∀ p ∈ r.kind.properties t.shape, t.Offers n.index p := fun p hp =>
    ⟨r, hr, (Kind.liveProperty?_of_mem hp).1, Kind.slotIsLive_of_mem hp⟩
  have hcollected : t.collected n = .ok ((r.kind.properties t.shape).map (t.row n)) := by
    refine bind_eq_ok.2 ⟨_, hkind, mapM_eq_ok.2
      ⟨(r.kind.properties t.shape).map fun p => (p, t.row n p), ?_, ?_, fun x hx => ?_⟩⟩
    · simp [Function.comp_def]
    · simp [Function.comp_def]
    · obtain ⟨p, hp, rfl⟩ := List.mem_map.1 hx
      exact bind_eq_ok.2 ⟨_, collect_eq_ok hf hn (hoffers p hp), rfl⟩
  refine ⟨_, hcollected, ⟨r.kind, hkind, by simp [row, Function.comp_def]⟩, ?_, ?_, ?_, ?_⟩
  · refine bind_eq_ok.2 ⟨r, look_eq_ok.2 ⟨hn, hr⟩, ?_⟩
    rw [Record.children, Kind.flatMap_liveOnly _ (hf.fits hr), List.map_flatMap, List.flatMap_map]
    simp only [row, Arena.membersAt_of_record hr]
    rfl
  · intro x hx c hc
    obtain ⟨p, hp, rfl⟩ := List.mem_map.1 hx
    exact filed_of_mem hf hn hk hp hc
  · intro x hx k count hmany
    obtain ⟨p, hp, rfl⟩ := List.mem_map.1 hx
    rw [row, List.length_map]
    exact length_of_many hf hn (hoffers p hp) hmany
  · intro c hc
    obtain ⟨hown, l, hl, rfl⟩ := parent_eq_some.1 hc
    obtain ⟨-, hmem⟩ := hf.held hl
    obtain ⟨k, hk', hlive⟩ := hv _ _ _ hmem
    obtain rfl : r.kind = k := Option.some.inj (hk.symm.trans hk')
    obtain ⟨p, hp, hslot⟩ := List.any_eq_true.1 hlive
    refine ⟨t.row _ p, List.mem_map_of_mem hp, (mem_map_handle hown).2 ?_⟩
    rwa [beq_iff_eq.1 hslot]

end Tree

end SyntaxForest
