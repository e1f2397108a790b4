import SyntaxForest.Proofs.Edit.Step

/-!
# Proofs/Edit/Admission — what the questions before an edit establish

Each question of an edit, once answered, leaves a condition of a step behind.  The one about cycles
is asked only where the declared type admits nodes with children; where it is not asked, the child
has no slot for nodes and so stands above none (`Arena.Forest.not_mem_chain_of_leaf`).

* `Tree.checkAttachable_eq_ok` — the questions about a child.
* `Tree.currentChild_members`, `Tree.currentItems_eq_ok` — what a slot was found to hold.
* `Tree.welcomes_of_attachable` — **an attachable child may come in**.
-/

namespace SyntaxForest

namespace Property

variable {p : Property} {ty : ChildType} {sty : ScalarType}

theorem childType_eq_ok : p.childType = .ok ty ↔ p.form = .child ty := by
  rw [childType]
  split <;> simp_all

theorem elementType_eq_ok : p.elementType = .ok ty ↔ p.form = .list ty := by
  rw [elementType]
  split <;> simp_all

theorem scalarType_eq_ok : p.scalarType = .ok sty ↔ p.form = .scalar sty := by
  rw [scalarType]
  split <;> simp_all

/-- A view is mandatory. -/
theorem not_view_of_optional (h : p.isMandatory = false) : p.isSoleElementView = false := by
  cases p <;> first | rfl | cases h

/-- Names and operators have no property that holds nodes. -/
theorem childType?_of_leaf (h : p.owner = .simpleName ∨ p.owner = .operator) :
    p.form.childType? = none := by
  cases p <;> first | rfl | simp [owner, descriptor, Descriptor.child, Descriptor.optionalChild,
    Descriptor.list, Descriptor.soleElement] at h

end Property

/-! ## Nodes that cannot stand above others -/

namespace Arena

variable {a : Arena} {i j c n : Nat} {k : Kind} {p : Property} {chain : List Nat} {ty : ChildType}

/-- A node above another is the parent of some node. -/
theorem Chain.eq_or_parent (h : a.Chain i chain) (hj : j ∈ chain) :
    j = i ∨ ∃ c l, a.locationAt c = some l ∧ l.parent = j := by
  induction h with
  | root _ _ => exact .inl (List.mem_singleton.1 hj)
  | @up i l chain hl _ ih =>
    rcases List.mem_cons.1 hj with rfl | hj
    · exact .inl rfl
    · rcases ih hj with rfl | h
      · exact .inr ⟨i, l, hl, rfl⟩
      · exact .inr h

/-- A slot that names a child belongs to a property that holds nodes. -/
theorem Forest.childType?_of_mem {s : Nat} (h : a.Forest) (hc : c ∈ a.membersAt i s)
    (hp : a.storageAt i s = some p) : ∃ ty, p.form.childType? = some ty := by
  obtain ⟨rfl, hk⟩ := slot_of_storageAt hp
  obtain ⟨r, hr, hk⟩ := Option.map_eq_some_iff.1 hk
  obtain ⟨content, hs, hfits⟩ := h.exists_slot hr hk.symm
  rw [storageAt_of_record hr, hk, p.storage_primary, Option.some.injEq] at hp
  rw [hp] at hfits
  rw [membersAt_of_record hr, hs] at hc
  cases hform : p.form with
  | child ty | list ty => exact ⟨ty, rfl⟩
  | scalar sty =>
    rw [hform] at hfits
    cases content with
    | scalar v => cases hc
    | child _ | list _ => cases hfits

/-- **A name or an operator stands above no node** but itself. -/
theorem Forest.not_mem_chain_of_leaf (h : a.Forest) (hleaf : k = .simpleName ∨ k = .operator)
    (hc : a.kindAt c = some k) (hn : a.kindAt n = some p.owner)
    (hty : p.form.childType? = some ty) (hchain : a.Chain n chain) : c ∉ chain := by
  intro hmem
  rcases hchain.eq_or_parent hmem with rfl | ⟨d, l, hl, rfl⟩
  · rw [hn] at hc
    cases hc
    rw [Property.childType?_of_leaf hleaf] at hty
    cases hty
  · obtain ⟨hp, hd⟩ := h.held hl
    obtain ⟨ty', hty'⟩ := h.childType?_of_mem hd hp
    rw [(slot_of_storageAt hp).2] at hc
    cases hc
    rw [Property.childType?_of_leaf hleaf] at hty'
    cases hty'

end Arena

/-! ## The questions -/

namespace Tree

variable {t : Tree} {n c : NodeId} {p : Property} {ty : ChildType} {u : Unit} {x : Splice}

theorem look_eq_ok {r : Record} :
    t.look n = .ok r ↔ n.tree = t.id ∧ t.records[n.index]? = some r := by
  simp [look, bind_eq_ok, record_eq_ok]

theorem kind_eq_ok {k : Kind} :
    t.kind n = .ok k ↔ n.tree = t.id ∧ Arena.kindAt t.records n.index = some k := by
  simp only [Tree.kind, bind_eq_ok, look_eq_ok, Arena.kindAt, Option.map_eq_some_iff]
  constructor
  · rintro ⟨r, ⟨hn, hr⟩, h⟩
    exact ⟨hn, r, hr, Except.ok.inj h⟩
  · rintro ⟨hn, r, hr, rfl⟩
    exact ⟨r, ⟨hn, hr⟩, rfl⟩

theorem parent_eq_some {parent : NodeId} : t.parent n = .ok (some parent) ↔ n.tree = t.id ∧
    ∃ l, Arena.locationAt t.records n.index = some l ∧ t.handle l.parent = parent := by
  simp only [Tree.parent, bind_eq_ok, look_eq_ok, Arena.locationAt_eq_some]
  constructor
  · rintro ⟨r, ⟨hn, hr⟩, h⟩
    obtain ⟨l, hl, hp⟩ := Option.map_eq_some_iff.1 (Except.ok.inj h)
    exact ⟨hn, l, ⟨r, hr, hl⟩, hp⟩
  · rintro ⟨hn, l, ⟨r, hr, hl⟩, rfl⟩
    exact ⟨r, ⟨hn, hr⟩, by rw [hl]; rfl⟩

theorem created_kind (k : Kind) : (t.created k).kind (t.handle t.size) = .ok k :=
  kind_eq_ok.2 ⟨rfl, by simp [Arena.kindAt, created, handle, size, Record.fresh]⟩

/-- A placeholder is of the kind that its property names. -/
theorem materialized_kind {i : Nat} {k : Kind} :
    (t.materialized i p k).kind (t.handle t.size) = .ok k := by
  refine kind_eq_ok.2 ⟨materialized_id.symm, ?_⟩
  rw [materialized_records, Arena.kindAt_rewire]
  exact (kind_eq_ok.1 (created_kind (t := t) k)).2

theorem checkProperty_iff :
    t.checkProperty n p = .ok u ↔ n.tree = t.id ∧ t.Offers n.index p := checkProperty_eq_ok

theorem checkModifiable_eq_ok :
    t.checkModifiable n = .ok u ↔ n.tree = t.id ∧ t.Modifiable n.index := by
  simp only [checkModifiable, bind_eq_ok, look_eq_ok, unlessRefused_eq_ok, Bool.not_eq_true',
    Modifiable, and_assoc, exists_and_left]

/-- **The questions about a child**, the one about cycles only where there is a risk. -/
theorem checkAttachable_eq_ok : t.checkAttachable n p ty c = .ok u ↔
    c.tree = t.id ∧ ∃ r, t.records[c.index]? = some r ∧ r.kind.conformsTo ty = true ∧
      r.flags.protect = false ∧ r.location = none ∧
        (p.cycleRisk = true → ∃ ns, t.ancestors n = .ok ns ∧ c ∉ ns) := by
  simp only [checkAttachable, bind_eq_ok, own_eq_ok, record_eq_ok, unlessRefused_eq_ok,
    Bool.not_eq_true', Option.isNone_iff_eq_none]
  constructor
  · rintro ⟨⟨⟩, hc, r, hr, ⟨⟩, hty, ⟨⟩, hprotect, ⟨⟩, hloc, h⟩
    refine ⟨hc, r, hr, hty, hprotect, hloc, fun hrisk => ?_⟩
    rw [if_pos hrisk] at h
    obtain ⟨ns, hns, h⟩ := bind_eq_ok.1 h
    rw [unlessRefused_eq_ok, Bool.not_eq_true', List.contains_eq_mem,
      decide_eq_false_iff_not] at h
    exact ⟨ns, hns, h⟩
  · rintro ⟨hc, r, hr, hty, hprotect, hloc, h⟩
    refine ⟨⟨⟩, hc, r, hr, ⟨⟩, hty, ⟨⟩, hprotect, ⟨⟩, hloc, ?_⟩
    split
    · rename_i hrisk
      obtain ⟨ns, hns, hmem⟩ := h hrisk
      rw [hns]
      exact unlessRefused_eq_ok.2 (by simpa using hmem)
    · rfl

/-- The child found in a slot is all that the slot holds. -/
theorem currentChild_members {old : Option Nat} (h : t.currentChild n p = .ok old) :
    n.tree = t.id ∧ Arena.membersAt t.records n.index p.slot = old.toList := by
  obtain ⟨r, hr, h⟩ := bind_eq_ok.1 h
  obtain ⟨hn, hr⟩ := look_eq_ok.1 hr
  refine ⟨hn, ?_⟩
  rw [Arena.membersAt_of_record hr]
  split at h
  · rename_i hs _
    cases h
    rw [hs]
    rfl
  · rename_i hs _
    cases h
    rw [hs]
    rfl
  · rename_i hs _
    cases h
    rw [hs]
    rfl
  · cases h
  · cases h

/-- A single child that is not read out of a list is the content of its slot. -/
theorem currentChild_direct {old : Option Nat} (hp : p.isSoleElementView = false)
    (h : t.currentChild n p = .ok old) :
    Arena.slotAt t.records n.index p.slot = some (.child old) := by
  obtain ⟨r, hr, h⟩ := bind_eq_ok.1 h
  obtain ⟨-, hr⟩ := look_eq_ok.1 hr
  rw [hp] at h
  split at h
  · rename_i hs _
    cases h
    exact (Arena.slotAt_of_record hr).trans hs
  · contradiction
  · contradiction
  · contradiction
  · cases h

/-- What a peek finds is the child in the slot. -/
theorem peekChild_ok {ret : Option NodeId} (h : t.peekChild n p = .ok ret) :
    n.tree = t.id ∧ t.Offers n.index p ∧
      ∃ old, t.currentChild n p = .ok old ∧ old.map t.handle = ret := by
  obtain ⟨_, hp, h⟩ := bind_eq_ok.1 h
  obtain ⟨_, -, h⟩ := bind_eq_ok.1 h
  obtain ⟨old, hold, h⟩ := bind_eq_ok.1 h
  obtain ⟨hn, hp⟩ := checkProperty_iff.1 hp
  exact ⟨hn, hp, old, hold, Except.ok.inj h⟩

theorem currentItems_eq_ok {s : Nat} {items : List Nat} : t.currentItems n s = .ok items ↔
    n.tree = t.id ∧ Arena.slotAt t.records n.index s = some (.list items) := by
  simp only [currentItems, bind_eq_ok, look_eq_ok, Arena.slotAt, Option.bind_eq_some_iff]
  constructor
  · rintro ⟨r, ⟨hn, hr⟩, h⟩
    split at h
    · rename_i hs
      cases h
      exact ⟨hn, r, hr, hs⟩
    · cases h
  · rintro ⟨hn, r, hr, hs⟩
    exact ⟨r, ⟨hn, hr⟩, by rw [hs]; rfl⟩

/-- **An attachable child is welcome.** -/
theorem welcomes_of_attachable (hf : Arena.Forest t.records) (hp : t.Offers n.index p)
    (hty : p.form.childType? = some ty)
    (hc : t.checkAttachable n p ty c = .ok u) : t.Welcomes n.index p c.index := by
  obtain ⟨hctree, r, hr, hconf, hprotect, hloc, hcycle⟩ := checkAttachable_eq_ok.1 hc
  refine ⟨(Arena.locationAt_of_record hr).trans hloc, fun chain hchain => ?_, ⟨r, hr, hprotect⟩,
    r.kind, ty, Arena.kindAt_of_record hr, hty, hconf⟩
  by_cases hrisk : p.cycleRisk = true
  · obtain ⟨ns, hns, hmem⟩ := hcycle hrisk
    obtain ⟨_, chain', hchain', rfl⟩ := ancestors_eq_ok.1 hns
    rw [hchain.unique hchain']
    rwa [mem_map_handle hctree] at hmem
  · refine hf.not_mem_chain_of_leaf ?_ (Arena.kindAt_of_record hr) hp.kindAt hty hchain
    refine ChildType.not_admitsBranches ?_ hconf
    simpa [Property.cycleRisk, hty] using hrisk

end Tree

end SyntaxForest
