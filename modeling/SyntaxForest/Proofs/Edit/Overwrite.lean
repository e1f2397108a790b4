import SyntaxForest.Proofs.Edit.Inverse
import SyntaxForest.Proofs.Edit.Read
import SyntaxForest.Proofs.Edit.Scalar

/-!
# Proofs/Edit/Overwrite — a value is written and read back

Writing a property by reflection is one of three calls: a scalar is replaced, a child is set, a child is
cleared.  Each of them changes one slot.  What is read there afterwards is what was written, and what is
read anywhere else is what was read before; only the child that comes in and the one that goes out are
located elsewhere.

* `Tree.Overwrites` — **a value is written, and nothing else**: what is asked of the two trees.
* `Tree.Takes.overwrites`, `Tree.Allows.overwrites` — a scalar and a single child are written.
* `NodeId.setValue_overwrites` — **so is every value that is taken**.
-/

namespace SyntaxForest

/-- A child that may be absent has nothing to stand in for it. -/
theorem Property.placeholder_of_optional {p : Property} (h : p.isMandatory = false) : p.placeholder = none := by
  cases p <;> first | rfl | cases h

namespace Arena

variable {a b : Arena} {n s : Nat} {content : Slot Nat}

theorem SameBeside.setSlot : SameBeside n s a (a.setSlot n s content) where
  nodes i := by
    rw [getElem?_setSlot]
    split
    · rw [Option.map_map]
      rfl
    · rfl
  slots i s' hs := by
    rw [slotAt, getElem?_setSlot, slotAt]
    split
    · rename_i hi
      have hne : s ≠ s' := fun h => hs ⟨hi.symm, h.symm⟩
      rw [Option.bind_map]
      exact congrArg _ (funext fun r => List.getElem?_set_ne hne)
    · rfl

/-- There are as many nodes. -/
theorem SameBeside.size_eq (h : SameBeside n s a b) : b.size = a.size := by
  have hnone : ∀ i, b.size ≤ i ↔ a.size ≤ i := fun i => by
    have hnode := h.nodes i
    rw [← Array.getElem?_eq_none_iff, ← Array.getElem?_eq_none_iff, ← Option.map_eq_none_iff (f := Record.self),
      hnode, Option.map_eq_none_iff]
  have hle := (hnone a.size).2 (Nat.le_refl _)
  have hge := (hnone b.size).1 (Nat.le_refl _)
  omega

end Arena

namespace Tree

variable {t t' : Tree} {n c m : NodeId} {p q : Property} {v w : Value} {ty : ChildType} {old new : Option Nat}

/-- **A value is written, and nothing else.** -/
structure Overwrites (t : Tree) (n : NodeId) (p : Property) (v : Value) (t' : Tree) : Prop where
  id : t'.id = t.id
  config : t'.config = t.config
  size : t'.size = t.size
  /-- the value is read back, and nothing happens then: no node comes to exist, and nothing is counted -/
  readback : n.value p t' = .ok v t'
  /-- all nodes are of the same kind and have the same ranges and marks, and all other slots the same content -/
  beside : Arena.SameBeside n.index p.slot t.records t'.records
  /-- the child that comes in and the one that goes out are the only ones to be located elsewhere -/
  locations : ∃ old, t.peekValue n p = .ok old ∧ ∀ c ∈ t.nodes, Arena.locationAt t'.records c.index =
    if c ∈ v.members then some ⟨n.index, p.primary⟩
    else if c ∈ old.members then none
    else Arena.locationAt t.records c.index
  /-- what is read elsewhere is what was read there before, whether it makes placeholders or not -/
  reads : ∀ m q, ¬(m = n ∧ q.slot = p.slot) →
    t'.peekValue m q = t.peekValue m q ∧ TreeM.answer (m.value q) t' = TreeM.answer (m.value q) t

/-- Beside the slot that is different two trees agree. -/
theorem agreesAt_of_beside (hid : t'.id = t.id) (hconfig : t'.config = t.config) (hn : n.tree = t.id)
    (h : Arena.SameBeside n.index p.slot t.records t'.records) (hne : ¬(m = n ∧ q.slot = p.slot)) :
    AgreesAt m q.slot t t' where
  id := hid
  config := hconfig
  kindAt _ := h.kindAt_eq
  slotAt hm := h.slots _ _ fun ⟨hindex, hslot⟩ => hne ⟨eq_of_index hm hn hindex, hslot⟩

/-- What is asked of a value that is written, from what it leaves. -/
theorem Overwrites.of_beside (hf : Arena.Forest t.records) (hf' : Arena.Forest t'.records) (hid : t'.id = t.id)
    (hconfig : t'.config = t.config) (hn : n.tree = t.id)
    (hbeside : Arena.SameBeside n.index p.slot t.records t'.records)
    (hread : n.value p t' = .ok v t') (hold : t.peekValue n p = .ok w)
    (hloc : ∀ c ∈ t.nodes, Arena.locationAt t'.records c.index =
      if c ∈ v.members then some ⟨n.index, p.primary⟩
      else if c ∈ w.members then none
      else Arena.locationAt t.records c.index) : t.Overwrites n p v t' where
  id := hid
  config := hconfig
  size := hbeside.size_eq
  readback := hread
  beside := hbeside
  locations := ⟨w, hold, hloc⟩
  reads _ _ hne :=
    have hagrees := agreesAt_of_beside hid hconfig hn hbeside hne
    ⟨hagrees.peekValue_eq, hagrees.answer_value hf hf' hbeside.size_eq⟩

/-- The scalar that a slot holds is read. -/
theorem scalar_of_slot {u : Scalar} (hn : n.tree = t.id) (hp : t.Offers n.index p)
    (hs : Arena.slotAt t.records n.index p.slot = some (.scalar u)) : t.scalar n p = .ok u := by
  obtain ⟨r, hr, hslot⟩ := Option.bind_eq_some_iff.1 hs
  refine bind_eq_ok.2 ⟨(), checkProperty_iff.2 ⟨hn, hp⟩, bind_eq_ok.2 ⟨r, look_eq_ok.2 ⟨hn, hr⟩, ?_⟩⟩
  rw [hslot]
  rfl

/-- **A scalar is written and read back.** -/
theorem Takes.overwrites {u : Scalar} (h : t.Sound .declared) (hn : n.tree = t.id) (hu : t.Takes n.index p u) :
    t.Overwrites n p (.scalar u) (t.written n.index p u) := by
  have hrecords : (t.written n.index p u).records = Arena.setSlot t.records n.index p.slot (.scalar u) :=
    commit_records
  have hbeside : Arena.SameBeside n.index p.slot t.records (t.written n.index p u).records :=
    hrecords ▸ .setSlot
  obtain ⟨ty, hform, -⟩ := hu.conforms
  obtain ⟨r, hr, ho, hlive⟩ := hu.offers
  obtain ⟨old, hs⟩ := exists_scalar h.forest hr ho hform
  have hold : t.scalar n p = .ok old :=
    scalar_of_slot hn hu.offers ((Arena.slotAt_of_record hr).trans hs)
  have hread : (t.written n.index p u).scalar n p = .ok u := by
    have hr' : (t.written n.index p u).records[n.index]? =
        some { r with slots := r.slots.set p.slot (.scalar u) } := by
      rw [hrecords, Arena.getElem?_setSlot, if_pos rfl, hr]
      rfl
    refine scalar_of_slot (hn.trans commit_id.symm) ⟨_, hr', ho, ?_⟩ ?_
    · rwa [shape, written, commit_config]
    · rw [Arena.slotAt_of_record hr', List.getElem?_set_self (List.getElem?_eq_some_iff.1 hs).1]
  refine .of_beside h.forest (h.write hu).forest commit_id commit_config hn hbeside ?_ (w := .scalar old) ?_ ?_
  · rw [NodeId.value, hform]
    exact TreeM.look_bind_run hread
  · rw [peekValue, hform, hold]
    rfl
  · intro c _
    refine Eq.trans ?_ ((if_neg List.not_mem_nil).trans (if_neg List.not_mem_nil)).symm
    rw [hrecords]
    exact Arena.locationAt_modify fun _ => rfl

/-- A handle is among at most one, if its index is. -/
theorem mem_members_child (hc : c.tree = t.id) :
    c ∈ (Slot.child (old.map t.handle)).members ↔ old = some c.index := by
  rw [Slot.members, Option.mem_toList, Option.map_eq_some_iff]
  constructor
  · rintro ⟨i, rfl, rfl⟩
    rfl
  · rintro rfl
    exact ⟨_, rfl, handle_index hc⟩

/-- **A single child is written and read back**, or none is, where nothing stands in for one. -/
theorem Allows.overwrites (h : t.Sound .declared) (hn : n.tree = t.id) (hp : t.Offers n.index p)
    (hform : p.form = .child ty) (hx : t.Allows n.index p (.replace old new))
    (hnew : new = none → p.placeholder = none) :
    t.Overwrites n p (.child (new.map t.handle)) (t.splice n.index p (.replace old new)) := by
  have hf' := hx.forest h.forest
  have hmem : Arena.membersAt (t.splice n.index p (.replace old new)).records n.index p.slot = new.toList := by
    rw [splice_records, Arena.membersAt_rewire h.forest hx.admits]
    rfl
  have hread := peekChild_of_members hf' (hn.trans splice_id.symm) hp.splice hform hmem
  rw [splice_handle] at hread
  have hold := peekChild_of_members h.forest hn hp hform hx.applies
  refine .of_beside h.forest hf' splice_id splice_config hn (splice_records ▸ .rewire) ?_
    (w := .child (old.map t.handle)) ?_ ?_
  · rw [NodeId.value, hform]
    exact bind_of_ok (NodeId.child_of_found hread fun hnone => hnew (Option.map_eq_none_iff.1 hnone))
  · rw [peekValue, hform, hold]
    rfl
  · intro c hc
    obtain ⟨hctree, hlt⟩ := mem_nodes.1 hc
    simp only [mem_members_child hctree]
    rw [splice_records, Arena.locationAt_rewire hlt]
    rfl

/-- Nothing is written where there was nothing. -/
theorem Overwrites.unset (hf : Arena.Forest t.records) (hn : n.tree = t.id) (hp : t.Offers n.index p)
    (hform : p.form = .child ty) (hplace : p.placeholder = none)
    (hmem : Arena.membersAt t.records n.index p.slot = []) : t.Overwrites n p (.child none) t := by
  have hnone : Arena.membersAt t.records n.index p.slot = (none : Option Nat).toList := hmem
  have hpeek := peekChild_of_members hf hn hp hform hnone
  refine .of_beside hf hf rfl rfl hn .refl ?_ (w := .child none) ?_ fun c _ => ?_
  · rw [NodeId.value, hform]
    exact bind_of_ok (NodeId.child_of_found hpeek fun _ => hplace)
  · rw [peekValue, hform, hpeek]
    rfl
  · exact ((if_neg List.not_mem_nil).trans (if_neg List.not_mem_nil)).symm

end Tree

namespace NodeId

open TreeM

variable {t t' : Tree} {n : NodeId} {p : Property} {v : Value}

/-- Only what may be absent can be cleared. -/
theorem optional_of_clearChild {ret : Option NodeId} (h : n.clearChild p t = .ok ret t') :
    p.isMandatory = false := by
  obtain ⟨_, -, hrun⟩ := exists_of_look_bind_ok h
  obtain ⟨_, -, hrun⟩ := exists_of_look_bind_ok hrun
  obtain ⟨_, hoptional, -⟩ := exists_of_look_bind_ok hrun
  rwa [unlessRefused_eq_ok, Bool.not_eq_true'] at hoptional

/-- **Every value that is taken is written and read back, and nothing else changes.** -/
theorem setValue_overwrites (h : t.Sound .declared) :
    (n.setValue p v).Atomic t fun _ t' => t.Overwrites n p v t' := by
  refine .look_bind fun _ hp => ?_
  obtain ⟨hn, hp⟩ := Tree.checkProperty_iff.1 hp
  split
  · exact .look fun _ hx => absurd hx refuse_ne_ok
  · refine (setScalar_settles h.forest).atomic.mono fun _ _ ⟨_, hu, ht'⟩ => ?_
    exact ht' ▸ hu.overwrites h hn
  · rename_i ty c hform
    refine (setChild_settles h.forest).atomic.mono fun _ _ ⟨_, hc, old, hx, ht'⟩ => ?_
    have hwrites := hx.overwrites h hn hp hform nofun
    rwa [Option.map_some, Tree.handle_index hc, ← ht'] at hwrites
  · rename_i ty hform
    refine .bind_pure ((clearChild_settles h.forest).atomic.mono_of_ok fun _ t' hclear ⟨_, _, hcleared⟩ => ?_)
    have hplace := Property.placeholder_of_optional (optional_of_clearChild hclear)
    rcases hcleared with ⟨-, hmem, rfl⟩ | ⟨c, -, hx, rfl⟩
    · exact .unset h.forest hn hp hform hplace hmem
    · exact hx.overwrites h hn hp hform fun _ => hplace
  · exact .look fun _ hx => absurd hx refuse_ne_ok
  · exact .look fun _ hx => absurd hx refuse_ne_ok

end NodeId

end SyntaxForest
