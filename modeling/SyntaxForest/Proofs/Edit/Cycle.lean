import SyntaxForest.Proofs.Edit.View

/-!
# Proofs/Edit/Cycle — attachments that would close a cycle

A child that is a root closes a cycle exactly if it is the root of the node that it is to come under,
for on the way up from a node only the last one has no parent.  Where the declared type admits leaves
only, nobody asks about cycles; and there the root of the node is never of the type, for the root of
a node with properties for nodes is no leaf.  So the answer does not depend on whether the question is
asked.

* `TreeM.RefusedExactly` — an action that is refused in one case, and succeeds in all others.
* `Arena.Chain.mem_iff_last` — a node without a parent is on the way up exactly if it is the root.
* `Tree.Eligible.checkAttachable_eq` — **what the questions about a child come to**, if only a cycle
  can keep it out.
* `Tree.onlyCycles` — **every way to attach such a child is refused for a cycle, or succeeds**.
-/

namespace SyntaxForest

/-- **Refused in one case only**: in the case the action is refused for the reason and changes nothing,
and in every other case it succeeds. -/
structure TreeM.RefusedExactly {α : Type} (m : TreeM α) (t : Tree) (r : Refusal) (case : Prop) :
    Prop where
  refused : case → m t = .error (.refused r) t
  succeeds : ¬case → ∃ x t', m t = .ok x t'

theorem TreeM.RefusedExactly.congr {α : Type} {m : TreeM α} {t : Tree} {r : Refusal} {P Q : Prop}
    (h : m.RefusedExactly t r P) (hPQ : P ↔ Q) : m.RefusedExactly t r Q :=
  ⟨fun hQ => h.refused (hPQ.2 hQ), fun hQ => h.succeeds fun hP => hQ (hPQ.1 hP)⟩

/-! ## The end of the way up -/

namespace Arena

variable {a : Arena} {i c : Nat} {chain : List Nat}

/-- **Of the nodes on the way up only the last has no parent.** -/
theorem Chain.mem_iff_last (h : a.Chain i chain) (hc : a.locationAt c = none) :
    c ∈ chain ↔ chain.getLast? = some c := by
  induction h with
  | root _ _ => simp [eq_comm]
  | @up i l chain hl hchain ih =>
    have hne : c ≠ i := by
      rintro rfl
      rw [hl] at hc
      cases hc
    rw [List.mem_cons, or_iff_right hne, ih, List.getLast?_cons]
    rcases hlast : chain.getLast? with _ | d
    · exact absurd (List.getLast?_eq_none_iff.1 hlast) (List.ne_nil_of_mem hchain.mem_self)
    · simp

end Arena

namespace Tree

variable {t : Tree} {n c root : NodeId} {p : Property} {ty : ChildType} {chain : List Nat}

/-- A node without a parent is on the way up from another exactly if it is its root. -/
theorem exists_root_iff (hn : n.tree = t.id) (hchain : Arena.Chain t.records n.index chain) :
    ∃ root, t.root n = .ok root ∧ ∀ c, c.tree = t.id → Arena.locationAt t.records c.index = none →
      (c.index ∈ chain ↔ c = root) := by
  have hroot : t.root n = .ok ((chain.map t.handle).getLastD n) :=
    bind_eq_ok.2 ⟨_, ancestors_eq_ok.2 ⟨hn, chain, hchain, rfl⟩, rfl⟩
  refine ⟨_, hroot, fun c hc hfree => ?_⟩
  rw [hchain.mem_iff_last hfree, List.getLastD_eq_getLast?, List.getLast?_map]
  rcases hlast : chain.getLast? with _ | d
  · exact absurd (List.getLast?_eq_none_iff.1 hlast) (List.ne_nil_of_mem hchain.mem_self)
  · rw [Option.some.injEq]
    constructor
    · rintro rfl
      exact (handle_index hc).symm
    · rintro rfl
      rfl

/-- The marks of the node do not protect it. -/
def Unprotected (t : Tree) (n : NodeId) : Prop := ∃ flags, t.flags n = .ok flags ∧ flags.protect = false

theorem unprotected_iff : t.Unprotected n ↔ n.tree = t.id ∧ t.Modifiable n.index := by
  constructor
  · rintro ⟨_, hflags, hprotect⟩
    obtain ⟨r, hr, hr'⟩ := bind_eq_ok.1 hflags
    cases hr'
    obtain ⟨hn, hr⟩ := look_eq_ok.1 hr
    exact ⟨hn, r, hr, hprotect⟩
  · rintro ⟨hn, r, hr, hprotect⟩
    exact ⟨r.flags, bind_eq_ok.2 ⟨r, look_eq_ok.2 ⟨hn, hr⟩, rfl⟩, hprotect⟩

theorem parent_eq_none :
    t.parent n = .ok none ↔ n ∈ t.nodes ∧ Arena.locationAt t.records n.index = none := by
  rw [mem_nodes]
  constructor
  · intro h
    obtain ⟨r, hr, h⟩ := bind_eq_ok.1 h
    obtain ⟨hn, hr⟩ := look_eq_ok.1 hr
    refine ⟨⟨hn, Arena.lt_size_of_record hr⟩, (Arena.locationAt_of_record hr).trans ?_⟩
    exact Option.map_eq_none_iff.1 (Except.ok.inj h)
  · rintro ⟨⟨hn, hlt⟩, hfree⟩
    obtain ⟨r, hr⟩ := Arena.exists_record hlt
    rw [Arena.locationAt_of_record hr] at hfree
    refine bind_eq_ok.2 ⟨r, look_eq_ok.2 ⟨hn, hr⟩, ?_⟩
    rw [hfree]
    rfl

/-! ## Children that only a cycle keeps out -/

/-- **A child that only a cycle can keep out**: a node without a parent, not protected, and of the type
that the property declares. -/
structure Eligible (t : Tree) (p : Property) (c : NodeId) : Prop where
  free : t.parent c = .ok none
  unprotected : t.Unprotected c
  conforms : ∃ k ty, t.kind c = .ok k ∧ p.form.childType? = some ty ∧ k.conformsTo ty = true

/-- …is welcome, unless it stands above the node. -/
theorem Eligible.welcomes (h : t.Eligible p c) (hchain : Arena.Chain t.records n.index chain)
    (hc : c.index ∉ chain) : t.Welcomes n.index p c.index where
  free := (parent_eq_none.1 h.free).2
  below chain' hchain' := hchain'.unique hchain ▸ hc
  modifiable := (unprotected_iff.1 h.unprotected).2
  conforms := by
    obtain ⟨k, ty, hk, hty, hconf⟩ := h.conforms
    exact ⟨k, ty, (kind_eq_ok.1 hk).2, hty, hconf⟩

/-- **What stands above the node is refused for a cycle**: it is no leaf, so the question is asked. -/
theorem Eligible.checkAttachable_eq (hf : Arena.Forest t.records) (h : t.Eligible p c)
    (hn : n.tree = t.id) (hp : t.Offers n.index p) (hty : p.form.childType? = some ty)
    (hchain : Arena.Chain t.records n.index chain) (hc : c.index ∈ chain) :
    t.checkAttachable n p ty c = refuse .cycle := by
  obtain ⟨hnodes, hfree⟩ := parent_eq_none.1 h.free
  obtain ⟨-, r, hr, hprotect⟩ := unprotected_iff.1 h.unprotected
  obtain ⟨k, ty', hk, hty', hconf⟩ := h.conforms
  have hctree := (mem_nodes.1 hnodes).1
  obtain rfl : ty = ty' := Option.some.inj (hty.symm.trans hty')
  have hkind := (kind_eq_ok.1 hk).2
  obtain rfl : r.kind = k := Option.some.inj ((Arena.kindAt_of_record hr).symm.trans hkind)
  have hrisk : p.cycleRisk = true := by
    rcases hleaf : ty.admitsBranches with _ | _
    · exact absurd hc (hf.not_mem_chain_of_leaf (ChildType.not_admitsBranches hleaf hconf) hkind
        hp.kindAt hty hchain)
    · simp [Property.cycleRisk, hty, hleaf]
  have hancestors : t.ancestors n = .ok (chain.map t.handle) :=
    ancestors_eq_ok.2 ⟨hn, chain, hchain, rfl⟩
  rw [Arena.locationAt_of_record hr] at hfree
  have hown : t.own c = .ok () := own_eq_ok.2 hctree
  simp only [checkAttachable, hown, record_eq_ok.2 hr, hconf, hprotect, hfree, hrisk, hancestors, bind,
    Except.bind]
  simp [unlessRefused, (mem_map_handle hctree).2 hc]

/-! ## The ways to attach a child -/

/-- **Only a cycle keeps the child out**, whichever way it is attached: it is refused if it is the root
of the node, and comes in otherwise. -/
structure OnlyCycles (t : Tree) (n : NodeId) (p : Property) (c root : NodeId) : Prop where
  /-- as a single child; through a view as long as the list behind it has no more than one element -/
  setChild : ∀ ty, p.form = .child ty → (p.isSoleElementView = true → ∃ q items,
    t.sequence n p.primary = .ok q ∧ t.elements q = .ok items ∧ items.length ≤ 1) →
      (n.setChild p c).RefusedExactly t .cycle (c = root)
  /-- as an element of a list, at any index that is in range -/
  list : ∀ ty, p.form = .list ty → ∃ q items, t.sequence n p = .ok q ∧ t.elements q = .ok items ∧
    (q.push c).RefusedExactly t .cycle (c = root) ∧
    (∀ i ≤ items.length, (q.insert i c).RefusedExactly t .cycle (c = root)) ∧
    ∀ i < items.length, (q.set i c).RefusedExactly t .cycle (c = root)

/-- What the slot of a single child holds; behind a view that is a list of no more than one element. -/
theorem exists_single (hf : Arena.Forest t.records) (hp : t.Offers n.index p) (hform : p.form = .child ty)
    (hview : p.isSoleElementView = true → ∃ q items,
      t.sequence n p.primary = .ok q ∧ t.elements q = .ok items ∧ items.length ≤ 1) :
    ∃ old : Option Nat, Arena.membersAt t.records n.index p.slot = old.toList := by
  rcases hsole : p.isSoleElementView with _ | _
  · obtain ⟨content, _, hs, hfits, -⟩ := hf.exists_slotAt hp.kindAt (by rw [hform]; rfl)
    rw [Property.primary_of_direct hsole, hform] at hfits
    obtain ⟨c, rfl⟩ := Slot.eq_child_of_fits hfits
    exact ⟨c, Arena.membersAt_of_slot hs⟩
  · obtain ⟨q, ns, hq, hns, hlen⟩ := hview hsole
    obtain ⟨-, rfl, hproperty⟩ := Sequence.sequence_eq_ok.1 hq
    obtain ⟨items, hitems, rfl⟩ := Sequence.elements_eq_ok.1 hns
    have hs := (Sequence.items_eq_ok.1 hitems).2
    rw [hproperty, p.primary_slot] at hs
    rw [List.length_map] at hlen
    refine ⟨items.head?, (Arena.membersAt_of_slot hs).trans ?_⟩
    rcases items with _ | ⟨d, _ | ⟨e, rest⟩⟩
    · rfl
    · rfl
    · simp at hlen

end Tree

section Attachments

open TreeM

variable {t : Tree} {n c root : NodeId} {p : Property} {ty : ChildType} {chain : List Nat}
  {q : Sequence} {items : List Nat} {i : Nat}

/-- A child that only a cycle can keep out of a slot for a single child. -/
theorem NodeId.setChild_refusedExactly (hf : Arena.Forest t.records) (hn : t.Unprotected n)
    (hp : t.Offers n.index p) (hform : p.form = .child ty) (hc : t.Eligible p c)
    (hchain : Arena.Chain t.records n.index chain) {old : Option Nat}
    (hold : Arena.membersAt t.records n.index p.slot = old.toList) :
    (n.setChild p c).RefusedExactly t .cycle (c.index ∈ chain) := by
  obtain ⟨htree, hm⟩ := Tree.unprotected_iff.1 hn
  constructor
  · intro hmem
    rw [setChild, look_bind_run (Tree.checkProperty_iff (u := ()).2 ⟨htree, hp⟩),
      look_bind_run (Property.childType_eq_ok.2 hform),
      look_bind_run (Tree.checkModifiable_eq_ok (u := ()).2 ⟨htree, hm⟩)]
    exact look_bind_error (hc.checkAttachable_eq hf htree hp (by rw [hform]; rfl) hchain hmem)
  · intro hmem
    have hctree := (Tree.mem_nodes.1 (Tree.parent_eq_none.1 hc.free).1).1
    exact ⟨_, _, setChild_run hf htree hctree
      ((hc.welcomes hchain hmem).allows hp hm (by rw [hform]; trivial) hold rfl)⟩

namespace Sequence

variable (hf : Arena.Forest t.records) (ho : q.Open t) (hm : t.Modifiable q.node.index)
  (hs : Arena.slotAt t.records q.node.index q.property.slot = some (.list items))
  (hc : t.Eligible q.property c) (hchain : Arena.Chain t.records q.node.index chain)

include hf ho hm hs hc hchain

/-- …and out of a list. -/
theorem insert_refusedExactly (hi : i ≤ items.length) :
    (q.insert i c).RefusedExactly t .cycle (c.index ∈ chain) := by
  have hitems : t.items q = .ok items := items_eq_ok.2 ⟨ho.owned, hs⟩
  constructor
  · intro hmem
    have hbatch : t.checkBatch q [] [c] = refuse .cycle := by
      rw [Tree.checkBatch, hc.checkAttachable_eq hf ho.owned ho.offers ho.childType hchain hmem]
      rfl
    rw [insert, insertAll, look_bind_run hitems,
      look_bind_run (checkIndex_of_lt hitems (Nat.lt_succ_of_le hi)),
      look_bind_run (Tree.checkModifiable_eq_ok (u := ()).2 ⟨ho.owned, hm⟩)]
    exact look_bind_error hbatch
  · intro hmem
    have hctree := (Tree.mem_nodes.1 (Tree.parent_eq_none.1 hc.free).1).1
    have hrun := insert_run hf ho ((hc.welcomes hchain hmem).allows ho.offers hm
      (x := .insert i c.index) (by rw [ho.form]; trivial) (Arena.membersAt_of_slot hs ▸ hi) rfl)
    rw [Tree.handle_index hctree] at hrun
    exact ⟨_, _, hrun⟩

theorem push_refusedExactly : (q.push c).RefusedExactly t .cycle (c.index ∈ chain) := by
  have hinsert := insert_refusedExactly hf ho hm hs hc hchain (Nat.le_refl _)
  have hpush := push_eq_insert c (items_eq_ok.2 ⟨ho.owned, hs⟩)
  exact ⟨fun hmem => hpush.trans (hinsert.refused hmem), fun hmem => hpush ▸ hinsert.succeeds hmem⟩

/-- An element that is exchanged is no exception. -/
theorem set_refusedExactly (hi : i < items.length) :
    (q.set i c).RefusedExactly t .cycle (c.index ∈ chain) := by
  have hitems : t.items q = .ok items := items_eq_ok.2 ⟨ho.owned, hs⟩
  constructor
  · intro hmem
    rw [set, look_bind_run hitems, look_bind_run (checkIndex_of_lt hitems hi),
      look_bind_run (Tree.checkModifiable_eq_ok (u := ()).2 ⟨ho.owned, hm⟩)]
    exact look_bind_error (hc.checkAttachable_eq hf ho.owned ho.offers ho.childType hchain hmem)
  · intro hmem
    have hctree := (Tree.mem_nodes.1 (Tree.parent_eq_none.1 hc.free).1).1
    have happlies : (Splice.exchange i items[i] c.index).Applies
        (Arena.membersAt t.records q.node.index q.property.slot) := by
      rw [Arena.membersAt_of_slot hs]
      exact List.getElem?_eq_getElem hi
    exact ⟨_, _, set_run hf ho hctree ((hc.welcomes hchain hmem).allows ho.offers hm
      (by rw [ho.form]; trivial) happlies rfl)⟩

end Sequence

/-- **Whatever the property, only a cycle keeps such a child out.** -/
theorem Tree.onlyCycles (hf : Arena.Forest t.records) (hp : t.checkProperty n p = .ok ())
    (hn : t.Unprotected n) (hc : t.Eligible p c) : ∃ root, t.root n = .ok root ∧ t.OnlyCycles n p c root := by
  obtain ⟨htree, hoffers⟩ := checkProperty_iff.1 hp
  obtain ⟨chain, hchain⟩ := hf.rooted hoffers.lt_size
  obtain ⟨root, hroot, hmem⟩ := exists_root_iff htree hchain
  obtain ⟨hcnodes, hfree⟩ := parent_eq_none.1 hc.free
  have hcase := hmem c (mem_nodes.1 hcnodes).1 hfree
  refine ⟨root, hroot, fun ty hform hview => ?_, fun ty hform => ?_⟩
  · obtain ⟨old, hold⟩ := exists_single hf hoffers hform hview
    exact (NodeId.setChild_refusedExactly hf hn hoffers hform hc hchain hold).congr hcase
  · have ho : Sequence.Open ⟨n, p, ty⟩ t := ⟨htree, hoffers, hform⟩
    have hm := (unprotected_iff.1 hn).2
    obtain ⟨items, hs⟩ := ho.exists_slotAt hf
    refine ⟨⟨n, p, ty⟩, items.map t.handle, Sequence.sequence_eq_ok.2 ⟨ho, rfl, rfl⟩,
      Sequence.elements_eq_ok.2 ⟨items, Sequence.items_eq_ok.2 ⟨htree, hs⟩, rfl⟩,
      (Sequence.push_refusedExactly hf ho hm hs hc hchain).congr hcase, ?_⟩
    rw [List.length_map]
    exact ⟨fun i hi => (Sequence.insert_refusedExactly hf ho hm hs hc hchain hi).congr hcase,
      fun i hi => (Sequence.set_refusedExactly hf ho hm hs hc hchain hi).congr hcase⟩

end Attachments

end SyntaxForest
