import SyntaxForest.Proofs.Edit.Answers

/-!
# Proofs/Edit/Child — what the calls about single children do

Each of them is one splice of a slot, or the making of one placeholder, or nothing at all.  The
writes of a splice come in another order in every call; what they end with is the same
(`TreeM.splice_bind`).

* `NodeId.setChild_run`, `NodeId.detach_run` — the splices that nothing stands in the way of.
* `NodeId.setChild_settles`, `NodeId.clearChild_settles`, `NodeId.detach_settles` — all or nothing.
* `NodeId.child_settles` — the read that makes a placeholder.
-/

namespace SyntaxForest

/-! ## Where a node is held -/

namespace Arena

variable {a : Arena} {i : Nat} {l : Location} {ty : ChildType}

/-- A node that is a single child is what the slot of its location holds. -/
theorem Forest.slotAt_of_child (h : a.Forest) (hl : a.locationAt i = some l)
    (hform : l.property.form = .child ty) :
    a.slotAt l.parent l.property.slot = some (.child (some i)) := by
  obtain ⟨hp, hmem⟩ := h.held hl
  obtain ⟨content, _, hs, hfits, -⟩ := h.exists_slotAt (slot_of_storageAt hp).2 (by rw [hform]; rfl)
  rw [primary_of_storageAt hp, hform] at hfits
  obtain ⟨c, rfl⟩ := Slot.eq_child_of_fits hfits
  rw [membersAt_of_slot hs] at hmem
  obtain rfl : c = some i := Option.mem_toList.1 hmem
  exact hs

/-- A node in a list is one of those that the slot of its location holds. -/
theorem Forest.exists_items_of_list (h : a.Forest) (hl : a.locationAt i = some l)
    (hform : l.property.form = .list ty) :
    ∃ items, a.slotAt l.parent l.property.slot = some (.list items) ∧ i ∈ items := by
  obtain ⟨hp, hmem⟩ := h.held hl
  obtain ⟨content, _, hs, hfits, -⟩ := h.exists_slotAt (slot_of_storageAt hp).2 (by rw [hform]; rfl)
  rw [primary_of_storageAt hp, hform] at hfits
  obtain ⟨items, rfl⟩ := Slot.eq_list_of_fits hfits
  rw [membersAt_of_slot hs] at hmem
  exact ⟨items, hs, hmem⟩

end Arena

/-! ## How a splice ends -/

namespace TreeM

variable {α : Type} {t : Tree} {p : Property} {n : Nat} {content : Slot Nat} {a : Arena}
  {k : Unit → TreeM α}

/-- **What every splice ends with**: the change is counted and announced. -/
theorem splice_bind (x : Splice)
    (hs : Arena.slotAt t.records n p.slot = some content)
    (ha : a = (Arena.relocate t.records n p x).setSlot n p.slot
      (content.withMembers (x.apply content.members))) :
    (touch >>= fun _ => TreeM.tell .post (x.event t n p) >>= k)
      { t.tell .pre (x.event t n p) with records := a } = k () (t.splice n p x) := by
  rw [touch_bind, tell_bind, Tree.splice, ← Arena.setSlot_relocate hs, ha]
  simp [Tree.commit]

/-- …with nothing to follow. -/
theorem splice_run (x : Splice)
    (hs : Arena.slotAt t.records n p.slot = some content)
    (ha : a = (Arena.relocate t.records n p x).setSlot n p.slot
      (content.withMembers (x.apply content.members))) :
    (touch >>= fun _ => TreeM.tell .post (x.event t n p))
      { t.tell .pre (x.event t n p) with records := a } = .ok () (t.splice n p x) :=
  splice_bind (k := Pure.pure) x hs ha

end TreeM

/-! ## The questions of an edit that is allowed -/

namespace Tree

variable {t : Tree} {n c : NodeId} {p : Property} {ty : ChildType} {old : Option Nat}

/-- **A child that is welcome passes every question.** -/
theorem Welcomes.checkAttachable (hf : Arena.Forest t.records) (hn : n ∈ t.nodes) (hc : c.tree = t.id)
    (h : t.Welcomes n.index p c.index) (hty : p.form.childType? = some ty) :
    t.checkAttachable n p ty c = .ok () := by
  obtain ⟨r, hr, hprotect⟩ := h.modifiable
  obtain ⟨k, ty', hk, hty', hconf⟩ := h.conforms
  obtain rfl : ty = ty' := Option.some.inj (hty.symm.trans hty')
  obtain rfl : r.kind = k := Option.some.inj ((Arena.kindAt_of_record hr).symm.trans hk)
  refine checkAttachable_eq_ok.2 ⟨hc, r, hr, hconf, hprotect, ?_, fun _ => ?_⟩
  · rw [← Arena.locationAt_of_record hr, h.free]
  · obtain ⟨ns, hns⟩ := exists_ancestors hf hn
    obtain ⟨-, chain, hchain, rfl⟩ := ancestors_eq_ok.1 hns
    exact ⟨_, hns, fun hmem => h.below chain hchain ((mem_map_handle hc).1 hmem)⟩

/-- What a slot holds is found there, if it is no more than one child. -/
theorem currentChild_of_members (hf : Arena.Forest t.records) (hn : n.tree = t.id)
    (hp : t.Offers n.index p) (hform : p.form = .child ty)
    (hmem : Arena.membersAt t.records n.index p.slot = old.toList) : t.currentChild n p = .ok old := by
  obtain ⟨r, hr, ho, -⟩ := hp
  obtain ⟨content, hs, hfits⟩ := hf.exists_slot hr ho
  rw [Arena.membersAt_of_record hr, hs] at hmem
  refine bind_eq_ok.2 ⟨r, look_eq_ok.2 ⟨hn, hr⟩, ?_⟩
  rw [hs]
  rcases hsole : p.isSoleElementView with _ | _
  · rw [Property.primary_of_direct hsole, hform] at hfits
    obtain ⟨c, rfl⟩ := Slot.eq_child_of_fits hfits
    cases c <;> cases old <;> cases hmem <;> rfl
  · obtain ⟨_, hlist⟩ := Property.form_of_view hsole
    rw [hlist] at hfits
    obtain ⟨cs, rfl⟩ := Slot.eq_list_of_fits hfits
    cases old <;> cases hmem <;> rfl

end Tree

namespace NodeId

open TreeM

variable {t : Tree} {n c : NodeId} {p : Property}

/-- **A child that may come into a slot comes in.** -/
theorem setChild_run {old : Option Nat} (hf : Arena.Forest t.records) (hn : n.tree = t.id)
    (hc : c.tree = t.id) (h : t.Allows n.index p (.replace old (some c.index))) :
    n.setChild p c t = .ok () (t.splice n.index p (.replace old (some c.index))) := by
  have hp := h.offers _ rfl
  have hw := h.welcomes _ rfl
  obtain ⟨ty, hform⟩ : ∃ ty, p.form = .child ty := by
    have hsuits := h.suits
    cases hp : p.form with
    | child ty => exact ⟨ty, rfl⟩
    | scalar _ | list _ =>
      rw [hp] at hsuits
      exact hsuits.elim
  have hchild : p.form.childType? = some ty := by rw [hform]; rfl
  rw [setChild, look_bind_run (Tree.checkProperty_iff (u := ()).2 ⟨hn, hp⟩),
    look_bind_run (Property.childType_eq_ok.2 hform),
    look_bind_run (Tree.checkModifiable_eq_ok (u := ()).2 ⟨hn, h.modifiable⟩),
    look_bind_run (hw.checkAttachable hf (Tree.mem_nodes.2 ⟨hn, hp.lt_size⟩) hc hchild),
    look_bind_run (Tree.currentChild_of_members hf hn hp hform h.applies)]
  obtain ⟨content, ty', hs, hfits, hty'⟩ := hf.exists_slotAt hp.kindAt hchild
  obtain ⟨_, n⟩ := n
  obtain ⟨_, c⟩ := c
  obtain rfl := hn
  obtain rfl := hc
  have hc : c < t.records.size := hw.modifiable.lt_size
  rw [tell_bind]
  rcases old with _ | old
  · change (link c n p >>= fun _ => _) _ = _
    rw [link_bind (by simpa using hc), fill_bind (by simp) (by simpa using hs) hfits hty' rfl]
    simp only [Tree.tell_records]
    exact splice_run (.replace none (some c)) hs rfl
  · have hold : old < t.records.size := hf.lt_size_of_mem (h.admits.removed_mem rfl)
    change (unlink old >>= fun _ => _) _ = _
    rw [unlink_bind (by simpa using hold), link_bind (by simpa using hc),
      fill_bind (by simp) (by simpa using hs) hfits hty' rfl]
    simp only [Tree.tell_records]
    exact splice_run (.replace (some old) (some c)) hs rfl

/-- **A child is put into a slot**, or nothing happens. -/
theorem setChild_settles (hf : Arena.Forest t.records) :
    (n.setChild p c).Settles (n ∈ t.nodes ∧ c ∈ t.nodes) t fun _ t' =>
      n.tree = t.id ∧ c.tree = t.id ∧ ∃ old, t.Allows n.index p (.replace old (some c.index)) ∧
        t' = t.splice n.index p (.replace old (some c.index)) := by
  refine .look_bind (fun h => Tree.checkProperty_answered h.1) fun _ hp =>
    .look_bind (fun _ => Property.childType_answered) fun ty hty =>
    .look_bind (fun h => Tree.checkModifiable_answered h.1) fun _ hm =>
    .look_bind (fun h => Tree.checkAttachable_answered hf h.1 h.2) fun _ hc => ?_
  obtain ⟨hn, hoffers⟩ := Tree.checkProperty_iff.1 hp
  have hform := Property.childType_eq_ok.1 hty
  refine .look_bind (fun _ => Tree.currentChild_answered hf hn hoffers hform) fun old hold => ?_
  obtain ⟨-, hmodifiable⟩ := Tree.checkModifiable_eq_ok.1 hm
  have hctree := (Tree.checkAttachable_eq_ok.1 hc).1
  have hallows : t.Allows n.index p (.replace old (some c.index)) :=
    (Tree.welcomes_of_attachable hf hoffers (by rw [hform]; rfl) hc).allows hoffers hmodifiable
      (by rw [hform]; trivial) (Tree.currentChild_members hold).2 rfl
  have hrun := setChild_run hf hn hctree hallows
  rw [setChild, look_bind_run hp, look_bind_run hty, look_bind_run hm, look_bind_run hc,
    look_bind_run hold] at hrun
  exact .of_ok hrun ⟨hn, hctree, old, hallows, rfl⟩

/-! ## Taking children away -/

theorem unsetSingle_run {n c : Nat} (hs : Arena.slotAt t.records n p.slot = some (.child (some c)))
    (hc : c < t.records.size) :
    (t.handle n).unsetSingle p (t.handle c) t = .ok () (t.splice n p (.replace (some c) none)) := by
  rw [unsetSingle, tell_bind]
  change (unlink c >>= fun _ => _) _ = _
  rw [unlink_bind (by simpa using hc), writeSlot_bind (by simpa [Tree.handle] using hs)]
  simp only [Tree.tell_records]
  exact splice_run (.replace (some c) none) hs rfl

theorem removeElement_run {n c index : Nat} {items : List Nat}
    (hs : Arena.slotAt t.records n p.slot = some (.list items)) (hi : items[index]? = some c)
    (hc : c < t.records.size) :
    (t.handle n).removeElement p index t =
      .ok (t.handle c) (t.splice n p (.remove index c)) := by
  rw [removeElement, look_bind_run (Tree.currentItems_eq_ok.2 ⟨rfl, hs⟩), hi]
  change (TreeM.tell .pre _ >>= fun _ => _) t = _
  rw [tell_bind, writeSlot_bind (by simpa [Tree.handle] using hs), unlink_bind (by simpa using hc)]
  simp only [Tree.tell_records, Arena.place_setSlot]
  exact splice_bind (.remove index c) hs rfl

/-- **An optional child is taken out of its slot**, or nothing happens. -/
theorem clearChild_settles (hf : Arena.Forest t.records) :
    (n.clearChild p).Settles (n ∈ t.nodes) t fun ret t' =>
      n.tree = t.id ∧ t.Offers n.index p ∧
        ((ret = none ∧ Arena.membersAt t.records n.index p.slot = [] ∧ t' = t) ∨
          ∃ c, ret = some (t.handle c) ∧ t.Allows n.index p (.replace (some c) none) ∧
            t' = t.splice n.index p (.replace (some c) none)) := by
  refine .look_bind Tree.checkProperty_answered fun _ hp =>
    .look_bind (fun _ => Property.childType_answered) fun ty hty =>
    .look_bind (fun _ => .guard _ _) fun _ hopt =>
    .look_bind Tree.checkModifiable_answered fun _ hm => ?_
  obtain ⟨hn, hp⟩ := Tree.checkProperty_iff.1 hp
  have hform := Property.childType_eq_ok.1 hty
  refine .look_bind (fun _ => Tree.currentChild_answered hf hn hp hform) fun old hold => ?_
  obtain ⟨-, hm⟩ := Tree.checkModifiable_eq_ok.1 hm
  have hmem := (Tree.currentChild_members hold).2
  rcases old with _ | c
  · exact .pure ⟨hn, hp, .inl ⟨rfl, hmem, rfl⟩⟩
  · have hallows : t.Allows n.index p (.replace (some c) none) :=
      .of_added_eq_none hp.kindAt hm (by rw [hform]; trivial) hmem rfl
    obtain ⟨_, n⟩ := n
    obtain rfl := hn
    have hs := Tree.currentChild_direct (Property.not_view_of_optional (by simpa using hopt)) hold
    have hrun := unsetSingle_run hs (hf.lt_size_of_mem (hallows.admits.removed_mem rfl))
    refine .of_ok (x := some (t.handle c)) (bind_of_ok hrun) ⟨rfl, hp, .inr ⟨c, rfl, hallows, rfl⟩⟩

/-- A node may go out of the slot that it is in, if its parent may change. -/
theorem exists_removal {l : Location} {c : Nat} (hf : Arena.Forest t.records)
    (hl : Arena.locationAt t.records c = some l) (hm : t.Modifiable l.parent) :
    ∃ x, x.removed = some c ∧ x.added = none ∧ t.Allows l.parent l.property x := by
  obtain ⟨hq, hmem⟩ := hf.held hl
  have hk := (Arena.slot_of_storageAt hq).2
  rcases hform : l.property.form with _ | ty | ty
  · -- what holds a node is no scalar property
    obtain ⟨_, hty⟩ := hf.childType?_of_mem hmem hq
    rw [hform] at hty
    cases hty
  · refine ⟨.replace (some c) none, rfl, rfl, .of_added_eq_none hk hm (by rw [hform]; trivial) ?_ rfl⟩
    exact Arena.membersAt_of_slot (hf.slotAt_of_child hl hform)
  · obtain ⟨i, hi⟩ := List.mem_iff_getElem?.1 hmem
    exact ⟨.remove i c, rfl, rfl, .of_added_eq_none hk hm (by rw [hform]; trivial) hi rfl⟩

/-- **A node goes out of the slot that it is in.** -/
theorem detach_run {l : Location} {x : Splice} (hf : Arena.Forest t.records) (hn : n.tree = t.id)
    (hl : Arena.locationAt t.records n.index = some l) (hremoved : x.removed = some n.index)
    (hadded : x.added = none) (h : t.Allows l.parent l.property x) :
    n.detach t = .ok () (t.splice l.parent l.property x) := by
  obtain ⟨r, hr, hloc⟩ := Arena.locationAt_eq_some.1 hl
  have hlt := Arena.lt_size_of_record hr
  have hsuits := h.suits
  obtain ⟨_, n⟩ := n
  obtain ⟨parent, q⟩ := l
  obtain rfl := hn
  rw [detach, look_bind_run (Tree.own_eq_ok (u := ()).2 rfl), look_bind_run (Tree.record_eq_ok.2 hr), hloc]
  change (look (·.checkModifiable (t.handle parent)) >>= fun _ => _) t = _
  rw [look_bind_run (Tree.checkModifiable_eq_ok (u := ()).2 ⟨rfl, h.modifiable⟩)]
  cases x with
  | insert _ _ | exchange _ _ _ => cases hadded
  | replace old new =>
    obtain rfl : old = some n := hremoved
    obtain rfl : new = none := hadded
    rcases hform : q.form with _ | ty | ty <;> rw [hform] at hsuits
    · exact hsuits.elim
    · exact unsetSingle_run (hf.slotAt_of_child hl hform) hlt
    · exact hsuits.elim
  | remove i c =>
    obtain rfl : c = n := Option.some.inj hremoved
    rcases hform : q.form with _ | ty | ty <;> rw [hform] at hsuits
    · exact hsuits.elim
    · exact hsuits.elim
    · obtain ⟨items, hs, -⟩ := hf.exists_items_of_list hl hform
      have happlies : (Arena.membersAt t.records parent q.slot)[i]? = some c := h.applies
      have hnodup := hf.nodup parent q.slot
      rw [Arena.membersAt_of_slot hs] at happlies hnodup
      have hidx : items.idxOf? c = some i := by
        obtain ⟨hi, rfl⟩ := List.getElem?_eq_some_iff.1 happlies
        exact List.idxOf?_eq_some_iff.2 ⟨hi, rfl, fun j hj heq => Nat.ne_of_lt hj (hnodup.getElem_inj_iff.1 heq)⟩
      have hitems : t.currentItems (t.handle parent) q.slot = .ok items :=
        Tree.currentItems_eq_ok.2 ⟨rfl, hs⟩
      change (look (·.currentItems (t.handle parent) q.slot) >>= fun _ => _) t = _
      rw [look_bind_run hitems, hidx]
      exact bind_of_ok (removeElement_run hs happlies hlt)

/-- **A node is taken away from its parent**; a root stays as it is. -/
theorem detach_settles (hf : Arena.Forest t.records) :
    n.detach.Settles (n ∈ t.nodes) t fun _ t' =>
      n.tree = t.id ∧ ((Arena.locationAt t.records n.index = none ∧ t' = t) ∨
        ∃ l x, Arena.locationAt t.records n.index = some l ∧ x.removed = some n.index ∧
          x.added = none ∧ t.Allows l.parent l.property x ∧
          t' = t.splice l.parent l.property x) := by
  refine .look_bind (fun _ => Tree.own_answered) fun _ hn =>
    .look_bind Tree.record_answered fun r hr => ?_
  have htree := Tree.own_eq_ok.1 hn
  have hloc := Arena.locationAt_of_record (Tree.record_eq_ok.1 hr)
  rcases hl : r.location with _ | l <;> rw [hl] at hloc
  · exact .pure ⟨htree, .inl ⟨hloc, rfl⟩⟩
  · have hparent : (⟨n.tree, l.parent⟩ : NodeId) ∈ t.nodes :=
      Tree.mem_nodes.2 ⟨htree, hf.parent_lt hloc⟩
    refine .look_bind (fun _ => Tree.checkModifiable_answered hparent) fun _ hm => ?_
    obtain ⟨x, hremoved, hadded, hallows⟩ := exists_removal hf hloc (Tree.checkModifiable_eq_ok.1 hm).2
    have hrun := detach_run hf htree hloc hremoved hadded hallows
    rw [detach, look_bind_run hn, look_bind_run hr, hl] at hrun
    change (look (·.checkModifiable (⟨n.tree, l.parent⟩ : NodeId)) >>= fun _ => _) t = _ at hrun
    rw [look_bind_run hm] at hrun
    exact .of_ok hrun ⟨htree, .inr ⟨_, _, hloc, hremoved, hadded, hallows, rfl⟩⟩

/-! ## Reading a child -/

/-- **A placeholder that is not there comes to exist.** -/
theorem child_run {k : Kind} (hf : Arena.Forest t.records) (hlacks : t.Lacks n.index p k)
    (hpeek : t.peekChild n p = .ok none) :
    n.child p t = .ok (some (t.handle t.size)) (t.materialized n.index p k) := by
  obtain ⟨hn, -⟩ := Tree.peekChild_ok hpeek
  obtain ⟨ty, hform⟩ := Property.form_of_placeholder hlacks.placeholder
  have hcreated : Arena.Forest (t.created k).records := hf.push_fresh
  obtain ⟨content, ty', hs, hfits, hty'⟩ :=
    hcreated.exists_slotAt (hlacks.admits hf).owner (by rw [hform]; rfl)
  obtain ⟨_, n⟩ := n
  obtain rfl := hn
  have hmem : content.members = [] :=
    (Arena.membersAt_of_slot hs).symm.trans (hlacks.admits hf).applies
  rw [child, look_bind_run hpeek, hlacks.placeholder]
  change (create k >>= fun _ => _) t = _
  rw [create_bind, link_bind (by simp [Tree.handle, Tree.size]),
    fill_bind rfl (Arena.slotAt_place.trans hs) hfits hty' (by rw [hmem]; rfl), tell_bind,
    Tree.materialized, ← Arena.setSlot_relocate hs]
  simp [Arena.relocate, Splice.added, Splice.removed, Splice.apply, Tree.handle, Tree.created,
    Tree.size, pure, EStateM.pure]

/-- **A child that is there is the answer; a placeholder that is not there comes to exist.** -/
theorem child_settles (hf : Arena.Forest t.records) :
    (n.child p).Settles (n ∈ t.nodes) t fun ret t' =>
      n.tree = t.id ∧ ((t.peekChild n p = .ok ret ∧ t' = t) ∨
        ∃ k, t.Lacks n.index p k ∧ ret = some (t.handle t.size) ∧
          t' = t.materialized n.index p k) := by
  refine .look_bind (Tree.peekChild_answered hf) fun ret hpeek => ?_
  obtain ⟨hn, hp, old, hold, rfl⟩ := Tree.peekChild_ok hpeek
  rcases old with _ | c
  · rcases hplace : p.placeholder with _ | k
    · exact .pure ⟨hn, .inl ⟨hpeek, rfl⟩⟩
    · have hlacks : t.Lacks n.index p k := ⟨hp, hplace, (Tree.currentChild_members hold).2⟩
      have hrun := child_run hf hlacks hpeek
      rw [child, look_bind_run hpeek, hplace] at hrun
      exact .of_ok hrun ⟨hn, .inr ⟨k, hlacks, rfl, rfl⟩⟩
  · exact .pure ⟨hn, .inl ⟨hpeek, rfl⟩⟩

theorem child_atomic (hf : Arena.Forest t.records) : (n.child p).Atomic t fun ret t' =>
    n.tree = t.id ∧ ((t.peekChild n p = .ok ret ∧ t' = t) ∨
      ∃ k, t.Lacks n.index p k ∧ ret = some (t.handle t.size) ∧
        t' = t.materialized n.index p k) := (child_settles hf).atomic

end NodeId

end SyntaxForest
