import SyntaxForest.Proofs.Edit.Child

/-!
# Proofs/Edit/Sequence — what the edits of lists do

An edit of a list is a row of splices of its slot (`Tree.Splices`), or nothing.  A batch is checked
against the tree as it is before the first element comes in; `Tree.Welcomes.splice` carries the
answers on to the trees in between, since no element comes twice.

* `Sequence.Open` — what makes a list property usable on a node.
* `Sequence.insertEach_run`, `Sequence.removeFirst_run` — the two loops, as rows of splices.
* `Sequence.insertAll_run`, `Sequence.set_run`, `Sequence.remove_run` — the edits that nothing stands in
  the way of.
* `Sequence.apply_settles` — **every edit of a list is a row of splices**, or nothing happens.
-/

namespace SyntaxForest

/-- The nodes that an edit of a list is to bring in. -/
def ListEdit.newcomers : ListEdit → List NodeId
  | push c | insert _ c | set _ c => [c]
  | extend cs => cs
  | remove _ | clear => []

namespace Sequence

open TreeM

variable {t t' : Tree} {s : Sequence} {c : NodeId} {n index : Nat} {items : List Nat}

/-- **A usable list**: a list property that the tree offers on the node. -/
structure Open (s : Sequence) (t : Tree) : Prop where
  owned : s.node.tree = t.id
  offers : t.Offers s.node.index s.property
  form : s.property.form = .list s.elementType

theorem Open.childType (h : s.Open t) : s.property.form.childType? = some s.elementType := by
  rw [h.form]
  rfl

/-- A list stays usable when a slot changes. -/
theorem Open.splice {n : Nat} {p : Property} {x : Splice} (h : s.Open t) : s.Open (t.splice n p x) :=
  ⟨h.owned.trans Tree.splice_id.symm, h.offers.splice, h.form⟩

theorem Open.splices {xs : List Splice} (ho : s.Open t) (hf : Arena.Forest t.records)
    (hx : Tree.Splices s.node.index s.property t xs t') : s.Open t' ∧ Arena.Forest t'.records := by
  refine ⟨?_, hx.forest hf⟩
  induction hx with
  | nil _ => exact ho
  | cons hallows _ ih => exact ih ho.splice (hallows.forest hf)

theorem sequence_eq_ok {p : Property} {n : NodeId} :
    t.sequence n p = .ok s ↔ s.Open t ∧ s.node = n ∧ s.property = p := by
  simp only [Tree.sequence, bind_eq_ok, Tree.checkProperty_iff, Property.elementType_eq_ok]
  constructor
  · rintro ⟨_, ⟨hn, hp⟩, ty, hty, h⟩
    cases h
    exact ⟨⟨hn, hp, hty⟩, rfl, rfl⟩
  · rintro ⟨h, rfl, rfl⟩
    exact ⟨⟨⟩, ⟨h.owned, h.offers⟩, _, h.form, rfl⟩

theorem items_eq_ok : t.items s = .ok items ↔ s.node.tree = t.id ∧
    Arena.slotAt t.records s.node.index s.property.slot = some (.list items) :=
  Tree.currentItems_eq_ok

/-- The elements of a list are the handles of what its slot holds. -/
theorem elements_eq_ok {ns : List NodeId} :
    t.elements s = .ok ns ↔ ∃ items, t.items s = .ok items ∧ ns = items.map t.handle := by
  rw [Tree.elements, bind_eq_ok]
  refine exists_congr fun items => and_congr_right fun _ => ⟨fun h => ?_, fun h => ?_⟩
  · exact (Except.ok.inj h).symm
  · exact congrArg Except.ok h.symm

/-! ## The questions of lists -/

theorem Open.mem_nodes (h : s.Open t) : s.node ∈ t.nodes := Tree.mem_nodes.2 ⟨h.owned, h.offers.lt_size⟩

/-- **A usable list has its elements.** -/
theorem Open.exists_items (h : s.Open t) (hf : Arena.Forest t.records) :
    ∃ items, t.items s = .ok items := by
  obtain ⟨content, ty, hs, hfits, -⟩ := hf.exists_slotAt h.offers.kindAt h.childType
  rw [Property.primary_of_list h.form, h.form] at hfits
  obtain ⟨items, rfl⟩ := Slot.eq_list_of_fits hfits
  exact ⟨items, items_eq_ok.2 ⟨h.owned, hs⟩⟩

/-- …and they are what its slot holds. -/
theorem Open.exists_slotAt (h : s.Open t) (hf : Arena.Forest t.records) :
    ∃ items, Arena.slotAt t.records s.node.index s.property.slot = some (.list items) := by
  obtain ⟨items, hitems⟩ := h.exists_items hf
  exact ⟨items, (items_eq_ok.1 hitems).2⟩

/-- An index below the bound passes. -/
theorem checkIndex_of_lt {bound : Nat} (hitems : t.items s = .ok items) (hi : index < bound) :
    t.checkIndex s index bound = .ok () :=
  bind_eq_ok.2 ⟨items, hitems, unlessRefused_eq_ok.2 (by simpa using hi)⟩

theorem Open.items_answered (h : s.Open t) (hf : Arena.Forest t.records) : Answered (t.items s) := by
  obtain ⟨items, hitems⟩ := h.exists_items hf
  exact .of_ok hitems

theorem Open.checkIndex_answered {bound : Nat} (h : s.Open t) (hf : Arena.Forest t.records) :
    Answered (t.checkIndex s index bound) := (h.items_answered hf).bind fun _ _ => .guard _ _

theorem Open.checkBatch_answered {seen cs : List NodeId} (h : s.Open t)
    (hf : Arena.Forest t.records) (hcs : ∀ c ∈ cs, c ∈ t.nodes) :
    Answered (t.checkBatch s seen cs) := by
  induction cs generalizing seen with
  | nil => exact .of_ok rfl
  | cons c cs ih =>
    obtain ⟨hc, hcs⟩ := List.forall_mem_cons.1 hcs
    exact (Answered.guard _ _).bind fun _ _ =>
      (Tree.checkAttachable_answered hf h.mem_nodes hc).bind fun _ _ => ih hcs

/-- The slot of a list after a splice that suits lists. -/
theorem slotAt_splice {p : Property} {x : Splice}
    (hs : Arena.slotAt t.records n p.slot = some (.list items)) :
    Arena.slotAt (t.splice n p x).records n p.slot = some (.list (x.apply items)) := by
  rw [Tree.splice_records, Arena.slotAt_rewire, if_pos ⟨rfl, rfl⟩, hs]
  rfl

/-! ## Bringing elements in -/

/-- The splices that bring a batch in, from an index on. -/
def insertions (index : Nat) : List Nat → List Splice
  | [] => []
  | c :: cs => .insert index c :: insertions (index + 1) cs

theorem mem_of_insertions {x : Splice} {c : Nat} {ds : List Nat} (hx : x ∈ insertions index ds)
    (hc : x.added = some c) : c ∈ ds := by
  induction ds generalizing index with
  | nil => cases hx
  | cons d ds ih =>
    rcases List.mem_cons.1 hx with rfl | hx
    · cases hc
      exact List.mem_cons_self
    · exact List.mem_cons_of_mem _ (ih hx)

theorem insertOne_run {c : Nat} (hn : s.node = t.handle n)
    (hs : Arena.slotAt t.records n s.property.slot = some (.list items))
    (hi : index ≤ items.length) (hc : c < t.records.size) :
    s.insertOne index (t.handle c) t = .ok () (t.splice n s.property (.insert index c)) := by
  rw [insertOne, hn, tell_bind, link_bind (by simpa [Tree.handle] using hc)]
  have hitems : ∀ t' : Tree, t'.id = t.id →
      Arena.slotAt t'.records n s.property.slot = some (.list items) → t'.items s = .ok items :=
    fun t' hid hs' => items_eq_ok.2 ⟨by rw [hn, hid]; rfl, by rw [hn]; exact hs'⟩
  rw [look_bind_run (hitems _ (by simp) (by simpa [Tree.handle] using hs)), if_pos hi]
  change (writeSlot _ _ _ >>= fun _ => _) _ = _
  rw [writeSlot_bind (by simpa [Tree.handle] using hs)]
  simp only [Tree.tell_records]
  exact splice_run (.insert index c) hs rfl

/-- **A batch of welcome nodes comes in one by one.** -/
theorem insertEach_run {cs : List Nat} (hf : Arena.Forest t.records) (hn : s.node = t.handle n)
    (hp : t.Offers n s.property) (hform : s.property.form = .list s.elementType)
    (hm : t.Modifiable n)
    (hs : Arena.slotAt t.records n s.property.slot = some (.list items))
    (hi : index ≤ items.length) (hcs : cs.Nodup) (hw : ∀ c ∈ cs, t.Welcomes n s.property c) :
    ∃ t', s.insertEach index (cs.map t.handle) t = .ok () t' ∧
      Tree.Splices n s.property t (insertions index cs) t' := by
  induction cs generalizing t index items with
  | nil => exact ⟨t, rfl, .nil t⟩
  | cons c cs ih =>
    obtain ⟨hc, hcs⟩ := List.nodup_cons.1 hcs
    obtain ⟨hwc, hw⟩ := List.forall_mem_cons.1 hw
    have hallows : t.Allows n s.property (.insert index c) :=
      hwc.allows hp hm (by rw [hform]; trivial) (Arena.membersAt_of_slot hs ▸ hi) rfl
    have hlen : index + 1 ≤ ((Splice.insert index c).apply items).length := by
      rw [Splice.apply, List.length_insertIdx_of_le_length hi]
      omega
    obtain ⟨t', hrun, hsplices⟩ := ih (hallows.forest hf) (by rw [hn, Tree.splice_handle]) hp.splice
      hm.splice (slotAt_splice hs) hlen hcs fun d hd =>
        (hw d hd).splice hf hallows fun heq => hc (Option.some.inj heq ▸ hd)
    rw [Tree.splice_handle] at hrun
    refine ⟨t', ?_, .cons hallows hsplices⟩
    rw [List.map_cons, insertEach, bind_of_ok (insertOne_run hn hs hi hwc.modifiable.lt_size), hrun]

/-- **A batch passes its check** when no node comes twice and each is attachable. -/
theorem checkBatch_eq_ok {seen cs : List NodeId} {u : Unit} : t.checkBatch s seen cs = .ok u ↔
    cs.Nodup ∧ (∀ c ∈ cs, c ∉ seen) ∧
      ∀ c ∈ cs, t.checkAttachable s.node s.property s.elementType c = .ok () := by
  induction cs generalizing seen with
  | nil => simp [Tree.checkBatch]
  | cons c cs ih =>
    simp only [Tree.checkBatch, bind_eq_ok, unlessRefused_eq_ok, ih, List.nodup_cons,
      List.mem_cons, forall_eq_or_imp, not_or, Bool.not_eq_true', List.contains_eq_mem,
      decide_eq_false_iff_not]
    constructor
    · rintro ⟨⟨⟩, hseen, ⟨⟩, hc, hcs, hseens, hall⟩
      exact ⟨⟨fun hmem => (hseens c hmem).1 rfl, hcs⟩, ⟨hseen, fun d hd => (hseens d hd).2⟩, hc,
        hall⟩
    · rintro ⟨⟨hmem, hcs⟩, ⟨hseen, hseens⟩, hc, hall⟩
      exact ⟨⟨⟩, hseen, ⟨⟩, hc, hcs, fun d hd => ⟨fun heq => hmem (heq ▸ hd), hseens d hd⟩, hall⟩

/-- **A batch of welcome nodes comes in**, if none comes twice. -/
theorem insertAll_run {cs : List Nat} (hf : Arena.Forest t.records) (ho : s.Open t)
    (hm : t.Modifiable s.node.index)
    (hs : Arena.slotAt t.records s.node.index s.property.slot = some (.list items))
    (hi : index ≤ items.length) (hcs : cs.Nodup)
    (hw : ∀ c ∈ cs, t.Welcomes s.node.index s.property c) :
    ∃ t', s.insertAll index (cs.map t.handle) t = .ok () t' ∧
      Tree.Splices s.node.index s.property t (insertions index cs) t' := by
  have hitems : t.items s = .ok items := items_eq_ok.2 ⟨ho.owned, hs⟩
  have hbatch : t.checkBatch s [] (cs.map t.handle) = .ok () := by
    refine checkBatch_eq_ok.2 ⟨hcs.map fun _ _ => congrArg NodeId.index, by simp, fun c hc => ?_⟩
    obtain ⟨d, hd, rfl⟩ := List.mem_map.1 hc
    exact Tree.Welcomes.checkAttachable hf ho.mem_nodes rfl (hw d hd) ho.childType
  rw [insertAll, look_bind_run hitems, look_bind_run (checkIndex_of_lt hitems (Nat.lt_succ_of_le hi)),
    look_bind_run (Tree.checkModifiable_eq_ok (u := ()).2 ⟨ho.owned, hm⟩), look_bind_run hbatch]
  exact insertEach_run hf (Tree.handle_index ho.owned).symm ho.offers ho.form hm hs hi hcs hw

/-- …and so does one that may come in at an index. -/
theorem insert_run {c : Nat} (hf : Arena.Forest t.records) (ho : s.Open t)
    (h : t.Allows s.node.index s.property (.insert index c)) : s.insert index (t.handle c) t =
      .ok () (t.splice s.node.index s.property (.insert index c)) := by
  obtain ⟨items, hs⟩ := ho.exists_slotAt hf
  have hi := h.applies
  rw [Arena.membersAt_of_slot hs] at hi
  have hw : ∀ d ∈ [c], t.Welcomes s.node.index s.property d := fun d hd => by
    obtain rfl := List.mem_singleton.1 hd
    exact h.welcomes d rfl
  obtain ⟨t', hrun, hsplices⟩ := insertAll_run hf ho h.modifiable hs hi (List.nodup_singleton c) hw
  cases hsplices with
  | cons _ hnil =>
    cases hnil
    exact hrun

theorem insertAll_settles {cs : List NodeId} (hf : Arena.Forest t.records) (ho : s.Open t) :
    (s.insertAll index cs).Settles (∀ c ∈ cs, c ∈ t.nodes) t fun _ t' =>
      ∃ ds : List Nat, cs = ds.map t.handle ∧
        Tree.Splices s.node.index s.property t (insertions index ds) t' := by
  refine .look_bind (fun _ => ho.items_answered hf) fun items hitems =>
    .look_bind (fun _ => ho.checkIndex_answered hf) fun _ hi =>
    .look_bind (fun _ => Tree.checkModifiable_answered ho.mem_nodes) fun _ hm =>
    .look_bind (ho.checkBatch_answered hf) fun _ hbatch => ?_
  obtain ⟨_, -, hle⟩ := bind_eq_ok.1 hi
  rw [unlessRefused_eq_ok, decide_eq_true_eq] at hle
  obtain ⟨hcs, -, hall⟩ := checkBatch_eq_ok.1 hbatch
  have hds : cs = (cs.map NodeId.index).map t.handle := by
    rw [List.map_map]
    refine (List.map_id cs).symm.trans (List.map_congr_left fun c hc => ?_)
    exact (Tree.handle_index (Tree.checkAttachable_eq_ok.1 (hall c hc)).1).symm
  obtain ⟨t', hrun, hsplices⟩ := insertAll_run hf ho (Tree.checkModifiable_eq_ok.1 hm).2
    (items_eq_ok.1 hitems).2 (Nat.le_of_lt_succ hle) (List.Nodup.of_map t.handle (hds ▸ hcs)) fun d hd => by
      obtain ⟨c, hc, rfl⟩ := List.mem_map.1 hd
      exact Tree.welcomes_of_attachable hf ho.offers ho.childType (hall c hc)
  rw [← hds, insertAll, look_bind_run hitems, look_bind_run hi, look_bind_run hm, look_bind_run hbatch] at hrun
  exact .of_ok hrun ⟨_, hds, hsplices⟩

/-- **A batch comes in after the elements that are there**, or nothing happens. -/
theorem extend_settles {cs : List NodeId} (hf : Arena.Forest t.records) (ho : s.Open t) :
    (s.extend cs).Settles (∀ c ∈ cs, c ∈ t.nodes) t fun _ t' =>
      ∃ items ds, t.items s = .ok items ∧ cs = ds.map t.handle ∧
        Tree.Splices s.node.index s.property t (insertions items.length ds) t' :=
  .look_bind (fun _ => ho.items_answered hf) fun items hitems =>
    (insertAll_settles hf ho).mono fun _ _ ⟨ds, hds, hsplices⟩ => ⟨items, ds, hitems, hds, hsplices⟩

/-! ## Exchanging elements and taking them out -/

/-- **An element is replaced** by a child that may come in for it. -/
theorem set_run {old : Nat} (hf : Arena.Forest t.records) (ho : s.Open t) (hc : c.tree = t.id)
    (h : t.Allows s.node.index s.property (.exchange index old c.index)) : s.set index c t =
      .ok (t.handle old) (t.splice s.node.index s.property (.exchange index old c.index)) := by
  obtain ⟨items, hs⟩ := ho.exists_slotAt hf
  have hi := h.applies
  rw [Arena.membersAt_of_slot hs] at hi
  change items[index]? = some old at hi
  have hitems : t.items s = .ok items := items_eq_ok.2 ⟨ho.owned, hs⟩
  have hw := h.welcomes _ rfl
  have hlt : c.index < t.records.size := hw.modifiable.lt_size
  have hold : old < t.records.size := hf.lt_size_of_mem (h.admits.removed_mem rfl)
  rw [set, look_bind_run hitems, look_bind_run (checkIndex_of_lt hitems (List.getElem?_eq_some_iff.1 hi).1),
    look_bind_run (Tree.checkModifiable_eq_ok (u := ()).2 ⟨ho.owned, h.modifiable⟩),
    look_bind_run (hw.checkAttachable hf ho.mem_nodes hc ho.childType), hi]
  obtain ⟨⟨_, n⟩, p, ty⟩ := s
  obtain ⟨_, c⟩ := c
  obtain rfl := ho.owned
  obtain rfl := hc
  change (TreeM.tell .pre _ >>= fun _ => _) t = _
  rw [tell_bind, unlink_bind (by simpa using hold), link_bind (by simpa using hlt),
    writeSlot_bind (by simpa using hs)]
  simp only [Tree.tell_records]
  exact splice_bind (.exchange index old c) hs rfl

/-- **An element is replaced in place**, or nothing happens. -/
theorem set_settles (hf : Arena.Forest t.records) (ho : s.Open t) :
    (s.set index c).Settles (c ∈ t.nodes) t fun ret t' => ∃ old, ret = t.handle old ∧
      c.tree = t.id ∧ t.Allows s.node.index s.property (.exchange index old c.index) ∧
      t' = t.splice s.node.index s.property (.exchange index old c.index) := by
  refine .look_bind (fun _ => ho.items_answered hf) fun items hitems =>
    .look_bind (fun _ => ho.checkIndex_answered hf) fun _ hlt =>
    .look_bind (fun _ => Tree.checkModifiable_answered ho.mem_nodes) fun _ hm =>
    .look_bind (Tree.checkAttachable_answered hf ho.mem_nodes) fun _ hc => ?_
  obtain ⟨_, -, hindex⟩ := bind_eq_ok.1 hlt
  rw [unlessRefused_eq_ok, decide_eq_true_eq] at hindex
  rcases hi : items[index]? with _ | old
  · exact absurd (List.getElem?_eq_none_iff.1 hi) (Nat.not_le_of_lt hindex)
  · have hctree := (Tree.checkAttachable_eq_ok.1 hc).1
    have hallows : t.Allows s.node.index s.property (.exchange index old c.index) :=
      (Tree.welcomes_of_attachable hf ho.offers ho.childType hc).allows ho.offers
        (Tree.checkModifiable_eq_ok.1 hm).2 (by rw [ho.form]; trivial)
        (Arena.membersAt_of_slot (items_eq_ok.1 hitems).2 ▸ hi) rfl
    have hrun := set_run hf ho hctree hallows
    rw [set, look_bind_run hitems, look_bind_run hlt, look_bind_run hm, look_bind_run hc, hi] at hrun
    exact .of_ok hrun ⟨old, rfl, hctree, hallows, rfl⟩

/-- An element may be taken out of a list of a node that may change. -/
theorem Open.allows_remove {d : Nat} (ho : s.Open t) (hm : t.Modifiable s.node.index)
    (hs : Arena.slotAt t.records s.node.index s.property.slot = some (.list items))
    (hi : items[index]? = some d) : t.Allows s.node.index s.property (.remove index d) :=
  .of_added_eq_none ho.offers.kindAt hm (by rw [ho.form]; trivial)
    (Arena.membersAt_of_slot hs ▸ hi) rfl

/-- **An element is taken out** of the list that it is in. -/
theorem remove_run {d : Nat} (hf : Arena.Forest t.records) (ho : s.Open t)
    (h : t.Allows s.node.index s.property (.remove index d)) : s.remove index t =
      .ok (t.handle d) (t.splice s.node.index s.property (.remove index d)) := by
  obtain ⟨items, hs⟩ := ho.exists_slotAt hf
  have hi := h.applies
  rw [Arena.membersAt_of_slot hs] at hi
  change items[index]? = some d at hi
  have hitems : t.items s = .ok items := items_eq_ok.2 ⟨ho.owned, hs⟩
  have hrun := NodeId.removeElement_run hs hi (hf.lt_size_of_mem (h.admits.removed_mem rfl))
  rw [Tree.handle_index ho.owned] at hrun
  rw [remove, look_bind_run hitems, look_bind_run (checkIndex_of_lt hitems (List.getElem?_eq_some_iff.1 hi).1),
    look_bind_run (Tree.checkModifiable_eq_ok (u := ()).2 ⟨ho.owned, h.modifiable⟩), hrun]

/-- **An element is taken out**, or nothing happens. -/
theorem remove_settles (hf : Arena.Forest t.records) (ho : s.Open t) :
    (s.remove index).Settles True t fun ret t' => ∃ d, ret = t.handle d ∧
      t.Allows s.node.index s.property (.remove index d) ∧
      t' = t.splice s.node.index s.property (.remove index d) := by
  refine .look_bind (fun _ => ho.items_answered hf) fun items hitems =>
    .look_bind (fun _ => ho.checkIndex_answered hf) fun _ hi =>
    .look_bind (fun _ => Tree.checkModifiable_answered ho.mem_nodes) fun _ hm => ?_
  obtain ⟨_, -, hlt⟩ := bind_eq_ok.1 hi
  rw [unlessRefused_eq_ok, decide_eq_true_eq] at hlt
  have hallows := ho.allows_remove (Tree.checkModifiable_eq_ok.1 hm).2 (items_eq_ok.1 hitems).2
    (List.getElem?_eq_getElem hlt)
  have hrun := remove_run hf ho hallows
  rw [remove, look_bind_run hitems, look_bind_run hi, look_bind_run hm] at hrun
  exact .of_ok hrun ⟨_, rfl, hallows, rfl⟩

/-- **All elements are taken out from the front.** -/
theorem removeFirst_run (hf : Arena.Forest t.records) (ho : s.Open t)
    (hm : t.Modifiable s.node.index)
    (hs : Arena.slotAt t.records s.node.index s.property.slot = some (.list items)) :
    ∃ t', s.removeFirst items.length t = .ok (items.map t.handle) t' ∧
      Tree.Splices s.node.index s.property t (items.map (.remove 0 ·)) t' := by
  induction items generalizing t with
  | nil => exact ⟨t, rfl, .nil t⟩
  | cons d items ih =>
    have hfirst : (d :: items)[0]? = some d := rfl
    have hallows := ho.allows_remove hm hs hfirst
    have hrun := NodeId.removeElement_run hs hfirst
      (hf.lt_size_of_mem (hallows.admits.removed_mem rfl))
    rw [Tree.handle_index ho.owned] at hrun
    obtain ⟨t', hrest, hsplices⟩ := ih (hallows.forest hf) ho.splice hm.splice (slotAt_splice hs)
    rw [Tree.splice_handle] at hrest
    refine ⟨t', ?_, .cons hallows hsplices⟩
    rw [List.length_cons, removeFirst, bind_of_ok hrun, bind_of_ok hrest]
    rfl

theorem clear_settles (hf : Arena.Forest t.records) (ho : s.Open t) :
    s.clear.Settles True t fun ret t' => ∃ ds : List Nat, t.items s = .ok ds ∧
      ret = ds.map t.handle ∧ Tree.Splices s.node.index s.property t (ds.map (.remove 0 ·)) t' := by
  refine .look_bind (fun _ => Tree.checkModifiable_answered ho.mem_nodes) fun _ hm =>
    .look_bind (fun _ => ho.items_answered hf) fun items hitems => ?_
  obtain ⟨-, hm⟩ := Tree.checkModifiable_eq_ok.1 hm
  obtain ⟨-, hs⟩ := items_eq_ok.1 hitems
  obtain ⟨t', hrun, hsplices⟩ := removeFirst_run hf ho hm hs
  exact .of_ok hrun ⟨items, hitems, rfl, hsplices⟩

/-- **Every edit of a list is a row of splices of its slot** that bring in its newcomers only, or
nothing happens. -/
theorem apply_settles (hf : Arena.Forest t.records) (ho : s.Open t) (e : ListEdit) :
    (s.apply e).Settles (∀ c ∈ e.newcomers, c ∈ t.nodes) t fun _ t' =>
      ∃ xs, Tree.Splices s.node.index s.property t xs t' ∧
        ∀ x ∈ xs, ∀ c, x.added = some c → t.handle c ∈ e.newcomers := by
  have hitems : Answered (t.items s) := ho.items_answered hf
  have hinsert : ∀ index cs, (s.insertAll index cs).Settles (∀ c ∈ cs, c ∈ t.nodes) t fun _ t' =>
      ∃ xs, Tree.Splices s.node.index s.property t xs t' ∧
        ∀ x ∈ xs, ∀ c, x.added = some c → t.handle c ∈ cs := fun index cs =>
    (insertAll_settles hf ho).mono fun _ _ ⟨ds, hds, hsplices⟩ => ⟨_, hsplices, fun x hx c hc =>
      hds ▸ List.mem_map_of_mem (mem_of_insertions hx hc)⟩
  cases e with
  | push c => exact .bind_pure (.look_bind (fun _ => hitems) fun items _ => hinsert items.length [c])
  | insert index c => exact .bind_pure (hinsert index [c])
  | extend cs =>
    exact .bind_pure (.look_bind (fun _ => hitems) fun items _ => hinsert items.length cs)
  | set index c =>
    refine .bind_pure (.when (fun h => h c (List.mem_singleton_self c))
      ((set_settles hf ho).mono fun _ _ ⟨_, _, hctree, hallows, ht'⟩ =>
        ⟨_, ht'.symm ▸ Tree.Splices.single hallows, fun x hx d hd => ?_⟩))
    obtain rfl := List.mem_singleton.1 hx
    cases hd
    rw [Tree.handle_index hctree]
    exact List.mem_singleton_self c
  | remove index =>
    refine .bind_pure (.when (fun _ => trivial) ((remove_settles hf ho).mono
      fun _ _ ⟨_, _, hallows, ht'⟩ =>
        ⟨_, ht'.symm ▸ Tree.Splices.single hallows, fun x hx d hd => ?_⟩))
    obtain rfl := List.mem_singleton.1 hx
    cases hd
  | clear =>
    refine .when (fun _ => trivial) ((clear_settles hf ho).mono fun _ _ ⟨_, _, _, hsplices⟩ =>
      ⟨_, hsplices, fun x hx d hd => ?_⟩)
    obtain ⟨_, -, rfl⟩ := List.mem_map.1 hx
    cases hd

end Sequence

end SyntaxForest
