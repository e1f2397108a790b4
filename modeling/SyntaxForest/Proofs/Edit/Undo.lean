import SyntaxForest.Proofs.Edit.Cycle
import SyntaxForest.Proofs.Edit.Inverse
import SyntaxForest.Proofs.Edit.Visible

/-!
# Proofs/Edit/Undo — every edit that moves nodes can be taken back

The call that takes an edit back is another one as a rule: what came in through a view goes out of the list
behind it, and a batch goes out element by element.  Each of these calls is a splice, or a row of splices,
that takes back what the edit did (`Splice.TakesBack`); that it is allowed is what `Tree.Allows.back` is
for.

* `TreeM.Restores` — a call that leads back to the same nodes.
* `Sequence.removeAt_run`, `Tree.Splices.returns` — elements that came in one after the other go out again,
  and those that went out one after the other are all welcome.
* `Tree.Undoable` — the edits and the calls that take them back, shown of every sound tree by
  `Tree.Sound.undoable`.
-/

namespace SyntaxForest

/-- **The call leads back**: it succeeds on the tree after the edit, and leaves the nodes of the tree before
it as they were. -/
def TreeM.Restores {α : Type} (m : TreeM α) (after before : Tree) : Prop :=
  ∃ x t, m after = .ok x t ∧ before.SameNodes t

/-- Takes out the element at an index, so many times. -/
def Sequence.removeAt (s : Sequence) (index : Nat) : (count : Nat) → TreeM Unit
  | 0 => return
  | count + 1 => do
    let _ ← s.remove index
    s.removeAt index count

/-- **Every edit that moves nodes can be taken back**, unless the node that went out is protected. -/
structure Tree.Undoable (t : Tree) : Prop where
  /-- a child that came in for another -/
  setChild : ∀ n p c o t', p.isSoleElementView = false → t.peekChild n p = .ok (some o) →
    t.Unprotected o → n.setChild p c t = .ok () t' → (n.setChild p o).Restores t' t
  /-- …through a view: the other one comes in for it in the list behind the view -/
  setChild_view : ∀ n v c o t', v.isSoleElementView = true → t.peekChild n v = .ok (some o) →
    t.Unprotected o → n.setChild v c t = .ok () t' →
      ∃ q, t'.sequence n v.primary = .ok q ∧ (q.set 0 o).Restores t' t
  /-- a child that came in for none, through a view or not -/
  setChild_unset : ∀ n p c t', t.peekChild n p = .ok none → n.setChild p c t = .ok () t' →
    c.detach.Restores t' t
  clearChild : ∀ (n : NodeId) p c t', t.Unprotected c → n.clearChild p t = .ok (some c) t' →
    (n.setChild p c).Restores t' t
  insert : ∀ n p q i c t', t.sequence n p = .ok q → q.insert i c t = .ok () t' →
    (q.remove i).Restores t' t
  push : ∀ n p q items c t', t.sequence n p = .ok q → t.elements q = .ok items →
    q.push c t = .ok () t' → (q.remove items.length).Restores t' t
  remove : ∀ n p q i c t', t.sequence n p = .ok q → t.Unprotected c → q.remove i t = .ok c t' →
    (q.insert i c).Restores t' t
  set : ∀ n p q i c o t', t.sequence n p = .ok q → t.Unprotected o → q.set i c t = .ok o t' →
    (q.set i o).Restores t' t
  /-- a batch goes out element by element, from where the list ended before -/
  extend : ∀ n p q items cs t', t.sequence n p = .ok q → t.elements q = .ok items →
    q.extend cs t = .ok () t' → (q.removeAt items.length cs.length).Restores t' t
  clear : ∀ n p q cs t', t.sequence n p = .ok q → (∀ c ∈ cs, t.Unprotected c) →
    q.clear t = .ok cs t' → (q.extend cs).Restores t' t
  /-- a node goes back where it was: to its place as a single child, or to its index in a list -/
  detach : ∀ c r l t', t.look c = .ok r → r.location = some l → t.Unprotected c →
    c.detach t = .ok () t' → ((t.handle l.parent).setChild l.property c).Restores t' t ∨
      ∃ q items i, t.sequence (t.handle l.parent) l.property = .ok q ∧ t.elements q = .ok items ∧
        items[i]? = some c ∧ (q.insert i c).Restores t' t

/-! ## Elements that come and go in a row -/

namespace Tree

variable {t t' : Tree} {n d : Nat} {p q : Property} {xs : List Splice} {items ds : List Nat}

theorem foldl_removals {i : Nat} (hi : items.length = i) :
    (ds.map (Splice.remove i ·)).foldl (fun cs x => x.apply cs) (items ++ ds) = items := by
  induction ds with
  | nil => simp
  | cons d ds ih =>
    rw [List.map_cons, List.foldl_cons, Splice.apply, List.eraseIdx_append_of_length_le (Nat.le_of_eq hi),
      hi, Nat.sub_self]
    exact ih

/-- Who is welcome stays so while others come and go. -/
theorem Splices.keeps_welcome (hf : Arena.Forest t.records) (h : Splices n p t xs t')
    (hxs : ∀ x ∈ xs, x.added ≠ some d) (hd : t.Welcomes n q d) : t'.Welcomes n q d := by
  induction h with
  | nil _ => exact hd
  | cons hx _ ih =>
    obtain ⟨hne, hxs⟩ := List.forall_mem_cons.1 hxs
    exact ih (hx.forest hf) hxs (hd.splice hf hx hne)

/-- **All elements that went out are welcome**, unless they are protected. -/
theorem Splices.returns (h : t.Sound .declared) (hsplices : Splices n p t (ds.map (.remove 0 ·)) t')
    (hds : ∀ d ∈ ds, t.Modifiable d) : ∀ d ∈ ds, t'.Welcomes n p.primary d := by
  induction ds generalizing t with
  | nil => exact List.forall_mem_nil _
  | cons d ds ih =>
    cases hsplices with
    | cons hx hsplices =>
      obtain ⟨hd, hds⟩ := List.forall_mem_cons.1 hds
      have hsound := h.splice hx (.of_added_eq_none rfl)
      refine List.forall_mem_cons.2 ⟨?_, ih hsound hsplices fun e he => (hds e he).splice⟩
      refine hsplices.keeps_welcome hsound.forest (fun x hmem => ?_) (hx.returns h rfl hd)
      obtain ⟨e, -, rfl⟩ := List.mem_map.1 hmem
      exact nofun

theorem Splices.modifiable (h : Splices n p t xs t') (hd : t.Modifiable d) : t'.Modifiable d := by
  induction h with
  | nil _ => exact hd
  | cons _ _ ih => exact ih hd.splice

end Tree

namespace Sequence

open TreeM

variable {t : Tree} {s : Sequence} {items ds : List Nat}

/-- **Elements at the end of a list go out from the front**, one after the other. -/
theorem removeAt_run (hf : Arena.Forest t.records) (ho : s.Open t) (hm : t.Modifiable s.node.index)
    (hs : Arena.slotAt t.records s.node.index s.property.slot = some (.list (items ++ ds))) :
    ∃ t', s.removeAt items.length ds.length t = .ok () t' ∧
      Tree.Splices s.node.index s.property t (ds.map (.remove items.length ·)) t' := by
  induction ds generalizing t with
  | nil => exact ⟨t, rfl, .nil t⟩
  | cons d ds ih =>
    have hd : (items ++ d :: ds)[items.length]? = some d := by simp
    have hx := ho.allows_remove hm hs hd
    have hrest := slotAt_splice (x := .remove items.length d) hs
    rw [Splice.apply, List.eraseIdx_append_of_length_le (Nat.le_refl _), Nat.sub_self] at hrest
    obtain ⟨t', hrun, hsplices⟩ := ih (hx.forest hf) ho.splice hm.splice hrest
    refine ⟨t', ?_, .cons hx hsplices⟩
    rw [List.length_cons, removeAt, bind_of_ok (remove_run hf ho hx), hrun]

end Sequence

/-! ## Edits taken back -/

namespace Tree

open TreeM

variable {t t' : Tree} {n c o : NodeId} {p v : Property} {q : Sequence} {i : Nat} {cs items : List NodeId}

/-- What setting a child does to the child that was there. -/
theorem setChild_replaces {ret : Option NodeId} (hf : Arena.Forest t.records)
    (hpeek : t.peekChild n p = .ok ret) (h : n.setChild p c t = .ok () t') :
    n.tree = t.id ∧ c.tree = t.id ∧ ∃ old, old.map t.handle = ret ∧
      Arena.membersAt t.records n.index p.slot = old.toList ∧
      t.Allows n.index p (.replace old (some c.index)) ∧
      t' = t.splice n.index p (.replace old (some c.index)) := by
  obtain ⟨hn, hc, old, hx, rfl⟩ := (NodeId.setChild_settles hf).atomic.of_ok_eq h
  obtain ⟨-, -, old', hold, rfl⟩ := peekChild_ok hpeek
  have hmem := (currentChild_members hold).2
  obtain rfl : old = old' := by
    have htoList : old.toList = old'.toList := hx.applies.symm.trans hmem
    simpa using congrArg List.head? htoList
  exact ⟨hn, hc, old, rfl, hmem, hx, rfl⟩

section Sound

variable (h : t.Sound .declared)

include h

theorem setChild_restores (hdirect : p.isSoleElementView = false) (hpeek : t.peekChild n p = .ok (some o))
    (ho : t.Unprotected o) (hset : n.setChild p c t = .ok () t') : (n.setChild p o).Restores t' t := by
  obtain ⟨hn, hc, old, hold, -, hx, rfl⟩ := setChild_replaces h.forest hpeek hset
  obtain ⟨o, rfl, rfl⟩ := Option.map_eq_some_iff.1 hold
  obtain ⟨hback, hsame⟩ := hx.inverse h (Property.primary_of_direct hdirect) (hx.offers _ rfl)
    fun _ ho' => Option.some.inj ho' ▸ (unprotected_iff.1 ho).2
  exact ⟨(), _, NodeId.setChild_run (hx.forest h.forest) (hn.trans splice_id.symm) splice_id.symm hback, hsame⟩

theorem setChild_view_restores (hview : v.isSoleElementView = true) (hpeek : t.peekChild n v = .ok (some o))
    (ho : t.Unprotected o) (hset : n.setChild v c t = .ok () t') :
    ∃ q, t'.sequence n v.primary = .ok q ∧ (q.set 0 o).Restores t' t := by
  obtain ⟨hn, hc, old, hold, hmem, hx, rfl⟩ := setChild_replaces h.forest hpeek hset
  obtain ⟨o, rfl, rfl⟩ := Option.map_eq_some_iff.1 hold
  obtain ⟨q, hq, rfl, hproperty⟩ := exists_open hn (hx.offers _ rfl) hview
  have htakes : (Splice.exchange 0 c.index o).TakesBack (.replace (some o) (some c.index))
      (Arena.membersAt t.records q.node.index v.slot) := hmem ▸ Splice.exchange_takesBack
  have hback := hx.back h (hx.offers _ rfl) (fun _ ho' => Option.some.inj ho' ▸ (unprotected_iff.1 ho).2)
    (by rw [← hproperty, hq.form]; trivial) htakes
  have hsame := hx.restored h.forest hback htakes
  rw [← hproperty] at hback hsame
  exact ⟨q, Sequence.sequence_eq_ok.2 ⟨hq.splice, rfl, hproperty⟩, _, _,
    Sequence.set_run (c := t.handle o) (hx.forest h.forest) hq.splice splice_id.symm hback, hsame⟩

theorem setChild_unset_restores (hpeek : t.peekChild n p = .ok none) (hset : n.setChild p c t = .ok () t') :
    c.detach.Restores t' t := by
  obtain ⟨hn, hc, old, hold, hmem, hx, rfl⟩ := setChild_replaces h.forest hpeek hset
  obtain rfl := Option.map_eq_none_iff.1 hold
  have hf := hx.forest h.forest
  have hl : Arena.locationAt (t.splice n.index p (.replace none (some c.index))).records c.index =
      some ⟨n.index, p.primary⟩ := splice_records ▸ hx.admits.locationAt_added rfl
  obtain ⟨y, hremoved, hadded, hback⟩ := NodeId.exists_removal hf hl hx.modifiable.splice
  have htakes : y.TakesBack (.replace none (some c.index)) (Arena.membersAt t.records n.index p.slot) := by
    have happlies := hback.applies
    rw [p.primary_slot, splice_records, Arena.membersAt_rewire h.forest hx.admits, hmem] at happlies
    exact hmem ▸ Splice.takesBack_of_unset happlies hremoved hadded
  exact ⟨(), _, NodeId.detach_run hf (hc.trans splice_id.symm) hl hremoved hadded hback,
    hx.restored h.forest hback htakes⟩

theorem clearChild_restores (hc : t.Unprotected c) (hclear : n.clearChild p t = .ok (some c) t') :
    (n.setChild p c).Restores t' t := by
  -- only an optional child can be cleared, so the property is no view
  obtain ⟨_, -, hrun⟩ := exists_of_look_bind_ok hclear
  obtain ⟨_, -, hrun⟩ := exists_of_look_bind_ok hrun
  obtain ⟨_, hoptional, -⟩ := exists_of_look_bind_ok hrun
  rw [unlessRefused_eq_ok, Bool.not_eq_true'] at hoptional
  obtain ⟨hn, hp, ⟨hret, -, -⟩ | ⟨d, hret, hx, rfl⟩⟩ :=
    (NodeId.clearChild_settles h.forest).atomic.of_ok_eq hclear
  · cases hret
  · obtain rfl := Option.some.inj hret
    have hdirect := Property.not_view_of_optional hoptional
    obtain ⟨hback, hsame⟩ := hx.inverse h (Property.primary_of_direct hdirect) hp
      fun _ ho => Option.some.inj ho ▸ (unprotected_iff.1 hc).2
    exact ⟨(), _, NodeId.setChild_run (hx.forest h.forest) (hn.trans splice_id.symm) splice_id.symm hback,
      hsame⟩

theorem insert_restores (ho : q.Open t) (hinsert : q.insert i c t = .ok () t') :
    (q.remove i).Restores t' t := by
  obtain ⟨d, rfl, hx, rfl⟩ := (Sequence.insert_eq_ok h.forest ho).1 hinsert
  obtain ⟨hback, hsame⟩ := hx.inverse h (Property.primary_of_list ho.form) ho.offers nofun
  exact ⟨_, _, Sequence.remove_run (hx.forest h.forest) ho.splice hback, hsame⟩

theorem push_restores (ho : q.Open t) (helements : t.elements q = .ok items)
    (hpush : q.push c t = .ok () t') : (q.remove items.length).Restores t' t := by
  obtain ⟨items, hitems, rfl⟩ := Sequence.elements_eq_ok.1 helements
  rw [Sequence.push_eq_insert c hitems] at hpush
  rw [List.length_map]
  exact insert_restores h ho hpush

theorem remove_restores (ho : q.Open t) (hc : t.Unprotected c) (hremove : q.remove i t = .ok c t') :
    (q.insert i c).Restores t' t := by
  obtain ⟨d, rfl, hx, rfl⟩ := (Sequence.remove_settles h.forest ho).atomic.of_ok_eq hremove
  obtain ⟨hback, hsame⟩ := hx.inverse h (Property.primary_of_list ho.form) ho.offers
    fun _ hd => Option.some.inj hd ▸ (unprotected_iff.1 hc).2
  have hrun := Sequence.insert_run (hx.forest h.forest) ho.splice hback
  rw [splice_handle] at hrun
  exact ⟨_, _, hrun, hsame⟩

theorem set_restores (ho : q.Open t) (hold : t.Unprotected o) (hset : q.set i c t = .ok o t') :
    (q.set i o).Restores t' t := by
  obtain ⟨d, rfl, hc, hx, rfl⟩ := (Sequence.set_settles h.forest ho).atomic.of_ok_eq hset
  obtain ⟨hback, hsame⟩ := hx.inverse h (Property.primary_of_list ho.form) ho.offers
    fun _ hd => Option.some.inj hd ▸ (unprotected_iff.1 hold).2
  exact ⟨_, _, Sequence.set_run (hx.forest h.forest) ho.splice splice_id.symm hback, hsame⟩

theorem extend_restores (ho : q.Open t) (helements : t.elements q = .ok items)
    (hextend : q.extend cs t = .ok () t') : (q.removeAt items.length cs.length).Restores t' t := by
  obtain ⟨items, hitems, rfl⟩ := Sequence.elements_eq_ok.1 helements
  obtain ⟨items', ds, hitems', rfl, hsplices⟩ := (Sequence.extend_settles h.forest ho).atomic.of_ok_eq hextend
  obtain rfl : items = items' := Except.ok.inj (hitems.symm.trans hitems')
  -- an empty batch is not taken either where the node is protected
  obtain ⟨_, -, hrun⟩ := exists_of_look_bind_ok hextend
  obtain ⟨_, -, hrun⟩ := exists_of_look_bind_ok hrun
  obtain ⟨_, -, hrun⟩ := exists_of_look_bind_ok hrun
  obtain ⟨_, hm, -⟩ := exists_of_look_bind_ok hrun
  have hm := hsplices.modifiable (checkModifiable_eq_ok.1 hm).2
  obtain ⟨ho', hf'⟩ := ho.splices h.forest hsplices
  have hs := (Sequence.items_eq_ok.1 hitems).2
  have hs' := hsplices.slotAt hs
  rw [foldl_insertions (Nat.le_refl _), List.take_length, List.drop_length, List.append_nil] at hs'
  obtain ⟨t'', hback, hsplices'⟩ := Sequence.removeAt_run hf' ho' hm hs'
  refine ⟨(), t'', by rwa [List.length_map, List.length_map], hsplices.restored h.forest hsplices' rfl ?_⟩
  rw [hsplices'.slotAt hs', foldl_removals rfl, hs]

theorem clear_restores (ho : q.Open t) (hcs : ∀ c ∈ cs, t.Unprotected c)
    (hclear : q.clear t = .ok cs t') : (q.extend cs).Restores t' t := by
  obtain ⟨ds, hitems, rfl, hsplices⟩ := (Sequence.clear_settles h.forest ho).atomic.of_ok_eq hclear
  obtain ⟨_, hm, -⟩ := exists_of_look_bind_ok hclear
  have hm := hsplices.modifiable (checkModifiable_eq_ok.1 hm).2
  obtain ⟨ho', hf'⟩ := ho.splices h.forest hsplices
  have hs := (Sequence.items_eq_ok.1 hitems).2
  have hs' := hsplices.slotAt hs
  have hempty : (ds.map (Splice.remove 0 ·)).foldl (fun cs x => x.apply cs) ([] ++ ds) = [] :=
    foldl_removals rfl
  rw [List.nil_append] at hempty
  rw [hempty] at hs'
  have hwelcome := hsplices.returns h fun d hd => (unprotected_iff.1 (hcs _ (List.mem_map_of_mem hd))).2
  rw [Property.primary_of_list ho.form] at hwelcome
  have hnodup : ds.Nodup := by
    have hmembers := h.forest.nodup q.node.index q.property.slot
    rwa [Arena.membersAt_of_slot hs] at hmembers
  obtain ⟨t'', hback, hsplices'⟩ :=
    Sequence.extend_run hf' ho' hm (Sequence.items_eq_ok.2 ⟨ho'.owned, hs'⟩) hnodup hwelcome
  rw [hsplices.handle_eq] at hback
  refine ⟨(), t'', hback, hsplices.restored h.forest hsplices' rfl ?_⟩
  rw [hsplices'.slotAt hs', foldl_insertions (Nat.le_refl _), hs]
  simp

theorem detach_restores {r : Record} {l : Location} (hvisible : t.Visible) (hr : t.look c = .ok r)
    (hl : r.location = some l) (hc : t.Unprotected c) (hdetach : c.detach t = .ok () t') :
    ((t.handle l.parent).setChild l.property c).Restores t' t ∨
      ∃ q items i, t.sequence (t.handle l.parent) l.property = .ok q ∧ t.elements q = .ok items ∧
        items[i]? = some c ∧ (q.insert i c).Restores t' t := by
  obtain ⟨hctree, hr⟩ := look_eq_ok.1 hr
  obtain ⟨-, ⟨hfree, -⟩ | ⟨l', x, hl', hremoved, hadded, hx, rfl⟩⟩ :=
    (NodeId.detach_settles h.forest).atomic.of_ok_eq hdetach
  · rw [Arena.locationAt_of_record hr, hl] at hfree
    cases hfree
  rw [Arena.locationAt_of_record hr, hl] at hl'
  obtain rfl := Option.some.inj hl'
  obtain ⟨hstorage, hmem⟩ := h.forest.held ((Arena.locationAt_of_record hr).trans hl)
  have hp : t.Offers l.parent l.property := by
    obtain ⟨k, hk, hlive⟩ := hvisible _ _ _ hmem
    obtain ⟨r', hr', rfl⟩ := Option.map_eq_some_iff.1 hk
    exact ⟨r', hr', Option.some.inj (hx.owner.symm.trans (Arena.kindAt_of_record hr')), hlive⟩
  obtain ⟨hback, hsame⟩ := hx.inverse h (Arena.primary_of_storageAt hstorage) hp
    fun _ ho => Option.some.inj (hremoved.symm.trans ho) ▸ (unprotected_iff.1 hc).2
  have hf := hx.forest h.forest
  have hsuits := hx.suits
  cases x with
  | insert _ _ | exchange _ _ _ => cases hadded
  | replace old new =>
    obtain rfl : old = some c.index := hremoved
    obtain rfl : new = none := hadded
    exact .inl ⟨(), _, NodeId.setChild_run hf splice_id.symm (hctree.trans splice_id.symm) hback, hsame⟩
  | remove i d =>
    obtain rfl : d = c.index := Option.some.inj hremoved
    rcases hform : l.property.form with _ | _ | ty <;> rw [hform] at hsuits
    · exact hsuits.elim
    · exact hsuits.elim
    · have ho : Sequence.Open ⟨t.handle l.parent, l.property, ty⟩ t := ⟨rfl, hp, hform⟩
      obtain ⟨items, hs⟩ : ∃ items, Arena.slotAt t.records l.parent l.property.slot = some (.list items) :=
        ho.exists_slotAt h.forest
      have hi := hx.applies
      rw [Arena.membersAt_of_slot hs] at hi
      have hrun := Sequence.insert_run hf ho.splice hback
      rw [splice_handle, handle_index hctree] at hrun
      refine .inr ⟨_, items.map t.handle, i, Sequence.sequence_eq_ok.2 ⟨ho, rfl, rfl⟩,
        Sequence.elements_eq_ok.2 ⟨items, Sequence.items_eq_ok.2 ⟨rfl, hs⟩, rfl⟩, ?_, _, _, hrun, hsame⟩
      rw [List.getElem?_map, show items[i]? = some c.index from hi, Option.map_some, handle_index hctree]

/-- **Every edit of a sound tree can be taken back.** -/
theorem Sound.undoable (hvisible : t.Visible) : t.Undoable where
  setChild _ _ _ _ _ := setChild_restores h
  setChild_view _ _ _ _ _ := setChild_view_restores h
  setChild_unset _ _ _ _ := setChild_unset_restores h
  clearChild _ _ _ _ := clearChild_restores h
  insert _ _ _ _ _ _ hq := insert_restores h (Sequence.sequence_eq_ok.1 hq).1
  push _ _ _ _ _ _ hq := push_restores h (Sequence.sequence_eq_ok.1 hq).1
  remove _ _ _ _ _ _ hq := remove_restores h (Sequence.sequence_eq_ok.1 hq).1
  set _ _ _ _ _ _ _ hq := set_restores h (Sequence.sequence_eq_ok.1 hq).1
  extend _ _ _ _ _ _ hq := extend_restores h (Sequence.sequence_eq_ok.1 hq).1
  clear _ _ _ _ _ hq := clear_restores h (Sequence.sequence_eq_ok.1 hq).1
  detach _ _ _ _ := detach_restores h hvisible

end Sound

end Tree

end SyntaxForest
