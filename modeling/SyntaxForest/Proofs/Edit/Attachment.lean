import SyntaxForest.Proofs.Edit.Undo
import SyntaxForest.Session.Command

/-!
# Proofs/Edit/Attachment — attachments to different slots change places

To set a child and to extend a list is to fill one slot: what the slot holds afterwards goes by what it held,
and all else is as it was, but for locations (`Tree.FillsSlot`).  Locations are settled by the slots.  So two
attachments to different slots lead to the same nodes in either order, if they succeed in either order: a node
that the one displaces and the other attaches is no exception, for then one of the orders fails.

* `Tree.FillsSlot` — **one slot is filled**, and `Tree.FillsSlot.comm`: two slots may be filled in either order.
* `Edit.Attaches` — the calls that attach, and `Edit.Attaches.fills`: each of them fills its slot.
-/

namespace SyntaxForest

namespace Tree

variable {t t₁ t₂ t₁₂ t₂₁ t' : Tree} {n n₁ n₂ slot s₁ s₂ k k₁ k₂ i s : Nat} {p : Property} {x : Splice}
  {xs : List Splice} {f f₁ f₂ : Slot Nat → Slot Nat}

/-- **A slot is filled**, with so many changes: what it holds goes by what it held, and beside it all is the
same, locations apart. -/
structure FillsSlot (n slot : Nat) (f : Slot Nat → Slot Nat) (k : Nat) (t t' : Tree) : Prop where
  id : t'.id = t.id
  config : t'.config = t.config
  observer : t'.observer = t.observer
  forest : Arena.Forest t'.records
  beside : Arena.SameBeside n slot t.records t'.records
  filled : Arena.slotAt t'.records n slot = (Arena.slotAt t.records n slot).map f
  stamp : t'.stamp = t.stamp + k

/-- The slots after one is filled. -/
theorem FillsSlot.slotAt (h : FillsSlot n slot f k t t') (i s : Nat) : Arena.slotAt t'.records i s =
    if i = n ∧ s = slot then (Arena.slotAt t.records i s).map f else Arena.slotAt t.records i s := by
  split
  · rename_i his
    rw [his.1, his.2, h.filled]
  · rename_i his
    exact h.beside.slots i s his

/-- **Two slots may be filled in either order**: the nodes are the same then, and as many changes are counted. -/
theorem FillsSlot.comm (h₁ : FillsSlot n₁ s₁ f₁ k₁ t t₁) (h₁₂ : FillsSlot n₂ s₂ f₂ k₂ t₁ t₁₂)
    (h₂ : FillsSlot n₂ s₂ f₂ k₂ t t₂) (h₂₁ : FillsSlot n₁ s₁ f₁ k₁ t₂ t₂₁) (hne : ¬(n₁ = n₂ ∧ s₁ = s₂)) :
    t₁₂.SameNodes t₂₁ ∧ t₂₁.stamp = t₁₂.stamp := by
  have hslots : ∀ i s, Arena.slotAt t₂₁.records i s = Arena.slotAt t₁₂.records i s := fun i s => by
    rw [h₂₁.slotAt, h₁₂.slotAt, h₂.slotAt, h₁.slotAt]
    by_cases hfirst : i = n₁ ∧ s = s₁
    · have hother : ¬(i = n₂ ∧ s = s₂) := fun h =>
        hne ⟨hfirst.1.symm.trans h.1, hfirst.2.symm.trans h.2⟩
      rw [if_pos hfirst, if_neg hother, if_neg hother, if_pos hfirst]
    · rw [if_neg hfirst, if_neg hfirst]
  have hbeside : Arena.SameBeside n₁ s₁ t₁₂.records t₂₁.records :=
    ⟨fun i => ((h₂₁.beside.nodes i).trans (h₂.beside.nodes i)).trans
      ((h₁₂.beside.nodes i).trans (h₁.beside.nodes i)).symm, fun i s _ => hslots i s⟩
  refine ⟨.of_records ?_ ?_ ?_ (h₁₂.forest.eq_of_slots h₂₁.forest hbeside (hslots n₁ s₁)), ?_⟩
  · rw [h₂₁.id, h₂.id, h₁₂.id, h₁.id]
  · rw [h₂₁.config, h₂.config, h₁₂.config, h₁.config]
  · rw [h₂₁.observer, h₂.observer, h₁₂.observer, h₁.observer]
  · rw [h₂₁.stamp, h₂.stamp, h₁₂.stamp, h₁.stamp]
    omega

@[simp] theorem splice_stamp : (t.splice n p x).stamp = t.stamp + 1 := by simp [splice, commit]

/-- Each splice of a row is counted. -/
theorem Splices.stamp (h : Splices n p t xs t') : t'.stamp = t.stamp + xs.length := by
  induction h with
  | nil _ => rfl
  | cons _ _ ih =>
    rw [ih, splice_stamp, List.length_cons]
    omega

/-- A row of splices fills its slot. -/
theorem Splices.fills (hf : Arena.Forest t.records) (h : Splices n p t xs t')
    (hfilled : Arena.slotAt t'.records n p.slot = (Arena.slotAt t.records n p.slot).map f) :
    FillsSlot n p.slot f xs.length t t' where
  id := h.keeps.1
  config := h.keeps.2.1
  observer := h.keeps.2.2
  forest := h.forest hf
  beside := h.sameBeside
  filled := hfilled
  stamp := h.stamp

end Tree

theorem Sequence.length_insertions {index : Nat} {ds : List Nat} : (insertions index ds).length = ds.length := by
  induction ds generalizing index with
  | nil => rfl
  | cons d ds ih => rw [insertions, List.length_cons, List.length_cons, ih]

namespace Edit

open TreeM

variable {t : Tree} {n c : NodeId} {p : Property} {e : Edit}

/-- **The calls that attach** something to a slot of a node: a single child, or a batch. -/
inductive Attaches (n : NodeId) (p : Property) : Edit → Prop
  | child (c : NodeId) : Attaches n p (.setChild n p c)
  | batch (cs : List NodeId) : Attaches n p (.list n p (.extend cs))

theorem setChild_fills (hf : Arena.Forest t.records) : (n.setChild p c).Atomic t fun _ t' =>
    n.tree = t.id ∧ t.FillsSlot n.index p.slot (·.withMembers [c.index]) 1 t' := by
  refine (NodeId.setChild_settles hf).atomic.mono fun _ t' ⟨hn, _, old, hx, ht'⟩ => ⟨hn, ?_⟩
  rw [ht']
  refine (Tree.Splices.single hx).fills hf ?_
  rw [Tree.splice_records, Arena.slotAt_rewire, if_pos ⟨rfl, rfl⟩]
  rfl

theorem extend_fills {q : Sequence} {cs : List NodeId} (hf : Arena.Forest t.records) (ho : q.Open t) :
    (q.extend cs).Atomic t fun _ t' => t.FillsSlot q.node.index q.property.slot
      (fun content => content.withMembers (content.members ++ cs.map NodeId.index)) cs.length t' := by
  refine (Sequence.extend_settles hf ho).atomic.mono fun _ t' ⟨items, ds, hitems, hds, hsplices⟩ => ?_
  have hindices : cs.map NodeId.index = ds := by
    rw [hds, List.map_map]
    exact List.map_id ds
  have hs := (Sequence.items_eq_ok.1 hitems).2
  have hfills := hsplices.fills hf
    (f := fun content => content.withMembers (content.members ++ cs.map NodeId.index)) (by
      rw [hsplices.slotAt hs, Tree.foldl_insertions (Nat.le_refl _), hs, hindices, List.take_length,
        List.drop_length, List.append_nil]
      rfl)
  rwa [Sequence.length_insertions, ← List.length_map t.handle, ← hds] at hfills

/-- **An attachment fills its slot**, in the same way in every tree. -/
theorem Attaches.fills (h : e.Attaches n p) : ∃ f k, ∀ t : Tree, Arena.Forest t.records →
    e.run.Atomic t fun _ t' => n.tree = t.id ∧ t.FillsSlot n.index p.slot f k t' := by
  cases h with
  | child c => exact ⟨_, _, fun t hf => .bind_pure (setChild_fills hf)⟩
  | batch cs =>
    refine ⟨fun content => content.withMembers (content.members ++ cs.map NodeId.index), cs.length,
      fun t hf => .look_bind fun q hq => .bind_pure (.bind_pure ?_)⟩
    obtain ⟨ho, rfl, rfl⟩ := Sequence.sequence_eq_ok.1 hq
    exact (extend_fills hf ho).mono fun _ _ hfills => ⟨ho.owned, hfills⟩

end Edit

end SyntaxForest
