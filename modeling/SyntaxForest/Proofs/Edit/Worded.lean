import SyntaxForest.Proofs.Edit.Run

/-!
# Proofs/Edit/Worded — scalars are of the types that are declared

That slots have the forms of their kinds is part of the forest; that they hold values of the declared types
is not, for no attachment depends on it.  It is kept for another reason at each way in: a fresh scalar is a
default, a written one was checked, and one that comes with an image was stored somewhere before.

* `Kind.Worded` — the invariant of one row of slots, whatever its children are.
* `Tree.Change.worded`, `Arena.Worded.plant` — **every step keeps the scalars right**, if what is planted
  has them right.
* `Tree.snapshot_worded` — an image has the scalars of its tree.
-/

namespace SyntaxForest

/-- **What a scalar property of the type may hold**: a value of the type, and no empty text where a text is
needed. -/
structure ScalarType.Takes (ty : ScalarType) (v : Scalar) : Prop where
  conforms : v.conformsTo ty = true
  text : (ty.requiresText && v.isEmptyText) = false

theorem ScalarType.takes_default (ty : ScalarType) : ty.Takes ty.default := by
  refine ⟨ty.default_conformsTo, ?_⟩
  rcases htext : ty.requiresText with _ | _
  · rfl
  · exact ty.default_isEmptyText htext

/-! ## One row of slots -/

/-- **The scalars in a row of slots are right**: each is one that the property that owns its slot may
hold. -/
def Kind.Worded {α : Type} (k : Kind) (slots : List (Slot α)) : Prop :=
  ∀ ⦃s : Nat⦄ ⦃p : Property⦄ ⦃ty : ScalarType⦄ ⦃v : Scalar⦄, slots[s]? = some (.scalar v) →
    k.storage[s]? = some p → p.form = .scalar ty → ty.Takes v

namespace Kind.Worded

variable {α β : Type} {k : Kind} {slots : List (Slot α)} {slots' : List (Slot β)} {s : Nat}
  {p : Property} {v : Scalar}

/-- It is a matter of the scalars alone. -/
theorem of_scalars (h : k.Worded slots)
    (hs : ∀ (s : Nat) v, slots'[s]? = some (.scalar v) → slots[s]? = some (.scalar v)) :
    k.Worded slots' := fun s _ _ v hv => h (hs s v hv)

theorem fresh (k : Kind) : k.Worded (k.freshSlots : List (Slot α)) := by
  intro s p ty v hv hp hty
  rw [freshSlots, List.getElem?_map, hp, Option.map_some, hty] at hv
  cases hv
  exact ty.takes_default

theorem splice {slots : List (Slot Nat)} {f : List Nat → List Nat} (h : k.Worded slots) :
    k.Worded (slots.modify s fun content => content.withMembers (f content.members)) := by
  refine h.of_scalars fun s' v hv => ?_
  rw [List.getElem?_modify] at hv
  obtain ⟨content, hs', hv⟩ := Option.map_eq_some_iff.1 hv
  split at hv
  · cases content with
    | scalar w => exact hs'.trans (congrArg some hv)
    | child _ | list _ => cases hv
  · exact hs'.trans (congrArg some hv)

/-- A scalar may be overwritten by one that its property takes. -/
theorem set (h : k.Worded slots) (hp : k.storage[s]? = some p)
    (hv : ∀ ty, p.form = .scalar ty → ty.Takes v) : k.Worded (slots.set s (.scalar v)) := by
  intro s' q ty w hw hq hty
  rw [List.getElem?_set] at hw
  split at hw
  · next hs =>
    subst hs
    split at hw
    · cases hw
      exact hv ty (Option.some.inj (hp.symm.trans hq) ▸ hty)
    · cases hw
  · exact h hw hq hty

end Kind.Worded

/-- Other children leave the scalars alone. -/
theorem Kind.worded_map {α β : Type} {k : Kind} {slots : List (Slot α)} (f : α → β) :
    k.Worded (slots.map (Slot.map f)) ↔ k.Worded slots := by
  have hscalar : ∀ (s : Nat) v, (slots.map (Slot.map f))[s]? = some (.scalar v) ↔
      slots[s]? = some (.scalar v) := by
    intro s v
    rw [List.getElem?_map]
    rcases slots[s]? with _ | _ | _ | _ <;> simp [Slot.map]
  exact ⟨fun h => h.of_scalars fun s v => (hscalar s v).2,
    fun h => h.of_scalars fun s v => (hscalar s v).1⟩

/-! ## Arenas and images -/

/-- The scalars of every record are right. -/
def Arena.Worded (a : Arena) : Prop :=
  ∀ ⦃i : Nat⦄ ⦃r : Record⦄, a[i]? = some r → r.kind.Worded r.slots

/-- The scalars of every node of the image are right. -/
def Image.Worded (i : Image) : Prop := ∀ node ∈ i.nodes, node.kind.Worded node.slots

namespace Arena

variable {a : Arena} {n : Nat} {p : Property} {x : Splice} {k : Kind} {flags : Flags}

theorem Worded.empty : Worded #[] := fun _ _ h => by simp at h

theorem Worded.push_fresh (h : a.Worded) : Worded (a.push (.fresh k flags)) := by
  intro i r hr
  rw [Array.getElem?_push] at hr
  split at hr
  · cases hr
    exact .fresh k
  · exact h hr

theorem Worded.rewire (h : a.Worded) : (a.rewire n p x).Worded := by
  intro i r hr
  rw [getElem?_rewire] at hr
  obtain ⟨r, hr', rfl⟩ := Option.map_eq_some_iff.1 hr
  dsimp only
  split
  · exact (h hr').splice
  · exact h hr'

theorem Worded.modify {f : Record → Record} (h : a.Worded)
    (hf : ∀ r, a[n]? = some r → (f r).kind.Worded (f r).slots) : Worded (a.modify n f) := by
  intro i r hr
  rw [Array.getElem?_modify] at hr
  split at hr
  · next hn =>
    subst hn
    obtain ⟨r, hr', rfl⟩ := Option.map_eq_some_iff.1 hr
    exact hf r hr'
  · exact h hr

/-- **Planting an image whose scalars are right keeps the scalars right.** -/
theorem Worded.plant {row : List ImageNode} (h : a.Worded)
    (hrow : ∀ node ∈ row, node.kind.Worded node.slots) : (a.plant flags row).Worded := by
  intro i r hr
  rcases Nat.lt_or_ge i a.size with hi | hi
  · exact h ((getElem?_plant_old hi).symm.trans hr)
  · obtain ⟨j, rfl⟩ := Nat.exists_eq_add_of_le hi
    obtain ⟨node, hnode, hr'⟩ := exists_node_of_plant hr
    rw [hr']
    exact (Kind.worded_map _).2 (hrow node (List.mem_of_getElem? hnode))

end Arena

/-! ## Steps -/

namespace Tree

variable {t t' : Tree} {i : Nat} {n : NodeId} {s : Subtree} {image : Image} {T : Typing}

/-- **Every change keeps the scalars right.** -/
theorem Change.worded (hs : t.Change T t') (h : Arena.Worded t.records) :
    Arena.Worded t'.records := by
  cases hs with
  | create k => exact h.push_fresh
  | splice n p x _ _ => exact splice_records ▸ h.rewire
  | materialize n p k _ => exact materialized_records ▸ h.push_fresh.rewire
  | write n p v hv =>
    obtain ⟨r', hr', ho, -⟩ := hv.offers
    obtain ⟨ty, hform, hconf, htext⟩ := hv.conforms
    refine commit_records ▸ h.modify fun r hr => ?_
    obtain rfl := Option.some.inj (hr.symm.trans hr')
    have hp : r.kind.storage[p.slot]? = some p := by
      rw [← ho, p.storage_primary, Property.primary_of_scalar hform]
    refine (h hr).set hp fun ty' hty => ?_
    obtain rfl := Form.scalar.inj (hform.symm.trans hty)
    exact ⟨hconf, htext⟩
  | setRange n range _ => exact h.modify fun r hr => show r.kind.Worded r.slots from h hr
  | setFlags n flags _ => exact h.modify fun r hr => show r.kind.Worded r.slots from h hr

theorem Changes.worded (hs : t.Changes T t') (h : Arena.Worded t.records) :
    Arena.Worded t'.records := by
  induction hs with
  | refl => exact h
  | tail _ hs ih => exact hs.worded ih

/-! ## Images -/

/-- The row of a subtree has the scalars of the records that it was read from. -/
theorem Shows.worded (h : Arena.Worded t.records) (hs : t.Shows i s) :
    ∀ start, ∀ node ∈ s.rowFrom start, node.kind.Worded node.slots := by
  induction hs with
  | @node i r pairs hr _ hpairs _ ih =>
    intro start
    obtain ⟨blocks, hsnd, hfst, habut⟩ :=
      Image.laySlots_abut (pairs.map (Slot.map Prod.snd)) (start + 1)
    rw [Subtree.rowFrom_node, hfst]
    refine List.forall_mem_cons.2 ⟨?_, habut.forall_mem fun x hx => ?_⟩
    · have hslots : r.kind.Worded (pairs.map (Slot.map Prod.fst)) := hpairs ▸ h hr
      rw [Kind.worded_map, ← Kind.worded_map Prod.snd, ← hsnd, Kind.worded_map] at hslots
      exact (Kind.worded_map _).2 hslots
    · obtain ⟨slot, hslot, hc⟩ := Slot.mem_members_of_mem hx
      rw [hsnd] at hslot
      obtain ⟨pair, hpair, rfl⟩ := List.mem_map.1 hslot
      rw [Slot.members_map] at hc
      obtain ⟨y, hy, hyx⟩ := List.mem_map.1 hc
      exact hyx ▸ ih pair hpair y hy

/-- **An image has the scalars of its tree.** -/
theorem snapshot_worded (h : Arena.Worded t.records) (hi : t.snapshot n = .ok image) :
    image.Worded := by
  obtain ⟨s, hs, hi⟩ := bind_eq_ok.1 hi
  cases hi
  obtain ⟨-, -, hs⟩ := bind_eq_ok.1 hs
  exact (unfold_shows hs).worded h 0

/-- **Every call keeps the scalars right**, whether it succeeds or fails. -/
theorem run_worded (ht : t.Sound .declared) (h : Arena.Worded t.records) (e : Edit) :
    Arena.Worded (TreeM.after e.run t).records := by
  by_cases hchange : e.isChange = true
  · exact (Edit.run_changes ht e hchange (e.obeys_declared t)).worded h
  · cases e with
    | copySubtree n =>
      have hcopy : n.copySubtree.Atomic t fun _ t' => Arena.Worded t'.records :=
        (NodeId.copySubtree_atomic ht.typed).mono fun _ _ ⟨_, hi, _, _, ht'⟩ =>
          ht' ▸ planted_records ▸ h.plant (snapshot_worded h hi)
      exact TreeM.Atomic.after (P := fun t' => Arena.Worded t'.records) hcopy.bind_pure h
    | observe observer => exact h
    | _ => simp [Edit.isChange] at hchange

end Tree

end SyntaxForest
