import SyntaxForest.Proofs.Edit.Batch

/-!
# Proofs/Edit/Inverse — splices that take splices back

Where a node is located is settled by the slots (`Arena.Forest.eq_of_slots`).  So two splices of one slot
leave everything as it was once the slot holds what it held, whatever became of locations in between.  A
child that went out may come in again, for it is free then, of a kind that its slot admitted, and not above
its parent of old.

* `Arena.SameBeside` — arenas that differ in one slot and in locations only.
* `Splice.TakesBack` — what makes a splice take another one back; `Splice.inverse` does.
* `Tree.Allows.returns` — **a child that went out is welcome**, unless it is protected.
* `Tree.Allows.back`, `Tree.Splices.restored` — a splice may be taken back, and then the nodes are the same.
* `Tree.Allows.inverse` — **so the inverse of a splice leads back**.
-/

namespace SyntaxForest

/-! ## Arenas that differ in one slot -/

namespace Slot

variable {content : Slot Nat} {cs ds : List Nat}

@[simp] theorem withMembers_withMembers : (content.withMembers cs).withMembers ds = content.withMembers ds := by
  cases content <;> rfl

@[simp] theorem withMembers_members : content.withMembers content.members = content := by
  cases content with
  | child c => cases c <;> rfl
  | scalar _ | list _ => rfl

end Slot

/-- What a record says of the node alone. -/
def Record.self (r : Record) : Kind × Option Span × Flags := (r.kind, r.range, r.flags)

namespace Arena

variable {a b c : Arena} {n s i : Nat} {p : Property} {x : Splice} {l : Location}

/-- **Beside one slot all is the same**, locations apart. -/
structure SameBeside (n s : Nat) (a b : Arena) : Prop where
  nodes : ∀ i : Nat, b[i]?.map Record.self = a[i]?.map Record.self
  slots : ∀ i s', ¬(i = n ∧ s' = s) → b.slotAt i s' = a.slotAt i s'

namespace SameBeside

theorem refl : SameBeside n s a a := ⟨fun _ => rfl, fun _ _ _ => rfl⟩

theorem trans (h : SameBeside n s a b) (h' : SameBeside n s b c) : SameBeside n s a c :=
  ⟨fun i => (h'.nodes i).trans (h.nodes i), fun i s' hs => (h'.slots i s' hs).trans (h.slots i s' hs)⟩

theorem rewire : SameBeside n p.slot a (a.rewire n p x) where
  nodes i := by
    rw [getElem?_rewire, Option.map_map]
    rfl
  slots i s' hs := by rw [slotAt_rewire, if_neg hs]

theorem kindAt_eq (h : SameBeside n s a b) : b.kindAt i = a.kindAt i := by
  have hkind := congrArg (Option.map Prod.fst) (h.nodes i)
  rwa [Option.map_map, Option.map_map] at hkind

/-- Where the slot is the same as well, all slots are. -/
theorem slotAt_eq (h : SameBeside n s a b) (hs : b.slotAt n s = a.slotAt n s) (i s' : Nat) :
    b.slotAt i s' = a.slotAt i s' := by
  by_cases his : i = n ∧ s' = s
  · rw [his.1, his.2, hs]
  · exact h.slots i s' his

end SameBeside

/-- A node is located by the slot that names it. -/
theorem Forest.locationAt_mono (ha : a.Forest) (hb : b.Forest) (hkind : ∀ i, b.kindAt i = a.kindAt i)
    (hslots : ∀ i s, b.slotAt i s = a.slotAt i s) (hl : a.locationAt i = some l) :
    b.locationAt i = some l := by
  obtain ⟨hstorage, hmem⟩ := ha.held hl
  rw [membersAt, ← hslots] at hmem
  obtain ⟨q, hq, hl'⟩ := hb.filed hmem
  rw [storageAt_congr hkind, hstorage] at hq
  cases hq
  exact hl'

/-- **The slots settle the locations**: forests that are the same beside a slot, and in the slot, are the
same. -/
theorem Forest.eq_of_slots (ha : a.Forest) (hb : b.Forest) (h : SameBeside n s a b)
    (hs : b.slotAt n s = a.slotAt n s) : b = a := by
  have hslots := h.slotAt_eq hs
  have hkind : ∀ i, b.kindAt i = a.kindAt i := fun i => h.kindAt_eq
  refine Array.ext_getElem? fun i => ?_
  have hnode := h.nodes i
  have hloc : b.locationAt i = a.locationAt i := by
    rcases hl : a.locationAt i with _ | l
    · rcases hl' : b.locationAt i with _ | l
      · rfl
      · rw [hb.locationAt_mono ha (fun j => (hkind j).symm) (fun j s' => (hslots j s').symm) hl'] at hl
        cases hl
    · exact ha.locationAt_mono hb hkind hslots hl
  rcases hr : a[i]? with _ | r <;> rcases hr' : b[i]? with _ | r'
  · rfl
  · rw [hr, hr'] at hnode
    cases hnode
  · rw [hr, hr'] at hnode
    cases hnode
  · rw [locationAt_of_record hr, locationAt_of_record hr'] at hloc
    have hrow : r'.slots = r.slots := List.ext_getElem? fun s' => by
      rw [← slotAt_of_record hr', hslots, slotAt_of_record hr]
    obtain ⟨hk, hrange, hflags⟩ : r'.kind = r.kind ∧ r'.range = r.range ∧ r'.flags = r.flags := by
      simpa [hr, hr', Record.self] using hnode
    obtain ⟨k, range, flags, location, slots⟩ := r
    cases r'
    cases hk
    cases hrange
    cases hflags
    cases hloc
    cases hrow
    rfl

end Arena

/-! ## Splices that fit together -/

namespace Splice

variable {x y : Splice} {cs : List Nat} {form : Form}

/-- **The splice takes another one back**, which was made of a slot that held `cs`: what went out comes in,
and the slot holds then what it held. -/
structure TakesBack (y x : Splice) (cs : List Nat) : Prop where
  added : y.added = x.removed
  applies : y.Applies (x.apply cs)
  apply : y.apply (x.apply cs) = cs

/-- The splice the other way round. -/
def inverse : Splice → Splice
  | replace old new => replace new old
  | insert i c => remove i c
  | remove i c => insert i c
  | exchange i old new => exchange i new old

theorem Suits.inverse (h : x.Suits form) : x.inverse.Suits form := by
  cases x <;> cases form <;> exact h

/-- **A splice is taken back the other way round.** -/
theorem inverse_takesBack (h : x.Applies cs) : x.inverse.TakesBack x cs := by
  cases x with
  | replace old new =>
    obtain rfl : cs = old.toList := h
    exact ⟨rfl, rfl, rfl⟩
  | insert i c =>
    have hi : i ≤ cs.length := h
    refine ⟨rfl, ?_, List.eraseIdx_insertIdx_self c⟩
    change (cs.insertIdx i c)[i]? = some c
    rw [List.getElem?_insertIdx_self, if_pos hi]
  | remove i c =>
    obtain ⟨hi, rfl⟩ := List.getElem?_eq_some_iff.1 (show cs[i]? = some c from h)
    refine ⟨rfl, ?_, List.insertIdx_eraseIdx_getElem hi⟩
    change i ≤ (cs.eraseIdx i).length
    rw [List.length_eraseIdx_of_lt hi]
    omega
  | exchange i old new =>
    obtain ⟨hi, rfl⟩ := List.getElem?_eq_some_iff.1 (show cs[i]? = some old from h)
    refine ⟨rfl, ?_, ?_⟩
    · change (cs.set i new)[i]? = some new
      rw [List.getElem?_set_self hi]
    · change (cs.set i new).set i cs[i] = cs
      rw [List.set_set, List.set_getElem_self]

/-- A slot that had nothing in it is emptied again. -/
theorem takesBack_of_unset {c : Nat} (happlies : y.Applies [c]) (hremoved : y.removed = some c)
    (hadded : y.added = none) : y.TakesBack (.replace none (some c)) [] := by
  refine ⟨hadded, happlies, List.eq_nil_iff_forall_not_mem.2 fun d hd => ?_⟩
  rcases (mem_apply happlies (List.nodup_singleton c)).1 hd with ⟨hd, hne⟩ | hd
  · exact hne (List.mem_singleton.1 hd ▸ hremoved)
  · rw [hadded] at hd
    cases hd

/-- An only child is exchanged in place. -/
theorem exchange_takesBack {c o : Nat} :
    (exchange 0 c o).TakesBack (.replace (some o) (some c)) [o] := ⟨rfl, rfl, rfl⟩

end Splice

/-! ## Taking a splice back -/

namespace Tree

variable {t t' t'' : Tree} {n o d : Nat} {p q : Property} {x y : Splice} {xs ys : List Splice}

/-- **A child that went out is welcome** where its slot was, unless it is protected. -/
theorem Allows.returns (h : t.Sound .declared) (hx : t.Allows n p x) (hremoved : x.removed = some o)
    (ho : t.Modifiable o) : (t.splice n p x).Welcomes n p.primary o := by
  have hmem := hx.admits.removed_mem hremoved
  obtain ⟨_, -, hl⟩ := h.forest.filed hmem
  have hstorage := Arena.storageAt_slot (a := t.records) hx.owner
  obtain ⟨k, hk, hadmits⟩ := h.typed hmem hstorage
  obtain ⟨ty, hty⟩ := h.forest.childType?_of_mem hmem hstorage
  have hne : x.added ≠ some o := fun hadded => by
    rw [(hx.welcomes o hadded).free] at hl
    cases hl
  refine ⟨?_, fun chain hchain => ?_, ho.splice, k, ty, ?_, hty, hadmits ty hty⟩
  · rw [splice_records, Arena.locationAt_rewire ho.lt_size, if_neg hne, if_pos hremoved]
  · rw [splice_records] at hchain
    obtain ⟨above, habove⟩ := h.forest.rooted hx.modifiable.lt_size
    rw [hchain.unique (h.forest.chain_rewire hx.admits habove)]
    exact habove.not_mem_parent hl
  · rw [splice_records, Arena.kindAt_rewire, hk]

/-- **A splice may be taken back** through the property that owns the slot. -/
theorem Allows.back (h : t.Sound .declared) (hx : t.Allows n p x) (hp : t.Offers n p)
    (ho : ∀ o, x.removed = some o → t.Modifiable o) (hsuits : y.Suits p.primary.form)
    (hy : y.TakesBack x (Arena.membersAt t.records n p.slot)) :
    (t.splice n p x).Allows n p.primary y where
  owner := hp.primary.splice.kindAt
  suits := hsuits
  applies := by
    rw [p.primary_slot, splice_records, Arena.membersAt_rewire h.forest hx.admits]
    exact hy.applies
  modifiable := hx.modifiable.splice
  offers _ _ := hp.primary.splice
  welcomes c hc := by
    rw [hy.added] at hc
    exact hx.returns h hc (ho c hc)

/-- A row of splices leaves all but its slot as it is. -/
theorem Splices.sameBeside (h : Splices n p t xs t') : Arena.SameBeside n p.slot t.records t'.records := by
  induction h with
  | nil _ => exact .refl
  | cons _ _ ih => exact Arena.SameBeside.trans (splice_records ▸ .rewire) ih

/-- **Splices of one slot that end with what it held end with the same nodes.** -/
theorem Splices.restored (hf : Arena.Forest t.records) (h : Splices n p t xs t')
    (h' : Splices n q t' ys t'') (hslot : q.slot = p.slot)
    (hs : Arena.slotAt t''.records n p.slot = Arena.slotAt t.records n p.slot) : t.SameNodes t'' := by
  obtain ⟨hid, hconfig, hobserver⟩ := h.keeps
  obtain ⟨hid', hconfig', hobserver'⟩ := h'.keeps
  refine .of_records (hid'.trans hid) (hconfig'.trans hconfig) (hobserver'.trans hobserver) ?_
  exact hf.eq_of_slots (h'.forest (h.forest hf)) (h.sameBeside.trans (hslot ▸ h'.sameBeside)) hs

/-- …in particular a splice and one that takes it back. -/
theorem Allows.restored (hf : Arena.Forest t.records) (hx : t.Allows n p x)
    (hy : (t.splice n p x).Allows n p.primary y)
    (htakes : y.TakesBack x (Arena.membersAt t.records n p.slot)) :
    t.SameNodes ((t.splice n p x).splice n p.primary y) := by
  refine (Splices.single hx).restored hf (.single hy) p.primary_slot ?_
  obtain ⟨ty, hty⟩ := hx.admits.exists_childType
  obtain ⟨content, _, hs, -⟩ := hf.exists_slotAt hx.owner hty
  have hmem := Arena.membersAt_rewire hf hx.admits
  rw [Arena.membersAt_of_slot hs] at hmem htakes
  have hs' : Arena.slotAt (t.splice n p x).records n p.slot =
      some (content.withMembers (x.apply content.members)) := by
    rw [splice_records, Arena.slotAt_rewire, if_pos ⟨rfl, rfl⟩, hs]
    rfl
  rw [← splice_records, Arena.membersAt_of_slot hs'] at hmem
  rw [splice_records, Arena.slotAt_rewire, p.primary_slot, if_pos ⟨rfl, rfl⟩, hs', Option.map_some, hmem,
    htakes.apply, Slot.withMembers_withMembers, Slot.withMembers_members, hs]

/-- **Where a property has a slot of its own, a splice is taken back the other way round.** -/
theorem Allows.inverse (h : t.Sound .declared) (hx : t.Allows n p x) (hprimary : p.primary = p)
    (hp : t.Offers n p) (ho : ∀ o, x.removed = some o → t.Modifiable o) :
    (t.splice n p x).Allows n p x.inverse ∧ t.SameNodes ((t.splice n p x).splice n p x.inverse) := by
  have htakes := Splice.inverse_takesBack hx.applies
  have hback := hx.back h hp ho (hprimary.symm ▸ hx.suits.inverse) htakes
  have hsame := hx.restored h.forest hback htakes
  rw [hprimary] at hback hsame
  exact ⟨hback, hsame⟩

end Tree

end SyntaxForest
