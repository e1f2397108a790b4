import SyntaxForest.Proofs.Store.Forest
import Mathlib.Data.List.InsertIdx

/-!
# Proofs/Edit/Splice — one slot is changed, and the locations with it

Every structural edit changes the content of one slot, with at most one child coming in and at most
one going out (`Splice`).  `Arena.rewire` performs it on the records: the slot gets its new content,
the child that comes in its location, the child that goes out loses its own.

* `Splice.mem_apply` — what the slot holds afterwards.
* `Arena.Forest.rewire` — **an admitted splice keeps the forest**; a child may come in if it is a
  root, and not the root of the node it comes under.
* `Arena.Typed.rewire` — …and keeps children of kinds that are admitted.
-/

namespace SyntaxForest

/-- A change of what one slot holds. -/
inductive Splice where
  /-- a slot read as a single child held `old` and holds `new` -/
  | replace (old new : Option Nat)
  | insert (index child : Nat)
  | remove (index child : Nat)
  /-- an element of a list is replaced in place -/
  | exchange (index old new : Nat)
  deriving DecidableEq, Repr

namespace Splice

variable {x : Splice} {cs : List Nat} {c : Nat}

/-- The child that comes in. -/
def added : Splice → Option Nat
  | replace _ new => new
  | insert _ c | exchange _ _ c => some c
  | remove _ _ => none

/-- The child that goes out. -/
def removed : Splice → Option Nat
  | replace old _ => old
  | remove _ c | exchange _ c _ => some c
  | insert _ _ => none

/-- The children of the slot afterwards. -/
def apply : Splice → List Nat → List Nat
  | replace _ new, _ => new.toList
  | insert i c, cs => cs.insertIdx i c
  | remove i _, cs => cs.eraseIdx i
  | exchange i _ c, cs => cs.set i c

/-- Whether the slot holds what the splice takes it to hold. -/
def Applies : Splice → List Nat → Prop
  | replace old _, cs => cs = old.toList
  | insert i _, cs => i ≤ cs.length
  | remove i c, cs => cs[i]? = some c
  | exchange i c _, cs => cs[i]? = some c

/-- Whether the splice is one for properties of the form: single children are replaced, lists are
edited. -/
def Suits : Splice → Form → Prop
  | replace _ _, .child _ => True
  | insert _ _, .list _ | remove _ _, .list _ | exchange _ _ _, .list _ => True
  | _, _ => False

theorem mem_of_removed (hx : x.Applies cs) (hc : x.removed = some c) : c ∈ cs := by
  cases x with
  | replace old new =>
    obtain rfl : old = some c := hc
    rw [show cs = [c] from hx]
    exact List.mem_singleton_self c
  | insert _ _ => cases hc
  | remove i d | exchange i d _ =>
    cases hc
    exact List.mem_of_getElem? hx

/-- An element found by its only index stays out when that index is dropped. -/
theorem mem_eraseIdx_iff {i d : Nat} (hcs : cs.Nodup) (hd : cs[i]? = some d) :
    c ∈ cs.eraseIdx i ↔ c ∈ cs ∧ c ≠ d := by
  obtain ⟨hi, rfl⟩ := List.getElem?_eq_some_iff.1 hd
  rw [← List.Nodup.erase_getElem hcs i hi, hcs.mem_erase_iff, and_comm]

/-- **What the slot holds afterwards**: what it held, less the child that goes out, and the child
that comes in. -/
theorem mem_apply (hx : x.Applies cs) (hcs : cs.Nodup) :
    c ∈ x.apply cs ↔ (c ∈ cs ∧ x.removed ≠ some c) ∨ x.added = some c := by
  cases x with
  | replace old new =>
    obtain rfl : cs = old.toList := hx
    simp [apply, removed, added, Option.mem_toList]
  | insert i d =>
    have hi : i ≤ cs.length := hx
    simp [apply, removed, added, List.mem_insertIdx hi, or_comm, eq_comm]
  | remove i d =>
    simp [apply, removed, added, mem_eraseIdx_iff hcs hx, eq_comm]
  | exchange i d e =>
    have hd : cs[i]? = some d := hx
    have hset : c ∈ cs.set i e ↔ c ∈ cs.eraseIdx i ∨ e = c := by
      obtain ⟨hi, -⟩ := List.getElem?_eq_some_iff.1 hd
      rw [List.set_eq_take_append_cons_drop, if_pos hi, List.eraseIdx_eq_take_drop_succ]
      simp [or_left_comm, or_comm, eq_comm]
    rw [apply, hset, mem_eraseIdx_iff hcs hd]
    simp [removed, added, eq_comm]

theorem nodup_apply (hx : x.Applies cs) (hcs : cs.Nodup) (hnew : ∀ c, x.added = some c → c ∉ cs) :
    (x.apply cs).Nodup := by
  cases x with
  | replace old new => cases new <;> simp [apply]
  | insert i d =>
    exact (List.perm_insertIdx d cs hx).nodup_iff.2 (List.nodup_cons.2 ⟨hnew d rfl, hcs⟩)
  | remove i d => exact hcs.eraseIdx i
  | exchange i d e => exact hcs.set (hnew e rfl)

/-- A single child is replaced by at most one. -/
theorem length_apply_le {ty : ChildType} (hx : x.Suits (.child ty)) : (x.apply cs).length ≤ 1 := by
  cases x with
  | replace old new => cases new <;> simp [apply]
  | insert _ _ | remove _ _ | exchange _ _ _ => exact hx.elim

end Splice

/-! ## Slots with other children -/

namespace Slot

variable {content : Slot Nat} {form : Form} {cs : List Nat}

/-- The slot with other children; a slot for a single child takes the first. -/
def withMembers : Slot Nat → List Nat → Slot Nat
  | scalar v, _ => scalar v
  | child _, cs => child cs.head?
  | list _, cs => list cs

theorem fits_withMembers (h : content.fits form = true) :
    (content.withMembers cs).fits form = true := by
  cases content <;> cases form <;> first | rfl | cases h

theorem members_withMembers {ty : ChildType} (h : content.fits form = true)
    (hty : form.childType? = some ty) (hcs : ∀ ty', form = .child ty' → cs.length ≤ 1) :
    (content.withMembers cs).members = cs := by
  cases content with
  | scalar v =>
    cases form with
    | scalar _ => cases hty
    | child _ | list _ => cases h
  | list _ => rfl
  | child d =>
    cases form with
    | scalar _ | list _ => cases h
    | child ty' =>
      have := hcs ty' rfl
      match cs with
      | [] | [_] => rfl
      | _ :: _ :: _ => simp at this

end Slot

theorem Kind.fits_modify {k : Kind} {slots : List (Slot Nat)} {s : Nat} {f : Slot Nat → Slot Nat}
    (h : k.fits slots = true)
    (hf : ∀ content form, content.fits form = true → (f content).fits form = true) :
    k.fits (slots.modify s f) = true := by
  simp only [fits, Bool.and_eq_true, beq_iff_eq, List.all_eq_true] at h ⊢
  refine ⟨by simpa using h.1, fun e hmem => ?_⟩
  obtain ⟨content, p⟩ := e
  obtain ⟨i, hi⟩ := List.mem_iff_getElem?.1 hmem
  obtain ⟨hslot, hp⟩ := List.getElem?_zip_eq_some.1 hi
  rw [List.getElem?_modify] at hslot
  obtain ⟨content', hs, rfl⟩ := Option.map_eq_some_iff.1 hslot
  have hfits := h.2 (content', p) (List.mem_of_getElem? (List.getElem?_zip_eq_some.2 ⟨hs, hp⟩))
  split
  · exact hf _ _ hfits
  · exact hfits

namespace Property

/-- A property that holds nodes is filed under one that holds nodes. -/
theorem primary_childType? {p : Property} {ty : ChildType} (h : p.form.childType? = some ty) :
    ∃ ty', p.primary.form.childType? = some ty' := by
  cases p <;> cases h <;> exact ⟨_, rfl⟩

/-- …which declares the same type or a wider one. -/
theorem conformsTo_primary {p : Property} {ty ty' : ChildType} {k : Kind}
    (h : p.form.childType? = some ty) (h' : p.primary.form.childType? = some ty')
    (hk : k.conformsTo ty = true) : k.conformsTo ty' = true := by
  cases p <;> cases h <;> cases h' <;> first | exact hk | rfl

/-- A slot for a single child is read by one property only. -/
theorem form_of_primary_child {p : Property} {ty : ChildType} (h : p.primary.form = .child ty) :
    p.form = .child ty := by
  cases p <;> first | exact h | cases h

end Property

/-- **What is declared**: a child is of the type that the owner of its slot declares. -/
def Typing.declared : Typing where
  admits p k := ∀ ty, p.form.childType? = some ty → k.conformsTo ty = true
  single hp hk _ hty := Property.conformsTo_primary (by rw [hp]; rfl) hty hk

/-- Whatever passes for a property is admitted then. -/
theorem Typing.declared_takes (p : Property) (k : Kind) : Typing.declared.Takes p k :=
  fun _ hty hk _ hty' => Property.conformsTo_primary hty hty' hk

/-! ## The splice in the arena -/

namespace Arena

variable {a : Arena} {n i s c : Nat} {p : Property} {x : Splice}

/-- Splices the slot of a property: the slot gets its new children, and the two children concerned
get their new locations. -/
def rewire (a : Arena) (n : Nat) (p : Property) (x : Splice) : Arena :=
  a.mapIdx fun i r =>
    { r with
      location :=
        if x.added = some i then some ⟨n, p.primary⟩
        else if x.removed = some i then none
        else r.location
      slots :=
        if i = n then
          r.slots.modify p.slot fun content => content.withMembers (x.apply content.members)
        else r.slots }

/-- **What an arena asks of a splice**: the property is one of the node's kind and of a form that
the splice suits, the slot holds what it is taken to hold, and a child that comes in is a root that
does not stand above the node. -/
structure Admits (a : Arena) (n : Nat) (p : Property) (x : Splice) : Prop where
  owner : a.kindAt n = some p.owner
  suits : x.Suits p.form
  applies : x.Applies (a.membersAt n p.slot)
  added : ∀ c, x.added = some c →
    c < a.size ∧ a.locationAt c = none ∧ ∀ chain, a.Chain n chain → c ∉ chain

@[simp] theorem size_rewire : (a.rewire n p x).size = a.size := Array.size_mapIdx

theorem getElem?_rewire : (a.rewire n p x)[i]? = a[i]?.map fun r =>
    { r with
      location :=
        if x.added = some i then some ⟨n, p.primary⟩
        else if x.removed = some i then none
        else r.location
      slots :=
        if i = n then
          r.slots.modify p.slot fun content => content.withMembers (x.apply content.members)
        else r.slots } := Array.getElem?_mapIdx

/-- A splice leaves kinds, ranges and marks alone. -/
theorem exists_record_rewire {r : Record} (hr : a[i]? = some r) :
    ∃ r', (a.rewire n p x)[i]? = some r' ∧ r'.kind = r.kind ∧ r'.range = r.range ∧
      r'.flags = r.flags := by
  rw [getElem?_rewire, hr]
  exact ⟨_, rfl, rfl, rfl, rfl⟩

@[simp] theorem kindAt_rewire : (a.rewire n p x).kindAt i = a.kindAt i := by
  rw [kindAt, getElem?_rewire, Option.map_map]
  rfl

@[simp] theorem storageAt_rewire : (a.rewire n p x).storageAt i s = a.storageAt i s := by
  rw [storageAt, kindAt_rewire, storageAt]

theorem locationAt_rewire (hi : i < a.size) :
    (a.rewire n p x).locationAt i =
      if x.added = some i then some ⟨n, p.primary⟩
      else if x.removed = some i then none
      else a.locationAt i := by
  obtain ⟨r, hr⟩ := exists_record hi
  rw [locationAt, getElem?_rewire, hr, locationAt_of_record hr]
  rfl

theorem slotAt_rewire : (a.rewire n p x).slotAt i s =
    if i = n ∧ s = p.slot then
      (a.slotAt i s).map fun content => content.withMembers (x.apply content.members)
    else a.slotAt i s := by
  rw [slotAt, getElem?_rewire, slotAt]
  rcases a[i]? with _ | r
  · simp
  · by_cases hi : i = n
    · by_cases hs : s = p.slot
      · simp [hi, hs]
      · simp [hi, hs, List.getElem?_modify_ne _ _ (Ne.symm hs)]
    · simp [hi]

theorem membersAt_rewire_of_ne (h : ¬(i = n ∧ s = p.slot)) :
    (a.rewire n p x).membersAt i s = a.membersAt i s := by
  rw [membersAt, slotAt_rewire, if_neg h, membersAt]

/-- The content of a slot that holds nodes. -/
theorem Forest.exists_slotAt (h : a.Forest) (ho : a.kindAt n = some p.owner) {ty : ChildType}
    (hty : p.form.childType? = some ty) :
    ∃ content ty', a.slotAt n p.slot = some content ∧ content.fits p.primary.form = true ∧
      p.primary.form.childType? = some ty' := by
  obtain ⟨r, hr, hk⟩ := Option.map_eq_some_iff.1 ho
  obtain ⟨content, hs, hfits⟩ := h.exists_slot hr hk.symm
  obtain ⟨ty', hty'⟩ := Property.primary_childType? hty
  exact ⟨content, ty', (slotAt_of_record hr).trans hs, hfits, hty'⟩

theorem Admits.exists_childType (hx : a.Admits n p x) : ∃ ty, p.form.childType? = some ty := by
  have := hx.suits
  revert this
  cases hp : p.form with
  | scalar _ => cases x <;> exact fun h => h.elim
  | child ty | list ty => exact fun _ => ⟨ty, rfl⟩

/-- The child that goes out was in the slot. -/
theorem Admits.removed_mem (hx : a.Admits n p x) (hc : x.removed = some c) :
    c ∈ a.membersAt n p.slot :=
  Splice.mem_of_removed hx.applies hc

/-- The child that comes in is located in the slot. -/
theorem Admits.locationAt_added (hx : a.Admits n p x) (hc : x.added = some c) :
    (a.rewire n p x).locationAt c = some ⟨n, p.primary⟩ := by
  rw [locationAt_rewire (hx.added c hc).1, if_pos hc]

/-- Whoever has a place keeps it, the child that goes out apart. -/
theorem Admits.locationAt_kept {l : Location} (hx : a.Admits n p x)
    (hl : a.locationAt c = some l) (hc : x.removed ≠ some c) :
    (a.rewire n p x).locationAt c = some l := by
  have hne : x.added ≠ some c := fun ha => by
    rw [(hx.added c ha).2.1] at hl
    cases hl
  rw [locationAt_rewire (lt_size_of_locationAt hl), if_neg hne, if_neg hc, hl]

theorem membersAt_rewire (h : a.Forest) (hx : a.Admits n p x) :
    (a.rewire n p x).membersAt n p.slot = x.apply (a.membersAt n p.slot) := by
  obtain ⟨ty, hty⟩ := hx.exists_childType
  obtain ⟨content, ty', hs, hfits, hty'⟩ := h.exists_slotAt hx.owner hty
  rw [membersAt, slotAt_rewire, if_pos ⟨rfl, rfl⟩, membersAt_of_slot hs, hs]
  refine Slot.members_withMembers hfits hty' fun ty'' hform => ?_
  have := hx.suits
  rw [Property.form_of_primary_child hform] at this
  exact Splice.length_apply_le this

namespace Forest

variable (h : a.Forest) (hx : a.Admits n p x)

include h hx

/-- The child that comes in was in no slot. -/
theorem added_not_mem (hc : x.added = some c) : c ∉ a.membersAt i s :=
  h.not_mem_of_root (hx.added c hc).2.1

theorem mem_rewire : c ∈ (a.rewire n p x).membersAt n p.slot ↔
    (c ∈ a.membersAt n p.slot ∧ x.removed ≠ some c) ∨ x.added = some c := by
  rw [membersAt_rewire h hx, Splice.mem_apply hx.applies (h.nodup n p.slot)]

/-- The node stays where it is: neither of the two children stands above it. -/
theorem chain_rewire {chain : List Nat} (hc : a.Chain n chain) :
    (a.rewire n p x).Chain n chain := by
  refine hc.congr (Nat.le_of_eq size_rewire.symm) fun j hj => ?_
  rw [locationAt_rewire (hc.lt_size hj), if_neg, if_neg]
  · intro hr
    obtain ⟨q, -, hl⟩ := h.filed (hx.removed_mem hr)
    exact Chain.not_mem_parent hc hl hj
  · exact fun ha => (hx.added j ha).2.2 chain hc hj

theorem filed_rewire (hc : c ∈ (a.rewire n p x).membersAt i s) : ∃ q,
    (a.rewire n p x).storageAt i s = some q ∧ (a.rewire n p x).locationAt c = some ⟨i, q⟩ := by
  rw [storageAt_rewire]
  by_cases his : i = n ∧ s = p.slot
  · obtain ⟨rfl, rfl⟩ := his
    refine ⟨_, storageAt_slot hx.owner, ?_⟩
    rcases (mem_rewire h hx).1 hc with ⟨hm, hr⟩ | ha
    · obtain ⟨q, hq, hl⟩ := h.filed hm
      rw [storageAt_slot hx.owner] at hq
      cases hq
      exact hx.locationAt_kept hl hr
    · exact hx.locationAt_added ha
  · rw [membersAt_rewire_of_ne his] at hc
    obtain ⟨q, hq, hl⟩ := h.filed hc
    exact ⟨q, hq, hx.locationAt_kept hl fun hr => his (h.slot_unique hc (hx.removed_mem hr))⟩

theorem held_rewire {l : Location} (hl : (a.rewire n p x).locationAt c = some l) :
    (a.rewire n p x).storageAt l.parent l.property.slot = some l.property ∧
      c ∈ (a.rewire n p x).membersAt l.parent l.property.slot := by
  have hc : c < a.size := by simpa using lt_size_of_locationAt hl
  rw [storageAt_rewire]
  rw [locationAt_rewire hc] at hl
  split at hl
  · rename_i ha
    cases hl
    rw [Property.primary_slot, storageAt_slot hx.owner]
    exact ⟨rfl, (mem_rewire h hx).2 (.inr ha)⟩
  · split at hl
    · cases hl
    · rename_i hr
      obtain ⟨hs, hm⟩ := h.held hl
      refine ⟨hs, ?_⟩
      by_cases his : l.parent = n ∧ l.property.slot = p.slot
      · rw [his.1, his.2] at hm ⊢
        exact (mem_rewire h hx).2 (.inl ⟨hm, hr⟩)
      · rwa [membersAt_rewire_of_ne his]

/-- The way up is the old one, cut off at the child that goes out, or led on at the child that comes
in by the way up from the node. -/
theorem rooted_rewire (hi : i < a.size) : ∃ chain, (a.rewire n p x).Chain i chain := by
  obtain ⟨r, hr, -⟩ := Option.map_eq_some_iff.1 hx.owner
  obtain ⟨above, hn⟩ := h.rooted (lt_size_of_record hr)
  obtain ⟨chain, hc⟩ := h.rooted hi
  induction hc with
  | @root i hi' hl =>
    by_cases ha : x.added = some i
    · exact ⟨_, .up (hx.locationAt_added ha) (chain_rewire h hx hn)⟩
    · exact ⟨_, .root (by simpa using hi')
        (by rw [locationAt_rewire hi', if_neg ha, hl, ite_self])⟩
  | @up i l chain hl hc ih =>
    by_cases hr : x.removed = some i
    · by_cases ha : x.added = some i
      · exact ⟨_, .up (hx.locationAt_added ha) (chain_rewire h hx hn)⟩
      · exact ⟨_, .root (by simpa using hi) (by rw [locationAt_rewire hi, if_neg ha, if_pos hr])⟩
    · obtain ⟨chain', hc'⟩ := ih (hc.lt_size hc.mem_self)
      exact ⟨_, .up (hx.locationAt_kept hl hr) hc'⟩

theorem rewire : (a.rewire n p x).Forest where
  fits {i r} hr := by
    rw [getElem?_rewire] at hr
    obtain ⟨r, hr', rfl⟩ := Option.map_eq_some_iff.1 hr
    have hfits := h.fits hr'
    simp only
    split
    · exact Kind.fits_modify hfits fun _ _ => Slot.fits_withMembers
    · exact hfits
  filed hc := filed_rewire h hx hc
  held hl := held_rewire h hx hl
  nodup i s := by
    by_cases his : i = n ∧ s = p.slot
    · rw [his.1, his.2, membersAt_rewire h hx]
      exact Splice.nodup_apply hx.applies (h.nodup _ _) fun c hc => added_not_mem h hx hc
    · rw [membersAt_rewire_of_ne his]
      exact h.nodup i s
  rooted hi := rooted_rewire h hx (by simpa using hi)

end Forest

/-- **Children stay of kinds that are admitted** if the one that comes in is. -/
theorem Typed.rewire {T : Typing} (h : a.Forest) (hx : a.Admits n p x) (ht : a.Typed T)
    (hnew : ∀ c, x.added = some c → ∃ k, a.kindAt c = some k ∧ T.admits p.primary k) :
    (a.rewire n p x).Typed T := by
  intro i s c q hc hq
  rw [storageAt_rewire] at hq
  rw [kindAt_rewire]
  by_cases his : i = n ∧ s = p.slot
  · obtain ⟨rfl, rfl⟩ := his
    rcases (h.mem_rewire hx).1 hc with ⟨hm, -⟩ | ha
    · exact ht hm hq
    · rw [storageAt_slot hx.owner] at hq
      cases hq
      exact hnew c ha
  · rw [membersAt_rewire_of_ne his] at hc
    exact ht hc hq

end Arena

end SyntaxForest
