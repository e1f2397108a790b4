import SyntaxForest.Proofs.Store.Arena

/-!
# Proofs/Store/Forest — what every arena keeps: both readings of an attachment agree

`Arena.Forest` is the invariant of the store.  It says that the slots of a record have the forms of
its kind, that slots and locations name the same attachments, that no slot names a child twice, and
that the way up from every node ends.  `Arena.Typed` says that children are of kinds that a `Typing`
admits; what is declared is one typing (`Typing.declared`), and there are stricter ones.

* `Arena.Forest.stored_nodup` — no node is stored twice, over all slots of all nodes.
* `Arena.Forest.extend`, `Arena.Typed.extend` — records may be added, if they are all right among
  themselves.
-/

namespace SyntaxForest

/-- A row of slots that fits a kind has a slot for each stored property, of its form. -/
theorem Kind.exists_slot_of_fits {α : Type} {k : Kind} {slots : List (Slot α)} {s : Nat}
    {p : Property} (h : k.fits slots = true) (hp : k.storage[s]? = some p) :
    ∃ content, slots[s]? = some content ∧ content.fits p.form = true := by
  simp only [fits, Bool.and_eq_true, beq_iff_eq, List.all_eq_true] at h
  obtain ⟨hs, -⟩ := List.getElem?_eq_some_iff.1 hp
  have hlt : s < slots.length := by omega
  have hslot : slots[s]? = some slots[s] := List.getElem?_eq_getElem hlt
  exact ⟨_, hslot, h.2 (_, p) (List.mem_of_getElem? (List.getElem?_zip_eq_some.2 ⟨hslot, hp⟩))⟩

/-- …and no others. -/
theorem Kind.exists_storage_of_fits {α : Type} {k : Kind} {slots : List (Slot α)} {s : Nat}
    {content : Slot α} (h : k.fits slots = true) (hs : slots[s]? = some content) :
    ∃ p, k.storage[s]? = some p ∧ content.fits p.form = true := by
  have hlen : slots.length = k.storage.length := by
    simp only [fits, Bool.and_eq_true, beq_iff_eq] at h
    exact h.1
  obtain ⟨hlt, -⟩ := List.getElem?_eq_some_iff.1 hs
  rw [hlen] at hlt
  have hp : k.storage[s]? = some k.storage[s] := List.getElem?_eq_getElem hlt
  obtain ⟨content', hs', hfits⟩ := exists_slot_of_fits h hp
  rw [hs] at hs'
  cases hs'
  exact ⟨_, hp, hfits⟩

/-- A slot may be overwritten by content of its form. -/
theorem Kind.fits_set {α : Type} {k : Kind} {slots : List (Slot α)} {s : Nat} {p : Property}
    {content : Slot α} (h : k.fits slots = true) (hp : k.storage[s]? = some p)
    (hc : content.fits p.form = true) : k.fits (slots.set s content) = true := by
  simp only [fits, Bool.and_eq_true, beq_iff_eq, List.all_eq_true] at h ⊢
  refine ⟨by simpa using h.1, fun e hmem => ?_⟩
  obtain ⟨content', q⟩ := e
  obtain ⟨i, hi⟩ := List.mem_iff_getElem?.1 hmem
  obtain ⟨hslot, hq⟩ := List.getElem?_zip_eq_some.1 hi
  rw [List.getElem?_set] at hslot
  split at hslot
  · rename_i hsi
    subst hsi
    rw [hp] at hq
    cases hq
    split at hslot
    · cases hslot
      exact hc
    · cases hslot
  · exact h.2 (content', q) (List.mem_of_getElem? (List.getElem?_zip_eq_some.2 ⟨hslot, hq⟩))

namespace Slot

variable {α : Type} {content : Slot α} {ty : ChildType}

theorem eq_child_of_fits (h : content.fits (.child ty) = true) : ∃ c, content = .child c := by
  cases content with
  | child c => exact ⟨c, rfl⟩
  | scalar _ | list _ => cases h

theorem eq_list_of_fits (h : content.fits (.list ty) = true) : ∃ cs, content = .list cs := by
  cases content with
  | list cs => exact ⟨cs, rfl⟩
  | scalar _ | child _ => cases h

end Slot

/-- **What the slots ask of their children**: the kinds that are admitted under the property that
owns a slot.  What may be read as a single child is admitted in any case. -/
structure Typing where
  admits : Property → Kind → Prop
  single : ∀ {p : Property} {ty : ChildType} {k : Kind}, p.form = .child ty →
    k.conformsTo ty = true → admits p.primary k

/-- Whether a child that passes for a property is of a kind that its slot admits. -/
def Typing.Takes (T : Typing) (p : Property) (k : Kind) : Prop :=
  ∀ ty, p.form.childType? = some ty → k.conformsTo ty = true → T.admits p.primary k

namespace Arena

variable {a b : Arena} {i j s c : Nat} {r : Record} {p : Property} {T : Typing}

/-- **The invariant of the store.** -/
structure Forest (a : Arena) : Prop where
  /-- the slots of a record are those of its kind -/
  fits : ∀ {i : Nat} {r : Record}, a[i]? = some r → r.kind.fits r.slots = true
  /-- what a slot names is located in that slot -/
  filed : ∀ {i s c}, c ∈ a.membersAt i s →
    ∃ p, a.storageAt i s = some p ∧ a.locationAt c = some ⟨i, p⟩
  /-- what is located in a slot is named by it -/
  held : ∀ {c} {l : Location}, a.locationAt c = some l →
    a.storageAt l.parent l.property.slot = some l.property ∧
      c ∈ a.membersAt l.parent l.property.slot
  /-- no slot names a child twice -/
  nodup : ∀ i s, (a.membersAt i s).Nodup
  /-- the way up ends -/
  rooted : ∀ {i}, i < a.size → ∃ chain, a.Chain i chain

/-- **Children are of kinds that the owner of their slot admits.** -/
def Typed (T : Typing) (a : Arena) : Prop :=
  ∀ ⦃i s c p⦄, c ∈ a.membersAt i s → a.storageAt i s = some p →
    ∃ k, a.kindAt c = some k ∧ T.admits p k

/-! ## What follows at once -/

namespace Forest

theorem lt_size_of_mem (h : a.Forest) (hc : c ∈ a.membersAt i s) : c < a.size := by
  obtain ⟨_, -, hl⟩ := h.filed hc
  exact lt_size_of_locationAt hl

/-- A parent is a node. -/
theorem parent_lt {l : Location} (h : a.Forest) (hl : a.locationAt c = some l) :
    l.parent < a.size :=
  lt_size_of_storageAt (h.held hl).1

/-- A node is named by one slot only. -/
theorem slot_unique (h : a.Forest) (hc : c ∈ a.membersAt i s) {s' : Nat}
    (hc' : c ∈ a.membersAt j s') : i = j ∧ s = s' := by
  obtain ⟨p, hp, hl⟩ := h.filed hc
  obtain ⟨p', hp', hl'⟩ := h.filed hc'
  rw [hl] at hl'
  cases hl'
  exact ⟨rfl, (slot_of_storageAt hp).1.symm.trans (slot_of_storageAt hp').1⟩

/-- **Slots and locations agree.** -/
theorem mem_iff (h : a.Forest) :
    c ∈ a.membersAt i s ↔ ∃ p, a.storageAt i s = some p ∧ a.locationAt c = some ⟨i, p⟩ := by
  refine ⟨h.filed, ?_⟩
  rintro ⟨p, hp, hl⟩
  obtain ⟨-, hc⟩ := h.held hl
  rwa [(slot_of_storageAt hp).1] at hc

/-- A node without parent is in no slot. -/
theorem not_mem_of_root (h : a.Forest) (hl : a.locationAt c = none) : c ∉ a.membersAt i s := by
  intro hc
  obtain ⟨p, -, hl'⟩ := h.filed hc
  rw [hl] at hl'
  cases hl'

/-- A property of a node's kind has its slot there, of the form of the property that owns it. -/
theorem exists_slot (h : a.Forest) (hr : a[i]? = some r) (hp : p.owner = r.kind) :
    ∃ content, r.slots[p.slot]? = some content ∧ content.fits p.primary.form = true :=
  Kind.exists_slot_of_fits (h.fits hr) (hp ▸ p.storage_primary)

end Forest

/-! ## No node is stored twice -/

/-- All children stored in an arena, in the order of records, slots and lists. -/
def stored (a : Arena) : List Nat := a.toList.flatMap fun r => r.slots.flatMap Slot.members

theorem membersAt_of_content {content : Slot Nat} (hr : a[i]? = some r)
    (hs : r.slots[s]? = some content) : a.membersAt i s = content.members := by
  rw [membersAt_of_record hr, hs]
  rfl

theorem mem_record_iff (hr : a[i]? = some r) :
    c ∈ r.slots.flatMap Slot.members ↔ ∃ s, c ∈ a.membersAt i s := by
  rw [List.mem_flatMap]
  constructor
  · rintro ⟨content, hmem, hc⟩
    obtain ⟨s, hs⟩ := List.mem_iff_getElem?.1 hmem
    exact ⟨s, by rwa [membersAt_of_content hr hs]⟩
  · rintro ⟨s, hc⟩
    rw [membersAt_of_record hr] at hc
    rcases hs : r.slots[s]? with _ | content <;> rw [hs] at hc
    · cases hc
    · exact ⟨content, List.mem_of_getElem? hs, hc⟩

theorem mem_stored_iff : c ∈ a.stored ↔ ∃ i s, c ∈ a.membersAt i s := by
  rw [stored, List.mem_flatMap]
  constructor
  · rintro ⟨r, hmem, hc⟩
    obtain ⟨i, hi⟩ := List.mem_iff_getElem?.1 hmem
    exact ⟨i, (mem_record_iff (Array.getElem?_toList ▸ hi)).1 hc⟩
  · rintro ⟨i, s, hc⟩
    rcases hr : a[i]? with _ | r
    · simp [membersAt, slotAt, hr] at hc
    · exact ⟨r, Array.mem_toList_iff.2 (Array.mem_of_getElem? hr), (mem_record_iff hr).2 ⟨s, hc⟩⟩

/-- **No node is stored twice**, neither in one list nor in two slots: its location names the one
slot it can be in. -/
theorem Forest.stored_nodup (h : a.Forest) : a.stored.Nodup := by
  refine List.nodup_flatMap.2
    ⟨fun r hmem => ?_, List.pairwise_iff_getElem.2 fun i j hi hj hij => ?_⟩
  · obtain ⟨i, hr⟩ := List.mem_iff_getElem?.1 hmem
    rw [Array.getElem?_toList] at hr
    refine List.nodup_flatMap.2
      ⟨fun content hmem => ?_, List.pairwise_iff_getElem.2 fun s s' hs hs' hss' => ?_⟩
    · obtain ⟨s, hs⟩ := List.mem_iff_getElem?.1 hmem
      rw [← membersAt_of_content hr hs]
      exact h.nodup i s
    · intro c hc hc'
      rw [← membersAt_of_content hr (List.getElem?_eq_getElem hs)] at hc
      rw [← membersAt_of_content hr (List.getElem?_eq_getElem hs')] at hc'
      exact Nat.ne_of_lt hss' (h.slot_unique hc hc').2
  · intro c hc hc'
    have hri : a[i]? = some a.toList[i] := by rw [← Array.getElem?_toList, List.getElem?_eq_getElem]
    have hrj : a[j]? = some a.toList[j] := by rw [← Array.getElem?_toList, List.getElem?_eq_getElem]
    obtain ⟨s, hs⟩ := (mem_record_iff hri).1 hc
    obtain ⟨s', hs'⟩ := (mem_record_iff hrj).1 hc'
    exact Nat.ne_of_lt hij (h.slot_unique hs hs').1

/-! ## Changes beside the attachments -/

section Congr

variable (hsize : b.size = a.size) (hkind : ∀ i, b.kindAt i = a.kindAt i)
  (hmem : ∀ i s, b.membersAt i s = a.membersAt i s)

include hkind

theorem storageAt_congr : b.storageAt i s = a.storageAt i s := by
  rw [storageAt, hkind, storageAt]

include hsize hmem

/-- **What changes neither kinds nor attachments** keeps the forest. -/
theorem Forest.congr (h : a.Forest) (hloc : ∀ i, b.locationAt i = a.locationAt i)
    (hfits : ∀ {i : Nat} {r : Record}, b[i]? = some r → r.kind.fits r.slots = true) :
    b.Forest where
  fits := hfits
  filed {i s c} hc := by
    rw [hmem] at hc
    rw [storageAt_congr hkind, hloc]
    exact h.filed hc
  held {c l} hl := by
    rw [hloc] at hl
    rw [storageAt_congr hkind, hmem]
    exact h.held hl
  nodup i s := by
    rw [hmem]
    exact h.nodup i s
  rooted {i} hi := by
    obtain ⟨chain, hc⟩ := h.rooted (hsize ▸ hi)
    exact ⟨chain, hc.congr (Nat.le_of_eq hsize.symm) fun j _ => hloc j⟩

omit hsize in
theorem Typed.congr (ht : a.Typed T) : b.Typed T := by
  intro i s c p hc hp
  rw [hmem] at hc
  rw [storageAt_congr hkind] at hp
  rw [hkind]
  exact ht hc hp

end Congr

section Modify

variable {n : Nat} {f : Record → Record}

theorem kindAt_modify (hf : ∀ r, (f r).kind = r.kind) :
    kindAt (a.modify n f) i = a.kindAt i := by
  rw [kindAt, Array.getElem?_modify, kindAt]
  split
  · rw [Option.map_map]
    exact congrArg (Option.map · _) (funext hf)
  · rfl

theorem locationAt_modify (hf : ∀ r, (f r).location = r.location) :
    locationAt (a.modify n f) i = a.locationAt i := by
  rw [locationAt, Array.getElem?_modify, locationAt]
  split
  · rw [Option.bind_map]
    exact congrArg (Option.bind _) (funext hf)
  · rfl

/-- A record may get other slots, as long as they name the same children. -/
theorem membersAt_modify (hf : ∀ r, a[n]? = some r → ∀ s : Nat,
    ((f r).slots[s]?).elim [] Slot.members = (r.slots[s]?).elim [] Slot.members) :
    membersAt (a.modify n f) i s = a.membersAt i s := by
  rw [membersAt, slotAt, Array.getElem?_modify, membersAt, slotAt]
  split
  · rename_i hn
    subst hn
    rcases hr : a[n]? with _ | r
    · rfl
    · exact hf r hr s
  · rfl

end Modify

/-! ## Adding records -/

/-- An arena without nodes is a forest. -/
theorem Forest.empty : Forest (#[] : Arena) where
  fits h := by simp at h
  filed h := by simp [membersAt, slotAt] at h
  held h := by simp [locationAt] at h
  nodup i s := by simp [membersAt, slotAt]
  rooted h := by simp at h

theorem Typed.empty : Typed T #[] := fun _ _ _ _ h => by simp [membersAt, slotAt] at h

section Extend

variable (hsize : a.size ≤ b.size) (hold : ∀ i < a.size, b[i]? = a[i]?)

include hold

theorem kindAt_of_old (hi : i < a.size) : b.kindAt i = a.kindAt i := by rw [kindAt, hold i hi]; rfl

theorem storageAt_of_old (hi : i < a.size) : b.storageAt i s = a.storageAt i s := by
  rw [storageAt, kindAt_of_old hold hi, storageAt]

theorem membersAt_of_old (hi : i < a.size) : b.membersAt i s = a.membersAt i s := by
  rw [membersAt, slotAt, hold i hi]
  rfl

theorem locationAt_of_old (hi : i < a.size) : b.locationAt i = a.locationAt i := by
  rw [locationAt, hold i hi]
  rfl

include hsize

/-- **Records may be added** to a forest if slots and locations of the added ones agree, and their
ways up end. -/
theorem Forest.extend (h : a.Forest)
    (hfits : ∀ {i : Nat} {r : Record}, a.size ≤ i → b[i]? = some r → r.kind.fits r.slots = true)
    (hfiled : ∀ {i s c}, a.size ≤ i → c ∈ b.membersAt i s →
      ∃ p, b.storageAt i s = some p ∧ b.locationAt c = some ⟨i, p⟩)
    (hheld : ∀ {c} {l : Location}, a.size ≤ c → b.locationAt c = some l →
      b.storageAt l.parent l.property.slot = some l.property ∧
        c ∈ b.membersAt l.parent l.property.slot)
    (hnodup : ∀ {i}, a.size ≤ i → ∀ s, (b.membersAt i s).Nodup)
    (hrooted : ∀ {i}, a.size ≤ i → i < b.size → ∃ chain, b.Chain i chain) : b.Forest where
  fits {i r} hr := by
    rcases Nat.lt_or_ge i a.size with hi | hi
    · exact h.fits ((hold i hi).symm.trans hr)
    · exact hfits hi hr
  filed {i s c} hc := by
    rcases Nat.lt_or_ge i a.size with hi | hi
    · rw [membersAt_of_old hold hi] at hc
      obtain ⟨p, hp, hl⟩ := h.filed hc
      refine ⟨p, (storageAt_of_old hold hi).trans hp, ?_⟩
      exact (locationAt_of_old hold (lt_size_of_locationAt hl)).trans hl
    · exact hfiled hi hc
  held {c l} hl := by
    rcases Nat.lt_or_ge c a.size with hc | hc
    · rw [locationAt_of_old hold hc] at hl
      obtain ⟨hp, hm⟩ := h.held hl
      have hi := lt_size_of_storageAt hp
      exact ⟨(storageAt_of_old hold hi).trans hp, by rwa [membersAt_of_old hold hi]⟩
    · exact hheld hc hl
  nodup i s := by
    rcases Nat.lt_or_ge i a.size with hi | hi
    · rw [membersAt_of_old hold hi]
      exact h.nodup i s
    · exact hnodup hi s
  rooted {i} hb := by
    rcases Nat.lt_or_ge i a.size with hi | hi
    · obtain ⟨chain, hc⟩ := h.rooted hi
      exact ⟨chain, hc.congr hsize fun j hj => locationAt_of_old hold (hc.lt_size hj)⟩
    · exact hrooted hi hb

omit hsize in
/-- …and children stay of kinds that are admitted if those of the added records are. -/
theorem Typed.extend (h : a.Forest) (ht : a.Typed T)
    (hnew : ∀ {i s c p}, a.size ≤ i → c ∈ b.membersAt i s → b.storageAt i s = some p →
      ∃ k, b.kindAt c = some k ∧ T.admits p k) : b.Typed T := by
  intro i s c p hc hp
  rcases Nat.lt_or_ge i a.size with hi | hi
  · rw [membersAt_of_old hold hi] at hc
    rw [storageAt_of_old hold hi] at hp
    rw [kindAt_of_old hold (h.lt_size_of_mem hc)]
    exact ht hc hp
  · exact hnew hi hc hp

end Extend

/-! ## A fresh record -/

section Push

variable {k : Kind} {flags : Flags}

theorem getElem?_push_old (hi : i < a.size) : (a.push r)[i]? = a[i]? := by
  rw [Array.getElem?_push, if_neg (by omega)]

/-- A fresh record names no children. -/
theorem membersAt_push_fresh (hi : a.size ≤ i) :
    membersAt (a.push (.fresh k flags)) i s = [] := by
  rcases Nat.eq_or_lt_of_le hi with rfl | hi
  · rw [membersAt, slotAt, Array.getElem?_push_size]
    simp only [Record.fresh, Kind.freshSlots, Option.bind_some, List.getElem?_map]
    rcases k.storage[s]? with _ | p <;> simp
  · rw [membersAt, slotAt, Array.getElem?_eq_none (by simp; omega)]
    rfl

/-- …and is a root. -/
theorem locationAt_push_fresh (hi : a.size ≤ i) :
    locationAt (a.push (.fresh k flags)) i = none := by
  rcases Nat.eq_or_lt_of_le hi with rfl | hi
  · rw [locationAt, Array.getElem?_push_size]
    rfl
  · rw [locationAt, Array.getElem?_eq_none (by simp; omega)]
    rfl

theorem Forest.push_fresh (h : a.Forest) : Forest (a.push (.fresh k flags)) := by
  refine h.extend (by simp) (fun i hi => getElem?_push_old hi) ?_ ?_ ?_ ?_ ?_
  · intro i r hi hr
    rw [Array.getElem?_push] at hr
    split at hr
    · cases hr
      exact k.fits_freshSlots
    · rw [Array.getElem?_eq_none (by omega)] at hr
      cases hr
  · intro i s c hi hc
    rw [membersAt_push_fresh hi] at hc
    cases hc
  · intro c l hc hl
    rw [locationAt_push_fresh hc] at hl
    cases hl
  · intro i hi s
    rw [membersAt_push_fresh hi]
    exact List.nodup_nil
  · intro i hi hb
    exact ⟨[i], .root hb (locationAt_push_fresh hi)⟩

theorem Typed.push_fresh (h : a.Forest) (ht : a.Typed T) : Typed T (a.push (.fresh k flags)) := by
  refine ht.extend (fun i hi => getElem?_push_old hi) h fun hi hc _ => ?_
  rw [membersAt_push_fresh hi] at hc
  cases hc

end Push

end Arena

end SyntaxForest
