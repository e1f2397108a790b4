import Mathlib.Data.List.Forall2
import SyntaxForest.Proofs.Store.Forest
import SyntaxForest.Subtree.Basic

/-!
# Proofs/Subtree/Reading — what a subtree says of its arena

`Tree.unfold` reads a subtree level by level and needs fuel.  `Tree.Shows` is the same reading as a
relation: each child of the subtree stands in a slot beside the index it was read at.

* `Tree.unfold_shows` — what is read is shown.
* `Tree.exists_unfold` — **reading gets to the leaves** of a forest: the arena is fuel enough.
* `Tree.Shows.sound` — **a subtree of a typed arena is sound** (`Subtree.Sound`): its slots fit its
  kinds, and its children are of kinds that are admitted.
-/

namespace SyntaxForest

/-! ## Computations on every element -/

section MapM

variable {α β ε : Type} {f : α → Except ε β}

/-- A computation succeeds on every element exactly when each element has its own answer beside
it. -/
theorem mapM_eq_ok {xs : List α} {ys : List β} : xs.mapM f = .ok ys ↔
    ∃ pairs : List (α × β), pairs.map Prod.fst = xs ∧ pairs.map Prod.snd = ys ∧
      ∀ x ∈ pairs, f x.1 = .ok x.2 := by
  induction xs generalizing ys with
  | nil =>
    constructor
    · intro h
      cases h
      exact ⟨[], rfl, rfl, by simp⟩
    · rintro ⟨pairs, hx, rfl, -⟩
      obtain rfl := List.map_eq_nil_iff.1 hx
      rfl
  | cons x xs ih =>
    rw [List.mapM_cons]
    constructor
    · intro h
      obtain ⟨y, hy, h⟩ := bind_eq_ok.1 h
      obtain ⟨ys, hys, h⟩ := bind_eq_ok.1 h
      cases h
      obtain ⟨pairs, rfl, rfl, hp⟩ := ih.1 hys
      exact ⟨(x, y) :: pairs, rfl, rfl, List.forall_mem_cons.2 ⟨hy, hp⟩⟩
    · rintro ⟨pairs, hx, rfl, hp⟩
      obtain ⟨⟨x', y⟩, pairs, rfl, rfl, rfl⟩ := List.map_eq_cons_iff.1 hx
      obtain ⟨hy, hp⟩ := List.forall_mem_cons.1 hp
      refine bind_eq_ok.2 ⟨y, hy, bind_eq_ok.2 ⟨_, ih.2 ⟨pairs, rfl, rfl, hp⟩, rfl⟩⟩

/-- …and likewise on every child in a slot. -/
theorem Slot.mapM_eq_ok {s : Slot α} {s' : Slot β} : s.mapM f = .ok s' ↔
    ∃ pairs : Slot (α × β), pairs.map Prod.fst = s ∧ pairs.map Prod.snd = s' ∧
      ∀ x ∈ pairs.members, f x.1 = .ok x.2 := by
  constructor
  · intro h
    rcases s with v | (_ | c) | cs
    · cases h
      exact ⟨scalar v, rfl, rfl, by simp [members]⟩
    · cases h
      exact ⟨child none, rfl, rfl, by simp [members]⟩
    · obtain ⟨d, hd, h⟩ := bind_eq_ok.1 h
      cases h
      exact ⟨child (some (c, d)), rfl, rfl, by simpa [members] using hd⟩
    · obtain ⟨ds, hds, h⟩ := bind_eq_ok.1 h
      cases h
      obtain ⟨pairs, rfl, rfl, hp⟩ := SyntaxForest.mapM_eq_ok.1 hds
      exact ⟨list pairs, rfl, rfl, hp⟩
  · rintro ⟨v | (_ | ⟨c, d⟩) | pairs, rfl, rfl, hp⟩
    · rfl
    · rfl
    · exact bind_eq_ok.2 ⟨d, hp (c, d) (List.mem_singleton_self _), rfl⟩
    · exact bind_eq_ok.2 ⟨_, SyntaxForest.mapM_eq_ok.2 ⟨pairs, rfl, rfl, hp⟩, rfl⟩

/-- …and on every child in a row of slots. -/
theorem Slot.mapM_mapM_eq_ok {ss : List (Slot α)} {ss' : List (Slot β)} :
    ss.mapM (Slot.mapM f) = .ok ss' ↔
      ∃ pairs : List (Slot (α × β)), pairs.map (Slot.map Prod.fst) = ss ∧
        pairs.map (Slot.map Prod.snd) = ss' ∧ ∀ s ∈ pairs, ∀ x ∈ s.members, f x.1 = .ok x.2 := by
  induction ss generalizing ss' with
  | nil =>
    constructor
    · intro h
      cases h
      exact ⟨[], rfl, rfl, by simp⟩
    · rintro ⟨pairs, hx, rfl, -⟩
      obtain rfl := List.map_eq_nil_iff.1 hx
      rfl
  | cons s ss ih =>
    rw [List.mapM_cons]
    constructor
    · intro h
      obtain ⟨s', hs, h⟩ := bind_eq_ok.1 h
      obtain ⟨ss', hss, h⟩ := bind_eq_ok.1 h
      cases h
      obtain ⟨pair, rfl, rfl, hp⟩ := Slot.mapM_eq_ok.1 hs
      obtain ⟨pairs, rfl, rfl, hps⟩ := ih.1 hss
      exact ⟨pair :: pairs, rfl, rfl, List.forall_mem_cons.2 ⟨hp, hps⟩⟩
    · rintro ⟨pairs, hx, rfl, hp⟩
      obtain ⟨pair, pairs, rfl, rfl, rfl⟩ := List.map_eq_cons_iff.1 hx
      obtain ⟨hs, hps⟩ := List.forall_mem_cons.1 hp
      exact bind_eq_ok.2 ⟨_, Slot.mapM_eq_ok.2 ⟨pair, rfl, rfl, hs⟩,
        bind_eq_ok.2 ⟨_, ih.2 ⟨pairs, rfl, rfl, hps⟩, rfl⟩⟩

/-- A computation that succeeds on each element succeeds on the row. -/
theorem exists_mapM_eq_ok {xs : List α} (h : ∀ x ∈ xs, ∃ y, f x = .ok y) :
    ∃ ys, xs.mapM f = .ok ys := by
  induction xs with
  | nil => exact ⟨[], rfl⟩
  | cons x xs ih =>
    obtain ⟨⟨y, hy⟩, hxs⟩ := List.forall_mem_cons.1 h
    obtain ⟨ys, hys⟩ := ih hxs
    rw [List.mapM_cons]
    exact ⟨y :: ys, bind_eq_ok.2 ⟨y, hy, bind_eq_ok.2 ⟨ys, hys, rfl⟩⟩⟩

/-- …and answers each element in its place. -/
theorem mapM_eq_ok_map {g : α → β} {xs : List α} (h : ∀ x ∈ xs, f x = .ok (g x)) :
    xs.mapM f = .ok (xs.map g) := by
  refine mapM_eq_ok.2 ⟨xs.map fun x => (x, g x), ?_, ?_, List.forall_mem_map.2 h⟩
  · rw [List.map_map]
    exact List.map_id xs
  · rw [List.map_map]
    rfl

/-- …and on the children in a slot. -/
theorem Slot.exists_mapM_eq_ok {s : Slot α} (h : ∀ x ∈ s.members, ∃ y, f x = .ok y) :
    ∃ s', s.mapM f = .ok s' := by
  rcases s with v | (_ | c) | cs
  · exact ⟨scalar v, rfl⟩
  · exact ⟨child none, rfl⟩
  · obtain ⟨d, hd⟩ := h c (List.mem_singleton_self c)
    exact ⟨child (some d), bind_eq_ok.2 ⟨d, hd, rfl⟩⟩
  · obtain ⟨ds, hds⟩ := SyntaxForest.exists_mapM_eq_ok h
    exact ⟨list ds, bind_eq_ok.2 ⟨ds, hds, rfl⟩⟩

end MapM

/-- Two rows side by side, the first of them mapped. -/
theorem mem_map_zip {α β γ : Type} {f : α → β} {xs : List α} {ys : List γ} {b : β} {c : γ} :
    (b, c) ∈ (xs.map f).zip ys ↔ ∃ a, (a, c) ∈ xs.zip ys ∧ f a = b := by
  rw [List.zip_map_left]
  simp

/-- What holds of all children when they are replaced. -/
theorem Slot.forall_mem_map {α β : Type} {f : α → β} {ss : List (Slot α)} {P : β → Prop} :
    (∀ s ∈ ss.map (Slot.map f), ∀ c ∈ s.members, P c) ↔ ∀ s ∈ ss, ∀ c ∈ s.members, P (f c) := by
  simp only [List.forall_mem_map, Slot.members_map]

/-- …and of the children in all slots. -/
theorem Slot.forall_mem_flatMap {α β : Type} {f : α → β} {ss : List (Slot α)} {P : β → Prop}
    (h : ∀ s ∈ ss, ∀ c ∈ s.members, P (f c)) : ∀ c ∈ (ss.map (Slot.map f)).flatMap Slot.members, P c := by
  intro c hc
  obtain ⟨slot, hslot, hc⟩ := List.mem_flatMap.1 hc
  exact Slot.forall_mem_map.2 h slot hslot c hc

/-! ## Sound subtrees -/

/-- **A subtree as it may hang in a tree**: its slots fit its kinds, and its children are of kinds
that the owners of their slots admit. -/
inductive Subtree.Sound (T : Typing) : Subtree → Prop
  | node {h : Head} {ss : List (Slot Subtree)} : h.kind.fits ss = true →
    (∀ s p, (s, p) ∈ ss.zip h.kind.storage → ∀ c ∈ s.members, T.admits p c.head.kind) →
    (∀ s ∈ ss, ∀ c ∈ s.members, Sound T c) → Sound T (.node h ss)

theorem Kind.fits_map_slots {α β : Type} {k : Kind} {ss : List (Slot α)} (f : α → β) :
    k.fits (ss.map (Slot.map f)) = k.fits ss := by
  simp [fits, List.zip_map_left, List.all_map, Function.comp_def]

/-- Slots that fit a kind have the forms that its properties declare, one by one. -/
theorem Kind.forall₂_of_fits {α : Type} {k : Kind} {ss : List (Slot α)} (h : k.fits ss = true) :
    List.Forall₂ (fun p s => s.fits p.form = true) k.storage ss := by
  simp only [fits, Bool.and_eq_true, beq_iff_eq, List.all_eq_true] at h
  exact (List.forall₂_iff_zip.2 ⟨h.1, fun {s p} hmem => h.2 (s, p) hmem⟩).flip

/-! ## The reading as a relation -/

namespace Tree

variable {t : Tree} {i fuel : Nat} {s : Subtree}

/-- **What hangs below an index.** -/
inductive Shows (t : Tree) : Nat → Subtree → Prop
  | node {i : Nat} {r : Record} {pairs : List (Slot (Nat × Subtree))} :
    t.records[i]? = some r → r.kind.fits r.slots = true →
    r.slots = pairs.map (Slot.map Prod.fst) →
    (∀ s ∈ pairs, ∀ x ∈ s.members, Shows t x.1 x.2) →
    Shows t i (.node ⟨t.handle i, r.kind, r.range, r.flags⟩ (pairs.map (Slot.map Prod.snd)))

theorem unfold_shows (h : t.unfold fuel i = .ok s) : t.Shows i s := by
  induction fuel generalizing i s with
  | zero => cases h
  | succ fuel ih =>
    obtain ⟨r, hr, h⟩ := bind_eq_ok.1 h
    rw [record_eq_ok] at hr
    split at h
    · rename_i hfits
      obtain ⟨slots, hslots, h⟩ := bind_eq_ok.1 h
      cases h
      obtain ⟨pairs, hpairs, rfl, hx⟩ := Slot.mapM_mapM_eq_ok.1 hslots
      exact .node hr hfits hpairs.symm fun s hs x hxs => ih (hx s hs x hxs)
    · cases h

/-- **Reading gets to the leaves**: every level that is read lengthens the way up, and no way up is
longer than the arena. -/
theorem exists_unfold (hf : Arena.Forest t.records) {chain : List Nat}
    (hc : Arena.Chain t.records i chain) (hfuel : t.size < fuel + chain.length) :
    ∃ s, t.unfold fuel i = .ok s := by
  induction fuel generalizing i chain with
  | zero =>
    have hle : chain.length ≤ t.size := hc.length_le
    omega
  | succ fuel ih =>
    obtain ⟨r, hr⟩ := Arena.exists_record (hc.lt_size hc.mem_self)
    have hslots : ∃ slots, r.slots.mapM (Slot.mapM (t.unfold fuel)) = .ok slots := by
      refine exists_mapM_eq_ok fun content hcontent => Slot.exists_mapM_eq_ok fun c hmem => ?_
      obtain ⟨s, hs⟩ :=
        (Arena.mem_record_iff hr).1 (List.mem_flatMap.2 ⟨content, hcontent, hmem⟩)
      obtain ⟨p, -, hl⟩ := hf.filed hs
      exact ih (.up hl hc) (by rw [List.length_cons]; omega)
    obtain ⟨slots, hslots⟩ := hslots
    refine ⟨.node ⟨t.handle i, r.kind, r.range, r.flags⟩ slots,
      bind_eq_ok.2 ⟨r, record_eq_ok.2 hr, ?_⟩⟩
    rw [if_pos (hf.fits hr)]
    exact bind_eq_ok.2 ⟨slots, hslots, rfl⟩

/-- …and so every node of a forest can be read. -/
theorem exists_shows (hf : Arena.Forest t.records) (hi : i < t.size) :
    ∃ s, t.unfold t.size i = .ok s ∧ t.Shows i s := by
  obtain ⟨chain, hc⟩ := hf.rooted hi
  have hpos := List.length_pos_of_mem hc.mem_self
  obtain ⟨s, hs⟩ : ∃ s, t.unfold t.size i = .ok s := exists_unfold hf hc (by omega)
  exact ⟨s, hs, unfold_shows hs⟩

/-- A node of the tree has a subtree, for those that read it and for those that edit it. -/
theorem exists_subtree (hf : Arena.Forest t.records) {n : NodeId} (hn : n.tree = t.id)
    (hlt : n.index < t.size) :
    ∃ s, t.Shows n.index s ∧ t.subtree n = .ok s ∧ t.ownSubtree n = .ok s := by
  obtain ⟨s, hs, hshows⟩ := exists_shows hf hlt
  exact ⟨s, hshows, bind_eq_ok.2 ⟨(), checkReadable_eq_ok.2 hn, hs⟩,
    bind_eq_ok.2 ⟨(), own_eq_ok.2 hn, hs⟩⟩

/-- The head of a subtree is the node it was read at. -/
theorem Shows.kindAt (h : t.Shows i s) : Arena.kindAt t.records i = some s.head.kind := by
  cases h with
  | node hr _ _ _ => exact Arena.kindAt_of_record hr

/-- A child of a subtree stands in the same slot of the arena. -/
theorem Shows.exists_member {j : Nat} {content : Slot Subtree} {c : Subtree} (h : t.Shows i s)
    (hj : s.slots[j]? = some content) (hc : c ∈ content.members) :
    ∃ d ∈ Arena.membersAt t.records i j, t.Shows d c := by
  cases h with
  | @node _ r pairs hr hfits hslots hx =>
    obtain ⟨pair, hpair, rfl⟩ := Option.map_eq_some_iff.1 (List.getElem?_map ▸ hj)
    rw [Slot.members_map] at hc
    obtain ⟨x, hxm, rfl⟩ := List.mem_map.1 hc
    refine ⟨x.1, ?_, hx pair (List.mem_of_getElem? hpair) x hxm⟩
    rw [Arena.membersAt_of_record hr, hslots, List.getElem?_map, hpair, Option.map_some,
      Option.elim_some, Slot.members_map]
    exact List.mem_map_of_mem hxm

/-- **A subtree of a typed arena is sound.** -/
theorem Shows.sound {T : Typing} (ht : Arena.Typed T t.records) (h : t.Shows i s) : s.Sound T := by
  induction h with
  | @node i r pairs hr hfits hslots hx ih =>
    have hshows := Shows.node hr hfits hslots hx
    rw [hslots, Kind.fits_map_slots] at hfits
    refine .node (by rw [Kind.fits_map_slots, hfits]) ?_ ?_
    · intro s p hsp c hc
      obtain ⟨j, hj⟩ := List.mem_iff_getElem?.1 hsp
      obtain ⟨hs, hp⟩ := List.getElem?_zip_eq_some.1 hj
      obtain ⟨d, hd, hc⟩ := hshows.exists_member hs hc
      obtain ⟨k, hk, hadmits⟩ := ht hd ((Arena.storageAt_of_record hr).trans hp)
      rw [hc.kindAt] at hk
      cases hk
      exact hadmits
    · exact Slot.forall_mem_map.2 ih

end Tree

end SyntaxForest
