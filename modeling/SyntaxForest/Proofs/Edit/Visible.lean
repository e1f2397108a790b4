import SyntaxForest.Proofs.Edit.Step

/-!
# Proofs/Edit/Visible — what a slot holds, the shape of the tree shows

The legacy shape does not read every slot.  A slot that is not read stays empty: children come in
through a property that is on offer only, and an image that fills such a slot is not planted.  So
nothing hangs in a tree that a walk would pass over.

* `Image.checkPlantable_eq_ok` — what the check of an image establishes.
* `Tree.Step.visible` — **every step keeps all children in sight** (`Tree.Visible`).
* `Tree.Reaches.visible` — …and so does every run.
-/

namespace SyntaxForest

/-- A computation succeeds on a row exactly if it succeeds on each element. -/
theorem forM_eq_ok {α ε : Type} {xs : List α} {f : α → Except ε Unit} :
    xs.forM f = .ok () ↔ ∀ x ∈ xs, f x = .ok () := by
  induction xs with
  | nil => exact iff_of_true rfl (List.forall_mem_nil _)
  | cons x xs ih =>
    rw [List.forM_eq_forM] at ih ⊢
    rw [List.forM_cons, bind_eq_ok, List.forall_mem_cons, ← ih]
    exact ⟨fun ⟨_, hx, hxs⟩ => ⟨hx, hxs⟩, fun ⟨hx, hxs⟩ => ⟨(), hx, hxs⟩⟩

/-- …and fails as it fails on one of them otherwise. -/
theorem forM_cases {α ε : Type} {xs : List α} {f : α → Except ε Unit} :
    xs.forM f = .ok () ∨ ∃ x ∈ xs, ∃ e, f x = .error e ∧ xs.forM f = .error e := by
  induction xs with
  | nil => exact .inl rfl
  | cons x xs ih =>
    rw [List.forM_eq_forM] at ih ⊢
    rw [List.forM_cons]
    rcases hx : f x with e | ⟨⟩
    · exact .inr ⟨x, List.mem_cons_self, e, hx, rfl⟩
    · exact ih.imp_right fun ⟨y, hy, e, he, hxs⟩ => ⟨y, List.mem_cons_of_mem _ hy, e, he, hxs⟩

/-- An image node may be planted if the shape reads every slot that it populates. -/
theorem ImageNode.checkPlantable_eq_ok {shape : Shape} {node : ImageNode}
    (hfits : node.kind.fits node.slots = true) : node.checkPlantable shape = .ok () ↔
      ∀ (s : Nat) content, node.slots[s]? = some content → content.members ≠ [] →
        node.kind.slotIsLive shape s = true := by
  have hentry : ∀ (content : Slot Nat) (p : Property),
      unlessRefused (!content.isPopulated || node.kind.slotIsLive shape p.slot)
        (.unsupported node.kind p (.notInShape shape)) = .ok () ↔
      (content.members ≠ [] → node.kind.slotIsLive shape p.slot = true) := by
    intro content p
    rw [unlessRefused_eq_ok, Slot.isPopulated]
    rcases content.members <;> simp
  rw [checkPlantable, forM_eq_ok]
  constructor
  · intro h s content hs hpopulated
    obtain ⟨p, hp, -⟩ := Kind.exists_storage_of_fits hfits hs
    have hzip : (content, p) ∈ node.slots.zip node.kind.storage :=
      List.mem_of_getElem? (List.getElem?_zip_eq_some.2 ⟨hs, hp⟩)
    obtain ⟨rfl, -⟩ := Kind.storage_slot hp
    exact (hentry content p).1 (h _ hzip) hpopulated
  · rintro h ⟨content, p⟩ hzip
    obtain ⟨s, hs⟩ := List.mem_iff_getElem?.1 hzip
    obtain ⟨hs, hp⟩ := List.getElem?_zip_eq_some.1 hs
    obtain ⟨rfl, -⟩ := Kind.storage_slot hp
    exact (hentry content p).2 (h _ content hs)

/-- …and an image if each of its nodes may be. -/
theorem Image.checkPlantable_eq_ok {shape : Shape} {i : Image} {T : Typing} (hi : i.Sound T) :
    i.checkPlantable shape = .ok () ↔ ∀ node ∈ i.nodes, ∀ (s : Nat) content,
      node.slots[s]? = some content → content.members ≠ [] →
        node.kind.slotIsLive shape s = true := by
  obtain ⟨k, hlaid⟩ := hi
  rw [checkPlantable, forM_eq_ok]
  exact forall₂_congr fun node hnode => ImageNode.checkPlantable_eq_ok (hlaid.fits node hnode)

namespace Tree

variable {t t' : Tree} {T : Typing} {n : Nat} {p : Property} {k : Kind} {v : Scalar} {x : Splice}

/-- **What a slot holds, the shape of the tree shows.** -/
def Visible (t : Tree) : Prop := ∀ i s c, c ∈ Arena.membersAt t.records i s →
  ∃ k, Arena.kindAt t.records i = some k ∧ k.slotIsLive t.shape s = true

theorem Visible.start (id : Nat) (config : Config) : (start id config).Visible := by
  intro i s c hc
  simp [Tree.start, Arena.membersAt, Arena.slotAt] at hc

/-- A property on offer has its slot in sight. -/
theorem Offers.live (h : t.Offers n p) :
    ∃ k, Arena.kindAt t.records n = some k ∧ k.slotIsLive t.shape p.slot = true := by
  obtain ⟨r, hr, -, hlive⟩ := h
  exact ⟨r.kind, Arena.kindAt_of_record hr, hlive⟩

/-- Children stay in sight where a record changes beside them. -/
theorem Visible.modify {f : Record → Record} (h : t.Visible) (hconfig : t'.config = t.config)
    (hrecords : t'.records = t.records.modify n f) (hkind : ∀ r, (f r).kind = r.kind)
    (hslots : ∀ r, t.records[n]? = some r → ∀ s : Nat,
      ((f r).slots[s]?).elim [] Slot.members = (r.slots[s]?).elim [] Slot.members) :
    t'.Visible := by
  intro i s c hc
  rw [hrecords, Arena.membersAt_modify hslots] at hc
  rw [hrecords, Arena.kindAt_modify hkind, shape, hconfig]
  exact h i s c hc

theorem Visible.amend {f : Record → Record} (h : t.Visible)
    (hf : ∀ r, (f r).kind = r.kind ∧ (f r).slots = r.slots) : (t.amended n f).Visible :=
  h.modify rfl rfl (fun r => (hf r).1) fun r _ s => by rw [(hf r).2]

/-- Records may be added if their children are in sight. -/
theorem Visible.extend (h : t.Visible) (hconfig : t'.config = t.config)
    (hold : ∀ i < t.records.size, t'.records[i]? = t.records[i]?)
    (hnew : ∀ i s c, t.records.size ≤ i → c ∈ Arena.membersAt t'.records i s →
      ∃ k, Arena.kindAt t'.records i = some k ∧ k.slotIsLive t.shape s = true) : t'.Visible := by
  intro i s c hc
  rw [shape, hconfig]
  rcases Nat.lt_or_ge i t.records.size with hi | hi
  · rw [Arena.membersAt_of_old hold hi] at hc
    rw [Arena.kindAt_of_old hold hi]
    exact h i s c hc
  · exact hnew i s c hi hc

theorem Visible.create (h : t.Visible) : (t.created k).Visible := by
  refine h.extend rfl (fun i hi => Arena.getElem?_push_old hi) fun i s c hi hc => ?_
  rw [created, Arena.membersAt_push_fresh hi] at hc
  cases hc

theorem Visible.plant {i : Image} (h : t.Visible) (hi : i.Sound T)
    (hcheck : i.checkPlantable t.shape = .ok ()) : (t.planted i).Visible := by
  refine h.extend planted_config (fun j hj => ?_) fun j s c hj hc => ?_
  · rw [planted_records, Arena.getElem?_plant_old hj]
  · obtain ⟨j, rfl⟩ := Nat.exists_eq_add_of_le hj
    rw [planted_records] at hc ⊢
    obtain ⟨node, content, d, hnode, hs, hd, rfl⟩ := Arena.mem_plant.1 hc
    have hhas : Image.HasKind 0 i.nodes j node.kind :=
      ⟨node, List.mem_zipIdx_iff_getElem?.2 hnode, rfl⟩
    exact ⟨node.kind, Arena.kindAt_plant hhas, (Image.checkPlantable_eq_ok hi).1 hcheck node
      (List.mem_of_getElem? hnode) s content hs (List.ne_nil_of_mem hd)⟩

/-- Splicing a slot that is on offer touches no other. -/
theorem Visible.rewire (h : t.Visible) (hconfig : t'.config = t.config)
    (hrecords : t'.records = Arena.rewire t.records n p x)
    (hslot : ∀ c, c ∈ Arena.membersAt t'.records n p.slot →
      ∃ k, Arena.kindAt t.records n = some k ∧ k.slotIsLive t.shape p.slot = true) :
    t'.Visible := by
  intro i s c hc
  rw [hrecords, Arena.kindAt_rewire, shape, hconfig]
  by_cases his : i = n ∧ s = p.slot
  · obtain ⟨rfl, rfl⟩ := his
    exact hslot c hc
  · rw [hrecords, Arena.membersAt_rewire_of_ne his] at hc
    exact h i s c hc

theorem Visible.splice (h : t.Visible) (hf : Arena.Forest t.records) (hx : t.Allows n p x) :
    (t.splice n p x).Visible := by
  refine h.rewire splice_config splice_records fun c hc => ?_
  rw [splice_records, hf.mem_rewire hx.admits] at hc
  rcases hc with ⟨hc, -⟩ | hadded
  · exact h n p.slot c hc
  · exact (hx.offers c hadded).live

theorem Visible.materialize (h : t.Visible) (hp : t.Lacks n p k) :
    (t.materialized n p k).Visible := by
  have hcreated : (t.created k).Visible := h.create
  refine hcreated.rewire materialized_config materialized_records fun c _ => ?_
  obtain ⟨k', hk', hlive⟩ := hp.offers.live
  exact ⟨k', (Arena.kindAt_of_old (fun _ => Arena.getElem?_push_old) hp.offers.lt_size).trans hk',
    hlive⟩

/-- **Every step keeps all children in sight.** -/
theorem Step.visible (hf : Arena.Forest t.records) (h : t.Visible) (hs : t.Step T t') :
    t'.Visible := by
  cases hs with
  | create k => exact h.create
  | plant i hi hcheck => exact h.plant hi hcheck
  | splice n p x hx _ => exact h.splice hf hx
  | materialize n p k hp => exact h.materialize hp
  | write n p v hp =>
    exact h.modify commit_config commit_records (fun _ => rfl) fun r hr => hp.members_set hf hr
  | setRange n range _ => exact h.amend fun _ => ⟨rfl, rfl⟩
  | setFlags n flags _ => exact h.amend fun _ => ⟨rfl, rfl⟩
  | observe observer => exact h

/-- …and so does every run. -/
theorem Reaches.visible (hsound : t.Sound T) (h : t.Visible) (hr : t.Reaches T t') :
    t'.Visible := by
  induction hr with
  | refl => exact h
  | tail hr hs ih => exact hs.visible (Reaches.sound hsound hr).forest ih

end Tree

end SyntaxForest
