import SyntaxForest.Proofs.Edit.Sequence

/-!
# Proofs/Edit/View — a list read as a single child

A sole-element view has a store of its own no more than a name has: it reads and writes the list in its slot.
So what it answers is a matter of how many elements the list has, and what it does could have been done to
the list, element by element.

* `Tree.peekChild_view` — what a view answers.
* `Sequence.push_run`, `Sequence.clear_run` — the two edits of lists, where nothing stands in their way.
* `Arena.rewire_remove_insert`, `Arena.rewire_congr` — to take an element out and put another in its place is
  to exchange it, by whatever property.
* `Tree.SameNodes` — trees that differ in their stamps and in what was announced only.
* `Tree.Faces` — **a view and its list are two faces of one store**: what is asked of the two, shown of every
  forest by `Tree.faces`.
-/

namespace SyntaxForest

namespace Property

variable {p : Property} {ty : ChildType}

theorem single_of_view (h : p.isSoleElementView = true) : ∃ ty, p.form = .child ty := by
  cases p <;> first | exact ⟨_, rfl⟩ | cases h

/-- A view has a placeholder. -/
theorem placeholder_of_view (h : p.isSoleElementView = true) : ∃ k, p.placeholder = some k := by
  cases p <;> first | exact ⟨_, rfl⟩ | cases h

/-- No shape passes over the slot of a view. -/
theorem slotIsLive_of_view (shape : Shape) (h : p.isSoleElementView = true) :
    p.owner.slotIsLive shape p.slot = true := by
  cases p <;> first | (cases shape <;> rfl) | cases h

end Property

/-! ## What a view answers -/

namespace Tree

variable {t : Tree} {n : NodeId} {v : Property} {items : List Nat}

/-- A property on offer has its store on offer. -/
theorem Offers.primary {i : Nat} {p : Property} (h : t.Offers i p) : t.Offers i p.primary := by
  obtain ⟨r, hr, ho, hlive⟩ := h
  exact ⟨r, hr, p.primary_owner.trans ho, by rwa [p.primary_slot]⟩

/-- Either shape offers the views of a kind. -/
theorem offers_view (hk : t.kind n = .ok v.owner) (hview : v.isSoleElementView = true) :
    t.Offers n.index v := by
  obtain ⟨r, hr, ho⟩ := Option.map_eq_some_iff.1 (kind_eq_ok.1 hk).2
  exact ⟨r, hr, ho.symm, ho ▸ Property.slotIsLive_of_view _ hview⟩

/-- The list behind a view. -/
theorem Offers.exists_items (hf : Arena.Forest t.records) (h : t.Offers n.index v)
    (hview : v.isSoleElementView = true) :
    ∃ items, Arena.slotAt t.records n.index v.slot = some (.list items) := by
  obtain ⟨ty, hform⟩ := Property.single_of_view hview
  obtain ⟨_, hlist⟩ := Property.form_of_view hview
  obtain ⟨content, _, hs, hfits, -⟩ := hf.exists_slotAt h.kindAt (by rw [hform]; rfl)
  rw [hlist] at hfits
  obtain ⟨items, rfl⟩ := Slot.eq_list_of_fits hfits
  exact ⟨items, hs⟩

/-- A single child that is no view is read off its own slot. -/
theorem peekChild_direct {p : Property} {ty : ChildType} (hf : Arena.Forest t.records) (hn : n.tree = t.id)
    (h : t.Offers n.index p) (hform : p.form = .child ty) (hdirect : p.isSoleElementView = false) :
    ∃ c, Arena.slotAt t.records n.index p.slot = some (.child c) ∧
      t.peekChild n p = .ok (c.map t.handle) := by
  have hproperty : t.checkProperty n p = .ok () := checkProperty_iff.2 ⟨hn, h⟩
  have hchild : p.childType = .ok ty := Property.childType_eq_ok.2 hform
  obtain ⟨r, hr, ho, -⟩ := h
  obtain ⟨content, hs, hfits⟩ := hf.exists_slot hr ho
  rw [Property.primary_of_direct hdirect, hform] at hfits
  obtain ⟨c, rfl⟩ := Slot.eq_child_of_fits hfits
  refine ⟨c, (Arena.slotAt_of_record hr).trans hs, ?_⟩
  simp only [peekChild, hproperty, hchild, currentChild, look_eq_ok.2 ⟨hn, hr⟩, hs, hdirect, bind, Except.bind]
  rfl

/-- **What a view answers**: nothing of an empty list, the element of a list of one, and of a longer list how
long it is. -/
theorem peekChild_view (hn : n.tree = t.id) (h : t.Offers n.index v) (hview : v.isSoleElementView = true)
    (hs : Arena.slotAt t.records n.index v.slot = some (.list items)) :
    (items = [] ∧ t.peekChild n v = .ok none) ∨
    (∃ c, items = [c] ∧ t.peekChild n v = .ok (some (t.handle c))) ∨
    (2 ≤ items.length ∧
      t.peekChild n v = refuse (.unsupported v.owner v (.multipleElements items.length))) := by
  obtain ⟨ty, hform⟩ := Property.single_of_view hview
  obtain ⟨r, hr, ho, hlive⟩ := h
  have hproperty : t.checkProperty n v = .ok () := checkProperty_iff.2 ⟨hn, r, hr, ho, hlive⟩
  have hchild : v.childType = .ok ty := Property.childType_eq_ok.2 hform
  rw [Arena.slotAt_of_record hr] at hs
  simp only [peekChild, hproperty, hchild, currentChild, look_eq_ok.2 ⟨hn, hr⟩, hs, hview, bind, Except.bind]
  rcases items with _ | ⟨c, _ | ⟨d, items⟩⟩
  · exact .inl ⟨rfl, rfl⟩
  · exact .inr (.inl ⟨c, rfl, rfl⟩)
  · exact .inr (.inr ⟨by simp, by rw [ho]; rfl⟩)

/-- …and each of the answers for such a list only. -/
theorem peekChild_view_iff (hn : n.tree = t.id) (h : t.Offers n.index v) (hview : v.isSoleElementView = true)
    (hs : Arena.slotAt t.records n.index v.slot = some (.list items)) :
    (t.peekChild n v = .ok none ↔ items.map t.handle = []) ∧
    (∀ c, t.peekChild n v = .ok (some c) ↔ items.map t.handle = [c]) ∧
    ∀ k, t.peekChild n v = refuse (.unsupported v.owner v (.multipleElements k)) ↔
      2 ≤ k ∧ (items.map t.handle).length = k := by
  obtain ⟨rfl, hpeek⟩ | ⟨c, rfl, hpeek⟩ | ⟨hlen, hpeek⟩ := peekChild_view hn h hview hs <;> rw [hpeek]
  · exact ⟨by simp, by simp, fun k => by simp [refuse]; omega⟩
  · exact ⟨by simp, by simp, fun k => by simp [refuse]; omega⟩
  · rcases items with _ | ⟨d, _ | ⟨e, rest⟩⟩
    · simp at hlen
    · simp at hlen
    · exact ⟨by simp, by simp, fun k => by simp [refuse]; omega⟩

end Tree

/-! ## Edits of lists that nothing stands in the way of -/

namespace Tree

variable {t : Tree} {n c : NodeId} {i d : Nat} {p : Property} {ty : ChildType}

/-- What is welcome through a view is welcome in the list. -/
theorem Welcomes.primary (h : t.Welcomes i p d) : t.Welcomes i p.primary d where
  free := h.free
  below := h.below
  modifiable := h.modifiable
  conforms := by
    obtain ⟨k, ty, hk, hty, hconf⟩ := h.conforms
    obtain ⟨ty', hty'⟩ := Property.primary_childType? hty
    exact ⟨k, ty', hk, hty', Property.conformsTo_primary hty hty' hconf⟩

end Tree

namespace Sequence

open TreeM

variable {t : Tree} {s : Sequence} {c : Nat} {items : List Nat}

/-- **A node that is welcome comes in at the end.** -/
theorem push_run (hf : Arena.Forest t.records) (ho : s.Open t) (hm : t.Modifiable s.node.index)
    (hs : Arena.slotAt t.records s.node.index s.property.slot = some (.list items))
    (hc : t.Welcomes s.node.index s.property c) : s.push (t.handle c) t =
      .ok () (t.splice s.node.index s.property (.insert items.length c)) := by
  rw [push_eq_insert _ (items_eq_ok.2 ⟨ho.owned, hs⟩)]
  exact insert_run hf ho (hc.allows ho.offers hm (by rw [ho.form]; trivial)
    (Arena.membersAt_of_slot hs ▸ Nat.le_refl _) rfl)

/-- **Every element goes out.** -/
theorem clear_run (hf : Arena.Forest t.records) (ho : s.Open t) (hm : t.Modifiable s.node.index)
    (hs : Arena.slotAt t.records s.node.index s.property.slot = some (.list items)) :
    ∃ t', s.clear t = .ok (items.map t.handle) t' ∧
      Tree.Splices s.node.index s.property t (items.map (.remove 0 ·)) t' := by
  obtain ⟨t', hrun, hsplices⟩ := removeFirst_run hf ho hm hs
  rw [clear, look_bind_run (Tree.checkModifiable_eq_ok (u := ()).2 ⟨ho.owned, hm⟩),
    look_bind_run (items_eq_ok.2 ⟨ho.owned, hs⟩)]
  exact ⟨t', hrun, hsplices⟩

end Sequence

/-! ## Splices that come to the same -/

namespace Arena

variable {a : Arena} {n i c d : Nat} {p q : Property} {x y : Splice} {items : List Nat}

/-- **Splices of one slot that leave it the same** leave all the same: it matters which children come and go,
and what the slot holds then. -/
theorem rewire_congr (hslot : p.slot = q.slot) (hprimary : p.primary = q.primary)
    (hadded : x.added = y.added) (hremoved : x.removed = y.removed)
    (happly : x.apply (a.membersAt n p.slot) = y.apply (a.membersAt n p.slot)) :
    a.rewire n p x = a.rewire n q y := by
  refine Array.ext_getElem? fun i => ?_
  rw [getElem?_rewire, getElem?_rewire, hadded, hremoved, hprimary]
  rcases hr : a[i]? with _ | r
  · rfl
  by_cases hi : i = n
  · subst hi
    have hslots : r.slots.modify p.slot (fun content => content.withMembers (x.apply content.members)) =
        r.slots.modify q.slot fun content => content.withMembers (y.apply content.members) := by
      rw [← hslot]
      refine List.ext_getElem? fun s => ?_
      rw [List.getElem?_modify, List.getElem?_modify]
      rcases hs : r.slots[s]? with _ | content
      · rfl
      · by_cases hsp : p.slot = s
        · subst hsp
          rw [membersAt_of_content hr hs] at happly
          simp [happly]
        · simp [hsp]
    simp [hslots]
  · simp [hi]

/-- **To take an element out and put another in its place** is to exchange it. -/
theorem rewire_remove_insert (hs : a.slotAt n p.slot = some (.list items)) (hi : i < items.length) :
    (a.rewire n p (.remove i d)).rewire n p (.insert i c) = a.rewire n p (.exchange i d c) := by
  refine Array.ext_getElem? fun j => ?_
  simp only [getElem?_rewire, Option.map_map]
  rcases hr : a[j]? with _ | r
  · rfl
  have hslots : j = n → (r.slots.modify p.slot fun content =>
      content.withMembers (content.members.eraseIdx i)).modify p.slot (fun content =>
        content.withMembers (content.members.insertIdx i c)) =
      r.slots.modify p.slot fun content => content.withMembers (content.members.set i c) := by
    rintro rfl
    rw [slotAt_of_record hr] at hs
    refine List.ext_getElem? fun s => ?_
    simp only [List.getElem?_modify]
    by_cases hsp : p.slot = s
    · subst hsp
      simp [hs, Slot.withMembers, Slot.members, List.insertIdx_eraseIdx_self (Nat.ne_of_lt hi)]
    · simp [hsp]
  by_cases hj : j = n
  · simp [Splice.added, Splice.removed, Splice.apply, hj, hslots hj]
  · simp [Splice.added, Splice.removed, hj]

end Arena

/-! ## The two faces -/

namespace NodeId

open TreeM

/-- Empties a list and puts one node into it. -/
def refill (n : NodeId) (l : Property) (c : NodeId) : TreeM Unit := do
  let s ← look (·.sequence n l)
  let _ ← s.clear
  s.push c

/-- Creates a node and puts it at the end of a list. -/
def pushNew (n : NodeId) (l : Property) (k : Kind) : TreeM NodeId := do
  let c ← create k
  let s ← look (·.sequence n l)
  s.push c
  return c

end NodeId

namespace Tree

variable {t t' : Tree} {n c : NodeId} {v : Property} {items : List Nat}

/-- **The same nodes**: all is the same but the stamp and what was announced. -/
def SameNodes (t t' : Tree) : Prop := t' = { t with stamp := t'.stamp, journal := t'.journal }

theorem SameNodes.of_records (hid : t'.id = t.id) (hconfig : t'.config = t.config)
    (hobserver : t'.observer = t.observer) (hrecords : t'.records = t.records) : t.SameNodes t' := by
  obtain ⟨id, config, records, stamp, observer, journal⟩ := t'
  cases hid
  cases hconfig
  cases hobserver
  cases hrecords
  rfl

/-- **A view and the list behind it are two faces of one store.** -/
structure Faces (t : Tree) (n : NodeId) (v : Property) (items : List NodeId) : Prop where
  none_iff : t.peekChild n v = .ok none ↔ items = []
  some_iff : ∀ c, t.peekChild n v = .ok (some c) ↔ items = [c]
  many_iff : ∀ k, t.peekChild n v = refuse (.unsupported v.owner v (.multipleElements k)) ↔
    2 ≤ k ∧ items.length = k
  /-- whoever sets the child could have emptied the list and put the child into it -/
  setChild : ∀ c t₁, n.setChild v c t = .ok () t₁ →
    ∃ t₂, n.refill v.primary c t = .ok () t₂ ∧ t₁.SameNodes t₂
  /-- whoever reads the child of an empty list could have created the placeholder and put it there -/
  child : ∀ flags, t.flags n = .ok flags → flags.protect = false → t.config.defaultFlags.protect = false →
    items = [] → ∃ k c t₁ t₂, v.placeholder = some k ∧ n.child v t = .ok (some c) t₁ ∧
      n.pushNew v.primary k t = .ok c t₂ ∧ t₁.SameNodes t₂

/-- The list behind a view, ready for use. -/
theorem exists_open (hn : n.tree = t.id) (h : t.Offers n.index v) (hview : v.isSoleElementView = true) :
    ∃ s : Sequence, s.Open t ∧ s.node = n ∧ s.property = v.primary := by
  obtain ⟨ty, hlist⟩ := Property.form_of_view hview
  exact ⟨⟨n, v.primary, ty⟩, ⟨hn, h.primary, hlist⟩, rfl, rfl⟩

/-- **To set the child is to refill the list.** -/
theorem setChild_refill (hf : Arena.Forest t.records) (hview : v.isSoleElementView = true)
    (hset : n.setChild v c t = .ok () t') :
    ∃ t₂, n.refill v.primary c t = .ok () t₂ ∧ t'.SameNodes t₂ := by
  obtain ⟨hn, hc, old, hallows, rfl⟩ := (NodeId.setChild_settles hf).atomic.of_ok_eq hset
  have hp := hallows.offers _ rfl
  obtain ⟨items, hs⟩ := hp.exists_items hf hview
  obtain ⟨s, ho, rfl, hproperty⟩ := exists_open hn hp hview
  have hseq : t.sequence s.node v.primary = .ok s := Sequence.sequence_eq_ok.2 ⟨ho, rfl, hproperty⟩
  obtain rfl : items = old.toList := (Arena.membersAt_of_slot hs).symm.trans hallows.applies
  rw [← v.primary_slot, ← hproperty] at hs
  have hwelcome : t.Welcomes s.node.index s.property c.index :=
    hproperty ▸ (hallows.welcomes _ rfl).primary
  obtain ⟨t₁, hclear, hsplices⟩ := Sequence.clear_run hf ho hallows.modifiable hs
  rw [NodeId.refill, TreeM.look_bind_run hseq, bind_of_ok hclear]
  rcases old with _ | d
  · cases hsplices
    have hpush := Sequence.push_run hf ho hallows.modifiable hs hwelcome
    rw [handle_index hc] at hpush
    refine ⟨_, hpush, .of_records (by simp) (by simp) (by simp) ?_⟩
    rw [splice_records, splice_records]
    exact Arena.rewire_congr (by simp [hproperty]) (by simp [hproperty]) rfl rfl
      (by rw [Arena.membersAt_of_slot hs]; rfl)
  · obtain _ | ⟨hremove, _ | _⟩ := hsplices
    have hpush := Sequence.push_run (hremove.forest hf) ho.splice hallows.modifiable.splice
      (Sequence.slotAt_splice hs) (hwelcome.splice hf hremove nofun)
    rw [splice_handle, handle_index hc] at hpush
    refine ⟨_, hpush, .of_records (by simp) (by simp) (by simp) ?_⟩
    rw [splice_records, splice_records, splice_records]
    refine (Arena.rewire_remove_insert hs Nat.zero_lt_one).trans
      (Arena.rewire_congr (by simp [hproperty]) (by simp [hproperty]) rfl rfl ?_)
    rw [Arena.membersAt_of_slot hs]
    rfl

/-- A fresh node of the kind that stands in for a child is welcome there, unless fresh nodes are protected. -/
theorem Lacks.welcomes {i : Nat} {k : Kind} (hf : Arena.Forest t.records) (h : t.Lacks i v k)
    (hflags : t.config.defaultFlags.protect = false) : (t.created k).Welcomes i v t.size where
  free := ((h.admits hf).added _ rfl).2.1
  below := ((h.admits hf).added _ rfl).2.2
  modifiable := ⟨.fresh k t.config.defaultFlags, by simp [created, size], hflags⟩
  conforms := by
    obtain ⟨ty, hform⟩ := Property.form_of_placeholder h.placeholder
    have hty : v.form.childType? = some ty := by rw [hform]; rfl
    exact ⟨k, ty, (kind_eq_ok.1 (created_kind k)).2, hty, Property.placeholder_conformsTo h.placeholder hty⟩

/-- **To read the child of an empty list is to push a new node.** -/
theorem child_pushNew (hf : Arena.Forest t.records) (hn : n.tree = t.id) (hp : t.Offers n.index v)
    (hview : v.isSoleElementView = true) (hm : t.Modifiable n.index)
    (hflags : t.config.defaultFlags.protect = false)
    (hs : Arena.slotAt t.records n.index v.slot = some (.list [])) :
    ∃ k c t₁ t₂, v.placeholder = some k ∧ n.child v t = .ok (some c) t₁ ∧
      n.pushNew v.primary k t = .ok c t₂ ∧ t₁.SameNodes t₂ := by
  obtain ⟨k, hk⟩ := Property.placeholder_of_view hview
  have hlacks : t.Lacks n.index v k := ⟨hp, hk, Arena.membersAt_of_slot hs⟩
  have hpeek : t.peekChild n v = .ok none := by
    obtain ⟨-, hpeek⟩ | ⟨c, h, -⟩ | ⟨h, -⟩ := peekChild_view hn hp hview hs
    · exact hpeek
    · cases h
    · simp at h
  have hold : ∀ {r}, t.records[n.index]? = some r → (t.created k).records[n.index]? = some r :=
    fun hr => (Arena.getElem?_push_old (Arena.lt_size_of_record hr)).trans hr
  have hp' : (t.created k).Offers n.index v := by
    obtain ⟨r, hr, h⟩ := hp
    exact ⟨r, hold hr, h⟩
  have hm' : (t.created k).Modifiable n.index := by
    obtain ⟨r, hr, h⟩ := hm
    exact ⟨r, hold hr, h⟩
  have hs' : Arena.slotAt (t.created k).records n.index v.slot = some (.list []) := by
    obtain ⟨r, hr, h⟩ := Option.bind_eq_some_iff.1 hs
    rw [Arena.slotAt_of_record (hold hr), h]
  obtain ⟨s, ho, rfl, hproperty⟩ := exists_open (t := t.created k) hn hp' hview
  have hseq : (t.created k).sequence s.node v.primary = .ok s :=
    Sequence.sequence_eq_ok.2 ⟨ho, rfl, hproperty⟩
  rw [← v.primary_slot, ← hproperty] at hs'
  have hpush := Sequence.push_run hf.push_fresh ho hm' hs'
    (hproperty ▸ (hlacks.welcomes hf hflags).primary)
  have hnew : s.node.pushNew v.primary k t = .ok (t.handle t.size)
      ((t.created k).splice s.node.index s.property (.insert 0 t.size)) := by
    rw [NodeId.pushNew, TreeM.create_bind]
    exact (TreeM.look_bind_run hseq).trans (bind_of_ok hpush)
  refine ⟨k, _, _, _, hk, NodeId.child_run hf hlacks hpeek, hnew,
    .of_records (by simp [created]) (by simp [created]) (by simp [created]) ?_⟩
  rw [splice_records, materialized_records]
  exact Arena.rewire_congr (by simp [hproperty]) (by simp [hproperty]) rfl rfl
    (by rw [Arena.membersAt_of_slot hs']; rfl)

/-- **A view and the list behind it are two faces of one store.** -/
theorem faces (hf : Arena.Forest t.records) (hk : t.kind n = .ok v.owner) (hview : v.isSoleElementView = true) :
    ∃ s items, t.sequence n v.primary = .ok s ∧ t.elements s = .ok items ∧ t.Faces n v items := by
  have hp := offers_view hk hview
  have hn := (kind_eq_ok.1 hk).1
  obtain ⟨items, hs⟩ := hp.exists_items hf hview
  obtain ⟨s, ho, rfl, hproperty⟩ := exists_open hn hp hview
  have hitems : t.items s = .ok items :=
    Sequence.items_eq_ok.2 ⟨hn, by rw [hproperty, v.primary_slot, hs]⟩
  obtain ⟨hnone, hsome, hmany⟩ := peekChild_view_iff hn hp hview hs
  refine ⟨s, items.map t.handle, Sequence.sequence_eq_ok.2 ⟨ho, rfl, hproperty⟩,
    bind_eq_ok.2 ⟨items, hitems, rfl⟩, hnone, hsome, hmany, fun c t₁ => setChild_refill hf hview, ?_⟩
  intro flags hflags hprotect hdefault hempty
  obtain ⟨r, hr, hflags⟩ := bind_eq_ok.1 hflags
  cases hflags
  obtain rfl := List.map_eq_nil_iff.1 hempty
  exact child_pushNew hf hn hp hview ⟨r, (look_eq_ok.1 hr).2, hprotect⟩ hdefault hs

end Tree

end SyntaxForest
