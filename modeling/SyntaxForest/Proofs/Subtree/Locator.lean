import SyntaxForest.Proofs.Edit.Stamp
import SyntaxForest.Proofs.Subtree.Children
import SyntaxForest.Subtree.Locator

/-!
# Proofs/Subtree/Locator — a locator holds as long as the stamp stands still

A locator is built once and asked often, and by the stamp alone it judges whether it still holds.
Placeholders come to exist below nodes that it lists, and the stamp passes over them.  It may: a
placeholder has neither a range nor children, so it makes no entry, and the entries that there are
keep their order and their depth.

* `Tree.Settled.filter_shown` — the children shown, up to new ones.
* `Tree.Step.sprouts` — **a step that is not counted lets barren nodes sprout, and no others**.
* `Tree.Reaches.locator_eq` — so the locator of a node **is the same at the same stamp**.
-/

namespace SyntaxForest

/-- The entries of a node: its own, then those of the children that are shown, one level deeper. -/
theorem Subtree.entries_eq (shape : Shape) (s : Subtree) (depth : Nat) : s.entries shape depth =
    (s.head.range.map fun range => ⟨range, s.head.node, depth⟩).toList ++
      (s.liveChildren shape).flatMap fun c => c.entries shape (depth + 1) := by
  obtain ⟨h, ss⟩ := s
  rw [entries_node, entriesNode, map_liveChildren, List.flatMap_map]
  rfl

/-- What contributes nothing may be left out. -/
theorem flatMap_filter_of_nil {α β : Type} {xs : List α} {keep : α → Bool} {f : α → List β}
    (h : ∀ x ∈ xs, keep x = false → f x = []) : (xs.filter keep).flatMap f = xs.flatMap f := by
  induction xs with
  | nil => rfl
  | cons x xs ih =>
    obtain ⟨hx, hxs⟩ := List.forall_mem_cons.1 h
    rw [List.flatMap_cons, ← ih hxs, List.filter_cons]
    split
    · rw [List.flatMap_cons]
    · rw [hx (Bool.eq_false_iff.2 ‹_›), List.nil_append]

/-! ## What is settled shows the same children, up to new ones -/

section Settled

variable {k : Kind} {slot size : Nat} {content content' : Slot Nat} {r r' : Record}

theorem Slot.Settled.filter_members (h : Settled k slot size content content')
    (hlt : ∀ c ∈ content.members, c < size) :
    content'.members.filter (· < size) = content.members := by
  cases h with
  | same _ => exact List.filter_eq_self.2 fun c hc => decide_eq_true (hlt c hc)
  | child _ _ _ hc | element _ _ _ hc =>
    exact List.filter_cons_of_neg (by simpa using hc)

/-- The children of a settled record, up to new ones. -/
theorem Record.Settled.filter_children {shape : Shape} (h : r.Settled size r')
    (hlt : ∀ c ∈ r.slots.flatMap Slot.members, c < size) :
    (r'.children shape).filter (· < size) = r.children shape := by
  have hrow : (r'.slots.map fun content => content.members.filter (· < size)) =
      r.slots.map Slot.members := by
    refine List.ext_getElem (by simpa using h.length) fun slot hslot' hslot => ?_
    rw [List.length_map] at hslot hslot'
    rw [List.getElem_map, List.getElem_map]
    have hs := List.getElem?_eq_getElem hslot
    refine (h.slots slot _ _ hs (List.getElem?_eq_getElem hslot')).filter_members fun c hc => ?_
    exact hlt c (List.mem_flatMap.2 ⟨_, List.mem_of_getElem? hs, hc⟩)
  rw [Record.children, Record.children, List.filter_flatMap, h.kind, List.flatMap_def,
    ← Kind.liveOnly_map, hrow, Kind.liveOnly_map, ← List.flatMap_def]

end Settled

namespace Tree

variable {t t' : Tree} {T : Typing} {i n : Nat} {p : Property} {k : Kind} {s s' : Subtree}

/-- **The children that a settled node shows**, up to new ones. -/
theorem Settled.filter_shown (hf : Arena.Forest t.records) (h : t.Settled t')
    (hconfig : t'.config = t.config) (hi : i < t.size) :
    (t'.shown i).filter (· < t.size) = t.shown i := by
  obtain ⟨r, hr⟩ := Arena.exists_record hi
  obtain ⟨r', hr', hsettled⟩ := h.records i r hr
  rw [shown, Arena.shown, hr', shown, Arena.shown, hr, shape, hconfig]
  refine hsettled.filter_children fun c hc => ?_
  obtain ⟨slot, hc⟩ := (Arena.mem_record_iff hr).1 hc
  exact hf.lt_size_of_mem hc

/-! ## Sprouts -/

/-- A node without a range that shows no children. -/
def Barren (t : Tree) (i : Nat) : Prop :=
  (∃ r, t.records[i]? = some r ∧ r.range = none) ∧ t.shown i = []

/-- **A tree in which nothing but barren nodes has sprouted** below the old nodes. -/
structure Sprouts (t t' : Tree) : Prop where
  id : t'.id = t.id
  config : t'.config = t.config
  settled : t.Settled t'
  barren : ∀ i < t.size, ∀ c ∈ t'.shown i, t.size ≤ c → t'.Barren c

/-- Nothing sprouts where records were only added. -/
theorem Extends.sprouts (hf : Arena.Forest t.records) (h : t.Extends t') : t.Sprouts t' where
  id := h.id
  config := h.config
  settled := h.settled
  barren i hi c hc hle := by
    rw [shown, Arena.shown, h.old i hi, shape, h.config] at hc
    obtain ⟨l, hl, -⟩ := hf.parent_of_shown hc
    have hlt : c < t.size := Arena.lt_size_of_locationAt hl
    omega

/-- A placeholder is barren when it comes to exist. -/
theorem Lacks.barren (hp : t.Lacks n p k) : (t.materialized n p k).Barren t.size := by
  have hne : t.size ≠ n := Nat.ne_of_gt hp.offers.lt_size
  have hfresh : (t.created k).records[t.size]? = some (.fresh k t.config.defaultFlags) :=
    Array.getElem?_push_size
  obtain ⟨r, hr, -, hrange, -⟩ := Arena.exists_record_rewire (n := n) (p := p)
    (x := .replace none (some t.size)) hfresh
  rw [← materialized_records] at hr
  refine ⟨⟨r, hr, hrange⟩, List.eq_nil_iff_forall_not_mem.2 fun c hc => ?_⟩
  obtain ⟨slot, hc⟩ := (Arena.mem_record_iff hr).1 ((Arena.shown_sublist hr).subset hc)
  have hempty : Arena.membersAt (t.created k).records t.size slot = [] :=
    Arena.membersAt_push_fresh (Nat.le_refl _)
  rw [materialized_records, Arena.membersAt_rewire_of_ne fun h => hne h.1, hempty] at hc
  cases hc

theorem Lacks.sprouts (h : t.Sound T) (hp : t.Lacks n p k) : t.Sprouts (t.materialized n p k) where
  id := materialized_id
  config := materialized_config
  settled := hp.settled h.forest
  barren i _ c hc hle := by
    obtain ⟨l, hl, -⟩ := (h.materialize hp).forest.parent_of_shown hc
    have hlt := Arena.lt_size_of_locationAt hl
    have hsize : (t.materialized n p k).records.size = t.size + 1 := by
      simp [created, size]
    obtain rfl : c = t.size := by omega
    exact hp.barren

/-- **A step that is not counted lets barren nodes sprout, and no others.** -/
theorem Step.sprouts (h : t.Sound T) (hs : t.Step T t') (hstamp : t'.stamp = t.stamp) :
    t.Sprouts t' := by
  rcases hs.uncounted hstamp with hextends | ⟨n, p, k, hp, rfl⟩
  · exact hextends.sprouts h.forest
  · exact hp.sprouts h

/-! ## Entries -/

theorem Barren.entries_eq_nil {shape : Shape} (h : t.Barren i) (hs : t.Shows i s)
    (hshape : t.shape = shape) (depth : Nat) : s.entries shape depth = [] := by
  subst hshape
  obtain ⟨⟨r, hr, hrange⟩, hshown⟩ := h
  obtain ⟨r', hr', hhead⟩ := hs.exists_record
  rw [hr] at hr'
  cases hr'
  obtain ⟨children, hfst, hsnd, -⟩ := hs.exists_children
  rw [hshown, List.map_eq_nil_iff] at hfst
  rw [hfst] at hsnd
  rw [Subtree.entries_eq, ← hsnd, hhead, hrange]
  rfl

/-- **Sprouts make no entries.** -/
theorem Sprouts.entries_eq (hf : Arena.Forest t.records) (h : t.Sprouts t') (hs : t.Shows i s)
    (hs' : t'.Shows i s') : s'.entries t.shape = s.entries t.shape := by
  have hshape : t'.shape = t.shape := congrArg Config.shape h.config
  refine hf.induct (motive := fun i => ∀ s s', t.Shows i s → t'.Shows i s' →
    s'.entries t.shape = s.entries t.shape) (fun i hi ih s s' hs hs' => funext fun depth => ?_)
    hs.lt_size s s' hs hs'
  obtain ⟨r, hr, hhead⟩ := hs.exists_record
  obtain ⟨r', hr', hhead'⟩ := hs'.exists_record
  obtain ⟨r'', hr'', hsettled⟩ := h.settled.records i r hr
  rw [hr'] at hr''
  cases hr''
  obtain ⟨old, hold, hlive, hshows⟩ := hs.exists_children
  obtain ⟨new, hnew, hlive', hshows'⟩ := hs'.exists_children
  rw [hshape] at hlive'
  have hkept : (new.filter fun x => x.1 < t.size).map Prod.fst = old.map Prod.fst := by
    rw [hold, ← h.settled.filter_shown hf h.config hi, ← hnew, List.filter_map]
    rfl
  have hentries : ((new.filter fun x => x.1 < t.size).map fun x => x.2.entries t.shape) =
      old.map fun x => x.2.entries t.shape := by
    refine map_eq_map_of_keys hkept fun x hx y hy hxy => ?_
    have hmem : y.1 ∈ t.shown i := hold ▸ List.mem_map_of_mem hy
    obtain ⟨l, hl, hparent⟩ := hf.parent_of_shown hmem
    exact ih y.1 l hl hparent _ _ (hshows y hy) (hxy ▸ hshows' x (List.mem_filter.1 hx).1)
  -- the children that have sprouted make no entries
  have hsprouted : ∀ x ∈ new, decide (x.1 < t.size) = false →
      x.2.entries t.shape (depth + 1) = [] := by
    intro x hx hle
    have hmem : x.1 ∈ t'.shown i := hnew ▸ List.mem_map_of_mem hx
    have hbarren := h.barren i hi x.1 hmem (Nat.le_of_not_lt (of_decide_eq_false hle))
    exact hbarren.entries_eq_nil (hshows' x hx) hshape _
  have hchildren : (new.flatMap fun x => x.2.entries t.shape (depth + 1)) =
      old.flatMap fun x => x.2.entries t.shape (depth + 1) := by
    rw [← flatMap_filter_of_nil hsprouted]
    have := congrArg (List.flatMap (· (depth + 1))) hentries
    rwa [List.flatMap_map, List.flatMap_map] at this
  rw [Subtree.entries_eq, Subtree.entries_eq, ← hlive, ← hlive', List.flatMap_map,
    List.flatMap_map, hchildren, hhead, hhead', hsettled.range, handle, h.id, handle]

/-- **A run that leaves the stamp where it was leaves all entries as they were.** -/
theorem Reaches.entries_eq (h : t.Sound T) (hr : t.Reaches T t') (hstamp : t'.stamp = t.stamp)
    (hs : t.Shows i s) (hs' : t'.Shows i s') : s'.entries t.shape = s.entries t.shape := by
  refine hr.induct_uncounted hstamp (motive := fun u => ∀ s', u.Shows i s' →
    s'.entries t.shape = s.entries t.shape) ?_ ?_ s' hs'
  · intro s' hs'
    exact ((Extends.refl t).sprouts h.forest).entries_eq h.forest hs hs'
  · intro u u' hr hu hstep hstamp ih s' hs'
    have hi : i < u.size := Nat.lt_of_lt_of_le hs.lt_size (hr.settled h hu).size
    obtain ⟨v, -, hv⟩ := exists_shows (hr.sound h).forest hi
    have hshape : u.shape = t.shape := congrArg Config.shape hr.id_config.2
    rw [← ih v hv, ← hshape]
    exact (hstep.sprouts (hr.sound h) hstamp).entries_eq (hr.sound h).forest hv hs'

/-! ## Locators -/

/-- Every node of a forest has a locator. -/
theorem exists_locator (hf : Arena.Forest t.records) {n : NodeId} (hn : n.tree = t.id)
    (hlt : n.index < t.size) :
    ∃ s, t.Shows n.index s ∧ t.locator n = .ok ⟨t.id, t.stamp, s.entries t.shape 0⟩ := by
  obtain ⟨s, hshows, hs, -⟩ := exists_subtree hf hn hlt
  exact ⟨s, hshows, bind_eq_ok.2 ⟨s, hs, rfl⟩⟩

/-- **At the same stamp a node has the same locator.** -/
theorem Reaches.locator_eq (h : t.Sound T) (hr : t.Reaches T t') (hstamp : t'.stamp = t.stamp)
    {n : NodeId} (hn : n.tree = t.id) (hlt : n.index < t.size) : t'.locator n = t.locator n := by
  obtain ⟨s, hs, hl⟩ := exists_locator h.forest hn hlt
  obtain ⟨s', hs', hl'⟩ := exists_locator (hr.sound h).forest (hn.trans hr.id_config.1.symm)
    (Nat.lt_of_lt_of_le hlt (hr.settled h hstamp).size)
  have hshape : t'.shape = t.shape := congrArg Config.shape hr.id_config.2
  rw [hl, hl', hr.id_config.1, hstamp, hshape, hr.entries_eq h hstamp hs hs']

end Tree

/-- A locator answers exactly for its own tree at its own stamp. -/
theorem Locator.check_eq_ok {l : Locator} {t : Tree} :
    l.check t = .ok () ↔ t.id = l.tree ∧ t.stamp = l.stamp := by
  simp [check, bind_eq_ok]

end SyntaxForest
