import SyntaxForest.Proofs.Edit.Step

/-!
# Proofs/Edit/Stamp — what may change while the stamp stands still

Every step is counted by the stamp, but for those that let nodes come to exist: a fresh node, a
planted image, a placeholder.  They add records and fill slots that were empty, so a tree at an
unmoved stamp is the earlier one up to placeholders (`Tree.Settled`).

* `Tree.Step.uncounted` — **what a step that is not counted can be**.
* `Tree.Reaches.settled` — a run that leaves the stamp where it was **adds nodes and placeholders
  only**.
-/

namespace SyntaxForest

namespace Property

variable {p : Property} {k : Kind}

/-- What has a placeholder may not be cleared. -/
theorem isMandatory_of_placeholder (h : p.placeholder = some k) : p.isMandatory = true := by
  cases p <;> first | rfl | cases h

/-- A property with a placeholder reads a list slot as a view only. -/
theorem isSoleElementView_of_placeholder {ty : ChildType} (h : p.placeholder = some k)
    (hform : p.primary.form = .list ty) : p.isSoleElementView = true := by
  cases p <;> first | rfl | (cases h <;> cases hform)

end Property

/-- **A slot that nothing counted has touched**, in a node of the kind, from a time when there were
`size` nodes: it is as it was, or it was empty where a single child has to be and holds one node
that was not there then. -/
inductive Slot.Settled (k : Kind) (slot size : Nat) : Slot Nat → Slot Nat → Prop
  | same (content : Slot Nat) : Settled k slot size content content
  /-- a mandatory child was unset -/
  | child {p : Property} {c : Nat} : p.owner = k → p.slot = slot → p.isMandatory = true →
    size ≤ c → Settled k slot size (.child none) (.child (some c))
  /-- a list with a sole-element view was empty -/
  | element {p : Property} {c : Nat} : p.owner = k → p.slot = slot →
    p.isSoleElementView = true → size ≤ c → Settled k slot size (.list []) (.list [c])

namespace Slot

variable {k : Kind} {slot size size' : Nat} {content content' content'' : Slot Nat}

theorem Settled.trans (hsize : size ≤ size') (h : Settled k slot size content content')
    (h' : Settled k slot size' content' content'') : Settled k slot size content content'' := by
  cases h' with
  | same _ => exact h
  | child ho hs hm hc =>
    cases h with
    | same _ => exact .child ho hs hm (Nat.le_trans hsize hc)
  | element ho hs hv hc =>
    cases h with
    | same _ => exact .element ho hs hv (Nat.le_trans hsize hc)

/-- The slot of a placeholder that comes to exist. -/
theorem settled_withMembers {p : Property} {k : Kind} {c : Nat} (hp : p.placeholder = some k)
    (hfits : content.fits p.primary.form = true) (hempty : content.members = []) (hc : size ≤ c) :
    Settled p.owner p.slot size content (content.withMembers [c]) := by
  cases content with
  | scalar v => exact .same _
  | child d =>
    obtain rfl : d = none := by simpa [members] using hempty
    exact .child rfl rfl (Property.isMandatory_of_placeholder hp) hc
  | list cs =>
    obtain rfl : cs = [] := hempty
    rcases hform : p.primary.form with _ | _ | ty <;> rw [hform] at hfits
    · cases hfits
    · cases hfits
    · exact .element rfl rfl (Property.isSoleElementView_of_placeholder hp hform) hc

end Slot

/-- **A record that nothing counted has touched**: all is as it was, but for placeholders. -/
structure Record.Settled (size : Nat) (r r' : Record) : Prop where
  kind : r'.kind = r.kind
  range : r'.range = r.range
  flags : r'.flags = r.flags
  location : r'.location = r.location
  length : r'.slots.length = r.slots.length
  slots : ∀ (slot : Nat) content content', r.slots[slot]? = some content →
    r'.slots[slot]? = some content' → Slot.Settled r.kind slot size content content'

namespace Record.Settled

variable {size size' : Nat} {r r' r'' : Record}

theorem refl (r : Record) : r.Settled size r where
  kind := rfl
  range := rfl
  flags := rfl
  location := rfl
  length := rfl
  slots slot content content' hs hs' := by
    rw [hs] at hs'
    cases hs'
    exact .same _

theorem trans (hsize : size ≤ size') (h : r.Settled size r') (h' : r'.Settled size' r'') :
    r.Settled size r'' where
  kind := h'.kind.trans h.kind
  range := h'.range.trans h.range
  flags := h'.flags.trans h.flags
  location := h'.location.trans h.location
  length := h'.length.trans h.length
  slots slot content content'' hs hs'' := by
    obtain ⟨content', hs'⟩ : ∃ content', r'.slots[slot]? = some content' := by
      have hlt := (List.getElem?_eq_some_iff.1 hs).1
      rw [← h.length] at hlt
      exact ⟨_, List.getElem?_eq_getElem hlt⟩
    exact (h.slots slot _ _ hs hs').trans hsize (h.kind ▸ h'.slots slot _ _ hs' hs'')

end Record.Settled

namespace Tree

variable {t t' t'' : Tree} {T : Typing} {n : Nat} {p : Property} {k : Kind}

/-! ## The stamp along a run -/

/-- No step takes the stamp back. -/
theorem Step.stamp_le (hs : t.Step T t') : t.stamp ≤ t'.stamp := by
  cases hs <;> simp [created, Tree.splice, written, commit, amended]

theorem Reaches.stamp_le (hr : t.Reaches T t') : t.stamp ≤ t'.stamp := by
  induction hr with
  | refl => exact Nat.le_refl _
  | tail _ hs ih => exact Nat.le_trans ih hs.stamp_le

/-- Along a run that leaves the stamp where it was, no step is counted. -/
theorem Reaches.induct_uncounted {motive : Tree → Prop} (hr : t.Reaches T t')
    (hstamp : t'.stamp = t.stamp) (refl : motive t)
    (step : ∀ u u', t.Reaches T u → u.stamp = t.stamp → u.Step T u' → u'.stamp = u.stamp →
      motive u → motive u') : motive t' := by
  induction hr with
  | refl => exact refl
  | @tail u u' hr hs ih =>
    have hle : t.stamp ≤ u.stamp := Reaches.stamp_le hr
    have hu : u.stamp = t.stamp := by have := hs.stamp_le; omega
    exact step u u' hr hu hs (hstamp.trans hu.symm) (ih hu)

/-- **What was there stays as it is**; records may have been added. -/
structure Extends (t t' : Tree) : Prop where
  id : t'.id = t.id
  config : t'.config = t.config
  size : t.size ≤ t'.size
  old : ∀ i < t.size, t'.records[i]? = t.records[i]?

theorem extends_created : t.Extends (t.created k) where
  id := rfl
  config := rfl
  size := by simp [Tree.size, created]
  old i hi := Arena.getElem?_push_old hi

theorem extends_planted {i : Image} : t.Extends (t.planted i) where
  id := planted_id
  config := planted_config
  size := by
    rw [size_planted]
    exact Nat.le_add_right _ _
  old j hj := by rw [planted_records, Arena.getElem?_plant_old hj]

theorem Extends.refl (t : Tree) : t.Extends t := ⟨rfl, rfl, Nat.le_refl _, fun _ _ => rfl⟩

theorem Extends.trans (h : t.Extends t') (h' : t'.Extends t'') : t.Extends t'' where
  id := h'.id.trans h.id
  config := h'.config.trans h.config
  size := Nat.le_trans h.size h'.size
  old i hi := (h'.old i (Nat.lt_of_lt_of_le hi h.size)).trans (h.old i hi)

/-- **A step that is not counted adds records, or lets a placeholder come to exist.** -/
theorem Step.uncounted (hs : t.Step T t') (hstamp : t'.stamp = t.stamp) :
    t.Extends t' ∨ ∃ n p k, t.Lacks n p k ∧ t' = t.materialized n p k := by
  cases hs with
  | create k => exact .inl extends_created
  | plant i _ _ => exact .inl extends_planted
  | materialize n p k hp => exact .inr ⟨n, p, k, hp, rfl⟩
  | observe observer => exact .inl ⟨rfl, rfl, Nat.le_refl _, fun _ _ => rfl⟩
  | splice _ _ _ _ _ => simp [Tree.splice, commit] at hstamp
  | write _ _ _ _ => simp [written, commit] at hstamp
  | setRange _ _ _ => simp [amended] at hstamp
  | setFlags _ _ _ => simp [amended] at hstamp

/-! ## What a run leaves settled -/

/-- **The nodes of the earlier tree are settled in the later one.** -/
structure Settled (t t' : Tree) : Prop where
  size : t.size ≤ t'.size
  records : ∀ (i : Nat) r, t.records[i]? = some r →
    ∃ r', t'.records[i]? = some r' ∧ r.Settled t.size r'

theorem Settled.refl (t : Tree) : t.Settled t where
  size := Nat.le_refl _
  records _ r hr := ⟨r, hr, .refl r⟩

theorem Settled.trans (h : t.Settled t') (h' : t'.Settled t'') : t.Settled t'' where
  size := Nat.le_trans h.size h'.size
  records i r hr := by
    obtain ⟨r', hr', hsettled⟩ := h.records i r hr
    obtain ⟨r'', hr'', hsettled'⟩ := h'.records i r' hr'
    exact ⟨r'', hr'', hsettled.trans h.size hsettled'⟩

theorem Extends.settled (h : t.Extends t') : t.Settled t' where
  size := h.size
  records i r hr := ⟨r, (h.old i (Arena.lt_size_of_record hr)).trans hr, .refl r⟩

/-- The record of an old node beside a placeholder that comes to exist. -/
theorem getElem?_materialized {i : Nat} {r : Record} (hr : t.records[i]? = some r) :
    (t.materialized n p k).records[i]? = some { r with
      slots :=
        if i = n then r.slots.modify p.slot fun content => content.withMembers [t.size]
        else r.slots } := by
  have hi := Arena.lt_size_of_record hr
  have hold : (t.created k).records[i]? = some r := (Arena.getElem?_push_old hi).trans hr
  have hne : t.size ≠ i := Nat.ne_of_gt hi
  simp only [materialized_records, Arena.getElem?_rewire, hold]
  simp [Splice.added, Splice.removed, Splice.apply, hne]

/-- The slot that a placeholder comes to fill. -/
theorem Lacks.settled_slot {r : Record} {content : Slot Nat} (hf : Arena.Forest t.records)
    (hp : t.Lacks n p k) (hr : t.records[n]? = some r) (hs : r.slots[p.slot]? = some content) :
    Slot.Settled r.kind p.slot t.size content (content.withMembers [t.size]) := by
  obtain ⟨r', hr', howner, -⟩ := hp.offers
  obtain rfl : r = r' := Option.some.inj (hr.symm.trans hr')
  obtain ⟨content', hs', hfits⟩ := hf.exists_slot hr howner
  obtain rfl : content = content' := Option.some.inj (hs.symm.trans hs')
  have hempty : content.members = [] := by
    rw [← Arena.membersAt_of_content hr hs]
    exact hp.unset
  exact howner ▸ Slot.settled_withMembers hp.placeholder hfits hempty (Nat.le_refl _)

theorem Lacks.settled (hf : Arena.Forest t.records) (hp : t.Lacks n p k) :
    t.Settled (t.materialized n p k) where
  size := by simp [Tree.size, created]
  records i r hr := by
    refine ⟨_, getElem?_materialized hr, rfl, rfl, rfl, rfl, ?_, fun slot content content' hs hs' => ?_⟩
    · dsimp only
      split <;> simp
    · dsimp only at hs'
      split at hs'
      · rename_i hi
        subst hi
        rw [List.getElem?_modify, hs] at hs'
        split at hs'
        · rename_i hslot
          subst hslot
          cases hs'
          exact hp.settled_slot hf hr hs
        · cases hs'
          exact .same _
      · rw [hs] at hs'
        cases hs'
        exact .same _

/-- **A run that leaves the stamp where it was adds nodes and placeholders only.** -/
theorem Reaches.settled (h : t.Sound T) (hr : t.Reaches T t') (hstamp : t'.stamp = t.stamp) :
    t.Settled t' := by
  refine hr.induct_uncounted hstamp (.refl t) fun u u' hr _ hs hstamp hsettled => ?_
  refine hsettled.trans ?_
  rcases hs.uncounted hstamp with hextends | ⟨n, p, k, hp, rfl⟩
  · exact hextends.settled
  · exact hp.settled (hr.sound h).forest

end Tree

end SyntaxForest
