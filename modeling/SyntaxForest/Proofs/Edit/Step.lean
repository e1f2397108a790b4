import SyntaxForest.Edit.Scalar
import SyntaxForest.Edit.Sequence
import SyntaxForest.Proofs.Edit.Planting
import Mathlib.Logic.Relation

/-!
# Proofs/Edit/Step — all that can happen to a tree

Whatever is called on a tree, the tree takes a number of steps of a few sorts (`Tree.Step`): a node
is created, an image is planted, a slot is spliced, a placeholder comes to exist, a scalar is
written, a range or marks are set, an observer comes or goes.  The relation says which steps there
are and under which conditions; what every tree keeps is proved here once for each sort.

* `Tree.Step.sound` — **every step keeps the invariant** (`Tree.Sound`).
* `Tree.Reaches.sound` — …and so does every run.
* `Tree.Reaches.kindAt` — no node changes its kind.
-/

namespace SyntaxForest

namespace Property

/-- A property with a placeholder holds a single child. -/
theorem form_of_placeholder {p : Property} {k : Kind} (h : p.placeholder = some k) :
    ∃ ty, p.form = .child ty := by
  cases p <;> cases h <;> exact ⟨_, rfl⟩

/-- A scalar property owns its slot. -/
theorem primary_of_scalar {p : Property} {ty : ScalarType} (h : p.form = .scalar ty) :
    p.primary = p := by
  cases p <;> cases h <;> rfl

end Property

/-- The event that announces a splice. -/
def Splice.event (t : Tree) (n : Nat) (p : Property) : Splice → Event
  | replace old new => .replaceChild (t.handle n) p (old.map t.handle) (new.map t.handle)
  | insert index c => .addChild (t.handle n) p index (t.handle c)
  | remove index c => .removeChild (t.handle n) p index (t.handle c)
  | exchange index old new => .replaceElement (t.handle n) p index (t.handle old) (t.handle new)

namespace Tree

variable {t t' : Tree} {n c : Nat} {p : Property} {k : Kind} {v : Scalar} {x : Splice} {T : Typing}

/-! ## Trees after a step -/

/-- The tree after a change of its records that is announced and counted. -/
def commit (t : Tree) (e : Event) (a : Arena) : Tree :=
  { t.tell .pre e with records := a, stamp := t.stamp + 1 }.tell .post e

/-- The tree with a slot spliced. -/
def splice (t : Tree) (n : Nat) (p : Property) (x : Splice) : Tree :=
  t.commit (x.event t n p) (Arena.rewire t.records n p x)

/-- The tree with a scalar written. -/
def written (t : Tree) (n : Nat) (p : Property) (v : Scalar) : Tree :=
  t.commit (.valueChange (t.handle n) p) (Arena.setSlot t.records n p.slot (.scalar v))

/-- The tree with a fresh node. -/
def created (t : Tree) (k : Kind) : Tree :=
  { t with records := t.records.push (.fresh k t.config.defaultFlags) }

/-- The tree with a placeholder in a slot that was unset. -/
def materialized (t : Tree) (n : Nat) (p : Property) (k : Kind) : Tree :=
  { t with records := Arena.rewire (t.created k).records n p (.replace none (some t.size)) }.tell
    .post (.lazyInit (t.handle n) p (t.handle t.size))

/-- The tree with a record changed beside its attachments, which is counted. -/
def amended (t : Tree) (n : Nat) (f : Record → Record) : Tree :=
  { t with records := t.records.modify n f, stamp := t.stamp + 1 }

@[simp] theorem commit_records {e : Event} {a : Arena} : (t.commit e a).records = a := by
  simp [commit]

@[simp] theorem commit_id {e : Event} {a : Arena} : (t.commit e a).id = t.id := by simp [commit]

@[simp] theorem commit_config {e : Event} {a : Arena} : (t.commit e a).config = t.config := by
  simp [commit]

@[simp] theorem commit_observer {e : Event} {a : Arena} : (t.commit e a).observer = t.observer := by
  simp [commit]

@[simp] theorem splice_records : (t.splice n p x).records = Arena.rewire t.records n p x :=
  commit_records

@[simp] theorem splice_id : (t.splice n p x).id = t.id := commit_id

@[simp] theorem splice_handle : (t.splice n p x).handle = t.handle := by
  funext i
  rw [handle, handle, splice_id]

@[simp] theorem splice_observer : (t.splice n p x).observer = t.observer := commit_observer

@[simp] theorem splice_config : (t.splice n p x).config = t.config := commit_config

@[simp] theorem materialized_records : (t.materialized n p k).records =
    Arena.rewire (t.created k).records n p (.replace none (some t.size)) := by
  simp [materialized]

@[simp] theorem materialized_id : (t.materialized n p k).id = t.id := by simp [materialized]

@[simp] theorem materialized_config : (t.materialized n p k).config = t.config := by
  simp [materialized]

@[simp] theorem materialized_observer : (t.materialized n p k).observer = t.observer := by
  simp [materialized]

@[simp] theorem materialized_stamp : (t.materialized n p k).stamp = t.stamp := by
  simp [materialized]

/-! ## Conditions -/

/-- The property may be used on the node: it is one of its kind, and the shape reads its slot. -/
def Offers (t : Tree) (n : Nat) (p : Property) : Prop :=
  ∃ r, t.records[n]? = some r ∧ p.owner = r.kind ∧ r.kind.slotIsLive t.shape p.slot = true

/-- The node is there and not protected. -/
def Modifiable (t : Tree) (n : Nat) : Prop :=
  ∃ r, t.records[n]? = some r ∧ r.flags.protect = false

/-- When a node may come in under a property: it is a root that does not stand above the node, it is
not protected, and it is of the type of the property. -/
structure Welcomes (t : Tree) (n : Nat) (p : Property) (c : Nat) : Prop where
  free : Arena.locationAt t.records c = none
  below : ∀ chain, Arena.Chain t.records n chain → c ∉ chain
  modifiable : t.Modifiable c
  conforms : ∃ k ty, Arena.kindAt t.records c = some k ∧ p.form.childType? = some ty ∧
    k.conformsTo ty = true

/-- **When a slot may be spliced**: the node may change, the slot holds what it is taken to hold,
and a child may come in if the property may be used on the node and welcomes the child. -/
structure Allows (t : Tree) (n : Nat) (p : Property) (x : Splice) : Prop where
  owner : Arena.kindAt t.records n = some p.owner
  suits : x.Suits p.form
  applies : x.Applies (Arena.membersAt t.records n p.slot)
  modifiable : t.Modifiable n
  offers : ∀ c, x.added = some c → t.Offers n p
  welcomes : ∀ c, x.added = some c → t.Welcomes n p c

/-- When a placeholder comes to exist: the property has one, and its slot is empty. -/
structure Lacks (t : Tree) (n : Nat) (p : Property) (k : Kind) : Prop where
  offers : t.Offers n p
  placeholder : p.placeholder = some k
  unset : Arena.membersAt t.records n p.slot = []

/-- When a scalar may be written: it is of the type of the property, and not empty where a text is
needed. -/
structure Takes (t : Tree) (n : Nat) (p : Property) (v : Scalar) : Prop where
  offers : t.Offers n p
  modifiable : t.Modifiable n
  conforms : ∃ ty, p.form = .scalar ty ∧ v.conformsTo ty = true ∧
    (ty.requiresText && v.isEmptyText) = false

theorem Offers.kindAt (h : t.Offers n p) : Arena.kindAt t.records n = some p.owner := by
  obtain ⟨r, hr, ho, -⟩ := h
  rw [Arena.kindAt_of_record hr, ho]

theorem Offers.lt_size (h : t.Offers n p) : n < t.records.size := by
  obtain ⟨r, hr, -⟩ := h
  exact Arena.lt_size_of_record hr

theorem Modifiable.lt_size (h : t.Modifiable n) : n < t.records.size := by
  obtain ⟨r, hr, -⟩ := h
  exact Arena.lt_size_of_record hr

theorem Allows.admits (h : t.Allows n p x) : Arena.Admits t.records n p x where
  owner := h.owner
  suits := h.suits
  applies := h.applies
  added c hc :=
    have hw := h.welcomes c hc
    ⟨hw.modifiable.lt_size, hw.free, hw.below⟩

/-- A child may go out of a slot of a node that may change. -/
theorem Allows.of_added_eq_none (ho : Arena.kindAt t.records n = some p.owner)
    (hm : t.Modifiable n) (hsuits : x.Suits p.form)
    (happlies : x.Applies (Arena.membersAt t.records n p.slot)) (hx : x.added = none) :
    t.Allows n p x where
  owner := ho
  suits := hsuits
  applies := happlies
  modifiable := hm
  offers c hc := by rw [hx] at hc; cases hc
  welcomes c hc := by rw [hx] at hc; cases hc

/-- …and a child that is welcome may come in. -/
theorem Welcomes.allows (hc : t.Welcomes n p c) (hp : t.Offers n p) (hm : t.Modifiable n)
    (hsuits : x.Suits p.form) (happlies : x.Applies (Arena.membersAt t.records n p.slot))
    (hx : x.added = some c) : t.Allows n p x where
  owner := hp.kindAt
  suits := hsuits
  applies := happlies
  modifiable := hm
  offers _ _ := hp
  welcomes d hd := by
    rw [hx] at hd
    cases hd
    exact hc

/-! ## What a splice leaves as it is -/

section Splice

variable {i : Nat} {q : Property}

theorem Offers.splice (h : t.Offers i q) : (t.splice n p x).Offers i q := by
  obtain ⟨r, hr, ho, hlive⟩ := h
  obtain ⟨r', hr', hk, -⟩ := Arena.exists_record_rewire (n := n) (p := p) (x := x) hr
  refine ⟨r', splice_records ▸ hr', hk ▸ ho, ?_⟩
  rwa [shape, splice_config, hk]

theorem Modifiable.splice (h : t.Modifiable i) : (t.splice n p x).Modifiable i := by
  obtain ⟨r, hr, hprotect⟩ := h
  obtain ⟨r', hr', -, -, hflags⟩ := Arena.exists_record_rewire (n := n) (p := p) (x := x) hr
  exact ⟨r', splice_records ▸ hr', hflags ▸ hprotect⟩

/-- A node that is welcome stays so when another one comes in. -/
theorem Welcomes.splice (hf : Arena.Forest t.records) (hx : t.Allows n p x) {d : Nat}
    (hd : t.Welcomes n q d) (hne : x.added ≠ some d) : (t.splice n p x).Welcomes n q d where
  free := by
    rw [splice_records, Arena.locationAt_rewire hd.modifiable.lt_size, if_neg hne, hd.free,
      ite_self]
  below chain hchain := by
    rw [splice_records] at hchain
    obtain ⟨chain', hchain'⟩ := hf.rooted hx.modifiable.lt_size
    rw [hchain.unique (hf.chain_rewire hx.admits hchain')]
    exact hd.below chain' hchain'
  modifiable := hd.modifiable.splice
  conforms := by
    obtain ⟨k, ty, hk, h⟩ := hd.conforms
    exact ⟨k, ty, by rw [splice_records, Arena.kindAt_rewire, hk], h⟩

end Splice

/-- A row of splices of one slot, each allowed at its turn. -/
inductive Splices (n : Nat) (p : Property) : Tree → List Splice → Tree → Prop
  | nil (t : Tree) : Splices n p t [] t
  | cons {t t' : Tree} {x : Splice} {xs : List Splice} :
    t.Allows n p x → Splices n p (t.splice n p x) xs t' → Splices n p t (x :: xs) t'

theorem Splices.single (h : t.Allows n p x) : Splices n p t [x] (t.splice n p x) :=
  .cons h (.nil _)

/-- The child that comes in is of a kind that the slot admits, if it passes for the property. -/
def Brings (T : Typing) (t : Tree) (p : Property) (x : Splice) : Prop :=
  ∀ c k, x.added = some c → Arena.kindAt t.records c = some k → T.Takes p k

theorem Brings.splice {y : Splice} (h : t.Brings T p x) : (t.splice n p y).Brings T p x := by
  intro c k hc hk
  rw [splice_records, Arena.kindAt_rewire] at hk
  exact h c k hc hk

/-- What comes in as a single child is admitted in any case. -/
theorem Brings.of_replace {old new : Option Nat} (hx : (Splice.replace old new).Suits p.form) :
    t.Brings T p (.replace old new) := by
  intro c k _ _ ty hty hk
  rcases hp : p.form with _ | ty' | _ <;> rw [hp] at hx hty
  · cases hty
  · cases hty
    exact T.single hp hk
  · cases hx

theorem Brings.of_added_eq_none (hx : x.added = none) : t.Brings T p x := by
  intro c k hc _
  rw [hx] at hc
  cases hc

/-! ## The steps -/

/-- **One step of a tree**, in which children come in as a typing asks. -/
inductive Step (T : Typing) (t : Tree) : Tree → Prop
  | create (k : Kind) : Step T t (t.created k)
  | plant (i : Image) : i.Sound T → i.checkPlantable t.shape = .ok () → Step T t (t.planted i)
  | splice (n : Nat) (p : Property) (x : Splice) : t.Allows n p x → t.Brings T p x →
    Step T t (t.splice n p x)
  | materialize (n : Nat) (p : Property) (k : Kind) : t.Lacks n p k →
    Step T t (t.materialized n p k)
  | write (n : Nat) (p : Property) (v : Scalar) : t.Takes n p v → Step T t (t.written n p v)
  | setRange (n : Nat) (range : Span) : n < t.records.size →
    Step T t (t.amended n fun r => { r with range := some range })
  | setFlags (n : Nat) (flags : Flags) : n < t.records.size →
    Step T t (t.amended n fun r => { r with flags })
  | observe (observer : Option Observer) : Step T t { t with observer }

/-- A run of steps. -/
def Reaches (T : Typing) : Tree → Tree → Prop := Relation.ReflTransGen (Step T)

/-- **What every tree keeps**: its arena is a forest, and children are of kinds that their slots
admit. -/
structure Sound (T : Typing) (t : Tree) : Prop where
  forest : Arena.Forest t.records
  typed : Arena.Typed T t.records

theorem Sound.start (id : Nat) (config : Config) : (start id config).Sound T :=
  ⟨Arena.Forest.empty, Arena.Typed.empty⟩

/-! ## Every step keeps the invariant -/

theorem Sound.create (h : t.Sound T) : (t.created k).Sound T :=
  ⟨h.forest.push_fresh, h.typed.push_fresh h.forest⟩

theorem Sound.plant {i : Image} (h : t.Sound T) (hi : i.Sound T) : (t.planted i).Sound T := by
  obtain ⟨_, hi⟩ := hi
  exact ⟨planted_records ▸ h.forest.plant hi, planted_records ▸ h.typed.plant h.forest hi⟩

/-- A splice that is allowed keeps the forest. -/
theorem Allows.forest (hf : Arena.Forest t.records) (hx : t.Allows n p x) :
    Arena.Forest (t.splice n p x).records := by
  rw [splice_records]
  exact hf.rewire hx.admits

theorem Splices.forest {xs : List Splice} (hf : Arena.Forest t.records) (h : Splices n p t xs t') :
    Arena.Forest t'.records := by
  induction h with
  | nil _ => exact hf
  | cons hx _ ih => exact ih (hx.forest hf)

theorem Sound.splice (h : t.Sound T) (hx : t.Allows n p x) (hbrings : t.Brings T p x) :
    (t.splice n p x).Sound T := by
  refine ⟨hx.forest h.forest, ?_⟩
  rw [splice_records]
  refine h.typed.rewire h.forest hx.admits fun c hc => ?_
  obtain ⟨k, ty, hk, hty, hconf⟩ := (hx.welcomes c hc).conforms
  exact ⟨k, hk, hbrings c k hc hk ty hty hconf⟩

/-- A fresh placeholder may be spliced into the slot that lacks it. -/
theorem Lacks.admits (hf : Arena.Forest t.records) (hp : t.Lacks n p k) :
    Arena.Admits (t.created k).records n p (.replace none (some t.size)) where
  owner := (Arena.kindAt_of_old (fun _ => Arena.getElem?_push_old) hp.offers.lt_size).trans
    hp.offers.kindAt
  suits := by
    obtain ⟨ty, hty⟩ := Property.form_of_placeholder hp.placeholder
    rw [hty]
    trivial
  applies := (Arena.membersAt_of_old (fun _ => Arena.getElem?_push_old) hp.offers.lt_size).trans
    hp.unset
  added c hc := by
    cases hc
    refine ⟨by simp [created, size], Arena.locationAt_push_fresh (Nat.le_refl _), ?_⟩
    intro chain hchain hmem
    -- the way up from an old node stays among the old ones
    obtain ⟨old, hold⟩ := hf.rooted hp.offers.lt_size
    have hsame : Arena.Chain (t.created k).records n old :=
      hold.congr (by simp [created]) fun j hj =>
        Arena.locationAt_of_old (fun _ => Arena.getElem?_push_old) (hold.lt_size hj)
    rw [hchain.unique hsame] at hmem
    exact Nat.lt_irrefl _ (hold.lt_size hmem)

theorem Sound.materialize (h : t.Sound T) (hp : t.Lacks n p k) :
    (t.materialized n p k).Sound T := by
  have hcreated : (t.created k).Sound T := h.create
  have hadmits := hp.admits h.forest
  refine ⟨materialized_records ▸ hcreated.forest.rewire hadmits,
    materialized_records ▸ hcreated.typed.rewire hcreated.forest hadmits ?_⟩
  intro c hc
  cases hc
  obtain ⟨ty, hty⟩ := Property.form_of_placeholder hp.placeholder
  refine ⟨k, ?_, T.single hty (Property.placeholder_conformsTo hp.placeholder (by rw [hty]; rfl))⟩
  simp [Arena.kindAt, created, size, Record.fresh]

/-- A record may be changed as long as its kind, its location and its children stay. -/
theorem Sound.modify {f : Record → Record} (h : t.Sound T) (ht' : t'.records = t.records.modify n f)
    (hkind : ∀ r, (f r).kind = r.kind) (hloc : ∀ r, (f r).location = r.location)
    (hslots : ∀ r, t.records[n]? = some r → r.kind.fits (f r).slots = true ∧
      ∀ s : Nat, ((f r).slots[s]?).elim [] Slot.members = (r.slots[s]?).elim [] Slot.members) :
    t'.Sound T := by
  have hk : ∀ i, Arena.kindAt t'.records i = Arena.kindAt t.records i := fun i => by
    rw [ht', Arena.kindAt_modify hkind]
  have hmem : ∀ i s, Arena.membersAt t'.records i s = Arena.membersAt t.records i s := fun i s => by
    rw [ht', Arena.membersAt_modify fun r hr => (hslots r hr).2]
  refine ⟨h.forest.congr (by rw [ht', Array.size_modify]) hk hmem (fun i => ?_) ?_,
    h.typed.congr hk hmem⟩
  · rw [ht', Arena.locationAt_modify hloc]
  · intro i r hr
    rw [ht', Array.getElem?_modify] at hr
    split at hr
    · rename_i hn
      subst hn
      obtain ⟨r, hr', rfl⟩ := Option.map_eq_some_iff.1 hr
      rw [hkind]
      exact (hslots r hr').1
    · exact h.forest.fits hr

theorem Sound.amend {f : Record → Record} (h : t.Sound T)
    (hf : ∀ r, (f r).kind = r.kind ∧ (f r).location = r.location ∧ (f r).slots = r.slots) :
    (t.amended n f).Sound T := by
  refine h.modify rfl (fun r => (hf r).1) (fun r => (hf r).2.1) fun r hr => ?_
  rw [(hf r).2.2]
  exact ⟨h.forest.fits hr, fun _ => rfl⟩

/-- The slot of a scalar property holds a scalar. -/
theorem exists_scalar (hf : Arena.Forest t.records) {ty : ScalarType} {r : Record}
    (hr : t.records[n]? = some r) (ho : p.owner = r.kind) (hform : p.form = .scalar ty) :
    ∃ v, r.slots[p.slot]? = some (.scalar v) := by
  obtain ⟨content, hs, hfits⟩ := hf.exists_slot hr ho
  rw [Property.primary_of_scalar hform, hform] at hfits
  cases content with
  | scalar v => exact ⟨v, hs⟩
  | child _ | list _ => cases hfits

/-- Writing a scalar leaves the children alone, for the slot held a scalar before. -/
theorem Takes.members_set (hf : Arena.Forest t.records) (hp : t.Takes n p v) {r : Record}
    (hr : t.records[n]? = some r) (s : Nat) :
    ((r.slots.set p.slot (.scalar v))[s]?).elim [] Slot.members =
      (r.slots[s]?).elim [] Slot.members := by
  obtain ⟨r', hr', ho, -⟩ := hp.offers
  obtain ⟨ty, hform, -, -⟩ := hp.conforms
  obtain ⟨old, hs⟩ := exists_scalar hf hr' ho hform
  rw [hr] at hr'
  cases hr'
  rw [List.getElem?_set]
  split
  · rename_i hslot
    subst hslot
    rw [hs]
    split <;> rfl
  · rfl

theorem Sound.write (h : t.Sound T) (hp : t.Takes n p v) : (t.written n p v).Sound T := by
  obtain ⟨r, hr, ho, -⟩ := hp.offers
  obtain ⟨ty, hform, -, -⟩ := hp.conforms
  refine h.modify (f := fun r => { r with slots := r.slots.set p.slot (.scalar v) })
    commit_records (fun _ => rfl) (fun _ => rfl) fun r' hr' => ⟨?_, hp.members_set h.forest hr'⟩
  rw [hr] at hr'
  cases hr'
  refine Kind.fits_set (h.forest.fits hr) (ho ▸ p.storage_primary) ?_
  rw [Property.primary_of_scalar hform, hform]
  rfl

/-- **Every step keeps the invariant.** -/
theorem Step.sound (h : t.Sound T) (hs : t.Step T t') : t'.Sound T := by
  cases hs with
  | create k => exact h.create
  | plant i hi _ => exact h.plant hi
  | splice n p x hx hbrings => exact h.splice hx hbrings
  | materialize n p k hp => exact h.materialize hp
  | write n p v hp => exact h.write hp
  | setRange n range _ => exact h.amend fun _ => ⟨rfl, rfl, rfl⟩
  | setFlags n flags _ => exact h.amend fun _ => ⟨rfl, rfl, rfl⟩
  | observe observer => exact ⟨h.forest, h.typed⟩

/-- **…and so does every run.** -/
theorem Reaches.sound (h : t.Sound T) (hr : t.Reaches T t') : t'.Sound T := by
  induction hr with
  | refl => exact h
  | tail _ hs ih => exact hs.sound ih

/-- No step changes the number of a tree or its configuration. -/
theorem Step.id_config (hs : t.Step T t') : t'.id = t.id ∧ t'.config = t.config := by
  cases hs <;> simp [created, written, amended]

theorem Reaches.id_config (hr : t.Reaches T t') : t'.id = t.id ∧ t'.config = t.config := by
  induction hr with
  | refl => exact ⟨rfl, rfl⟩
  | tail _ hs ih =>
    obtain ⟨hid, hconfig⟩ := hs.id_config
    exact ⟨hid.trans ih.1, hconfig.trans ih.2⟩

/-! ## Kinds are for life -/

section Kinds

variable {i : Nat} {k : Kind}

/-- No step changes the kind of a node. -/
theorem Step.kindAt (hs : t.Step T t') (hk : Arena.kindAt t.records i = some k) :
    Arena.kindAt t'.records i = some k := by
  have hlt : i < t.records.size := by
    obtain ⟨r, hr, -⟩ := Option.map_eq_some_iff.1 hk
    exact Arena.lt_size_of_record hr
  cases hs with
  | create k' => exact (Arena.kindAt_of_old (fun _ => Arena.getElem?_push_old) hlt).trans hk
  | plant image _ _ =>
    rw [planted_records, Arena.kindAt_of_old (fun _ => Arena.getElem?_plant_old) hlt, hk]
  | splice n p x _ _ => rw [splice_records, Arena.kindAt_rewire, hk]
  | materialize n p k' _ =>
    rw [materialized_records, Arena.kindAt_rewire]
    exact (Arena.kindAt_of_old (fun _ => Arena.getElem?_push_old) hlt).trans hk
  | write n p v _ => rw [written, commit_records, Arena.kindAt_setSlot, hk]
  | setRange n range _ =>
    exact (Arena.kindAt_modify (f := fun r => { r with range := some range }) fun _ => rfl).trans hk
  | setFlags n flags _ =>
    exact (Arena.kindAt_modify (f := fun r => { r with flags }) fun _ => rfl).trans hk
  | observe observer => exact hk

theorem Reaches.kindAt (hr : t.Reaches T t') (hk : Arena.kindAt t.records i = some k) :
    Arena.kindAt t'.records i = some k := by
  induction hr with
  | refl => exact hk
  | tail _ hs ih => exact hs.kindAt ih

end Kinds

end Tree

end SyntaxForest
