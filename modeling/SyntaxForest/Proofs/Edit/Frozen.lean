import SyntaxForest.Proofs.Edit.Run
import SyntaxForest.Proofs.Edit.Stamp

/-!
# Proofs/Edit/Frozen — what can still happen to a protected node

The mark of protection is asked for where a slot is spliced, where a scalar is written, and where a node
comes in under another one.  What does not ask for it are reads, which fill a mandatory slot that is
empty, and the parent, which may let go of the node (`Record.Frozen`).

* `Tree.Turn.freezes` — **no turn touches a protected node**, but for its location.
* `Edit.Does.freezes` — **no call does**, but for what a read brings, and but for the call that sets its
  marks.
-/

namespace SyntaxForest

/-- **A slot that only reads have touched**: it is as it was, or it was empty and holds one node, which a
read brought. -/
inductive Slot.Frozen (Brought : Nat → Prop) : Slot Nat → Slot Nat → Prop
  | same (content : Slot Nat) : Frozen Brought content content
  | child {c : Nat} : Brought c → Frozen Brought (.child none) (.child (some c))
  | element {c : Nat} : Brought c → Frozen Brought (.list []) (.list [c])

/-- **A record that nothing but reads have touched**, and nothing but its parent has let go. -/
structure Record.Frozen (Brought : Nat → Nat → Prop) (r r' : Record) : Prop where
  kind : r'.kind = r.kind
  flags : r'.flags = r.flags
  location : r'.location = r.location ∨ r'.location = none
  length : r'.slots.length = r.slots.length
  slots : ∀ (slot : Nat) content content', r.slots[slot]? = some content →
    r'.slots[slot]? = some content' → Slot.Frozen (Brought slot) content content'

namespace Slot

variable {B B' : Nat → Prop} {content content' content'' : Slot Nat} {c : Nat}

theorem Frozen.mono (hB : ∀ c, B c → B' c) (h : Frozen B content content') :
    Frozen B' content content' := by
  cases h with
  | same _ => exact .same _
  | child hc => exact .child (hB _ hc)
  | element hc => exact .element (hB _ hc)

theorem Frozen.trans (h : Frozen B content content') (h' : Frozen B content' content'') :
    Frozen B content content'' := by
  cases h' with
  | same _ => exact h
  | child hc =>
    cases h with
    | same _ => exact .child hc
  | element hc =>
    cases h with
    | same _ => exact .element hc

/-- An empty slot takes in what is brought. -/
theorem frozen_withMembers (hempty : content.members = []) (hc : B c) :
    Frozen B content (content.withMembers [c]) := by
  cases content with
  | scalar v => exact .same _
  | child d =>
    obtain rfl : d = none := by simpa [members] using hempty
    exact .child hc
  | list cs =>
    obtain rfl : cs = [] := hempty
    exact .element hc

end Slot

namespace Record

variable {B B' : Nat → Nat → Prop} {r r' r'' : Record}

/-- Where no slot has changed, the node was let go at most. -/
theorem Frozen.of_slots_eq (hkind : r'.kind = r.kind) (hflags : r'.flags = r.flags)
    (hloc : r'.location = r.location ∨ r'.location = none) (hslots : r'.slots = r.slots) :
    r.Frozen B r' where
  kind := hkind
  flags := hflags
  location := hloc
  length := by rw [hslots]
  slots slot content content' hs hs' := by
    rw [hslots, hs] at hs'
    cases hs'
    exact .same _

theorem Frozen.refl (r : Record) : r.Frozen B r := of_slots_eq rfl rfl (.inl rfl) rfl

theorem Frozen.mono (hB : ∀ slot c, B slot c → B' slot c) (h : r.Frozen B r') : r.Frozen B' r' where
  kind := h.kind
  flags := h.flags
  location := h.location
  length := h.length
  slots slot content content' hs hs' := (h.slots slot content content' hs hs').mono (hB slot)

theorem Frozen.location_none (h : r.Frozen B r') (hr : r.location = none) : r'.location = none :=
  h.location.elim (·.trans hr) id

theorem Frozen.trans (h : r.Frozen B r') (h' : r'.Frozen B r'') : r.Frozen B r'' where
  kind := h'.kind.trans h.kind
  flags := h'.flags.trans h.flags
  location := h'.location.elim (fun heq => h.location.imp heq.trans heq.trans) .inr
  length := h'.length.trans h.length
  slots slot content content'' hs hs'' := by
    obtain ⟨content', hs'⟩ : ∃ content', r'.slots[slot]? = some content' := by
      have hlt := (List.getElem?_eq_some_iff.1 hs).1
      rw [← h.length] at hlt
      exact ⟨_, List.getElem?_eq_getElem hlt⟩
    exact (h.slots slot _ _ hs hs').trans (h'.slots slot _ _ hs' hs'')

end Record

namespace Tree

variable {t t' t'' : Tree} {T : Typing} {i : Nat} {r : Record} {B : Nat → Nat → Prop}

/-- **The node is kept frozen**: its record is there, and frozen. -/
def Freezes (B : Nat → Nat → Prop) (i : Nat) (r : Record) (t' : Tree) : Prop :=
  ∃ r', t'.records[i]? = some r' ∧ r.Frozen B r'

/-- What may change is another node. -/
theorem Modifiable.ne {n : Nat} (hm : t.Modifiable n) (hr : t.records[i]? = some r)
    (hprotect : r.flags.protect = true) : n ≠ i := by
  rintro rfl
  obtain ⟨r', hr', hfree⟩ := hm
  obtain rfl : r = r' := Option.some.inj (hr.symm.trans hr')
  rw [hprotect] at hfree
  cases hfree

theorem Extends.freezes (h : t.Extends t') (hr : t.records[i]? = some r) : t'.Freezes B i r :=
  ⟨r, (h.old i (Arena.lt_size_of_record hr)).trans hr, .refl r⟩

/-- A splice changes the slots of a node that may change, and attaches a node that may change. -/
theorem Allows.freezes {n : Nat} {p : Property} {x : Splice} (hx : t.Allows n p x)
    (hr : t.records[i]? = some r) (hprotect : r.flags.protect = true) :
    (t.splice n p x).Freezes B i r := by
  have hne : i ≠ n := (hx.modifiable.ne hr hprotect).symm
  have hadded : x.added ≠ some i := fun hi => (hx.welcomes i hi).modifiable.ne hr hprotect rfl
  refine ⟨{ r with location := if x.removed = some i then none else r.location }, ?_,
    .of_slots_eq rfl rfl ?_ rfl⟩
  · rw [splice_records, Arena.getElem?_rewire, hr, Option.map_some, if_neg hadded, if_neg hne]
  · split
    · exact .inr rfl
    · exact .inl rfl

/-- **No turn touches a protected node**, but for its location. -/
theorem Turn.freezes (h : t.Turn T t') (hr : t.records[i]? = some r)
    (hprotect : r.flags.protect = true) : t'.Freezes B i r := by
  cases h with
  | create k => exact extends_created.freezes hr
  | splice n p x hx _ => exact hx.freezes hr hprotect
  | write n p v hv =>
    refine ⟨r, ?_, .refl r⟩
    rw [written, commit_records, Arena.getElem?_setSlot, if_neg (hv.modifiable.ne hr hprotect), hr]

theorem Turns.freezes (h : t.Turns T t') (hr : t.records[i]? = some r)
    (hprotect : r.flags.protect = true) : t'.Freezes B i r := by
  induction h with
  | refl => exact ⟨r, hr, .refl r⟩
  | tail _ hturn ih =>
    obtain ⟨r', hr', hfrozen⟩ := ih
    obtain ⟨r'', hr'', hfrozen'⟩ := hturn.freezes hr' (hfrozen.flags ▸ hprotect)
    exact ⟨r'', hr'', hfrozen.trans hfrozen'⟩

/-- A placeholder that comes to exist is brought to the slot that lacked it. -/
theorem Lacks.freezes {n : Nat} {p : Property} {k : Kind} (hp : t.Lacks n p k)
    (hr : t.records[i]? = some r) (hB : i = n → B p.slot t.size) :
    (t.materialized n p k).Freezes B i r := by
  refine ⟨_, getElem?_materialized hr, ?_⟩
  by_cases hi : i = n
  · subst hi
    rw [if_pos rfl]
    refine ⟨rfl, rfl, .inl rfl, List.length_modify .., fun slot content content' hs hs' => ?_⟩
    rw [List.getElem?_modify, hs] at hs'
    by_cases hslot : p.slot = slot
    · subst hslot
      obtain rfl : content.withMembers [t.size] = content' := by simpa using hs'
      exact Slot.frozen_withMembers ((Arena.membersAt_of_content hr hs).symm.trans hp.unset) (hB rfl)
    · obtain rfl : content = content' := by simpa [hslot] using hs'
      exact .same _
  · rw [if_neg hi]
    exact .refl r

/-- A record amended beside its slots stays frozen, if its marks are not what is amended. -/
theorem freezes_amended {n : Nat} {f : Record → Record} (hr : t.records[i]? = some r)
    (hf : ∀ r, (f r).kind = r.kind ∧ (f r).location = r.location ∧ (f r).slots = r.slots)
    (hflags : n = i → (f r).flags = r.flags) : (t.amended n f).Freezes B i r := by
  by_cases hn : n = i
  · refine ⟨f r, ?_, .of_slots_eq (hf r).1 (hflags hn) (.inl (hf r).2.1) (hf r).2.2⟩
    rw [amended, Array.getElem?_modify, if_pos hn, hr]
    rfl
  · refine ⟨r, ?_, .refl r⟩
    rw [amended, Array.getElem?_modify, if_neg hn, hr]

end Tree

namespace Edit

variable {t t' : Tree} {T : Typing} {e : Edit} {i : Nat} {r : Record}

/-- **No call touches a protected node**, but for what a read brings, and but for the call that sets its
marks. -/
theorem Does.freezes (h : e.Does T t t') (hr : t.records[i]? = some r)
    (hprotect : r.flags.protect = true) (he : ∀ flags, e ≠ .setFlags (t.handle i) flags) :
    t'.Freezes (fun slot c => ∃ q k, e.reads = some (t.handle i, q) ∧ q.slot = slot ∧
      t.Lacks i q k ∧ t' = t.materialized i q k ∧ c = t.size) i r := by
  cases h with
  | turn _ hturns => exact hturns.freezes hr hprotect
  | @read _ n p k hreads hn hp =>
    refine hp.freezes hr fun hi => ?_
    subst hi
    exact ⟨p, k, by rw [hreads, Tree.handle_index hn], rfl, hp, rfl, rfl⟩
  | setRange _ _ => exact Tree.freezes_amended hr (fun _ => ⟨rfl, rfl, rfl⟩) fun _ => rfl
  | @setFlags n flags hn _ =>
    refine Tree.freezes_amended hr (fun _ => ⟨rfl, rfl, rfl⟩) fun hi => absurd ?_ (he flags)
    rw [← hi, Tree.handle_index hn]
  | copy _ _ => exact Tree.extends_planted.freezes hr
  | observe _ => exact ⟨r, hr, .refl r⟩

end Edit

end SyntaxForest
