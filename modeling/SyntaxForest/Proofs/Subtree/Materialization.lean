import SyntaxForest.Proofs.Subtree.Completion
import SyntaxForest.Proofs.Subtree.Replanting

/-!
# Proofs/Subtree/Materialization — a placeholder that comes to exist completes nothing

A placeholder comes to exist in a slot that was empty, below one node.  Read out of the arena before and
after, the subtrees of the old nodes differ; **their completions do not**, since what came to exist is
what stood in for it.

This takes a property that the shape offers: a view that is read in the other shape puts an element into
a list for which nothing stands in.

* `Subtree.completion_fresh` — a fresh node that is there is completed like one that is not.
* `Property.complete_filled` — the slot that is filled.
* `Tree.Shows.completion_materialized` — **the completion of every old node is kept**.
-/

namespace SyntaxForest

namespace Property

variable {shape : Shape} {p : Property} {k : Kind} {ty : ChildType}

/-- A view on offer has its placeholder stand in for the only element. -/
theorem solePlaceholder?_primary (hp : p ∈ p.owner.properties shape) (hk : p.placeholder = some k)
    (hform : p.primary.form = .list ty) : p.primary.solePlaceholder? shape = some k := by
  cases shape <;> cases p <;> cases hform <;>
    first | exact hk | exact absurd hp (by decide)

/-- A property that shares no list owns its slot. -/
theorem primary_of_child (hform : p.primary.form = .child ty) : p.primary = p := by
  cases p <;> first | rfl | cases hform

end Property

@[simp] theorem Slot.map_fresh {α β : Type} (f : α → β) (form : Form) :
    (fresh form : Slot α).map f = fresh form := by
  cases form <;> rfl

/-- Slots that hold nothing are those of a fresh node, whatever they might hold. -/
theorem Kind.eq_freshSlots_of_map {α β : Type} {f : α → β} {k : Kind} {ss : List (Slot α)}
    (h : ss.map (Slot.map f) = k.freshSlots) : ss = k.freshSlots := by
  have hslot : ∀ (s : Slot α) form, s.map f = .fresh form → s = .fresh form := by
    rintro (v | (_ | c) | (_ | ⟨c, cs⟩)) (ty | ty | ty) h <;> cases h <;> rfl
  refine List.ext_getElem? fun j => ?_
  have hj := congrArg (·[j]?) h
  simp only [freshSlots, List.getElem?_map] at hj ⊢
  rcases hs : ss[j]? with _ | s <;> rcases hp : k.storage[j]? with _ | p <;> rw [hs, hp] at hj
  · rfl
  · cases hj
  · cases hj
  · exact congrArg some (hslot s _ (Option.some.inj hj))

/-- **A fresh node that is there is completed like one that is not.** -/
theorem Subtree.completion_fresh (shape : Shape) (h : Head) :
    (node h h.kind.freshSlots).completion shape = h.kind.completion shape := by
  rw [completion_node, Kind.completion_eq, Kind.freshSlots, List.map_map, List.zipWith_map_right,
    List.zipWith_self]
  simp

/-- **A slot that a placeholder has come to fill is completed as before.** -/
theorem Property.complete_filled {shape : Shape} {p : Property} {k : Kind} {size : Nat}
    {content content' : Slot (Nat × Subtree)}
    (hp : p ∈ p.owner.properties shape) (hk : p.placeholder = some k)
    (hfits : content.fits p.primary.form = true) (hempty : content.members = [])
    (hfilled : content'.map Prod.fst = (content.map Prod.fst).withMembers [size])
    (hnew : ∀ x ∈ content'.members, x.1 = size → x.2.completion shape = k.completion shape) :
    p.primary.complete shape (Kind.completion shape)
        (content'.map fun x => x.2.completion shape) =
      p.primary.complete shape (Kind.completion shape)
        (content.map fun x => x.2.completion shape) := by
  rcases hform : p.primary.form with ty | ty | ty <;> rw [hform] at hfits
  · rcases content with v | _ | _ <;> try cases hfits
    rcases content' with v' | _ | _ <;> cases hfilled
    rfl
  · rcases content with _ | (_ | c) | _ <;> try cases hfits
    · rcases content' with _ | (_ | x) | _ <;> cases hfilled
      have hx := hnew x (List.mem_singleton_self x) rfl
      have hplace : p.primary.placeholder = some k := by rw [primary_of_child hform, hk]
      simp only [Slot.map, complete, Option.map_some, Option.map_none, hplace, hx]
    · cases hempty
  · rcases content with _ | _ | cs <;> try cases hfits
    obtain rfl : cs = [] := hempty
    rcases content' with _ | _ | xs <;> try cases hfilled
    obtain ⟨x, rfl, hx⟩ : ∃ x, xs = [x] ∧ x.1 = size := by
      have hxs : xs.map Prod.fst = [size] := Slot.list.inj hfilled
      obtain ⟨x, xs, rfl, hx, hnil⟩ := List.map_eq_cons_iff.1 hxs
      obtain rfl := List.map_eq_nil_iff.1 hnil
      exact ⟨x, rfl, hx⟩
    have hx := hnew x (List.mem_singleton_self x) hx
    simp only [Slot.map, complete, List.map_cons, List.map_nil, solePlaceholder?_primary hp hk hform,
      Option.toList_some, hx]

/-- A slot of a row in which one slot may have been changed. -/
theorem modified_slot {α : Type} {c : Prop} [Decidable c] {f : α → α} {xs ys : List α} {s j : Nat}
    {x y : α} (h : (if c then xs.modify s f else xs) = ys) (hx : xs[j]? = some x)
    (hy : ys[j]? = some y) : y = if c ∧ s = j then f x else x := by
  subst h
  by_cases hc : c <;> by_cases hs : s = j <;> simp_all

namespace Tree

variable {t : Tree} {n i : Nat} {p : Property} {k : Kind} {s s' : Subtree}

/-- A record with the slots of a fresh node is completed like one. -/
theorem Shows.completion_fresh {u : Tree} {r : Record} (shape : Shape) (h : u.Shows i s)
    (hr : u.records[i]? = some r) (hslots : r.slots = r.kind.freshSlots) :
    s.completion shape = r.kind.completion shape := by
  cases h with
  | @node _ r' pairs hr' _ hpairs _ =>
    obtain rfl : r = r' := Option.some.inj (hr.symm.trans hr')
    have hfresh : pairs = r.kind.freshSlots := Kind.eq_freshSlots_of_map (hpairs.symm.trans hslots)
    have hslots : pairs.map (Slot.map Prod.snd) = r.kind.freshSlots := by
      rw [hfresh, Kind.freshSlots, Kind.freshSlots, List.map_map]
      simp
    rw [hslots]
    exact Subtree.completion_fresh shape ⟨u.handle i, r.kind, r.range, r.flags⟩

/-- The placeholder that has come to exist is a fresh node. -/
theorem getElem?_materialized_new (hlt : n < t.size) :
    (t.materialized n p k).records[t.size]? = some
      { Record.fresh k t.config.defaultFlags with location := some ⟨n, p.primary⟩ } := by
  have hnew : (t.created k).records[t.size]? = some (.fresh k t.config.defaultFlags) := by
    simp [created, Tree.size]
  rw [materialized_records, Arena.getElem?_rewire, hnew]
  simp [Splice.added, Nat.ne_of_gt hlt]

/-- The slot that is filled, before and after. -/
theorem Lacks.complete_slot {r : Record} {x y : Slot (Nat × Subtree)} (hlacks : t.Lacks n p k)
    (hp : p ∈ p.owner.properties t.shape) (hr : t.records[n]? = some r)
    (hx : r.slots[p.slot]? = some (x.map Prod.fst)) (hfits : x.fits p.primary.form = true)
    (hy : y.map Prod.fst = (x.map Prod.fst).withMembers [t.size])
    (hbelow : ∀ z ∈ y.members, (t.materialized n p k).Shows z.1 z.2) :
    p.primary.complete t.shape (Kind.completion t.shape) (y.map fun z => z.2.completion t.shape) =
      p.primary.complete t.shape (Kind.completion t.shape)
        (x.map fun z => z.2.completion t.shape) := by
  have hempty : x.members = [] := by
    have hunset := hlacks.unset
    rw [Arena.membersAt_of_content hr hx, Slot.members_map] at hunset
    exact List.map_eq_nil_iff.1 hunset
  refine Property.complete_filled hp hlacks.placeholder hfits hempty hy fun z hz hnew => ?_
  have hshows := hbelow z hz
  rw [hnew] at hshows
  exact hshows.completion_fresh _ (getElem?_materialized_new (Arena.lt_size_of_record hr)) rfl

/-- **What comes to exist in a slot that lacks it completes nothing**: it stood in for itself.  The
induction is on the subtree before; the one after has the same slots, but for the one that is filled. -/
theorem Shows.completion_materialized (hlacks : t.Lacks n p k)
    (hp : p ∈ p.owner.properties t.shape) (h : t.Shows i s)
    (h' : (t.materialized n p k).Shows i s') : s'.completion t.shape = s.completion t.shape := by
  induction h generalizing s' with
  | @node i r pairs hr hfits hpairs hbelow ih =>
    cases h' with
    | @node _ r' pairs' hr' hfits' hpairs' hbelow' =>
      rw [getElem?_materialized hr] at hr'
      cases hr'
      simp only at hfits' hpairs'
      rw [hpairs, Kind.fits_map_slots] at hfits
      rw [hpairs', Kind.fits_map_slots] at hfits'
      rw [Subtree.completion_node, Subtree.completion_node]
      refine congrArg _ (List.ext_getElem? fun j => ?_)
      simp only [List.getElem?_zipWith, List.getElem?_map, Option.map_map]
      rcases hq : r.kind.storage[j]? with _ | q
      · rfl
      obtain ⟨x, hx, hform⟩ := Kind.exists_slot_of_fits hfits hq
      obtain ⟨y, hy, -⟩ := Kind.exists_slot_of_fits hfits' hq
      have hx' : r.slots[j]? = some (x.map Prod.fst) := by
        rw [hpairs, List.getElem?_map, hx, Option.map_some]
      have hcontent : y.map Prod.fst = if i = n ∧ p.slot = j
          then (x.map Prod.fst).withMembers [t.size] else x.map Prod.fst :=
        modified_slot hpairs' hx' (by rw [List.getElem?_map, hy, Option.map_some])
      rw [hx, hy]
      simp only [Option.map_some, Function.comp_def, Slot.map_map, Option.some.injEq]
      split at hcontent
      · next hfilled =>
        obtain ⟨rfl, rfl⟩ := hfilled
        obtain ⟨r', hr', howner, -⟩ := hlacks.offers
        obtain rfl : r = r' := Option.some.inj (hr.symm.trans hr')
        obtain rfl : p.primary = q := Option.some.inj (p.storage_primary.symm.trans (howner ▸ hq))
        exact hlacks.complete_slot hp hr hx' hform hcontent (hbelow' y (List.mem_of_getElem? hy))
      · refine congrArg _ (Slot.map_eq_map_of_keys hcontent fun c hc d hd hcd => ?_)
        exact ih x (List.mem_of_getElem? hx) d hd
          (hcd ▸ hbelow' y (List.mem_of_getElem? hy) c hc)

end Tree

end SyntaxForest
