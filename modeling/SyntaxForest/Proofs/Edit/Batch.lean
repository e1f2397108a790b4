import SyntaxForest.Proofs.Edit.View

/-!
# Proofs/Edit/Batch — to insert a batch is to insert its nodes one by one

A batch is checked against the tree as it is before the first node comes in, and a row of pushes asks
before each of them.  Both come to the same row of splices: a node that is welcome stays so while others
come in (`Tree.Welcomes.splice`), and a node that is welcome after another came in was welcome before
(`Tree.Welcomes.of_splice`).

* `Tree.Splices.slotAt` — what the slot of a list holds after a row of splices.
* `Tree.Splices.welcomes` — **whoever comes in along the way was welcome at the start**, and none comes
  twice.
* `Sequence.extend_eq_ok`, `Sequence.pushEach_eq_ok` — both are the row of splices, and nothing else.
* `Tree.Batches` — what this says of a list, shown of every usable one by `Sequence.Open.batches`.
-/

namespace SyntaxForest

theorem insertIdx_eq_append {α : Type} {xs : List α} {i : Nat} {x : α} (hi : i ≤ xs.length) :
    xs.insertIdx i x = xs.take i ++ x :: xs.drop i := by
  induction xs generalizing i with
  | nil =>
    obtain rfl := Nat.le_zero.1 hi
    rfl
  | cons y ys ih =>
    rcases i with _ | i
    · rfl
    · rw [List.insertIdx_succ_cons, ih (Nat.le_of_succ_le_succ hi)]
      rfl

namespace Tree

variable {t t' t'' : Tree} {n c d i : Nat} {p : Property} {x : Splice} {xs : List Splice}
  {items ds : List Nat}

/-! ## Rows of splices -/

/-- **What a list holds after a row of splices**: each does its part. -/
theorem Splices.slotAt (h : Splices n p t xs t')
    (hs : Arena.slotAt t.records n p.slot = some (.list items)) :
    Arena.slotAt t'.records n p.slot = some (.list (xs.foldl (fun cs x => x.apply cs) items)) := by
  induction h generalizing items with
  | nil t => exact hs
  | cons _ _ ih => exact ih (Sequence.slotAt_splice hs)

/-- A row of splices changes records only, besides the stamp and what is announced. -/
theorem Splices.keeps (h : Splices n p t xs t') :
    t'.id = t.id ∧ t'.config = t.config ∧ t'.observer = t.observer := by
  induction h with
  | nil _ => exact ⟨rfl, rfl, rfl⟩
  | cons _ _ ih => simpa using ih

theorem Splices.handle_eq (h : Splices n p t xs t') : t'.handle = t.handle := by
  funext i
  rw [handle, handle, h.keeps.1]

/-- A row of splices leads to one tree only. -/
theorem Splices.unique (h : Splices n p t xs t') (h' : Splices n p t xs t'') : t' = t'' := by
  induction h with
  | nil t =>
    cases h'
    rfl
  | cons _ _ ih =>
    cases h' with
    | cons _ h' => exact ih h'

/-- A row of one splice. -/
theorem Splices.single_iff : Splices n p t [x] t' ↔ t.Allows n p x ∧ t' = t.splice n p x := by
  constructor
  · intro h
    cases h with
    | cons hx hnil =>
      cases hnil
      exact ⟨hx, rfl⟩
  · rintro ⟨hx, rfl⟩
    exact .single hx

/-- What a batch makes of a list. -/
theorem foldl_insertions (hi : i ≤ items.length) :
    (Sequence.insertions i ds).foldl (fun cs x => x.apply cs) items =
      items.take i ++ ds ++ items.drop i := by
  induction ds generalizing i items with
  | nil => simp [Sequence.insertions]
  | cons d ds ih =>
    have hlen : (items.take i ++ [d]).length = i + 1 := by simp [hi]
    have hins : (Splice.insert i d).apply items = (items.take i ++ [d]) ++ items.drop i := by
      rw [Splice.apply, insertIdx_eq_append hi, List.append_assoc]
      rfl
    rw [Sequence.insertions, List.foldl_cons, hins, ih (by rw [List.length_append, hlen]; omega),
      ← hlen, List.take_left, List.drop_left]
    simp

/-! ## Nobody becomes welcome by the arrival of another -/

/-- A protected node does not lose its protection. -/
theorem Modifiable.of_splice (h : (t.splice n p x).Modifiable i) : t.Modifiable i := by
  obtain ⟨r', hr', hprotect⟩ := h
  rw [splice_records, Arena.getElem?_rewire] at hr'
  obtain ⟨r, hr, rfl⟩ := Option.map_eq_some_iff.1 hr'
  exact ⟨r, hr, hprotect⟩

/-- **Who is welcome after another came in was welcome before**, and is not that other. -/
theorem Welcomes.of_splice (hf : Arena.Forest t.records) (hx : t.Allows n p x)
    (hremoved : x.removed = none) (h : (t.splice n p x).Welcomes n p d) :
    t.Welcomes n p d ∧ x.added ≠ some d := by
  have hmodifiable := h.modifiable.of_splice
  have hne : x.added ≠ some d := fun hadded => by
    have hloc := hx.admits.locationAt_added hadded
    rw [← splice_records, h.free] at hloc
    cases hloc
  refine ⟨⟨?_, fun chain hchain => ?_, hmodifiable, ?_⟩, hne⟩
  · have hfree := h.free
    rwa [splice_records, Arena.locationAt_rewire hmodifiable.lt_size, if_neg hne, hremoved,
      if_neg nofun] at hfree
  · exact h.below chain (splice_records ▸ hf.chain_rewire hx.admits hchain)
  · obtain ⟨k, ty, hk, hconf⟩ := h.conforms
    exact ⟨k, ty, by rwa [splice_records, Arena.kindAt_rewire] at hk, hconf⟩

/-- **Whoever comes in along the way was welcome at the start**, and none comes twice. -/
theorem Splices.welcomes (hf : Arena.Forest t.records)
    (h : Splices n p t (Sequence.insertions i ds) t') :
    ds.Nodup ∧ ∀ d ∈ ds, t.Welcomes n p d := by
  induction ds generalizing t i with
  | nil => exact ⟨List.nodup_nil, List.forall_mem_nil _⟩
  | cons c ds ih =>
    cases h with
    | cons hc h =>
      obtain ⟨hnodup, hw⟩ := ih (hc.forest hf) h
      have hback := fun d hd => Welcomes.of_splice hf hc rfl (hw d hd)
      refine ⟨List.nodup_cons.2 ⟨fun hmem => (hback c hmem).2 rfl, hnodup⟩, ?_⟩
      exact List.forall_mem_cons.2 ⟨hc.welcomes c rfl, fun d hd => (hback d hd).1⟩

end Tree

/-! ## Batches and single insertions -/

namespace Sequence

open TreeM

variable {t t' : Tree} {s : Sequence} {c : NodeId} {cs : List NodeId} {index : Nat} {items : List Nat}

/-- Pushes nodes, one after the other. -/
def pushEach (s : Sequence) : List NodeId → TreeM Unit
  | [] => return
  | c :: cs => do
    s.push c
    s.pushEach cs

/-- **An insertion is a splice.** -/
theorem insert_eq_ok (hf : Arena.Forest t.records) (ho : s.Open t) :
    s.insert index c t = .ok () t' ↔ ∃ d, c = t.handle d ∧
      t.Allows s.node.index s.property (.insert index d) ∧
      t' = t.splice s.node.index s.property (.insert index d) := by
  constructor
  · intro h
    obtain ⟨ds, hds, hsplices⟩ := (insertAll_settles hf ho).atomic.of_ok_eq h
    obtain ⟨d, rfl, rfl⟩ := List.map_eq_singleton_iff.1 hds.symm
    exact ⟨d, rfl, Tree.Splices.single_iff.1 hsplices⟩
  · rintro ⟨d, rfl, hallows, rfl⟩
    exact insert_run hf ho hallows

/-- …and so is a push, at the end. -/
theorem push_eq_ok (hf : Arena.Forest t.records) (ho : s.Open t) (hitems : t.items s = .ok items) :
    s.push c t = .ok () t' ↔ ∃ d, c = t.handle d ∧
      t.Allows s.node.index s.property (.insert items.length d) ∧
      t' = t.splice s.node.index s.property (.insert items.length d) := by
  rw [push_eq_insert c hitems]
  exact insert_eq_ok hf ho

/-- A batch of welcome nodes comes in at the end. -/
theorem extend_run {ds : List Nat} (hf : Arena.Forest t.records) (ho : s.Open t)
    (hm : t.Modifiable s.node.index) (hitems : t.items s = .ok items) (hds : ds.Nodup)
    (hw : ∀ d ∈ ds, t.Welcomes s.node.index s.property d) :
    ∃ t', s.extend (ds.map t.handle) t = .ok () t' ∧
      Tree.Splices s.node.index s.property t (insertions items.length ds) t' := by
  rw [extend, look_bind_run hitems]
  exact insertAll_run hf ho hm (items_eq_ok.1 hitems).2 (Nat.le_refl _) hds hw

/-- **A batch is a row of splices**, if it is not empty. -/
theorem extend_eq_ok (hf : Arena.Forest t.records) (ho : s.Open t) (hitems : t.items s = .ok items)
    (hcs : cs ≠ []) : s.extend cs t = .ok () t' ↔ ∃ ds, cs = ds.map t.handle ∧
      Tree.Splices s.node.index s.property t (insertions items.length ds) t' := by
  constructor
  · intro h
    obtain ⟨items', ds, hitems', hds, hsplices⟩ := (extend_settles hf ho).atomic.of_ok_eq h
    obtain rfl := Except.ok.inj (hitems.symm.trans hitems')
    exact ⟨ds, hds, hsplices⟩
  · rintro ⟨ds, rfl, hsplices⟩
    obtain ⟨hnodup, hw⟩ := hsplices.welcomes hf
    have hm : t.Modifiable s.node.index := by
      rcases ds with _ | ⟨d, ds⟩
      · exact absurd rfl hcs
      · cases hsplices with
        | cons hx _ => exact hx.modifiable
    obtain ⟨t'', hrun, hsplices'⟩ := extend_run hf ho hm hitems hnodup hw
    rw [hrun, hsplices.unique hsplices']

/-- **So is a row of pushes.** -/
theorem pushEach_eq_ok (hf : Arena.Forest t.records) (ho : s.Open t) (hitems : t.items s = .ok items) :
    s.pushEach cs t = .ok () t' ↔ ∃ ds, cs = ds.map t.handle ∧
      Tree.Splices s.node.index s.property t (insertions items.length ds) t' := by
  induction cs generalizing t items with
  | nil =>
    constructor
    · rintro ⟨⟩
      exact ⟨[], rfl, .nil _⟩
    · rintro ⟨ds, hds, hsplices⟩
      obtain rfl := List.map_eq_nil_iff.1 hds.symm
      cases hsplices
      rfl
  | cons c cs ih =>
    -- what the rest finds after the first push
    have hafter : ∀ {d}, t.Allows s.node.index s.property (.insert items.length d) →
        (s.pushEach cs (t.splice s.node.index s.property (.insert items.length d)) = .ok () t' ↔
          ∃ ds, cs = ds.map t.handle ∧ Tree.Splices s.node.index s.property
            (t.splice s.node.index s.property (.insert items.length d))
            (insertions (items.length + 1) ds) t') := fun {d} hallows => by
      have hitems' := items_eq_ok.2 ⟨ho.splice.owned, slotAt_splice (x := .insert items.length d)
        (items_eq_ok.1 hitems).2⟩
      have h := ih (hallows.forest hf) ho.splice hitems'
      rwa [Splice.apply, List.length_insertIdx_of_le_length (Nat.le_refl _), Tree.splice_handle] at h
    constructor
    · intro h
      obtain ⟨_, t₁, hpush, hrest⟩ := exists_of_bind_ok h
      obtain ⟨d, rfl, hallows, rfl⟩ := (push_eq_ok hf ho hitems).1 hpush
      obtain ⟨ds, rfl, hsplices⟩ := (hafter hallows).1 hrest
      exact ⟨d :: ds, rfl, .cons hallows hsplices⟩
    · rintro ⟨ds, hds, hsplices⟩
      obtain ⟨d, ds, rfl, rfl, hcs⟩ := List.map_eq_cons_iff.1 hds.symm
      cases hsplices with
      | cons hallows hsplices =>
        rw [pushEach, bind_of_ok ((push_eq_ok hf ho hitems).2 ⟨d, rfl, hallows, rfl⟩)]
        exact (hafter hallows).2 ⟨ds, hcs.symm, hsplices⟩

end Sequence

/-! ## What this says of a list -/

/-- **To insert a batch is to insert its nodes one by one**, all of them or none; and what comes in comes
in where it is put. -/
structure Tree.Batches (t : Tree) (s : Sequence) (items : List NodeId) : Prop where
  /-- a batch comes in exactly if its nodes can be pushed one after the other; the trees are the same, with
  what was announced on the way to them -/
  extend_iff : ∀ cs, cs ≠ [] → ∀ t', s.extend cs t = .ok () t' ↔ s.pushEach cs t = .ok () t'
  elements_extend : ∀ cs t', s.extend cs t = .ok () t' → t'.elements s = .ok (items ++ cs)
  elements_insert : ∀ i c t', s.insert i c t = .ok () t' →
    i ≤ items.length ∧ t'.elements s = .ok (items.take i ++ c :: items.drop i)
  /-- a batch that does not come in leaves nothing behind, however many of its nodes could have been pushed -/
  unchanged : ∀ cs e t', s.extend cs t = .error e t' → t' = t

namespace Sequence

variable {t t' : Tree} {s : Sequence} {i : Nat} {items ds : List Nat}

/-- The elements of a list after a batch came in. -/
theorem elements_insertions (ho : s.Open t) (hitems : t.items s = .ok items) (hi : i ≤ items.length)
    (h : Tree.Splices s.node.index s.property t (insertions i ds) t') : t'.elements s =
      .ok ((items.map t.handle).take i ++ ds.map t.handle ++ (items.map t.handle).drop i) := by
  obtain ⟨-, hs⟩ := items_eq_ok.1 hitems
  have hs' := h.slotAt hs
  rw [Tree.foldl_insertions hi] at hs'
  refine elements_eq_ok.2 ⟨_, items_eq_ok.2 ⟨ho.owned.trans h.keeps.1.symm, hs'⟩, ?_⟩
  rw [h.handle_eq, List.map_append, List.map_append, List.map_take, List.map_drop]

/-- **Every usable list takes batches node by node.** -/
theorem Open.batches (hf : Arena.Forest t.records) (ho : s.Open t) (hitems : t.items s = .ok items) :
    t.Batches s (items.map t.handle) where
  extend_iff cs hcs t' := by rw [extend_eq_ok hf ho hitems hcs, pushEach_eq_ok hf ho hitems]
  elements_extend cs t' h := by
    obtain ⟨items', ds, hitems', rfl, hsplices⟩ := (extend_settles hf ho).atomic.of_ok_eq h
    obtain rfl := Except.ok.inj (hitems.symm.trans hitems')
    rw [elements_insertions ho hitems (Nat.le_refl _) hsplices, ← List.length_map t.handle,
      List.take_length, List.drop_length, List.append_nil]
  elements_insert i c t' h := by
    obtain ⟨d, rfl, hallows, rfl⟩ := (insert_eq_ok hf ho).1 h
    have hi := hallows.applies
    rw [Arena.membersAt_of_slot (items_eq_ok.1 hitems).2] at hi
    have hrow : Tree.Splices s.node.index s.property t (insertions i [d]) _ := .single hallows
    rw [List.length_map, elements_insertions ho hitems hi hrow]
    exact ⟨hi, by simp⟩
  unchanged cs e t' h := (extend_settles hf ho).atomic.unchanged h

end Sequence

end SyntaxForest
