import SyntaxForest.Proofs.Subtree.Reading
import SyntaxForest.Proofs.Subtree.Stroll

/-!
# Proofs/Subtree/Children — the children that a shape shows

A fold that looks only at the slots that a shape reads is a fold over the children that it shows
(`Subtree.liveChildren`).  In the arena these are the indices `Tree.shown`, in the same order.

* `Subtree.map_liveChildren` — the values of the children shown, from those in all slots.
* `Tree.Shows.exists_children` — **the children shown stand beside the indices shown**.
* `map_eq_map_of_keys` — two readings of one row agree if they agree index by index.
-/

namespace SyntaxForest

/-! ## Two readings of one row -/

section Keys

variable {α β κ δ : Type} {a : α → κ} {b : β → κ} {f : α → δ} {g : β → δ}

/-- Rows that agree in their keys agree in what the keys determine. -/
theorem map_eq_map_of_keys {xs : List α} {ys : List β} (h : xs.map a = ys.map b)
    (hfg : ∀ x ∈ xs, ∀ y ∈ ys, a x = b y → f x = g y) : xs.map f = ys.map g := by
  induction xs generalizing ys with
  | nil =>
    obtain rfl := List.map_eq_nil_iff.1 h.symm
    rfl
  | cons x xs ih =>
    obtain ⟨y, ys, rfl, hy, hys⟩ := List.map_eq_cons_iff.1 h.symm
    have hrest := ih hys.symm fun x hx y hy =>
      hfg x (List.mem_cons_of_mem _ hx) y (List.mem_cons_of_mem _ hy)
    rw [List.map_cons, List.map_cons, hrest,
      hfg x List.mem_cons_self y List.mem_cons_self hy.symm]

end Keys

/-! ## The children shown of a subtree -/

/-- The slots that a shape reads do not depend on what they hold. -/
theorem Kind.liveOnly_map {α β : Type} (shape : Shape) (k : Kind) (f : α → β) (xs : List α) :
    k.liveOnly shape (xs.map f) = (k.liveOnly shape xs).map f := by
  rw [liveOnly, liveOnly, List.zipIdx_map, List.filterMap_map, List.map_filterMap]
  refine congrArg (List.filterMap · _) (funext fun (x, slot) => ?_)
  change (if k.slotIsLive shape slot then some (f x) else none) =
    (if k.slotIsLive shape slot then some x else none).map f
  split <;> rfl

/-- **The values of the children shown** are those that stand in the slots that are read. -/
theorem Subtree.map_liveChildren {β : Type} (shape : Shape) (f : Subtree → β) (h : Head)
    (ss : List (Slot Subtree)) :
    (h.kind.liveOnly shape (ss.map (Slot.map f))).flatMap Slot.members =
      ((node h ss).liveChildren shape).map f := by
  rw [Kind.liveOnly_map, Slot.flatMap_members_map]
  rfl

namespace Tree

variable {t : Tree} {i : Nat} {s : Subtree}

theorem Shows.lt_size (h : t.Shows i s) : i < t.records.size := by
  cases h with
  | node hr _ _ _ => exact Arena.lt_size_of_record hr

theorem Shows.exists_record (h : t.Shows i s) :
    ∃ r, t.records[i]? = some r ∧ s.head = ⟨t.handle i, r.kind, r.range, r.flags⟩ := by
  cases h with
  | node hr _ _ _ => exact ⟨_, hr, rfl⟩

theorem Shows.node_eq (h : t.Shows i s) : s.head.node = t.handle i := by
  obtain ⟨r, -, hhead⟩ := h.exists_record
  rw [hhead]

/-- **The children shown of a subtree stand beside the indices that the arena shows.** -/
theorem Shows.exists_children (h : t.Shows i s) :
    ∃ children : List (Nat × Subtree), children.map Prod.fst = t.shown i ∧
      children.map Prod.snd = s.liveChildren t.shape ∧ ∀ x ∈ children, t.Shows x.1 x.2 := by
  cases h with
  | @node _ r pairs hr hfits hslots hx =>
    refine ⟨(r.kind.liveOnly t.shape pairs).flatMap Slot.members, ?_, ?_, fun x hmem => ?_⟩
    · rw [shown, Arena.shown, hr, ← Slot.flatMap_members_map, ← Kind.liveOnly_map, ← hslots]
      rfl
    · rw [← Slot.flatMap_members_map, ← Kind.liveOnly_map]
      rfl
    · obtain ⟨slot, hslot, hmem⟩ := List.mem_flatMap.1 hmem
      exact hx slot ((Kind.liveOnly_sublist _ _ _).subset hslot) x hmem

end Tree

end SyntaxForest
