import SyntaxForest.Proofs.Subtree.Replanting
import SyntaxForest.Subtree.Outline

/-!
# Proofs/Subtree/Bare — subtrees without handles and marks

A handle says which node of which tree was read, and a mark says what may be done with it.  A **bare** subtree
has neither: kinds, ranges, scalars and children are left.  This is what an image keeps, and what an outline
shows.

* `Subtree.fold_bare` — what looks at neither finds the same in the bare subtree.
* `Subtree.rowFrom_eq_iff` — **images have the same nodes exactly if the bare subtrees are the same**.
-/

namespace SyntaxForest

/-- The head without its handle and its marks. -/
def Head.bare (h : Head) : Head := { h with node := ⟨0, 0⟩, flags := {} }

namespace Subtree

variable {s s' : Subtree}

/-- **The subtree without handles and marks.** -/
def bare (s : Subtree) : Subtree := s.fold fun h slots => node h.bare slots

theorem bare_node (h : Head) (ss : List (Slot Subtree)) :
    (node h ss).bare = node h.bare (ss.map (Slot.map bare)) := by
  unfold bare
  rw [fold_node]

/-- **What looks at neither handles nor marks** finds the same in the bare subtree. -/
theorem fold_bare {β : Type} {f : Head → List (Slot β) → β} (hf : ∀ h slots, f h.bare slots = f h slots)
    (s : Subtree) : s.bare.fold f = s.fold f := by
  induction s using Subtree.induct with
  | node h ss ih =>
    have hslots : ss.map (Slot.map fun c => c.bare.fold f) = ss.map (Slot.map (fold f)) :=
      Slot.map_map_eq_of_keys (a := id) (b := id) rfl
        fun slot hslot c hc _ _ d _ (hcd : c = d) => hcd ▸ ih slot hslot c hc
    rw [bare_node, fold_node, fold_node, hf, ← hslots]
    simp [Function.comp_def]

theorem rowFrom_bare (s : Subtree) : s.bare.rowFrom = s.rowFrom :=
  fold_bare (fun _ _ => rfl) s

theorem outline_bare (s : Subtree) : s.bare.outline = s.outline :=
  fold_bare (fun _ _ => rfl) s

/-- **A row determines the bare subtree of each of its blocks.** -/
theorem bare_eq_of_rowFrom {row : List ImageNode} {start : Nat} (h : s.rowFrom start <+: row.drop start)
    (h' : s'.rowFrom start <+: row.drop start) : s.bare = s'.bare := by
  induction s using Subtree.induct generalizing start s' with
  | node head ss ih =>
    obtain ⟨head', ss'⟩ := s'
    obtain ⟨pairs, rfl, hnode, hblocks⟩ := exists_blocks h
    obtain ⟨pairs', rfl, hnode', hblocks'⟩ := exists_blocks h'
    obtain ⟨hkind, hrange, hkeys⟩ := ImageNode.mk.inj (Option.some.inj (hnode.symm.trans hnode'))
    have hbare : pairs.map (Slot.map fun x => x.2.bare) = pairs'.map (Slot.map fun x => x.2.bare) := by
      refine Slot.map_map_eq_of_keys hkeys fun slot hslot x hx slot' hslot' x' hx' hxx => ?_
      refine ih _ (List.mem_map_of_mem hslot) x.2 ?_ (hblocks slot hslot x hx)
        (hxx ▸ hblocks' slot' hslot' x' hx')
      rw [Slot.members_map]
      exact List.mem_map_of_mem hx
    rw [bare_node, bare_node, Head.bare, Head.bare, hkind, hrange]
    simpa [Function.comp_def] using hbare

/-- **Images have the same nodes exactly if the bare subtrees are the same.** -/
theorem rowFrom_eq_iff : s.rowFrom 0 = s'.rowFrom 0 ↔ s.bare = s'.bare := by
  constructor
  · intro h
    have hrow : s.rowFrom 0 <+: (s.rowFrom 0).drop 0 := List.prefix_refl _
    exact bare_eq_of_rowFrom hrow (h ▸ hrow)
  · intro h
    rw [← rowFrom_bare s, h, rowFrom_bare]

end Subtree

end SyntaxForest
