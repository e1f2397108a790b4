import SyntaxForest.Proofs.Edit.Balance
import SyntaxForest.Proofs.Session.Walks

/-!
# Proofs/Session/Footprints — what edits cost, in every reachable session

The footprint of a subtree is read anew each time, node by node.  It need not be: who knows the footprints of
all nodes before an edit, and which nodes came and went, knows them afterwards.

* `Session.footprints_balanced` — **in a reachable session the footprints account for each other**.
-/

namespace SyntaxForest

namespace Session

variable {s : Session} {t t' : Tree} {n : NodeId} {e : Edit} {reply : Reply}

/-- **The footprints account for each other.**  A structural edit takes some nodes away from a node and brings
some in (`Edit.Exchanges`).  The footprints of the node and of all nodes above it grow by what the new ones take, and
shrink by what the old ones took.  All other nodes take what they took, those that came and those that went among
them; and a node that was made on the way takes what it takes alone. -/
theorem footprints_balanced (h : Reachable s) (ht : t ∈ s.trees) (he : Edit.Structural t n e)
    (hrun : e.run t = .ok reply t') : ∃ out inn above lost gained, Edit.Exchanges t n e reply out inn ∧
      t.ancestors n = .ok above ∧ out.mapM t.subtreeFootprint = .ok lost ∧
      inn.mapM t'.subtreeFootprint = .ok gained ∧
      (∀ a ∈ above, ∃ before after, t.subtreeFootprint a = .ok before ∧ t'.subtreeFootprint a = .ok after ∧
        after + total lost = before + total gained) ∧
      (∀ m ∈ t.nodes, m ∉ above →
        ∃ weight, t.subtreeFootprint m = .ok weight ∧ t'.subtreeFootprint m = .ok weight) ∧
      (∀ m ∈ out ++ inn, m ∉ above) ∧
      ∀ m ∈ inn, m ∉ t.nodes → t'.subtreeFootprint m = t'.footprint m := by
  have hsound := h.tree_sound ht
  have hafter : TreeM.after e.run t = t' := by rw [TreeM.after, hrun]
  have hreaches := hafter ▸ e.run_reaches hsound (e.obeys_declared t)
  have hf := hsound.forest
  have hf' := (hreaches.sound hsound).forest
  have hv := h.tree_visible ht
  have hv' := hreaches.visible hsound hv
  obtain ⟨out, inn, hx⟩ := he.exchanges hrun
  have htrades := hx.trades hf hrun
  have hbalanced := htrades.balanced hf hf' hv hv'
  have hold : ∀ m ∈ t.nodes, t.subtreeFootprint m = .ok (t.weight m.index) :=
    fun m hm => Tree.subtreeFootprint_eq_ok hf hm
  have hnew : ∀ m ∈ t.nodes, t'.subtreeFootprint m = .ok (t'.weight m.index) := fun m hm =>
    Tree.subtreeFootprint_eq_ok hf' (htrades.confined.keeps_nodes hm)
  obtain ⟨above, habove⟩ := Tree.exists_ancestors hf htrades.site
  have hbelow : ∀ m, m ∈ above ↔ m ∈ t.nodes ∧ Arena.Below t.records m.index n.index :=
    fun m => Tree.mem_ancestors_iff habove
  refine ⟨out, inn, above, _, _, hx, habove, Tree.mapM_subtreeFootprint hf (htrades.gone_mem hf),
    Tree.mapM_subtreeFootprint hf' htrades.come_mem, fun a ha => ?_, fun m hm hapart => ?_,
    fun m hm hmem => ?_, fun m hm hmade => ?_⟩
  · obtain ⟨hmem, hup⟩ := (hbelow a).1 ha
    exact ⟨_, _, hold a hmem, hnew a hmem, hbalanced.above _ hup⟩
  · have hsite : ¬Arena.Below t.records m.index n.index := fun hsite => hapart ((hbelow m).2 ⟨hm, hsite⟩)
    refine ⟨_, hold m hm, ?_⟩
    rw [hnew m hm, hbalanced.beside _ (Tree.mem_nodes.1 hm).2 hsite]
  · refine hbalanced.apart m.index ?_ ((hbelow m).1 hmem).2
    rw [← List.map_append]
    exact List.mem_map_of_mem hm
  · obtain hmem | ⟨hmem, hbare⟩ := htrades.come m hm
    · exact absurd hmem hmade
    · rw [Tree.subtreeFootprint_eq_ok hf' hmem, Tree.footprint_eq_ok hmem,
        Tree.weight_eq hf' hv' (Tree.mem_nodes.1 hmem).2, hbare]
      rfl

/-- The commands that make a conditional with a cast of a name in its first branch, and beside it another
conditional. -/
def branchCast : List Command :=
  [.edit 0 (.create .conditionalExpression), .edit 0 (.create .castExpression),
    .edit 0 (.list ⟨0, 0⟩ .thenElements (.push ⟨0, 1⟩)), .edit 0 (.child ⟨0, 1⟩ .castExpression),
    .edit 0 (.create .conditionalExpression)]

/-- The tree that these commands make. -/
def castInBranch : Tree where
  id := 0
  config := ⟨.current, {}⟩
  records := #[⟨.conditionalExpression, none, {}, none, [.list [], .list [1], .list []]⟩,
    ⟨.castExpression, none, {}, some ⟨0, .thenElements⟩, [.list [], .child (some 2)]⟩,
    ⟨.simpleName, none, {}, some ⟨1, .castExpression⟩, [.scalar (.symbol "MISSING")]⟩,
    .fresh .conditionalExpression {}]
  stamp := 1
  observer := none
  journal := #[]

/-- That tree with the other conditional in the cast. -/
def castInBranchOfConditional : Tree :=
  { castInBranch with
    records := #[⟨.conditionalExpression, none, {}, none, [.list [], .list [1], .list []]⟩,
      ⟨.castExpression, none, {}, some ⟨0, .thenElements⟩, [.list [], .child (some 3)]⟩,
      .fresh .simpleName {},
      ⟨.conditionalExpression, none, {}, some ⟨1, .castExpression⟩, [.list [], .list [], .list []]⟩]
    stamp := 2 }

/-- In the cast a conditional takes the place of a name that took less: the conditional around the cast takes as
much more. -/
theorem footprints_balanced_castInBranch : ∃ s t t', Reachable s ∧ t ∈ s.trees ∧
    (Edit.setChild ⟨0, 1⟩ .castExpression ⟨0, 3⟩).run t = .ok .done t' ∧
    t.ancestors ⟨0, 1⟩ = .ok [⟨0, 1⟩, ⟨0, 0⟩] ∧
    t.subtreeFootprint ⟨0, 2⟩ = .ok 48 ∧ t'.subtreeFootprint ⟨0, 3⟩ = .ok 52 ∧
    t.subtreeFootprint ⟨0, 0⟩ = .ok 148 ∧ t'.subtreeFootprint ⟨0, 0⟩ = .ok 152 := by
  have hs : Reachable (played [⟨.current, {}⟩] branchCast) := .played _ _
  have ht : castInBranch ∈ (played [⟨.current, {}⟩] branchCast).trees :=
    Array.mem_of_getElem? (i := 0) rfl
  have hpeek : castInBranch.peekChild ⟨0, 1⟩ .castExpression = .ok (some ⟨0, 2⟩) := rfl
  have hrun : (Edit.setChild ⟨0, 1⟩ .castExpression ⟨0, 3⟩).run castInBranch =
    .ok .done castInBranchOfConditional := rfl
  obtain ⟨_, _, above, lost, gained, ⟨hold⟩, habove, hlost, hgained, hsizes, -⟩ :=
    footprints_balanced hs ht (.setChild _ _) hrun
  obtain rfl := Except.ok.inj (hold.symm.trans hpeek)
  have hup : castInBranch.ancestors ⟨0, 1⟩ = .ok [⟨0, 1⟩, ⟨0, 0⟩] := rfl
  have hname : [⟨0, 2⟩].mapM castInBranch.subtreeFootprint = .ok [48] := rfl
  have hother : [⟨0, 3⟩].mapM castInBranchOfConditional.subtreeFootprint = .ok [52] := rfl
  have hbefore : castInBranch.subtreeFootprint ⟨0, 0⟩ = .ok 148 := rfl
  obtain rfl := Except.ok.inj (habove.symm.trans hup)
  obtain rfl := Except.ok.inj (hlost.symm.trans hname)
  obtain rfl := Except.ok.inj (hgained.symm.trans hother)
  obtain ⟨before, after, hbefore', hafter, hsum⟩ := hsizes ⟨0, 0⟩ (by decide)
  obtain rfl : before = 148 := Except.ok.inj (hbefore'.symm.trans hbefore)
  obtain rfl : after = 152 := by
    simp only [total_cons, total_nil] at hsum
    omega
  exact ⟨_, _, _, hs, ht, hrun, hup, rfl, rfl, hbefore, hafter⟩

end Session

end SyntaxForest
