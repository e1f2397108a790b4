import SyntaxForest.Proofs.Session.Copies
import SyntaxForest.Proofs.Session.Walks
import SyntaxForest.Proofs.Subtree.Costs

/-!
# Proofs/Session/Costs — footprints are of the nodes that a walk enters

The footprint of a node is found by going down, the walk goes by parents and siblings, and a copy is made of an
image.  In a reachable session all three are of the same nodes with the same texts, so that no copy takes more
room or less than its original, in a tree of either shape.

* `Session.footprints_copied` — **a subtree takes as much as the nodes of its walk**, and a copy as much, node by
  node.
-/

namespace SyntaxForest

namespace Session

variable {s s' : Session} {i j : Nat} {t : Tree} {n copy : NodeId}

/-- A copy is grafted. -/
theorem Copies.grafted {c : Command} (hc : Copies i n j c) (h : s.Sound .declared)
    (hrun : run c s = .ok (.node copy) s') : ∃ t u image u', s.trees[i]? = some t ∧ s.trees[j]? = some u ∧
      t.snapshot n = .ok image ∧ u.Grafted image copy u' ∧
      s' = { s with trees := s.trees.setIfInBounds j u' } := by
  obtain ⟨t, u, image, u', ht, hu, hsnap, hgraft, rfl⟩ := hc.run_eq_ok hrun
  have hi : image.Sound .declared := Tree.snapshot_sound (h.trees ht).typed hsnap
  obtain ⟨hcheck, rfl, rfl⟩ := (Image.graft_atomic hi).of_ok_eq hgraft
  obtain ⟨a, -, himage⟩ := bind_eq_ok.1 hsnap
  cases himage
  exact ⟨t, u, _, _, ht, hu, hsnap, Tree.grafted (h.trees hu) hi hcheck, rfl⟩

/-- **The footprint of a subtree is that of the nodes which a walk enters.**  After every copy that is made of the
node, in its own tree or in another one, this is as it was; and the copy has the same footprint, that of as many
nodes, each of which takes as much as the one at its place in the walk of the original. -/
theorem footprints_copied (h : Reachable s) (ht : s.trees[i]? = some t) (hn : n ∈ t.nodes) :
    ∃ costs, t.Tallies n costs ∧ ∀ c j copy s', Copies i n j c → run c s = .ok (.node copy) s' →
      ∃ t' u, s'.trees[i]? = some t' ∧ s'.trees[j]? = some u ∧
        t'.Tallies n costs ∧ u.Tallies copy costs := by
  obtain ⟨htree, hlt⟩ := Tree.mem_nodes.1 hn
  have hf := (h.sound.trees ht).forest
  obtain ⟨a, hshows, -, hown⟩ := Tree.exists_subtree hf htree hlt
  refine ⟨a.costs, hshows.tallies hf (h.visible ht) htree, fun c j copy s' hc hrun => ?_⟩
  have h' : Reachable s' := by
    have hstep := h.step c
    rwa [after, hrun] at hstep
  obtain ⟨t, u, image, u', ht₁, hu, hsnap, hgrafted, rfl⟩ := hc.grafted h.sound hrun
  cases ht.symm.trans ht₁
  cases (bind_eq_ok.2 ⟨a, hown, rfl⟩ : t.snapshot n = .ok a.image).symm.trans hsnap
  obtain ⟨t', ht', hextends⟩ := exists_setIfInBounds hu hgrafted.toExtends ht (.refl t)
  have hu' := getElem?_setIfInBounds_same hu u'
  have hf' := (h'.sound.trees ht').forest
  refine ⟨t', u', ht', hu', ?_, ?_⟩
  · exact (hextends.shows hshows).tallies hf' (h'.visible ht') (htree.trans hextends.id.symm)
  · -- the copy has the image of its original, and an image decides what the nodes cost
    obtain ⟨b, hb, himage⟩ := bind_eq_ok.1 hgrafted.image
    have hrow : b.rowFrom 0 = a.rowFrom 0 := congrArg Image.nodes (Except.ok.inj himage)
    obtain ⟨⟨⟩, hcopy, hunfold⟩ := bind_eq_ok.1 hb
    rw [← Subtree.costs_eq_of_rowFrom hrow]
    exact (Tree.unfold_shows hunfold).tallies (h'.sound.trees hu').forest (h'.visible hu')
      (Tree.own_eq_ok.1 hcopy)

/-- A session of two trees, one of each shape.  In the first an array access indexes a name by another: the array
was read, which made its name, and the index has got one. -/
def namedIndex : Session := played [⟨.current, {}⟩, ⟨.legacy, {}⟩]
  [.edit 0 (.create .arrayAccess), .edit 0 (.child ⟨0, 0⟩ .arrayAccessArray), .edit 0 (.create .simpleName),
    .edit 0 (.setScalar ⟨0, 2⟩ .simpleNameIdentifier (.symbol "ab")),
    .edit 0 (.list ⟨0, 0⟩ .arrayAccessIndexes (.push ⟨0, 2⟩))]

/-- The text of the index counts, that of the name that nobody gave does not, here and in the legacy tree. -/
theorem footprints_copied_namedIndex : ∃ s t t' u s', Reachable s ∧ s.trees[0]? = some t ∧
    run (.clone 0 ⟨0, 0⟩ 1) s = .ok (.node ⟨1, 0⟩) s' ∧ s'.trees[0]? = some t' ∧ s'.trees[1]? = some u ∧
    u.shape = .legacy ∧ t.Tallies ⟨0, 0⟩ [48, 48, 92] ∧ t'.Tallies ⟨0, 0⟩ [48, 48, 92] ∧
    u.Tallies ⟨1, 0⟩ [48, 48, 92] := by
  have hs : Reachable namedIndex := .played _ _
  have ht : namedIndex.trees[0]? = some _ := Array.getElem?_eq_getElem (by decide +kernel)
  have hrun : run (.clone 0 ⟨0, 0⟩ 1) namedIndex = .ok (.node ⟨1, 0⟩) (after (.clone 0 ⟨0, 0⟩ 1) namedIndex) :=
    run_of_answer? (by decide +kernel)
  obtain ⟨costs, htallies, hcopies⟩ := footprints_copied hs ht (n := ⟨0, 0⟩) (by decide +kernel)
  obtain ⟨t', u, ht', hu, horiginal, hcopy⟩ := hcopies _ _ _ _ .clone hrun
  obtain ⟨steps, hsteps, hcosts⟩ := htallies.walk
  have hwalk : Except.ok (steps, true) = .ok ([.enter ⟨0, 0⟩, .enter ⟨0, 1⟩, .leave ⟨0, 1⟩, .enter ⟨0, 2⟩,
      .leave ⟨0, 2⟩, .leave ⟨0, 0⟩], true) := hsteps.symm.trans (by decide +kernel)
  obtain ⟨rfl, -⟩ := Prod.mk.inj (Except.ok.inj hwalk)
  obtain rfl : costs = [48, 48, 92] := Except.ok.inj (hcosts.symm.trans (by decide +kernel))
  have hshape : (after (.clone 0 ⟨0, 0⟩ 1) namedIndex).trees[1]?.map Tree.shape = some .legacy := by
    decide +kernel
  rw [hu] at hshape
  exact ⟨_, _, t', u, _, hs, ht, hrun, ht', hu, Option.some.inj hshape, htallies, horiginal, hcopy⟩

end Session

end SyntaxForest
