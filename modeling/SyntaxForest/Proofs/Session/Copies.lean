import SyntaxForest.Proofs.Session.Run
import SyntaxForest.Proofs.Subtree.Likeness

/-!
# Proofs/Session/Copies — a copy matches its original

A copy is a node of its own, in its own tree or in another one, which may read the grammar in the other
shape.  No comparison by a test of scalars tells it from its original.

* `Tree.agreeBy` — the comparison of two nodes by a test that keeps no state.
* `Session.copy_matches` — **a copy matches its original**, both ways round.
-/

namespace SyntaxForest

namespace Tree

variable {t u : Tree} {n m : NodeId} {T : Typing}

/-- Whether two nodes match under a test of scalars that keeps no state. -/
def agreeBy (t : Tree) (n : NodeId) (u : Tree) (m : NodeId)
    (accepts : Property → Scalar → Scalar → Bool) : Except Failure Bool := do
  let verdict : Id Bool ← t.compare n u m fun p a b => pure (accepts p a b)
  return verdict.run

/-- Equality of scalars is such a test. -/
theorem agree_eq_agreeBy : t.agree n u m = t.agreeBy n u m fun _ a b => a == b := rfl

/-- Nodes of one plain tree match, in whatever shapes they are read. -/
theorem agreeBy_of_plain_eq {a b : Subtree} {accepts : Property → Scalar → Scalar → Bool}
    (haccepts : ∀ p v, accepts p v v = true) (ha : t.subtree n = .ok a) (hb : u.subtree m = .ok b)
    (hab : a.plain = b.plain) : t.agreeBy n u m accepts = .ok true := by
  refine bind_eq_ok.2 ⟨_, bind_eq_ok.2 ⟨a, ha, bind_eq_ok.2 ⟨b, hb, rfl⟩⟩, ?_⟩
  exact congrArg Except.ok (Comparison.matches_of_alike haccepts (.real hab))

/-- What is edited can be read. -/
theorem subtree_of_ownSubtree {a : Subtree} (h : t.ownSubtree n = .ok a) : t.subtree n = .ok a := by
  obtain ⟨⟨⟩, hown, hunfold⟩ := bind_eq_ok.1 h
  exact bind_eq_ok.2 ⟨(), checkReadable_eq_ok.2 (own_eq_ok.1 hown), hunfold⟩

/-- **What is added to a tree changes no reading of it.** -/
theorem Extends.subtree_eq {a : Subtree} (h : t.Extends u) (hf : Arena.Forest u.records)
    (ha : t.ownSubtree n = .ok a) : u.subtree n = .ok a := by
  obtain ⟨⟨⟩, hown, hunfold⟩ := bind_eq_ok.1 ha
  have hshows := unfold_shows hunfold
  obtain ⟨b, hb, hsub, -⟩ := exists_subtree hf ((own_eq_ok.1 hown).trans h.id.symm)
    (Nat.lt_of_lt_of_le hshows.lt_size h.size)
  rw [hsub, (h.shows hshows).unique hb]

/-- The subtree of a copy has the plain tree of its original. -/
theorem Grafted.exists_subtree {a : Subtree} {copy : NodeId} (h : t.Grafted a.image copy u) :
    ∃ b, u.subtree copy = .ok b ∧ a.plain = b.plain := by
  obtain ⟨b, hb, himage⟩ := bind_eq_ok.1 h.image
  have hrow : b.rowFrom 0 = a.rowFrom 0 := congrArg Image.nodes (Except.ok.inj himage)
  have ha : a.rowFrom 0 <+: (a.rowFrom 0).drop 0 := List.prefix_refl _
  exact ⟨b, subtree_of_ownSubtree hb, Subtree.plain_eq_of_rowFrom ha (hrow ▸ ha)⟩

end Tree

namespace Session

variable {s s' : Session} {i j : Nat} {n copy : NodeId}

/-- A command that copies a node of one tree into a tree, which may be the same one. -/
inductive Copies (i : Nat) (n : NodeId) (j : Nat) : Command → Prop
  | clone : Copies i n j (.clone i n j)
  | copySubtree : i = j → Copies i n j (.edit i (.copySubtree n))

/-- What a copy does: it takes the image of a node, and plants it. -/
theorem Copies.run_eq_ok {c : Command} (hc : Copies i n j c) (hrun : run c s = .ok (.node copy) s') :
    ∃ t u image u', s.trees[i]? = some t ∧ s.trees[j]? = some u ∧ t.snapshot n = .ok image ∧
      image.graft u = .ok copy u' ∧ s' = { s with trees := s.trees.setIfInBounds j u' } := by
  cases hc with
  | clone =>
    obtain ⟨c, s'', hclone, hreply⟩ := exists_of_bind_ok hrun
    cases hreply
    obtain ⟨image, hsnap, hgraft⟩ := exists_of_look_bind_ok hclone
    obtain ⟨t, ht, hsnap⟩ := bind_eq_ok.1 hsnap
    obtain ⟨u, u', hu, hplant, rfl⟩ := act_eq_ok.1 hgraft
    exact ⟨t, u, image, u', tree_eq_ok.1 ht, hu, hsnap, hplant, rfl⟩
  | copySubtree hij =>
    subst hij
    obtain ⟨t, t', ht, hedit, rfl⟩ := act_eq_ok.1 hrun
    obtain ⟨c, t'', hcopy, hreply⟩ := exists_of_bind_ok hedit
    cases hreply
    obtain ⟨image, hsnap, hgraft⟩ := TreeM.exists_of_look_bind_ok hcopy
    exact ⟨t, t, image, t', ht, ht, hsnap, hgraft, rfl⟩

/-- **A copy matches its original**, both ways round: in equality of scalars, and under every other test
that keeps no state and lets equal scalars pass.  The original is where it was, in a tree that may have
become another one for the copy. -/
theorem copy_matches (h : Reachable s) {c : Command} (hc : Copies i n j c)
    (hrun : run c s = .ok (.node copy) s') : ∃ t u, s'.trees[i]? = some t ∧ s'.trees[j]? = some u ∧
      t.agree n u copy = .ok true ∧ u.agree copy t n = .ok true ∧
      ∀ accepts : Property → Scalar → Scalar → Bool, (∀ p v, accepts p v v = true) →
        t.agreeBy n u copy accepts = .ok true ∧ u.agreeBy copy t n accepts = .ok true := by
  obtain ⟨t, u, image, u', ht, hu, hsnap, hgraft, rfl⟩ := hc.run_eq_ok hrun
  have htsound := h.sound.trees ht
  have husound := h.sound.trees hu
  have hi : image.Sound .declared := Tree.snapshot_sound htsound.typed hsnap
  obtain ⟨hcheck, rfl, rfl⟩ := (Image.graft_atomic hi).of_ok_eq hgraft
  obtain ⟨a, hown, himage⟩ := bind_eq_ok.1 hsnap
  cases himage
  have hgrafted := Tree.grafted husound hi hcheck
  have hplanted := husound.plant hi
  obtain ⟨b, hb, hplain⟩ := hgrafted.exists_subtree
  have hlt := (Array.getElem?_eq_some_iff.1 hu).1
  obtain ⟨t', ht', hsub⟩ : ∃ t', (s.trees.setIfInBounds j (u.planted a.image))[i]? = some t' ∧
      t'.subtree n = .ok a := by
    rw [Array.getElem?_setIfInBounds]
    split
    · next hij =>
      subst hij
      obtain rfl : t = u := Option.some.inj (ht.symm.trans hu)
      exact ⟨_, rfl, hgrafted.toExtends.subtree_eq hplanted.forest hown⟩
    · exact ⟨t, ht, Tree.subtree_of_ownSubtree hown⟩
  have hagree : ∀ accepts : Property → Scalar → Scalar → Bool, (∀ p v, accepts p v v = true) →
      t'.agreeBy n (u.planted a.image) (u.handle u.size) accepts = .ok true ∧
        (u.planted a.image).agreeBy (u.handle u.size) t' n accepts = .ok true :=
    fun accepts haccepts => ⟨Tree.agreeBy_of_plain_eq haccepts hsub hb hplain,
      Tree.agreeBy_of_plain_eq haccepts hb hsub hplain.symm⟩
  have hequal := hagree (fun _ a b => a == b) fun _ _ => beq_self_eq_true _
  rw [← Tree.agree_eq_agreeBy, ← Tree.agree_eq_agreeBy] at hequal
  refine ⟨t', _, ht', ?_, hequal.1, hequal.2, hagree⟩
  rw [Array.getElem?_setIfInBounds, if_pos rfl, if_pos hlt]

/-- A session of two trees, one of each shape.  The first has a pattern of two array accesses: the array of
one was read, which made it, and nothing of the other. -/
def twoAccesses : Session := played [⟨.current, {}⟩, ⟨.legacy, {}⟩]
  [.edit 0 (.create .pattern), .edit 0 (.create .arrayAccess), .edit 0 (.create .arrayAccess),
    .edit 0 (.list ⟨0, 0⟩ .patternElements (.extend [⟨0, 1⟩, ⟨0, 2⟩])),
    .edit 0 (.child ⟨0, 1⟩ .arrayAccessArray)]

/-- The pattern is copied into the legacy tree, where the indexes of an array access are read as one
child.  The copies of the two accesses are no more alike than they are. -/
theorem copy_matches_twoAccesses : ∃ s s' t u, Reachable s ∧
    run (.clone 0 ⟨0, 0⟩ 1) s = .ok (.node ⟨1, 0⟩) s' ∧ s'.trees[0]? = some t ∧
    s'.trees[1]? = some u ∧ t.shape = .current ∧ u.shape = .legacy ∧ u.size = 4 ∧
    t.agree ⟨0, 0⟩ u ⟨1, 0⟩ = .ok true ∧ u.agree ⟨1, 0⟩ t ⟨0, 0⟩ = .ok true ∧
    ∀ accepts : Property → Scalar → Scalar → Bool, (∀ p v, accepts p v v = true) →
      t.agreeBy ⟨0, 0⟩ u ⟨1, 0⟩ accepts = .ok true ∧
        u.agreeBy ⟨1, 0⟩ t ⟨0, 0⟩ accepts = .ok true := by
  have hs : Reachable twoAccesses := .played _ _
  have hrun : run (.clone 0 ⟨0, 0⟩ 1) twoAccesses =
      .ok (.node ⟨1, 0⟩) (after (.clone 0 ⟨0, 0⟩ 1) twoAccesses) :=
    run_of_answer? (by decide +kernel)
  obtain ⟨t, u, ht, hu, hmatches⟩ := copy_matches hs .clone hrun
  have htrees : (after (.clone 0 ⟨0, 0⟩ 1) twoAccesses).trees[0]?.map Tree.shape = some .current ∧
      (after (.clone 0 ⟨0, 0⟩ 1) twoAccesses).trees[1]?.map (fun u => (u.shape, u.size)) =
        some (.legacy, 4) := by decide +kernel
  rw [ht, hu] at htrees
  obtain ⟨hshape, hsize⟩ := Prod.mk.inj (Option.some.inj htrees.2)
  exact ⟨_, _, t, u, hs, hrun, ht, hu, Option.some.inj htrees.1, hshape, hsize, hmatches⟩

end Session

end SyntaxForest
