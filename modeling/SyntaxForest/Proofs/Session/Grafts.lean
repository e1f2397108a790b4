import SyntaxForest.Proofs.Session.Run
import SyntaxForest.Proofs.Subtree.Replanting

/-!
# Proofs/Session/Grafts — images taken and planted in every reachable session

An image outlives the state it was taken in: the tree it comes from may change, and so may the tree
it is planted into, before it is planted.  Neither matters to what comes of it.

* `Session.graft_snapshot` — **a planted image gives itself back**, in any later session.
-/

namespace SyntaxForest

namespace Session

variable {s : Session} {t : Tree} {n : NodeId}

/-- **To plant an image and to take it are inverse.**  The image of a node may be planted into every
tree of every later session, but for images with annotations and trees of the legacy shape; and what
it then does is to come to exist at the end of the arena, as the root of which it is the image. -/
theorem graft_snapshot (h : Reachable s) (ht : t ∈ s.trees) (hn : n.tree = t.id)
    (hlt : n.index < t.size) : ∃ image, t.snapshot n = .ok image ∧
      ∀ (cs : List Command) (t' : Tree), t' ∈ (s.later cs).trees →
        ((∃ root t'', image.graft t' = .ok root t'') ↔
          ¬(t'.shape = .legacy ∧ image.IsAnnotated)) ∧
        ∀ root t'', image.graft t' = .ok root t'' → t'.Grafted image root t'' := by
  have hsound := h.tree_sound ht
  obtain ⟨v, -, -, hown⟩ := Tree.exists_subtree hsound.forest hn hlt
  have hsnap : t.snapshot n = .ok v.image := bind_eq_ok.2 ⟨v, hown, rfl⟩
  have hi : v.image.Sound .declared := Tree.snapshot_sound hsound.typed hsnap
  refine ⟨v.image, hsnap, fun cs t' ht' => ⟨?_, fun root t'' hgraft => ?_⟩⟩
  · rw [← Image.checkPlantable_iff hi]
    constructor
    · rintro ⟨root, t'', hgraft⟩
      exact ((Image.graft_atomic hi).of_ok_eq hgraft).1
    · intro hcheck
      exact ⟨_, _, Image.graft_run hi hcheck⟩
  · obtain ⟨hcheck, rfl, rfl⟩ := (Image.graft_atomic hi).of_ok_eq hgraft
    exact Tree.grafted ((h.later cs).tree_sound ht') hi hcheck

/-- A session of two trees, one of each shape, with an annotated type in the first. -/
def annotatedType : Session := played [⟨.current, {}⟩, ⟨.legacy, {}⟩]
  [.edit 0 (.create .qualifiedType), .edit 0 (.create .simpleName),
    .edit 0 (.list ⟨0, 0⟩ .qualifiedTypeAnnotations (.push ⟨0, 1⟩))]

/-- Calls that take the annotation away, and put a node into the other tree. -/
def stripAnnotation : List Command :=
  [.edit 0 (.list ⟨0, 0⟩ .qualifiedTypeAnnotations .clear), .edit 1 (.create .pattern)]

/-- After them the image still has the annotation: its own tree takes it, the other does not. -/
theorem graft_snapshot_stripAnnotation : ∃ s t t' u' t'' image, Reachable s ∧ t ∈ s.trees ∧
    t' ∈ (s.later stripAnnotation).trees ∧ u' ∈ (s.later stripAnnotation).trees ∧
    t.snapshot ⟨0, 0⟩ = .ok image ∧ image.size = 2 ∧ t'.size = 2 ∧
    image.graft t' = .ok ⟨0, 2⟩ t'' ∧ t'.Grafted image ⟨0, 2⟩ t'' ∧
    u'.shape = .legacy ∧ ¬∃ root u'', image.graft u' = .ok root u'' := by
  have hs : Reachable annotatedType := .played _ _
  have ht := @Array.getElem_mem _ annotatedType.trees 0 (by decide +kernel)
  have ht' := @Array.getElem_mem _ (annotatedType.later stripAnnotation).trees 0 (by decide +kernel)
  have hu' := @Array.getElem_mem _ (annotatedType.later stripAnnotation).trees 1 (by decide +kernel)
  obtain ⟨image, hsnap, hlater⟩ := graft_snapshot hs ht (n := ⟨0, 0⟩) rfl (by decide +kernel)
  have himage : Except.ok image = .ok ⟨⟨0, 0⟩, [⟨.qualifiedType, none,
      [.list [], .list [1], .child none]⟩, ⟨.simpleName, none, [.scalar (.symbol "MISSING")]⟩]⟩ :=
    hsnap.symm.trans (by decide +kernel)
  obtain rfl := Except.ok.inj himage
  obtain ⟨hiff, hgrafted⟩ := hlater stripAnnotation _ ht'
  obtain ⟨root, t'', hgraft⟩ := hiff.2 fun hlegacy => by
    cases hlegacy.1.symm.trans (show _ = Shape.current by decide +kernel)
  have hroot := (hgrafted root t'' hgraft).root_eq
  have hhandle : root = ⟨0, 2⟩ := hroot.trans (by decide +kernel)
  subst hhandle
  refine ⟨_, _, _, _, t'', _, hs, ht, ht', hu', hsnap, rfl, by decide +kernel, hgraft,
    hgrafted _ t'' hgraft, by decide +kernel, fun hgraft' => ?_⟩
  refine (hlater stripAnnotation _ hu').1.1 hgraft' ⟨by decide +kernel, _, List.mem_cons_self,
    rfl, [1], rfl, List.cons_ne_nil _ _⟩

end Session

end SyntaxForest
