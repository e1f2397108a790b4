import SyntaxForest.Proofs.Edit.Filing
import SyntaxForest.Proofs.Session.Run
import SyntaxForest.Proofs.Subtree.Inscription

/-!
# Proofs/Session/Images — images in every reachable session are in preorder

An image is planted without a look at the positions in it.  That this may be done rests on how the image was
taken, and an image is taken of nothing but a node of a tree.

* `Session.images_preordered` — **the image of a node is a preorder row**, whatever has happened to its tree, and
  to plant it files every node of it but the first once.
-/

namespace SyntaxForest

namespace Session

variable {s : Session} {t : Tree} {n : NodeId}

/-- **The image of a node is in preorder.**  Every node has an image.  It is the row that is written when each node
is put down before its children and gets its slots after them; and in it nodes have the slots of their kinds, the
positions that a node names stand behind it, each position but the first is named once, and what is read from a
position on is a block that starts there.  So every tree that takes the image has a record for every index that is
used, and each new node but the first is given its place once; a tree that does not take it is left as it was. -/
theorem images_preordered (h : Reachable s) (ht : t ∈ s.trees) (hn : n ∈ t.nodes) :
    ∃ image, t.snapshot n = .ok image ∧ t.inscription n = .ok (0, image.nodes) ∧ image.Preordered ∧
      ∀ u : Tree,
        ((∀ k p, ¬image.Exceeds u.shape k p) ∧
          ∃ places u', image.graft u = .ok (u.handle u.size) u' ∧ u.Files image places u') ∨
        ∃ k p, image.Exceeds u.shape k p ∧
          image.graft u = .error (.refused (.unsupported k p (.notInShape u.shape))) u := by
  obtain ⟨htree, hlt⟩ := Tree.mem_nodes.1 hn
  have htsound := h.tree_sound ht
  obtain ⟨a, hshows, -, hown⟩ := Tree.exists_subtree htsound.forest htree hlt
  have hsnap : t.snapshot n = .ok a.image := bind_eq_ok.2 ⟨a, hown, rfl⟩
  exact ⟨a.image, hsnap, Tree.inscription_of_snapshot hsnap, (hshows.sound htsound.typed).preordered,
    (Tree.snapshot_sound htsound.typed hsnap).graft_cases⟩

/-- A session of two trees, one of each shape.  In the first there is a conditional of a name and an array access in
one branch and a name in the other; the array was read, which made it, and there are two indexes.  In the second
there is a pattern. -/
def nestedConditional : Session := played [⟨.current, {}⟩, ⟨.legacy, {}⟩]
  [.edit 0 (.create .conditionalExpression), .edit 0 (.create .arrayAccess),
    .edit 0 (.create .simpleName), .edit 0 (.create .numberLiteral), .edit 0 (.create .numberLiteral),
    .edit 0 (.create .simpleName), .edit 0 (.list ⟨0, 1⟩ .arrayAccessIndexes (.extend [⟨0, 4⟩, ⟨0, 3⟩])),
    .edit 0 (.list ⟨0, 0⟩ .elseElements (.push ⟨0, 5⟩)),
    .edit 0 (.list ⟨0, 0⟩ .thenElements (.extend [⟨0, 2⟩, ⟨0, 1⟩])),
    .edit 0 (.child ⟨0, 1⟩ .arrayAccessArray), .edit 1 (.create .pattern)]

/-- The row of the conditional. -/
def conditionalRow : List ImageNode :=
  [⟨.conditionalExpression, none, [.list [], .list [1, 2], .list [6]]⟩,
    ⟨.simpleName, none, [.scalar (.symbol "MISSING")]⟩, ⟨.arrayAccess, none, [.child (some 3), .list [4, 5]]⟩,
    ⟨.simpleName, none, [.scalar (.symbol "MISSING")]⟩, ⟨.numberLiteral, none, [.scalar (.symbol "0")]⟩,
    ⟨.numberLiteral, none, [.scalar (.symbol "0")]⟩, ⟨.simpleName, none, [.scalar (.symbol "MISSING")]⟩]

/-- The access stands behind a name that was created after it, and what hangs below it is the block from there on.
The legacy tree takes the image, and gives six of the seven new nodes a place. -/
theorem images_preordered_nestedConditional : ∃ s t u image places u', Reachable s ∧ t ∈ s.trees ∧ u ∈ s.trees ∧
    ⟨0, 0⟩ ∈ t.nodes ∧ t.snapshot ⟨0, 0⟩ = .ok image ∧ t.inscription ⟨0, 0⟩ = .ok (0, image.nodes) ∧
    image.Preordered ∧ image.nodes = conditionalRow ∧ Image.Reads image.nodes 2 [2, 3, 4, 5] ∧
    u.shape = .legacy ∧ image.graft u = .ok ⟨1, 1⟩ u' ∧ u.Files image places u' ∧
    (places.map Prod.fst).Perm [2, 3, 4, 5, 6, 7] := by
  have hs : Reachable nestedConditional := .played _ _
  have ht := @Array.getElem_mem _ nestedConditional.trees 0 (by decide +kernel)
  obtain ⟨image, hsnap, hwritten, hpreordered, hgraft⟩ :=
    images_preordered hs ht (n := ⟨0, 0⟩) (by decide +kernel)
  have himage : Except.ok image = .ok ⟨⟨0, 0⟩, conditionalRow⟩ := hsnap.symm.trans (by decide +kernel)
  obtain rfl := Except.ok.inj himage
  have hleaves : ∀ b ∈ [(3, [3]), (4, [4]), (5, [5])], Image.Reads conditionalRow b.1 b.2 := by
    refine List.forall_mem_cons.2 ⟨?_, List.forall_mem_cons.2 ⟨?_, List.forall_mem_singleton.2 ?_⟩⟩ <;>
      exact @Image.Reads.node _ _ _ [] rfl rfl (List.forall_mem_nil _)
  obtain ⟨u, hu, hshape, hsize, hroot⟩ : ∃ u ∈ nestedConditional.trees, u.shape = .legacy ∧ u.size = 1 ∧
      u.handle u.size = ⟨1, 1⟩ :=
    ⟨_, @Array.getElem_mem _ _ 1 (by decide +kernel), by decide +kernel, by decide +kernel, by decide +kernel⟩
  rcases hgraft u with ⟨-, places, u', hgraft, hfiles⟩ | ⟨k, p, hexceeds, -⟩
  · have honce := hfiles.once
    rw [hsize] at honce
    rw [hroot] at hgraft
    exact ⟨_, _, u, _, places, u', hs, ht, hu, by decide +kernel, hsnap, hwritten, hpreordered, rfl,
      .node rfl rfl hleaves, hshape, hgraft, hfiles, honce⟩
  · rcases Image.checkPlantable_cases ⟨⟨0, 0⟩, conditionalRow⟩ .legacy with ⟨-, hfits⟩ | ⟨_, _, -, hcheck⟩
    · exact (hfits k p (hshape ▸ hexceeds)).elim
    · cases hcheck.symm.trans (by decide +kernel : _ = Except.ok ())

end Session

end SyntaxForest
