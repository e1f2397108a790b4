import SyntaxForest.Proofs.Session.WellTyped
import SyntaxForest.Proofs.Subtree.Readback

/-!
# Proofs/Session/Outlines — an outline tells as much as an image

An image is a row of nodes that name their children by position; an outline is a text, in which the children
of a node are those that stand below it and further in.  Both keep the same of a subtree.

* `Session.Reachable.exists_declared` — nodes of reachable sessions show what their kinds declare.
* `Session.outline_eq_iff_image_eq` — **outlines are the same exactly if images are**.
-/

namespace SyntaxForest

namespace Session

variable {s s' : Session} {t t' : Tree} {n n' : NodeId}

/-- Below a node of a reachable session there is what is declared. -/
theorem Reachable.exists_declared (h : Reachable s) (ht : t ∈ s.trees) (hn : n ∈ t.nodes) :
    ∃ v, v.Declared ∧ t.subtree n = .ok v ∧ t.ownSubtree n = .ok v := by
  obtain ⟨hn, hlt⟩ := Tree.mem_nodes.1 hn
  obtain ⟨v, hshows, hsubtree, hown⟩ := Tree.exists_subtree (h.tree_sound ht).forest hn hlt
  exact ⟨v, hshows.declared (h.worded.trees t ht), hsubtree, hown⟩

/-- **An outline determines what it shows.**  Each node has an outline and an image, and the outlines of two
nodes are one text exactly if their images have the same nodes: the same kinds, ranges and scalars, and the same
children in the same order.  It does not matter which trees they are of, and in which shapes these are read. -/
theorem outline_eq_iff_image_eq (h : Reachable s) (h' : Reachable s') (ht : t ∈ s.trees) (ht' : t' ∈ s'.trees)
    (hn : n ∈ t.nodes) (hn' : n' ∈ t'.nodes) : ∃ text text' image image',
      t.outline n = .ok text ∧ t'.outline n' = .ok text' ∧
      t.snapshot n = .ok image ∧ t'.snapshot n' = .ok image' ∧
      (text = text' ↔ image.nodes = image'.nodes) := by
  obtain ⟨v, hv, hsubtree, hown⟩ := h.exists_declared ht hn
  obtain ⟨v', hv', hsubtree', hown'⟩ := h'.exists_declared ht' hn'
  refine ⟨_, _, v.image, v'.image, bind_eq_ok.2 ⟨v, hsubtree, rfl⟩, bind_eq_ok.2 ⟨v', hsubtree', rfl⟩,
    bind_eq_ok.2 ⟨v, hown, rfl⟩, bind_eq_ok.2 ⟨v', hown', rfl⟩, ?_⟩
  calc String.join ((v.outline 0).map (· ++ "\n")) = String.join ((v'.outline 0).map (· ++ "\n"))
    _ ↔ v.outline 0 = v'.outline 0 := ⟨Text.join_lines_inj (v.unbroken_of_mem_outline 0)
        (v'.unbroken_of_mem_outline 0), fun hlines => by rw [hlines]⟩
    _ ↔ v.bare = v'.bare := Subtree.outline_eq_iff hv hv'
    _ ↔ v.rowFrom 0 = v'.rowFrom 0 := Subtree.rowFrom_eq_iff.symm

/-- A session of two trees, one of each shape.  The first has an array access in the indexes of another one, and
two names in its own.  The second has two copies of it, and in the latter one a name was moved out. -/
def nestedAccesses : Session := played [⟨.legacy, {}⟩, ⟨.current, {}⟩]
  [.edit 0 (.create .arrayAccess), .edit 0 (.create .arrayAccess),
    .edit 0 (.createWith .simpleName .simpleNameIdentifier (.symbol "x\"\n    y")),
    .edit 0 (.create .simpleName), .edit 0 (.list ⟨0, 1⟩ .arrayAccessIndexes (.extend [⟨0, 2⟩, ⟨0, 3⟩])),
    .edit 0 (.list ⟨0, 0⟩ .arrayAccessIndexes (.push ⟨0, 1⟩)),
    .clone 0 ⟨0, 0⟩ 1, .clone 0 ⟨0, 0⟩ 1, .edit 1 (.detach ⟨1, 7⟩),
    .edit 1 (.list ⟨1, 4⟩ .arrayAccessIndexes (.push ⟨1, 7⟩))]

/-- The nodes of an image of these, in which the accesses have the given indexes. -/
def accessRow (outer inner : List Nat) : List ImageNode :=
  [⟨.arrayAccess, none, [.child none, .list outer]⟩, ⟨.arrayAccess, none, [.child none, .list inner]⟩,
    ⟨.simpleName, none, [.scalar (.symbol "x\"\n    y")]⟩, ⟨.simpleName, none, [.scalar (.symbol "MISSING")]⟩]

/-- The copy has the outline of its original.  With the name moved out the lines are the same up to one margin,
and the outline is another one. -/
theorem outline_eq_iff_image_eq_nestedAccesses : ∃ s t u, ∃ text moved : String,
    Reachable s ∧ t ∈ s.trees ∧ u ∈ s.trees ∧ t.shape = .legacy ∧ u.shape = .current ∧
    t.outline ⟨0, 0⟩ = .ok text ∧ u.outline ⟨1, 0⟩ = .ok text ∧ u.outline ⟨1, 4⟩ = .ok moved ∧
    text ≠ moved := by
  have hs : Reachable nestedAccesses := .played _ _
  have ht := @Array.getElem_mem _ nestedAccesses.trees 0 (by decide +kernel)
  have hu := @Array.getElem_mem _ nestedAccesses.trees 1 (by decide +kernel)
  obtain ⟨text, _, original, copy, htext, hcopied, horiginal, hcopy, hsame⟩ :=
    @outline_eq_iff_image_eq _ _ _ _ ⟨0, 0⟩ ⟨1, 0⟩ hs hs ht hu (by decide +kernel) (by decide +kernel)
  obtain ⟨_, moved, _, image, htext', hmoved, horiginal', himage, hother⟩ :=
    @outline_eq_iff_image_eq _ _ _ _ ⟨0, 0⟩ ⟨1, 4⟩ hs hs ht hu (by decide +kernel) (by decide +kernel)
  obtain rfl := Except.ok.inj (htext.symm.trans htext')
  obtain rfl := Except.ok.inj (horiginal.symm.trans horiginal')
  obtain rfl : original = ⟨⟨0, 0⟩, accessRow [1] [2, 3]⟩ :=
    Except.ok.inj (horiginal.symm.trans (by decide +kernel))
  obtain rfl : copy = ⟨⟨1, 0⟩, accessRow [1] [2, 3]⟩ := Except.ok.inj (hcopy.symm.trans (by decide +kernel))
  obtain rfl : image = ⟨⟨1, 4⟩, accessRow [1, 3] [2]⟩ := Except.ok.inj (himage.symm.trans (by decide +kernel))
  obtain rfl := hsame.2 rfl
  exact ⟨_, _, _, text, moved, hs, ht, hu, by decide +kernel, by decide +kernel, htext, hcopied, hmoved,
    fun heq => absurd (hother.1 heq) (by decide)⟩

end Session

end SyntaxForest
