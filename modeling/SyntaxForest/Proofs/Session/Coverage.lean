import SyntaxForest.Proofs.Session.Walks
import SyntaxForest.Proofs.Subtree.Coverage

/-!
# Proofs/Session/Coverage — a visitor is called for what is below its start, once each

A visitor may refuse to descend into any nodes it likes.  It is then called for a node exactly if the start is
met on the way up from it and nothing between them is refused.

* `Session.walk_covers` — **so is every walk in a reachable session**.
-/

namespace SyntaxForest

namespace Session

variable {s : Session} {t : Tree} {n : NodeId}

/-- **A visitor is called for each node below the start, once on the way in and once on the way out**, but for
the nodes that have a refused one above them up to the start.  The calls are properly nested; a node comes
before what is below it, and of the children of one node each before the next, slot by slot and in the order
of the lists. -/
theorem walk_covers (h : Reachable s) (ht : t ∈ s.trees) (hn : n ∈ t.nodes) (refuses : NodeId → Bool) :
    ∃ steps, t.recordWalk n (.refusing refuses) = .ok (steps, none) ∧ t.Covers refuses n steps := by
  obtain ⟨i, hi⟩ := Array.mem_iff_getElem?.1 ht
  obtain ⟨hn, hlt⟩ := Tree.mem_nodes.1 hn
  have hf := (h.tree_sound ht).forest
  obtain ⟨v, hshows, hsubtree, -⟩ := Tree.exists_subtree hf hn hlt
  refine ⟨v.steps t.shape refuses, Tree.recordWalk_eq_ok hsubtree, ?_⟩
  have hcovers : t.Covers refuses (t.handle n.index) (v.steps t.shape refuses) :=
    hshows.covers hf (h.visible hi)
  rwa [Tree.handle_index hn] at hcovers

/-- The commands that make a conditional with two names in one branch and an array access in the other; the
array has been read. -/
def twoBranches : List Command :=
  [.edit 0 (.create .conditionalExpression), .edit 0 (.create .arrayAccess),
    .edit 0 (.create .simpleName), .edit 0 (.create .simpleName),
    .edit 0 (.list ⟨0, 0⟩ .elseElements (.push ⟨0, 1⟩)),
    .edit 0 (.list ⟨0, 0⟩ .thenElements (.extend [⟨0, 3⟩, ⟨0, 2⟩])),
    .edit 0 (.child ⟨0, 1⟩ .arrayAccessArray)]

/-- The order is that of slots and lists, not that of creation; below the access nothing is visited. -/
theorem walk_covers_twoBranches : ∃ s t steps, Reachable s ∧ t ∈ s.trees ∧ ⟨0, 0⟩ ∈ t.nodes ∧
    t.parent ⟨0, 4⟩ = .ok (some ⟨0, 1⟩) ∧ t.recordWalk ⟨0, 0⟩ (.refusing (· == ⟨0, 1⟩)) = .ok (steps, none) ∧
    steps = [.enter ⟨0, 0⟩, .enter ⟨0, 3⟩, .leave ⟨0, 3⟩, .enter ⟨0, 2⟩, .leave ⟨0, 2⟩, .enter ⟨0, 1⟩,
      .leave ⟨0, 1⟩, .leave ⟨0, 0⟩] ∧
    t.FreeWay (· == ⟨0, 1⟩) ⟨0, 0⟩ ⟨0, 1⟩ ∧ ¬t.FreeWay (· == ⟨0, 1⟩) ⟨0, 0⟩ ⟨0, 4⟩ := by
  have hs : Reachable (played [⟨.current, {}⟩] twoBranches) := .played _ _
  have ht := @Array.getElem_mem _ (played [⟨.current, {}⟩] twoBranches).trees 0 (by decide +kernel)
  obtain ⟨steps, hwalk, hcovers⟩ :=
    walk_covers hs ht (n := ⟨0, 0⟩) (by decide +kernel) (· == ⟨0, 1⟩)
  have hsteps : Except.ok (steps, none) = .ok ([.enter ⟨0, 0⟩, .enter ⟨0, 3⟩, .leave ⟨0, 3⟩,
      .enter ⟨0, 2⟩, .leave ⟨0, 2⟩, .enter ⟨0, 1⟩, .leave ⟨0, 1⟩, .leave ⟨0, 0⟩], none) :=
    hwalk.symm.trans (by decide +kernel)
  obtain ⟨rfl, -⟩ := Prod.mk.inj (Except.ok.inj hsteps)
  exact ⟨_, _, _, hs, ht, by decide +kernel, by decide +kernel, hwalk, rfl, (hcovers.entered_iff _).1 (by decide),
    fun hway => absurd ((hcovers.entered_iff _).2 hway) (by decide)⟩

end Session

end SyntaxForest
