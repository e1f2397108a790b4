import SyntaxForest.Proofs.Edit.Undo
import SyntaxForest.Proofs.Session.Views
import SyntaxForest.Proofs.Session.Walks

/-!
# Proofs/Session/Undoing — edits taken back in every reachable session

Nothing that moves nodes about is final: there is a call that puts all nodes back, each into its slot and
at its index.  Only the stamp goes on counting.

* `Session.edits_undoable` — **in a reachable session every edit that moves nodes can be taken back**.
-/

namespace SyntaxForest

namespace Session

variable {s : Session} {t : Tree}

/-- **Every edit that moves nodes can be taken back** (`Tree.Undoable`), unless it took a protected node
out of its place: a child that is set, also through a view, or cleared, elements that are inserted,
removed, exchanged or cleared, one or many, and a node that is detached.  The tree is the same afterwards,
the stamp and what was announced apart. -/
theorem edits_undoable (h : Reachable s) (ht : t ∈ s.trees) : t.Undoable :=
  (h.tree_sound ht).undoable (h.tree_visible ht)

/-- In the first branch of the conditional the name is exchanged through the view, and comes back through
the list; the two names of the second branch go out together and come back together, or one goes out and
comes back at its index. -/
theorem edits_undoable_unevenConditional : ∃ s t, Reachable s ∧ t ∈ s.trees ∧
    (∃ t' q, NodeId.setChild ⟨0, 0⟩ .thenExpression ⟨0, 4⟩ t = .ok () t' ∧
      t'.sequence ⟨0, 0⟩ .thenElements = .ok q ∧ (q.set 0 ⟨0, 1⟩).Restores t' t) ∧
    ∃ t₁ t₂ q, t.sequence ⟨0, 0⟩ .elseElements = .ok q ∧
      q.clear t = .ok [⟨0, 2⟩, ⟨0, 3⟩] t₁ ∧ (q.extend [⟨0, 2⟩, ⟨0, 3⟩]).Restores t₁ t ∧
      q.remove 0 t = .ok ⟨0, 2⟩ t₂ ∧ (q.insert 0 ⟨0, 2⟩).Restores t₂ t := by
  have hs : Reachable (played [⟨.legacy, {}⟩] unevenBranches) := .played _ _
  have ht := unevenConditional_mem
  have hundo := edits_undoable hs ht
  obtain ⟨q, hq, hset⟩ := hundo.setChild_view ⟨0, 0⟩ .thenExpression ⟨0, 4⟩ ⟨0, 1⟩ _ rfl rfl ⟨_, rfl, rfl⟩ rfl
  have hclear := hundo.clear ⟨0, 0⟩ .elseElements _ [⟨0, 2⟩, ⟨0, 3⟩] _ rfl (by
    rintro _ (_ | ⟨_, _ | ⟨_, ⟨⟩⟩⟩) <;> exact ⟨_, rfl, rfl⟩) rfl
  have hremove := hundo.remove ⟨0, 0⟩ .elseElements _ 0 ⟨0, 2⟩ _ rfl ⟨_, rfl, rfl⟩ rfl
  exact ⟨_, _, hs, ht, ⟨_, q, rfl, hq, hset⟩, _, _, _, rfl, rfl, hclear, rfl, hremove⟩

end Session

end SyntaxForest
