import SyntaxForest.Proofs.Edit.Overwrite
import SyntaxForest.Proofs.Session.Views

/-!
# Proofs/Session/Writes — values written in every reachable session

One call writes whatever a property holds, one call reads it, in either shape and also through a view.

* `Session.value_written` — **in a reachable session a value is read back, and nothing else has changed**.
-/

namespace SyntaxForest

namespace Session

variable {s : Session} {t t' : Tree} {n : NodeId} {p : Property} {v : Value}

/-- **A value is written and read back, and nothing else changes** (`Tree.Overwrites`).  The read makes no
node and counts nothing.  All nodes keep their kinds, ranges and marks, and what their other slots hold; no
node is added.  The child that was displaced is nowhere, the new one is under the property that owns the slot,
and all others are where they were.  So other reads answer what they answered before. -/
theorem value_written (h : Reachable s) (ht : t ∈ s.trees) (hset : n.setValue p v t = .ok () t') :
    t.Overwrites n p v t' :=
  (NodeId.setValue_overwrites (h.tree_sound ht)).of_ok_eq hset

/-- A name is written into the first branch of the conditional, through the view: the name that was there is
free, and the list behind the view and the other branch are read as they should be. -/
theorem value_written_unevenConditional : ∃ s t t', Reachable s ∧ t ∈ s.trees ∧
    NodeId.setValue ⟨0, 0⟩ .thenExpression (.child (some ⟨0, 4⟩)) t = .ok () t' ∧
    NodeId.value ⟨0, 0⟩ .thenExpression t' = .ok (.child (some ⟨0, 4⟩)) t' ∧
    Arena.locationAt t'.records 1 = none ∧
    Arena.locationAt t'.records 4 = some ⟨0, .thenElements⟩ ∧
    Arena.locationAt t'.records 2 = some ⟨0, .elseElements⟩ ∧
    t'.peekValue ⟨0, 0⟩ .elseElements = .ok (.list [⟨0, 2⟩, ⟨0, 3⟩]) ∧
    TreeM.answer (NodeId.value ⟨0, 0⟩ .conditionExpression) t' = .ok (.child (some ⟨0, 5⟩)) := by
  have hs : Reachable (played [⟨.legacy, {}⟩] unevenBranches) := .played _ _
  have ht := unevenConditional_mem
  have hwritten := value_written hs ht (n := ⟨0, 0⟩) (p := .thenExpression) (v := .child (some ⟨0, 4⟩)) rfl
  obtain ⟨old, hold, hloc⟩ := hwritten.locations
  obtain rfl : Slot.child (some ⟨0, 1⟩) = old := Except.ok.inj hold
  refine ⟨_, _, _, hs, ht, rfl, hwritten.readback, ?_, ?_, ?_, ?_, ?_⟩
  · exact (hloc ⟨0, 1⟩ (by decide)).trans (by decide)
  · exact (hloc ⟨0, 4⟩ (by decide)).trans (by decide)
  · exact (hloc ⟨0, 2⟩ (by decide)).trans (by decide)
  · exact (hwritten.reads ⟨0, 0⟩ .elseElements (by decide)).1
  · exact (hwritten.reads ⟨0, 0⟩ .conditionExpression (by decide)).2

end Session

end SyntaxForest
