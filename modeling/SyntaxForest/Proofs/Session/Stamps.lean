import SyntaxForest.Proofs.Edit.Stamp
import SyntaxForest.Proofs.Session.Run

/-!
# Proofs/Session/Stamps — what the stamp vouches for, in every reachable session

Whoever keeps something he has read off a tree compares stamps to learn whether it still holds.  The
stamp passes over new nodes and placeholders, and over nothing else.  It is a number without bound
here, so that it cannot come round to a value it has had.

* `Session.settled_of_stamp_eq` — **at an unmoved stamp every node is as it was, up to
  placeholders**.
-/

namespace SyntaxForest

namespace Session

variable {s : Session} {i : Nat} {t t' : Tree}

/-- **No call takes a stamp back, and calls that leave it where it was leave the nodes of the tree
as they were**: kind, range, marks, location and slots, but for slots that lacked a placeholder. -/
theorem settled_of_stamp_eq {cs : List Command} (h : Reachable s) (ht : s.trees[i]? = some t)
    (ht' : (s.later cs).trees[i]? = some t') :
    t.stamp ≤ t'.stamp ∧ (t'.stamp = t.stamp → t.Settled t') := by
  have hr := h.reaches ht ht'
  exact ⟨hr.stamp_le, hr.settled (h.sound.trees ht)⟩

/-- The commands that give an array access a range. -/
def rangeFirst : List Command :=
  [.edit 0 (.create .arrayAccess), .edit 0 (.setRange ⟨0, 0⟩ ⟨2, 7, by decide⟩)]

/-- Calls that are not counted: two placeholders, a copy, and an edit that is refused. -/
def uncountedCalls : List Command :=
  [.edit 0 (.child ⟨0, 0⟩ .arrayAccessIndex), .edit 0 (.child ⟨0, 0⟩ .arrayAccessArray),
    .edit 0 (.copySubtree ⟨0, 0⟩), .edit 0 (.clearChild ⟨0, 0⟩ .arrayAccessArray)]

/-- After them there are five more nodes, and the list of indexes has its element. -/
theorem settled_of_stamp_eq_rangeFirst : ∃ s t t', Reachable s ∧ s.trees[0]? = some t ∧
    (s.later uncountedCalls).trees[0]? = some t' ∧ t.size = 1 ∧ t'.size = 6 ∧
    Arena.slotAt t.records 0 1 = some (.list []) ∧
    Arena.slotAt t'.records 0 1 = some (.list [1]) ∧ t'.stamp = t.stamp ∧ t.Settled t' := by
  have hs : Reachable (played [⟨.legacy, {}⟩] rangeFirst) := .played _ _
  have ht : (played [⟨.legacy, {}⟩] rangeFirst).trees[0]? = some _ :=
    Array.getElem?_eq_getElem (by decide +kernel)
  have ht' : ((played [⟨.legacy, {}⟩] rangeFirst).later uncountedCalls).trees[0]? = some _ :=
    Array.getElem?_eq_getElem (by decide +kernel)
  have hstamp := (settled_of_stamp_eq hs ht ht').2
  exact ⟨_, _, _, hs, ht, ht', by decide +kernel, by decide +kernel, by decide +kernel,
    by decide +kernel, by decide +kernel, hstamp (by decide +kernel)⟩

end Session

end SyntaxForest
