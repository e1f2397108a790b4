import SyntaxForest.Proofs.Edit.Cycle
import SyntaxForest.Proofs.Session.Run

/-!
# Proofs/Session/Cycles — no attachment closes a cycle, and none is refused for nothing

Whether a call walks up from the node in search of the child depends on the property; what it answers
does not.

* `Session.refused_exactly_for_cycles` — **in a reachable session a root is kept from a node exactly if
  it is the root of the node**.
-/

namespace SyntaxForest

namespace Session

variable {s : Session} {t : Tree} {n c : NodeId} {p : Property}

/-- **A root is kept from a node exactly if it is the root of the node** (`Tree.OnlyCycles`), and then for
the cycle.  The node and the child are not protected, the property may be used on the node, and the child
is of its type; whether the property is one that asks about cycles does not matter. -/
theorem refused_exactly_for_cycles (h : Reachable s) (ht : t ∈ s.trees)
    (hp : t.checkProperty n p = .ok ()) (hn : t.Unprotected n) (hc : t.Eligible p c) :
    ∃ root, t.root n = .ok root ∧ t.OnlyCycles n p c root :=
  Tree.onlyCycles (h.tree_sound ht).forest hp hn hc

/-- The commands that make a pattern in a pattern, and a name beside them. -/
def nestPatterns : List Command :=
  [.edit 0 (.create .pattern), .edit 0 (.create .pattern), .edit 0 (.create .simpleName),
    .edit 0 (.list ⟨0, 0⟩ .patternElements (.push ⟨0, 1⟩))]

/-- The tree that these commands make. -/
def nestedPatterns : Tree where
  id := 0
  config := ⟨.current, {}⟩
  records := #[⟨.pattern, none, {}, none, [.list [1], .child none]⟩,
    ⟨.pattern, none, {}, some ⟨0, .patternElements⟩, [.list [], .child none]⟩,
    .fresh .simpleName {}]
  stamp := 1
  observer := none
  journal := #[]

/-- The outer pattern may not come into the inner one; the name may, as an element or as the binding,
where nobody asks about cycles. -/
theorem refused_exactly_for_cycles_nestedPatterns : ∃ s t q, Reachable s ∧ t ∈ s.trees ∧
    t.sequence ⟨0, 1⟩ .patternElements = .ok q ∧
    q.push ⟨0, 0⟩ t = .error (.refused .cycle) t ∧ (∃ x t', q.insert 0 ⟨0, 2⟩ t = .ok x t') ∧
    Property.patternBinding.cycleRisk = false ∧
    ∃ x t', NodeId.setChild ⟨0, 1⟩ .patternBinding ⟨0, 2⟩ t = .ok x t' := by
  have hs : Reachable (played [⟨.current, {}⟩] nestPatterns) := .played _ _
  have ht : nestedPatterns ∈ (played [⟨.current, {}⟩] nestPatterns).trees :=
    Array.mem_of_getElem? (i := 0) rfl
  have hcase := fun p c => refused_exactly_for_cycles hs ht (n := ⟨0, 1⟩) (p := p) (c := c)
  obtain ⟨_, hroot, houter⟩ := hcase .patternElements ⟨0, 0⟩ rfl ⟨_, rfl, rfl⟩
    ⟨rfl, ⟨_, rfl, rfl⟩, _, _, rfl, rfl, rfl⟩
  cases hroot
  obtain ⟨_, hroot, hname⟩ := hcase .patternElements ⟨0, 2⟩ rfl ⟨_, rfl, rfl⟩
    ⟨rfl, ⟨_, rfl, rfl⟩, _, _, rfl, rfl, rfl⟩
  cases hroot
  obtain ⟨_, hroot, hbinding⟩ := hcase .patternBinding ⟨0, 2⟩ rfl ⟨_, rfl, rfl⟩
    ⟨rfl, ⟨_, rfl, rfl⟩, _, _, rfl, rfl, rfl⟩
  cases hroot
  obtain ⟨_, _, hq, hitems, hpush, -, -⟩ := houter.list _ rfl
  cases hq
  obtain ⟨_, _, hq, hitems, -, hinsert, -⟩ := hname.list _ rfl
  cases hq
  exact ⟨_, _, _, hs, ht, rfl, hpush.refused rfl, (hinsert 0 (Nat.zero_le _)).succeeds (by decide), rfl,
    (hbinding.setChild _ rfl nofun).succeeds (by decide)⟩

end Session

end SyntaxForest
