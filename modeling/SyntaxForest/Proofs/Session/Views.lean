import SyntaxForest.Proofs.Edit.View
import SyntaxForest.Proofs.Session.Run

/-!
# Proofs/Session/Views — single children that are kept in lists

The legacy shape of the grammar has single children where the current one has lists.  They are one store, and
either may be used in a tree of either shape.

* `Session.view_faces` — **in a reachable session a view and its list are two faces of one store**.
-/

namespace SyntaxForest

namespace Session

variable {s : Session} {t : Tree} {n : NodeId} {v : Property}

/-- **A view and its list are two faces of one store** (`Tree.Faces`).  What the view reads is what the list
has, as long as that is no more than one element.  Setting the child ends with the nodes that emptying the list
and pushing ends with.  And reading an empty list as a single child ends with the nodes that pushing a new
placeholder ends with, unless the parent or all new nodes are protected. -/
theorem view_faces (h : Reachable s) (ht : t ∈ s.trees) (hk : t.kind n = .ok v.owner)
    (hview : v.isSoleElementView = true) :
    ∃ q items, t.sequence n v.primary = .ok q ∧ t.elements q = .ok items ∧ t.Faces n v items :=
  Tree.faces (h.tree_sound ht).forest hk hview

/-- The commands that make a conditional with no condition, one name in the first branch and two in the second,
and a name beside it. -/
def unevenBranches : List Command :=
  [.edit 0 (.create .conditionalExpression), .edit 0 (.create .simpleName), .edit 0 (.create .simpleName),
    .edit 0 (.create .simpleName), .edit 0 (.create .simpleName),
    .edit 0 (.list ⟨0, 0⟩ .thenElements (.push ⟨0, 1⟩)),
    .edit 0 (.list ⟨0, 0⟩ .elseElements (.extend [⟨0, 2⟩, ⟨0, 3⟩]))]

/-- The tree that these commands make. -/
def unevenConditional : Tree where
  id := 0
  config := ⟨.legacy, {}⟩
  records := #[⟨.conditionalExpression, none, {}, none, [.list [], .list [1], .list [2, 3]]⟩,
    ⟨.simpleName, none, {}, some ⟨0, .thenElements⟩, [.scalar (.symbol "MISSING")]⟩,
    ⟨.simpleName, none, {}, some ⟨0, .elseElements⟩, [.scalar (.symbol "MISSING")]⟩,
    ⟨.simpleName, none, {}, some ⟨0, .elseElements⟩, [.scalar (.symbol "MISSING")]⟩,
    .fresh .simpleName {}]
  stamp := 3
  observer := none
  journal := #[]

theorem unevenConditional_mem : unevenConditional ∈ (played [⟨.legacy, {}⟩] unevenBranches).trees := by
  decide +kernel

/-- The second branch has no sole element, that of the first can be replaced, and the condition can be made. -/
theorem view_faces_unevenConditional : ∃ s t, Reachable s ∧ t ∈ s.trees ∧
    t.peekChild ⟨0, 0⟩ .elseExpression =
      refuse (.unsupported .conditionalExpression .elseExpression (.multipleElements 2)) ∧
    (∃ t₁ t₂, NodeId.setChild ⟨0, 0⟩ .thenExpression ⟨0, 4⟩ t = .ok () t₁ ∧
      NodeId.refill ⟨0, 0⟩ .thenElements ⟨0, 4⟩ t = .ok () t₂ ∧ t₁.SameNodes t₂) ∧
    ∃ k c t₁ t₂, Property.conditionExpression.placeholder = some k ∧
      NodeId.child ⟨0, 0⟩ .conditionExpression t = .ok (some c) t₁ ∧
      NodeId.pushNew ⟨0, 0⟩ .conditionElements k t = .ok c t₂ ∧ t₁.SameNodes t₂ := by
  have hs : Reachable (played [⟨.legacy, {}⟩] unevenBranches) := .played _ _
  have ht := unevenConditional_mem
  have hfaces := fun v => view_faces hs ht (n := ⟨0, 0⟩) (v := v)
  obtain ⟨_, _, hq, hitems, hread⟩ := hfaces .elseExpression rfl rfl
  cases hq
  cases hitems
  obtain ⟨_, _, -, -, hset⟩ := hfaces .thenExpression rfl rfl
  obtain ⟨_, _, hq, hempty, hmake⟩ := hfaces .conditionExpression rfl rfl
  cases hq
  cases hempty
  refine ⟨_, _, hs, ht, (hread.many_iff 2).2 ⟨Nat.le_refl _, rfl⟩, ?_, hmake.child {} rfl rfl rfl rfl⟩
  obtain ⟨t₂, hrefill, hsame⟩ := hset.setChild ⟨0, 4⟩ _ rfl
  exact ⟨_, _, rfl, hrefill, hsame⟩

end Session

end SyntaxForest
