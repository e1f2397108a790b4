import SyntaxForest.Proofs.Edit.Attachment
import SyntaxForest.Proofs.Session.Run

/-!
# Proofs/Session/Attachments — attachments in every reachable session

Who attaches nodes to different places need not agree on who comes first.

* `Session.attachments_commute` — **in a reachable session attachments to different slots change places**.
-/

namespace SyntaxForest

namespace Session

variable {s : Session} {t t₁ t₂ t₁₂ t₂₁ : Tree} {n₁ n₂ : NodeId} {p₁ p₂ : Property} {e₁ e₂ : Edit}
  {r₁ r₂ r₁₂ r₂₁ : Reply}

/-- **Attachments to different slots change places**: if a child that is set, or a batch that a list is
extended by, comes in before and after another one, and the other one comes in as well either way, then the
trees are the same in the end, with all locations and the stamp.  They may have been announced in another
order. -/
theorem attachments_commute (h : Reachable s) (ht : t ∈ s.trees) (he₁ : e₁.Attaches n₁ p₁)
    (he₂ : e₂.Attaches n₂ p₂) (hne : ¬(n₁ = n₂ ∧ p₁.slot = p₂.slot))
    (h₁ : e₁.run t = .ok r₁ t₁) (h₁₂ : e₂.run t₁ = .ok r₁₂ t₁₂)
    (h₂ : e₂.run t = .ok r₂ t₂) (h₂₁ : e₁.run t₂ = .ok r₂₁ t₂₁) :
    t₁₂.SameNodes t₂₁ ∧ t₂₁.stamp = t₁₂.stamp := by
  have hf := (h.tree_sound ht).forest
  obtain ⟨f₁, k₁, hrun₁⟩ := he₁.fills
  obtain ⟨f₂, k₂, hrun₂⟩ := he₂.fills
  obtain ⟨hn₁, hfills₁⟩ := (hrun₁ t hf).of_ok_eq h₁
  obtain ⟨hn₂, hfills₂⟩ := (hrun₂ t hf).of_ok_eq h₂
  obtain ⟨-, hfills₁₂⟩ := (hrun₂ t₁ hfills₁.forest).of_ok_eq h₁₂
  obtain ⟨-, hfills₂₁⟩ := (hrun₁ t₂ hfills₂.forest).of_ok_eq h₂₁
  exact hfills₁.comm hfills₁₂ hfills₂ hfills₂₁ fun ⟨hindex, hslot⟩ =>
    hne ⟨Tree.eq_of_index hn₁ hn₂ hindex, hslot⟩

/-- The commands that make a cast of a name, and beside it a conditional and two names. -/
def castAndBranches : List Command :=
  [.edit 0 (.create .castExpression), .edit 0 (.create .conditionalExpression), .edit 0 (.create .simpleName),
    .edit 0 (.create .simpleName), .edit 0 (.create .simpleName),
    .edit 0 (.setChild ⟨0, 0⟩ .castExpression ⟨0, 4⟩)]

/-- The tree that these commands make. -/
def castBesideBranches : Tree where
  id := 0
  config := ⟨.current, {}⟩
  records := #[⟨.castExpression, none, {}, none, [.list [], .child (some 4)]⟩,
    ⟨.conditionalExpression, none, {}, none, [.list [], .list [], .list []]⟩,
    .fresh .simpleName {}, .fresh .simpleName {},
    ⟨.simpleName, none, {}, some ⟨0, .castExpression⟩, [.scalar (.symbol "MISSING")]⟩]
  stamp := 1
  observer := none
  journal := #[]

/-- That tree with the conditional in the cast. -/
def castOfConditional : Tree :=
  { castBesideBranches with
    records := #[⟨.castExpression, none, {}, none, [.list [], .child (some 1)]⟩,
      ⟨.conditionalExpression, none, {}, some ⟨0, .castExpression⟩, [.list [], .list [], .list []]⟩,
      .fresh .simpleName {}, .fresh .simpleName {}, .fresh .simpleName {}]
    stamp := 2 }

/-- That tree with two names in the first branch. -/
def castBesideBranchOfNames : Tree :=
  { castBesideBranches with
    records := #[⟨.castExpression, none, {}, none, [.list [], .child (some 4)]⟩,
      ⟨.conditionalExpression, none, {}, none, [.list [], .list [2, 3], .list []]⟩,
      ⟨.simpleName, none, {}, some ⟨1, .thenElements⟩, [.scalar (.symbol "MISSING")]⟩,
      ⟨.simpleName, none, {}, some ⟨1, .thenElements⟩, [.scalar (.symbol "MISSING")]⟩,
      ⟨.simpleName, none, {}, some ⟨0, .castExpression⟩, [.scalar (.symbol "MISSING")]⟩]
    stamp := 3 }

/-- That tree with both. -/
def castOfBranchOfNames : Tree :=
  { castBesideBranches with
    records := #[⟨.castExpression, none, {}, none, [.list [], .child (some 1)]⟩,
      ⟨.conditionalExpression, none, {}, some ⟨0, .castExpression⟩, [.list [], .list [2, 3], .list []]⟩,
      ⟨.simpleName, none, {}, some ⟨1, .thenElements⟩, [.scalar (.symbol "MISSING")]⟩,
      ⟨.simpleName, none, {}, some ⟨1, .thenElements⟩, [.scalar (.symbol "MISSING")]⟩,
      .fresh .simpleName {}]
    stamp := 4 }

/-- The conditional takes the place of the name in the cast, and two names come into its first branch: three
changes, and one tree, whichever is first. -/
theorem attachments_commute_castBesideBranches : ∃ s t t₁ t₂ t₁₂ t₂₁, Reachable s ∧ t ∈ s.trees ∧
    (Edit.setChild ⟨0, 0⟩ .castExpression ⟨0, 1⟩).run t = .ok .done t₁ ∧
    (Edit.list ⟨0, 1⟩ .thenElements (.extend [⟨0, 2⟩, ⟨0, 3⟩])).run t₁ = .ok (.nodes []) t₁₂ ∧
    (Edit.list ⟨0, 1⟩ .thenElements (.extend [⟨0, 2⟩, ⟨0, 3⟩])).run t = .ok (.nodes []) t₂ ∧
    (Edit.setChild ⟨0, 0⟩ .castExpression ⟨0, 1⟩).run t₂ = .ok .done t₂₁ ∧
    t₁₂.SameNodes t₂₁ ∧ t₂₁.stamp = t₁₂.stamp := by
  have hs : Reachable (played [⟨.current, {}⟩] castAndBranches) := .played _ _
  have ht : castBesideBranches ∈ (played [⟨.current, {}⟩] castAndBranches).trees :=
    Array.mem_of_getElem? (i := 0) rfl
  have h₁ : (Edit.setChild ⟨0, 0⟩ .castExpression ⟨0, 1⟩).run castBesideBranches =
    .ok .done castOfConditional := rfl
  have h₁₂ : (Edit.list ⟨0, 1⟩ .thenElements (.extend [⟨0, 2⟩, ⟨0, 3⟩])).run castOfConditional =
    .ok (.nodes []) castOfBranchOfNames := rfl
  have h₂ : (Edit.list ⟨0, 1⟩ .thenElements (.extend [⟨0, 2⟩, ⟨0, 3⟩])).run castBesideBranches =
    .ok (.nodes []) castBesideBranchOfNames := rfl
  have h₂₁ : (Edit.setChild ⟨0, 0⟩ .castExpression ⟨0, 1⟩).run castBesideBranchOfNames =
    .ok .done castOfBranchOfNames := rfl
  have hne : ¬((⟨0, 0⟩ : NodeId) = ⟨0, 1⟩ ∧ Property.castExpression.slot = Property.thenElements.slot) := by decide
  exact ⟨_, _, _, _, _, _, hs, ht, h₁, h₁₂, h₂, h₂₁,
    attachments_commute hs ht (.child ⟨0, 1⟩) (.batch [⟨0, 2⟩, ⟨0, 3⟩]) hne h₁ h₁₂ h₂ h₂₁⟩

end Session

end SyntaxForest
