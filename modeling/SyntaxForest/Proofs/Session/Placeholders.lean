import SyntaxForest.Proofs.Edit.Placeholder
import SyntaxForest.Proofs.Session.Locality

/-!
# Proofs/Session/Placeholders — reads in every reachable session

Reading a child may make a node, so reads are edits, strictly speaking.  They do not behave like edits: to read
once more is to do nothing, and of two reads either may come first.

* `Session.reads_lazy` — **in a reachable session a read is made once, and reads may change places**.
-/

namespace SyntaxForest

namespace Session

variable {s : Session} {t : Tree}

/-- **A read is made once, and reads may change places** (`Tree.ReadsOnce`, `Tree.ReadsInAnyOrder`).  The read
that comes second finds what the first one found or made, which is no more than one bare node.  Two reads, of
whatever nodes and properties, answer the same in either order, and every node that was there has the same image
afterwards; only the numbers of the nodes that they made depend on the order. -/
theorem reads_lazy (h : Reachable s) (ht : t ∈ s.trees) :
    (∀ (n : NodeId) p ret t', n.child p t = .ok ret t' → t.ReadsOnce n p ret t') ∧
    ∀ n₁ ∈ t.nodes, ∀ n₂ ∈ t.nodes, ∀ p₁ p₂, ∃ σ, t.ReadsInAnyOrder n₁ p₁ n₂ p₂ σ ∧
      ∀ m ∈ t.nodes, ((t.read n₁ p₁).read n₂ p₂).SameImage
        ((t.read n₂ p₂).read n₁ p₁) m := by
  have hf := (h.tree_sound ht).forest
  refine ⟨fun n p ret t' hread => Tree.child_once hf hread, fun n₁ h₁ n₂ h₂ p₁ p₂ => ?_⟩
  obtain ⟨σ, hσ⟩ : ∃ σ, t.ReadsInAnyOrder n₁ p₁ n₂ p₂ σ := Tree.reads_in_any_order hf h₁ h₂
  have hf₁ : Arena.Forest (t.read n₁ p₁).records := NodeId.child_forest hf
  have hf₂ : Arena.Forest (t.read n₂ p₂).records := NodeId.child_forest hf
  have hconfined := (NodeId.child_confined (n := n₁) (p := p₁) hf).after
  have hconfined' := (NodeId.child_confined (n := n₂) (p := p₂) hf₁).after
  exact ⟨σ, hσ, fun m hm => hσ.trees.snapshot_eq (NodeId.child_forest hf₁) (NodeId.child_forest hf₂)
    (hconfined'.keeps_nodes (hconfined.keeps_nodes hm)) (hσ.fixes m hm)⟩

/-- The commands that make a conditional with an array access in its first branch. -/
def branchAccess : List Command :=
  [.edit 0 (.create .conditionalExpression), .edit 0 (.create .arrayAccess),
    .edit 0 (.list ⟨0, 0⟩ .thenElements (.push ⟨0, 1⟩))]

/-- The tree that these commands make. -/
def accessInBranch : Tree where
  id := 0
  config := ⟨.current, {}⟩
  records := #[⟨.conditionalExpression, none, {}, none, [.list [], .list [1], .list []]⟩,
    ⟨.arrayAccess, none, {}, some ⟨0, .thenElements⟩, [.child none, .list []]⟩]
  stamp := 1
  observer := none
  journal := #[]

/-- The condition and, further down, the array come to exist: whichever is read first has the lower number, and
the conditional looks the same. -/
theorem reads_lazy_accessInBranch : ∃ s t, Reachable s ∧ t ∈ s.trees ∧
    (∃ t', NodeId.child ⟨0, 0⟩ .conditionExpression t = .ok (some ⟨0, 2⟩) t' ∧
      NodeId.child ⟨0, 0⟩ .conditionExpression t' = .ok (some ⟨0, 2⟩) t') ∧
    ∃ σ : Equiv.Perm Nat, σ 2 = 3 ∧
      TreeM.answer (NodeId.child ⟨0, 0⟩ .conditionExpression) (t.read ⟨0, 1⟩ .arrayAccessArray) =
        .ok (some ⟨0, σ 2⟩) ∧
      ((t.read ⟨0, 0⟩ .conditionExpression).read ⟨0, 1⟩ .arrayAccessArray).SameImage
        ((t.read ⟨0, 1⟩ .arrayAccessArray).read ⟨0, 0⟩ .conditionExpression)
        ⟨0, 0⟩ := by
  have hs : Reachable (played [⟨.current, {}⟩] branchAccess) := .played _ _
  have ht : accessInBranch ∈ (played [⟨.current, {}⟩] branchAccess).trees :=
    Array.mem_of_getElem? (i := 0) rfl
  obtain ⟨honce, horder⟩ := reads_lazy hs ht
  obtain ⟨σ, hσ, himages⟩ := horder ⟨0, 0⟩ (by decide) ⟨0, 1⟩ (by decide) .conditionExpression .arrayAccessArray
  have hfirst : TreeM.answer (NodeId.child ⟨0, 0⟩ .conditionExpression)
      (accessInBranch.read ⟨0, 1⟩ .arrayAccessArray) = .ok (some ⟨0, σ 2⟩) := hσ.first
  have hthree : TreeM.answer (NodeId.child ⟨0, 0⟩ .conditionExpression)
      (accessInBranch.read ⟨0, 1⟩ .arrayAccessArray) = .ok (some ⟨0, 3⟩) := rfl
  have hmoved : some (⟨0, σ 2⟩ : NodeId) = some ⟨0, 3⟩ := Except.ok.inj (hfirst.symm.trans hthree)
  refine ⟨_, _, hs, ht, ⟨_, rfl, (honce ⟨0, 0⟩ .conditionExpression (some ⟨0, 2⟩) _ rfl).again⟩, σ, ?_, hfirst,
    himages ⟨0, 0⟩ (by decide)⟩
  exact congrArg NodeId.index (Option.some.inj hmoved)

end Session

end SyntaxForest
