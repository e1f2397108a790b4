import SyntaxForest.Proofs.Edit.Enumeration
import SyntaxForest.Proofs.Session.Walks

/-!
# Proofs/Session/Enumeration — reflection finds the children

A reader that knows nothing of the grammar may ask which properties the kind of a node has in the shape of its
tree, and read each by what it declares to be.

* `Session.collected_enumerates` — **it finds every child, under the property that the child names**.
-/

namespace SyntaxForest

namespace Session

variable {s : Session} {t : Tree}

/-- **Whoever goes through the properties on offer finds exactly the children of a node**, in their order, each
under the property that it names as its place.  Under a view that does not answer, for there are several
elements, these are found.  And each node that has a parent is found there. -/
theorem collected_enumerates (h : Reachable s) (ht : t ∈ s.trees) :
    (∀ n ∈ t.nodes, ∃ rows, t.collected n = .ok rows ∧ t.Enumerates n rows) ∧
    ∀ c n, t.parent c = .ok (some n) → ∃ rows, t.collected n = .ok rows ∧ ∃ row ∈ rows, c ∈ row.2 := by
  obtain ⟨i, hi⟩ := Array.mem_iff_getElem?.1 ht
  have hf := (h.tree_sound ht).forest
  have hall : ∀ n ∈ t.nodes, ∃ rows, t.collected n = .ok rows ∧ t.Enumerates n rows := fun n hn =>
    Tree.enumerates hf (h.visible hi) hn
  refine ⟨hall, fun c n hparent => ?_⟩
  obtain ⟨-, l, hl, hn⟩ := Tree.parent_eq_some.1 hparent
  obtain ⟨rows, hrows, henumerates⟩ := hall n (Tree.mem_nodes.2 (hn ▸ ⟨rfl, hf.parent_lt hl⟩))
  exact ⟨rows, hrows, henumerates.complete c hparent⟩

/-- The commands that give a qualified type two elements where the legacy shape reads one, and read its name. -/
def twoQualifiers : List Command :=
  [.edit 0 (.create .qualifiedType), .edit 0 (.create .simpleType), .edit 0 (.create .primitiveType),
    .edit 0 (.list ⟨0, 0⟩ .qualifiedTypeElements (.extend [⟨0, 2⟩, ⟨0, 1⟩])),
    .edit 0 (.child ⟨0, 0⟩ .qualifiedTypeName)]

/-- Both elements are found under the view, and name it. -/
theorem collected_enumerates_twoQualifiers : ∃ s t rows, Reachable s ∧ t ∈ s.trees ∧ t.shape = .legacy ∧
    t.collected ⟨0, 0⟩ = .ok rows ∧
    rows = [(.qualifiedTypeQualifier, [⟨0, 2⟩, ⟨0, 1⟩]), (.qualifiedTypeName, [⟨0, 3⟩])] ∧
    t.children ⟨0, 0⟩ = .ok [⟨0, 2⟩, ⟨0, 1⟩, ⟨0, 3⟩] ∧
    t.peekChild ⟨0, 0⟩ .qualifiedTypeQualifier =
      refuse (.unsupported .qualifiedType .qualifiedTypeQualifier (.multipleElements 2)) ∧
    t.parent ⟨0, 1⟩ = .ok (some ⟨0, 0⟩) ∧
    t.locationInParent ⟨0, 1⟩ = .ok (some .qualifiedTypeQualifier) := by
  have hs : Reachable (played [⟨.legacy, {}⟩] twoQualifiers) := .played _ _
  have ht := @Array.getElem_mem _ (played [⟨.legacy, {}⟩] twoQualifiers).trees 0 (by decide +kernel)
  obtain ⟨rows, hrows, henumerates⟩ := (collected_enumerates hs ht).1 ⟨0, 0⟩ (by decide +kernel)
  have heq : rows = [(.qualifiedTypeQualifier, [⟨0, 2⟩, ⟨0, 1⟩]), (.qualifiedTypeName, [⟨0, 3⟩])] :=
    Except.ok.inj (hrows.symm.trans (by decide +kernel))
  subst heq
  obtain ⟨hparent, hlocation⟩ := henumerates.filed _ List.mem_cons_self ⟨0, 1⟩ (by decide)
  exact ⟨_, _, _, hs, ht, by decide +kernel, hrows, rfl, henumerates.children, by decide +kernel, hparent, hlocation⟩

end Session

end SyntaxForest
