import SyntaxForest.Proofs.Session.Copies
import SyntaxForest.Proofs.Session.Matching
import SyntaxForest.Proofs.Subtree.Flip

/-!
# Proofs/Session/Symmetry — matching is symmetric across shapes

Across shapes matching is no equivalence: what a shape reads as one child it fills in, and what it reads as
a list it takes as it is, so two nodes of one shape may match a node of the other, and not each other.  But
it stays symmetric.

* `Tree.compare_flip` — two nodes that can be read make one comparison, from either side.
* `Session.agree_symm` — **matching is symmetric**, whatever the shapes of the two trees.
-/

namespace SyntaxForest

namespace Tree

variable {t u : Tree} {n k : NodeId} {a b : Subtree} {T : Typing}

/-- **The comparison of two nodes from the other side** makes the same tests in the same order, in any
monad. -/
theorem compare_flip {m : Type → Type} [Monad m] (test : Property → Scalar → Scalar → m Bool)
    (ha : t.subtree n = .ok a) (hb : u.subtree k = .ok b) :
    u.compare k t n (fun p x y => test p y x) = t.compare n u k test := by
  unfold compare
  rw [ha, hb]
  exact congrArg Except.ok (Comparison.flip_run ⟨t.shape, u.shape, test⟩ (.real a) (.real b))

/-- A symmetric test of scalars makes a symmetric comparison. -/
theorem exists_agreeBy_symm {accepts : Property → Scalar → Scalar → Bool}
    (hsymm : ∀ p x y, accepts p x y = accepts p y x) (ht : t.Sound T) (hu : u.Sound T)
    (hn : n ∈ t.nodes) (hk : k ∈ u.nodes) :
    ∃ verdict, t.agreeBy n u k accepts = .ok verdict ∧ u.agreeBy k t n accepts = .ok verdict := by
  rw [mem_nodes] at hn hk
  obtain ⟨a, -, ha, -⟩ := exists_subtree ht.forest hn.1 hn.2
  obtain ⟨b, -, hb, -⟩ := exists_subtree hu.forest hk.1 hk.2
  have hflip := compare_flip (fun p x y => (pure (accepts p x y) : Id Bool)) ha hb
  have htest : (fun p x y => (pure (accepts p y x) : Id Bool)) = fun p x y => pure (accepts p x y) :=
    funext₃ fun p x y => congrArg pure (hsymm p y x)
  rw [htest] at hflip
  have hverdict : t.agreeBy n u k accepts = .ok _ :=
    bind_eq_ok.2 ⟨_, bind_eq_ok.2 ⟨a, ha, bind_eq_ok.2 ⟨b, hb, rfl⟩⟩, rfl⟩
  refine ⟨_, hverdict, ?_⟩
  rw [← hverdict, agreeBy, hflip, agreeBy]

end Tree

namespace Session

variable {s : Session} {t u : Tree} {n m : NodeId}

/-- **Matching is symmetric**, whatever the shapes of the two trees and whatever was read of them: in
equality of scalars, and under every other symmetric test that keeps no state. -/
theorem agree_symm (h : Reachable s) (ht : t ∈ s.trees) (hu : u ∈ s.trees) (hn : n ∈ t.nodes)
    (hm : m ∈ u.nodes) :
    (∃ verdict, t.agree n u m = .ok verdict ∧ u.agree m t n = .ok verdict) ∧
    ∀ accepts : Property → Scalar → Scalar → Bool, (∀ p x y, accepts p x y = accepts p y x) →
      ∃ verdict, t.agreeBy n u m accepts = .ok verdict ∧
        u.agreeBy m t n accepts = .ok verdict := by
  have hagree : ∀ accepts : Property → Scalar → Scalar → Bool,
      (∀ p x y, accepts p x y = accepts p y x) → ∃ verdict,
        t.agreeBy n u m accepts = .ok verdict ∧ u.agreeBy m t n accepts = .ok verdict :=
    fun _ hsymm => Tree.exists_agreeBy_symm hsymm (h.tree_sound ht) (h.tree_sound hu) hn hm
  refine ⟨?_, hagree⟩
  rw [Tree.agree_eq_agreeBy, Tree.agree_eq_agreeBy]
  exact hagree _ fun _ x y => BEq.comm

/-- Two conditional expressions in each of two trees.  In the legacy tree the condition of the first was
read; the first of the current tree was given a condition, and the second was left empty. -/
def mixedConditionals : Session := played [⟨.legacy, {}⟩, ⟨.current, {}⟩]
  [.edit 0 (.create .conditionalExpression), .edit 0 (.create .conditionalExpression),
    .edit 0 (.child ⟨0, 0⟩ .conditionExpression),
    .edit 1 (.create .conditionalExpression), .edit 1 (.create .conditionalExpression),
    .edit 1 (.create .simpleName),
    .edit 1 (.list ⟨1, 0⟩ .conditionElements (.push ⟨1, 2⟩))]

/-- The legacy tree of that session. -/
def legacyConditionals : Tree where
  id := 0
  config := ⟨.legacy, {}⟩
  records := #[⟨.conditionalExpression, none, {}, none, [.list [2], .list [], .list []]⟩,
    .fresh .conditionalExpression {},
    ⟨.simpleName, none, {}, some ⟨0, .conditionElements⟩, [.scalar (.symbol "MISSING")]⟩]
  stamp := 0
  observer := none
  journal := #[]

/-- The current tree: the same nodes, the condition being one that was put there. -/
def currentConditionals : Tree :=
  { legacyConditionals with id := 1, config := ⟨.current, {}⟩, stamp := 1 }

/-- What is there on one side only is filled in by the legacy shape and not by the current one, and that
on either side of the comparison. -/
theorem agree_symm_mixedConditionals : ∃ s t u, Reachable s ∧ t ∈ s.trees ∧ u ∈ s.trees ∧
    t.shape = .legacy ∧ u.shape = .current ∧
    (t.agree ⟨0, 1⟩ u ⟨1, 0⟩ = .ok true ∧ u.agree ⟨1, 0⟩ t ⟨0, 1⟩ = .ok true) ∧
    (t.agree ⟨0, 0⟩ u ⟨1, 1⟩ = .ok false ∧ u.agree ⟨1, 1⟩ t ⟨0, 0⟩ = .ok false) ∧
    ∀ accepts : Property → Scalar → Scalar → Bool, (∀ p x y, accepts p x y = accepts p y x) →
      ∃ verdict, t.agreeBy ⟨0, 1⟩ u ⟨1, 0⟩ accepts = .ok verdict ∧
        u.agreeBy ⟨1, 0⟩ t ⟨0, 1⟩ accepts = .ok verdict := by
  have hs : Reachable mixedConditionals := .played _ _
  have ht : legacyConditionals ∈ mixedConditionals.trees := Array.mem_of_getElem? (i := 0) rfl
  have hu : currentConditionals ∈ mixedConditionals.trees := Array.mem_of_getElem? (i := 1) rfl
  obtain ⟨⟨v, hv, hv'⟩, htests⟩ := agree_symm hs ht hu (n := ⟨0, 1⟩) (m := ⟨1, 0⟩)
    (by decide) (by decide)
  obtain ⟨w, hw, hw'⟩ := (agree_symm hs ht hu (n := ⟨0, 0⟩) (m := ⟨1, 1⟩)
    (by decide) (by decide)).1
  have hyes : legacyConditionals.agree ⟨0, 1⟩ currentConditionals ⟨1, 0⟩ = .ok true := by cbv
  have hno : legacyConditionals.agree ⟨0, 0⟩ currentConditionals ⟨1, 1⟩ = .ok false := by cbv
  obtain rfl : v = true := Except.ok.inj (hv.symm.trans hyes)
  obtain rfl : w = false := Except.ok.inj (hw.symm.trans hno)
  exact ⟨_, _, _, hs, ht, hu, rfl, rfl, ⟨hv, hv'⟩, ⟨hw, hw'⟩, htests⟩

end Session

end SyntaxForest
