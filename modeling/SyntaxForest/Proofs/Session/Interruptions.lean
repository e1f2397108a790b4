import SyntaxForest.Proofs.Session.Run
import SyntaxForest.Proofs.Subtree.Interruption

/-!
# Proofs/Session/Interruptions — a visitor that fails stops the walk at once

A visitor keeps a state along the walk, which may decide where it descends, and it may fail from any call: on the
way into a node or out of it, at whatever depth.

* `Session.walk_interrupted` — **the calls up to the failure are those of the walk without it**.
-/

namespace SyntaxForest

namespace Session

open Visitor

variable {s : Session} {t : Tree} {n : NodeId}

/-- **A walk that fails is a beginning of the walk that does not.**  Let a visitor walk below a node, from any
state, and let its calls be taken down, which changes nothing.  If it is to fail from its `k`-th call, then the
calls made are the first `k` of these, and nothing is called after the failure; if there are fewer, they are all
made and the walk does not fail. -/
theorem walk_interrupted (h : Reachable s) (ht : t ∈ s.trees) (hn : n ∈ t.nodes) {σ : Type}
    (v : Visitor (StateM σ)) (start : σ) : ∃ walk noted final,
      t.walk n v = .ok walk ∧ t.walk n v.noted = .ok noted ∧
      walk start = ((), final.state) ∧ noted ⟨start, []⟩ = ((), final) ∧
      ∀ k, 0 < k → ∀ {ε : Type} (err : Call σ → ε), ∃ cut, t.walk n (v.interrupted k err) = .ok cut ∧
        (final.calls.length < k → cut ⟨start, []⟩ = .ok () final) ∧
        ∀ call, final.calls[k - 1]? = some call →
          cut ⟨start, []⟩ = .error (err call) ⟨call.state, final.calls.take k⟩ := by
  obtain ⟨htree, hlt⟩ := Tree.mem_nodes.1 hn
  obtain ⟨a, -, hsubtree, -⟩ := Tree.exists_subtree (h.tree_sound ht).forest htree hlt
  have hwalk : ∀ {m : Type → Type} [Monad m] (w : Visitor m), t.walk n w = .ok (a.walk t.shape w) :=
    fun w => bind_eq_ok.2 ⟨a, hsubtree, rfl⟩
  obtain ⟨calls, hnotes⟩ := walk_notes v t.shape a ⟨start, []⟩
  refine ⟨_, _, (a.walk t.shape v.noted ⟨start, []⟩).2, hwalk v, hwalk v.noted, ?_, rfl, fun k hk ε err =>
    ⟨_, hwalk _, ?_⟩⟩
  · rw [hnotes]
    rfl
  · obtain ⟨-, hcut⟩ := walk_cuts v k err t.shape a ⟨start, []⟩
    exact ⟨(hcut hk).eq_ok, fun call => (hcut hk).eq_error⟩

/-- A session of one tree, with a pattern of a cast and a name.  What is cast was read, which made a name for it. -/
def castBesideName : Session := played [⟨.current, {}⟩]
  [.edit 0 (.create .pattern), .edit 0 (.create .castExpression), .edit 0 (.create .simpleName),
    .edit 0 (.list ⟨0, 0⟩ .patternElements (.extend [⟨0, 1⟩, ⟨0, 2⟩])), .edit 0 (.child ⟨0, 1⟩ .castExpression)]

/-- A visitor that counts the nodes it meets, and descends into the first one only. -/
def firstOnly : Visitor (StateM Nat) where
  enter _ := fun met => (met == 0, met + 1)
  leave _ := fun met => ((), met)

/-- The third call is on the way out of the cast, into which it did not descend.  If it fails there, then it does
not get to the name, and is not called on the way out of the pattern. -/
theorem walk_interrupted_castBesideName : ∃ s t cut, Reachable s ∧ t ∈ s.trees ∧
    t.walk ⟨0, 0⟩ (firstOnly.interrupted 3 fun call => call.event.node) = .ok cut ∧
    cut ⟨0, []⟩ = .error ⟨0, 1⟩ ⟨2, [⟨.enter ⟨0, 0⟩, 1⟩, ⟨.enter ⟨0, 1⟩, 2⟩, ⟨.leave ⟨0, 1⟩, 2⟩]⟩ := by
  have hs : Reachable castBesideName := .played _ _
  have hwhole : ∃ t ∈ castBesideName.trees[0]?, ⟨0, 0⟩ ∈ t.nodes ∧
      (t.walk ⟨0, 0⟩ firstOnly.noted).toOption.map (fun m => (m ⟨0, []⟩).2) =
        some ⟨3, [⟨.enter ⟨0, 0⟩, 1⟩, ⟨.enter ⟨0, 1⟩, 2⟩, ⟨.leave ⟨0, 1⟩, 2⟩, ⟨.enter ⟨0, 2⟩, 3⟩,
          ⟨.leave ⟨0, 2⟩, 3⟩, ⟨.leave ⟨0, 0⟩, 3⟩]⟩ := by decide +kernel
  obtain ⟨t, ht, hn, hwhole⟩ := hwhole
  have ht := Array.mem_of_getElem? ht
  obtain ⟨walk, noted, final, -, hnoted, -, hfinal, hcuts⟩ := walk_interrupted hs ht hn firstOnly 0
  rw [hnoted, Except.toOption, Option.map_some, hfinal] at hwhole
  obtain rfl := Option.some.inj hwhole
  obtain ⟨cut, hcut, -, hfails⟩ := hcuts 3 (by decide) fun call => call.event.node
  exact ⟨_, _, cut, hs, ht, hcut, hfails _ rfl⟩

end Session

end SyntaxForest
