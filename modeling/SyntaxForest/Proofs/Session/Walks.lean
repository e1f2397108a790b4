import SyntaxForest.Proofs.Session.Run
import SyntaxForest.Proofs.Subtree.Row
import SyntaxForest.Proofs.Subtree.Walk

/-!
# Proofs/Session/Walks — walks in every reachable session

A cursor forgets where it started when it is asked to skip before its first step: the descent that
is pending then is the one into the start, and what it makes of it leaves the parent.

* `Session.preorder_inside_iff` — **every other walk stays inside**, whatever it skips.
* `Session.cursor_matches_visitor` — **a cursor that skips after entering takes the walk of the
  visitor** that refuses the same nodes, and then has ended for good.
-/

namespace SyntaxForest

namespace Session

variable {s : Session} {t : Tree} {n : NodeId}

/-- **A walk comes to its end and is as it is meant exactly if it is not asked to skip before its
first step.**  If it is, it starts by leaving the parent of its start, or yields nothing from a
root. -/
theorem preorder_inside_iff (h : Reachable s) (ht : t ∈ s.trees) (hn : n.tree = t.id)
    (hlt : n.index < t.size) (plan : SkipPlan) :
    ((∃ steps, t.preorder n plan = .ok (steps, true) ∧ t.Inside n steps) ↔
      plan.beforeCall 0 = false) ∧
    ∃ parent c, t.parent n = .ok parent ∧
      (Cursor.starting n).skip.next t = .ok (parent.map .leave, c) := by
  have hf := (h.tree_sound ht).forest
  exact ⟨Tree.exists_inside_iff hf hn hlt, Tree.first_step_of_skip hf hn hlt⟩

/-- The commands that read both placeholders of an array access. -/
def readBoth : List Command :=
  [.edit 0 (.create .arrayAccess), .edit 0 (.child ⟨0, 0⟩ .arrayAccessArray),
    .edit 0 (.child ⟨0, 0⟩ .arrayAccessIndex)]

/-- The walk of the first of the two may be asked to skip whenever it likes, only not at once. -/
theorem preorder_inside_iff_readBoth : ∃ s t, Reachable s ∧ t ∈ s.trees ∧
    t.parent ⟨0, 1⟩ = .ok (some ⟨0, 0⟩) ∧
    (∃ steps, t.preorder ⟨0, 1⟩ ⟨(· != 0), fun _ => true⟩ = .ok (steps, true) ∧
      t.Inside ⟨0, 1⟩ steps) ∧
    ¬∃ steps, t.preorder ⟨0, 1⟩ ⟨(· == 0), fun _ => false⟩ = .ok (steps, true) ∧
      t.Inside ⟨0, 1⟩ steps := by
  have hs : Reachable (played [⟨.legacy, {}⟩] readBoth) := .played _ _
  have ht := @Array.getElem_mem _ (played [⟨.legacy, {}⟩] readBoth).trees 0 (by decide +kernel)
  have hwalk := preorder_inside_iff hs ht (n := ⟨0, 1⟩) rfl (by decide +kernel)
  refine ⟨_, _, hs, ht, rfl, (hwalk ⟨(· != 0), fun _ => true⟩).1.2 rfl, fun hinside => ?_⟩
  cases (hwalk ⟨(· == 0), fun _ => false⟩).1.1 hinside

/-- In a reachable session every child is in sight. -/
theorem Reachable.visible (h : Reachable s) {i : Nat} (ht : s.trees[i]? = some t) : t.Visible := by
  induction h generalizing t with
  | start configs =>
    obtain ⟨config, rfl⟩ := exists_config ht
    exact Tree.Visible.start i config
  | step c h ih =>
    obtain ⟨u, hu, hr⟩ := (after_leadsTo h.sound c).exists_earlier ht
    exact hr.visible (h.sound.trees hu) (ih hu)

theorem Reachable.tree_visible (h : Reachable s) (ht : t ∈ s.trees) : t.Visible := by
  obtain ⟨i, hi⟩ := Array.mem_iff_getElem?.1 ht
  exact h.visible hi

/-- **The cursor and the visitor take the same walk**, step by step, if the one is asked to skip
right after entering just the nodes that the other refuses to descend into.  Where nothing is
refused, the walk enters and leaves each node that an image of the start has.  After its end the
cursor answers nothing, however often it is asked, to skip or not. -/
theorem cursor_matches_visitor (h : Reachable s) (ht : t ∈ s.trees) (hn : n.tree = t.id)
    (hlt : n.index < t.size) (refuses : NodeId → Bool) :
    ∃ steps c, t.recordWalk n (.refusing refuses) = .ok (steps, none) ∧
      t.preorder n (.refusing refuses) = .ok (steps, true) ∧
      Cursor.drain t (.refusing refuses) (2 * t.size + 2) 0 (.starting n) = .ok (steps, c) ∧
      (∀ skips, c.answers t skips = .ok (skips.map fun _ => none)) ∧
      ((∀ m, refuses m = false) →
        ∃ image, t.snapshot n = .ok image ∧ steps.length = 2 * image.size) := by
  have hf := (h.tree_sound ht).forest
  obtain ⟨i, hi⟩ := Array.mem_iff_getElem?.1 ht
  obtain ⟨v, hshows, hsubtree, hown⟩ := Tree.exists_subtree hf hn hlt
  refine ⟨v.steps t.shape refuses, ⟨n, none, false⟩, Tree.recordWalk_eq_ok hsubtree,
    Tree.preorder_eq_ok hf hn hshows, Tree.drain_eq_ok hf hn hshows, Cursor.answers_of_end,
    fun hrefuses => ⟨v.image, bind_eq_ok.2 ⟨v, hown, rfl⟩, ?_⟩⟩
  rw [hshows.length_steps (h.visible hi) hrefuses, Image.size, Subtree.image,
    Subtree.length_rowFrom]

/-- The commands that put an array access with two placeholders under another one, before its
index. -/
def nestAccess : List Command :=
  [.edit 0 (.create .arrayAccess), .edit 0 (.create .arrayAccess),
    .edit 0 (.setChild ⟨0, 0⟩ .arrayAccessArray ⟨0, 1⟩),
    .edit 0 (.child ⟨0, 1⟩ .arrayAccessArray), .edit 0 (.child ⟨0, 1⟩ .arrayAccessIndex),
    .edit 0 (.child ⟨0, 0⟩ .arrayAccessIndex)]

/-- From the whole, without descending into the inner one; and from the inner one, which has a parent
and a sibling after it. -/
theorem cursor_matches_visitor_nestAccess : ∃ s t, Reachable s ∧ t ∈ s.trees ∧
    t.children ⟨0, 0⟩ = .ok [⟨0, 1⟩, ⟨0, 4⟩] ∧
    t.preorder ⟨0, 0⟩ (.refusing (· == ⟨0, 1⟩)) = .ok ([.enter ⟨0, 0⟩, .enter ⟨0, 1⟩,
      .leave ⟨0, 1⟩, .enter ⟨0, 4⟩, .leave ⟨0, 4⟩, .leave ⟨0, 0⟩], true) ∧
    t.preorder ⟨0, 1⟩ (.refusing fun _ => false) = .ok ([.enter ⟨0, 1⟩, .enter ⟨0, 2⟩,
      .leave ⟨0, 2⟩, .enter ⟨0, 3⟩, .leave ⟨0, 3⟩, .leave ⟨0, 1⟩], true) := by
  have hs : Reachable (played [⟨.legacy, {}⟩] nestAccess) := .played _ _
  have ht := @Array.getElem_mem _ (played [⟨.legacy, {}⟩] nestAccess).trees 0 (by decide +kernel)
  obtain ⟨steps, _, hvisitor, hcursor, -⟩ :=
    cursor_matches_visitor hs ht (n := ⟨0, 0⟩) rfl (by decide +kernel) (· == ⟨0, 1⟩)
  obtain ⟨steps', _, hvisitor', hcursor', -⟩ :=
    cursor_matches_visitor hs ht (n := ⟨0, 1⟩) rfl (by decide +kernel) fun _ => false
  have hrefused : Except.ok (steps, none) = .ok ([.enter ⟨0, 0⟩, .enter ⟨0, 1⟩, .leave ⟨0, 1⟩,
      .enter ⟨0, 4⟩, .leave ⟨0, 4⟩, .leave ⟨0, 0⟩], none) := hvisitor.symm.trans (by decide +kernel)
  have hinner : Except.ok (steps', none) = .ok ([.enter ⟨0, 1⟩, .enter ⟨0, 2⟩, .leave ⟨0, 2⟩,
      .enter ⟨0, 3⟩, .leave ⟨0, 3⟩, .leave ⟨0, 1⟩], none) := hvisitor'.symm.trans (by decide +kernel)
  obtain ⟨rfl, -⟩ := Prod.mk.inj (Except.ok.inj hrefused)
  obtain ⟨rfl, -⟩ := Prod.mk.inj (Except.ok.inj hinner)
  exact ⟨_, _, hs, ht, by decide +kernel, hcursor, hcursor'⟩

end Session

end SyntaxForest
