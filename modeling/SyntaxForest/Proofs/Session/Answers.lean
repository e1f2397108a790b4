import SyntaxForest.Proofs.Edit.Calls
import SyntaxForest.Proofs.Session.WellTyped
import SyntaxForest.Proofs.Subtree.Legible

/-!
# Proofs/Session/Answers — calls about what there is are answered

A call that is made on nodes of its own tree succeeds or is refused.  It never finds a node missing, a slot
of another form than its property declares, or a child that is not where it says it is; and what goes through
a subtree or up to a root comes to an end.

The calls that reach from tree to tree are about nodes of the tree that they start from.  A copy that was
made leaves these nodes where they are, so the next copy may start from them.

* `Session.run_answers` — every command about what there is answers.
* `Session.every_call_answers` — **every call answers**, with the readers, which are not even refused.
-/

namespace SyntaxForest

/-- The nodes of a tree stay its nodes. -/
theorem Tree.Reaches.mem_nodes {t t' : Tree} {n : NodeId} {T : Typing} (hr : t.Reaches T t')
    (hn : n ∈ t.nodes) : n ∈ t'.nodes := by
  obtain ⟨k, hk⟩ := Tree.exists_kind hn
  obtain ⟨hown, hk⟩ := Tree.kind_eq_ok.1 (hr.keepsKinds n k hk)
  obtain ⟨r, hr, -⟩ := Option.map_eq_some_iff.1 hk
  exact Tree.mem_nodes.2 ⟨hown, Arena.lt_size_of_record hr⟩

/-- A locator refuses a tree for which it was not made, and does nothing worse. -/
theorem Locator.check_answered (l : Locator) (t : Tree) : Answered (l.check t) :=
  (Answered.guard _ _).bind fun _ _ => .guard _ _

namespace Session

variable {α β : Type} {s s' : Session} {number source target : Nat} {t : Tree} {n : NodeId} {T : Typing}

/-! ## Commands about what there is -/

/-- The number is that of a tree, and the node is one of its nodes. -/
def Owns (s : Session) (number : Nat) (n : NodeId) : Prop :=
  ∃ t, s.trees[number]? = some t ∧ n ∈ t.nodes

/-- **A command about what there is**: trees and images by the numbers that they have, and nodes of the
trees that they are looked for in. -/
def Addressed (s : Session) : Command → Prop
  | .edit number e => ∃ t, s.trees[number]? = some t ∧ e.Addressed t
  | .snapshot number n | .locate number n => s.Owns number n
  | .graft number image => number < s.trees.size ∧ image < s.images.size
  | .clone source n target => s.Owns source n ∧ target < s.trees.size
  | .cloneAll source ns target => (∀ n ∈ ns, s.Owns source n) ∧ target < s.trees.size

theorem LeadsTo.owns (h : s.LeadsTo T s') (hn : s.Owns number n) : s'.Owns number n := by
  obtain ⟨t, ht, hn⟩ := hn
  obtain ⟨t', ht', hr⟩ := h.trees ht
  exact ⟨t', ht', hr.mem_nodes hn⟩

/-! ## Questions and actions on one tree -/

theorem answers_look_bind {f : Session → Except Failure α} {k : α → SessionM β} (hf : Returns (f s))
    (hk : ∀ x, f s = .ok x → Answers (k x) s) : Answers (look f >>= k) s := by
  obtain ⟨x, hx⟩ := hf
  rw [Answers, look_bind_run hx]
  exact hk x hx

theorem act_answers {a : TreeM α} (ht : s.trees[number]? = some t) (ha : Answers a t) :
    Answers (act number a) s := by
  intro e s' hrun
  rcases of_act_eq_error hrun with ⟨hnone, -⟩ | ⟨u, u', hu, hfails, -⟩
  · cases hnone.symm.trans (tree_eq_ok.2 ht)
  · obtain rfl := Option.some.inj (ht.symm.trans hu)
    exact ha e u' hfails

/-- A reader that returns on the nodes of its tree returns on one that is owned. -/
theorem Owns.returns {f : Tree → Except Failure α} (hn : s.Owns number n)
    (hf : ∀ t, s.trees[number]? = some t → n ∈ t.nodes → Returns (f t)) :
    Returns (do f (← s.tree number)) := by
  obtain ⟨t, ht, hn⟩ := hn
  obtain ⟨x, hx⟩ := hf t ht hn
  exact ⟨x, bind_eq_ok.2 ⟨t, tree_eq_ok.2 ht, hx⟩⟩

/-! ## From tree to tree -/

theorem clone_answers (h : s.Sound T) (hn : s.Owns source n) (htarget : target < s.trees.size) :
    Answers (clone source n target) s := by
  refine answers_look_bind (hn.returns fun t ht hn => Tree.exists_snapshot (h.trees ht).forest hn)
    fun image hi => ?_
  obtain ⟨t, ht, hi⟩ := bind_eq_ok.1 hi
  exact act_answers (Array.getElem?_eq_getElem htarget)
    (Image.graft_answers (Tree.snapshot_sound (h.trees (tree_eq_ok.1 ht)).typed hi))

/-- **Copies are made one after the other**: the nodes to be copied are still there after each. -/
theorem cloneAll_answers {ns : List NodeId} (h : s.Sound T) (hns : ∀ n ∈ ns, s.Owns source n)
    (htarget : target < s.trees.size) : Answers (cloneAll source ns target) s := by
  rw [cloneAll]
  induction ns generalizing s with
  | nil => exact .of_ok rfl
  | cons n ns ih =>
    obtain ⟨hn, hns⟩ := List.forall_mem_cons.1 hns
    rw [List.mapM_cons]
    refine (clone_answers h hn htarget).bind fun copy s' hrun => Answers.bind_pure ?_
    have hleads := ((clone_adds h source n target).of_ok hrun).leadsTo h
    exact ih (hleads.sound h) (fun m hm => hleads.owns (hns m hm)) (hleads.size ▸ htarget)

/-! ## All commands -/

/-- **Every command about what there is answers.** -/
theorem run_answers (h : s.Sound .declared) {c : Command} (hc : s.Addressed c) :
    Answers (run c) s := by
  cases c with
  | edit number e =>
    obtain ⟨t, ht, he⟩ := hc
    exact act_answers ht (Edit.run_answers (h.trees ht) e he)
  | snapshot number n =>
    exact .bind_pure (answers_look_bind
      (hc.returns fun t ht hn => Tree.exists_snapshot (h.trees ht).forest hn) fun _ _ => .of_ok rfl)
  | locate number n =>
    refine .bind_pure (answers_look_bind (hc.returns fun t ht hn => ?_) fun _ _ => .of_ok rfl)
    obtain ⟨_, _, -, -, hl⟩ := ((h.trees ht).legible hn).locator
    exact ⟨_, hl⟩
  | graft number image =>
    refine answers_look_bind ⟨_, image_eq_ok.2 (Array.getElem?_eq_getElem hc.2)⟩ fun i hi => ?_
    exact (act_answers (Array.getElem?_eq_getElem hc.1)
      (Image.graft_answers (h.images (image_eq_ok.1 hi)))).bind_pure
  | clone source n target => exact (clone_answers h hc.1 hc.2).bind_pure
  | cloneAll source ns target => exact (cloneAll_answers h hc.1 hc.2).bind_pure

/-- **Every call answers** that is made on nodes of the tree.  What may change something, or is about a
property, succeeds or is refused.  What only reads a node, or what hangs below it or stands above it, is not
even refused; and a locator refuses only. -/
theorem every_call_answers (h : Reachable s) :
    (∀ c, s.Addressed c → Answers (run c) s) ∧
    (∀ t ∈ s.trees, ∀ n ∈ t.nodes, t.Legible n ∧ t.Consultable n) ∧
    (∀ t ∈ s.trees, ∀ u ∈ s.trees, ∀ n ∈ t.nodes, ∀ k ∈ u.nodes, ∀ {m : Type → Type} [Monad m]
      (sameScalar : Property → Scalar → Scalar → m Bool), Returns (t.compare n u k sameScalar)) ∧
    ∀ t ∈ s.trees, ∀ (l : Locator) span,
      Answered (l.covering t span) ∧ Answered (l.covered t span) := by
  refine ⟨fun c => run_answers h.sound, fun t ht n hn => ?_, fun t ht u hu n hn k hk => ?_,
    fun t _ l span => ?_⟩
  · exact ⟨(h.tree_sound ht).legible hn, (h.tree_sound ht).consultable hn⟩
  · exact ((h.tree_sound ht).legible hn).compare ((h.tree_sound hu).legible hk)
  · exact ⟨(l.check_answered t).bind fun _ _ => .of_ok rfl,
      (l.check_answered t).bind fun _ _ => .of_ok rfl⟩

/-- A session of two trees, one of each shape.  The first has an array access in another one; the index of
the one in the second was read, which made it. -/
def mixedAccesses : Session := played [⟨.current, {}⟩, ⟨.legacy, {}⟩]
  [.edit 0 (.create .arrayAccess), .edit 0 (.create .arrayAccess),
    .edit 0 (.setChild ⟨0, 0⟩ .arrayAccessArray ⟨0, 1⟩), .edit 1 (.create .arrayAccess),
    .edit 1 (.child ⟨1, 0⟩ .arrayAccessIndex)]

/-- The call that would close a cycle is refused, copies into the other tree are made or refused, and what
there is can be read and compared. -/
theorem every_call_answers_mixedAccesses : ∃ s t u, Reachable s ∧ t ∈ s.trees ∧ u ∈ s.trees ∧
    t.shape = .current ∧ u.shape = .legacy ∧
    (∃ r s', run (.edit 0 (.setChild ⟨0, 1⟩ .arrayAccessArray ⟨0, 0⟩)) s =
      .error (.refused r) s') ∧
    Answers (run (.cloneAll 0 [⟨0, 0⟩, ⟨0, 1⟩] 1)) s ∧
    (t.Legible ⟨0, 1⟩ ∧ t.Consultable ⟨0, 1⟩) ∧ (u.Legible ⟨1, 1⟩ ∧ u.Consultable ⟨1, 1⟩) ∧
    Returns (t.compare ⟨0, 0⟩ u ⟨1, 0⟩ fun _ a b => (pure (a == b) : Id Bool)) := by
  have hs : Reachable mixedAccesses := .played _ _
  have ht := @Array.getElem_mem _ mixedAccesses.trees 0 (by decide +kernel)
  have hu := @Array.getElem_mem _ mixedAccesses.trees 1 (by decide +kernel)
  obtain ⟨hrun, hread, hcompare, -⟩ := every_call_answers hs
  have hget : mixedAccesses.trees[0]? = some mixedAccesses.trees[0] :=
    Array.getElem?_eq_getElem (by decide +kernel)
  have hcycle : mixedAccesses.Addressed (.edit 0 (.setChild ⟨0, 1⟩ .arrayAccessArray ⟨0, 0⟩)) :=
    ⟨_, hget, by decide +kernel, nofun⟩
  obtain ⟨e, s', hfails⟩ : ∃ e s', run (.edit 0 (.setChild ⟨0, 1⟩ .arrayAccessArray ⟨0, 0⟩))
      mixedAccesses = .error e s' := ⟨.refused .cycle, _, rfl⟩
  obtain ⟨r, rfl⟩ := hrun _ hcycle e s' hfails
  refine ⟨_, _, _, hs, ht, hu, by decide +kernel, by decide +kernel, ⟨r, s', hfails⟩,
    hrun _ ⟨?_, by decide +kernel⟩, hread _ ht _ (by decide +kernel), hread _ hu _ (by decide +kernel),
    hcompare _ ht _ hu _ (by decide +kernel) _ (by decide +kernel) _⟩
  exact List.forall_mem_cons.2 ⟨⟨_, hget, by decide +kernel⟩,
    List.forall_mem_singleton.2 ⟨_, hget, by decide +kernel⟩⟩

end Session

end SyntaxForest
