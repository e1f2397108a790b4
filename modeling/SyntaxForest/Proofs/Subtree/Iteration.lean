import Mathlib.Data.List.TakeWhile
import SyntaxForest.Proofs.Subtree.Cursor

/-!
# Proofs/Subtree/Iteration — a cursor can be asked at any time

Between its calls a cursor holds nothing but a pending step, and that is about a node of the tree,
whatever it was asked to skip: what follows a step is found among parents, children and siblings.  So no
call fails.  And since every call gets on in the walk of the whole, up to the root at the latest, the
calls come to an end.

* `Cursor.Used.exists_next` — **every call answers**, whatever has been called before.
* `Cursor.exists_drain` — **every walk comes to its end**, whatever is skipped.
-/

namespace SyntaxForest

namespace Cursor

variable {t : Tree} {plan : SkipPlan} {start n : NodeId} {c c' : Cursor} {e : WalkEvent}

/-! ## Calls in any order -/

/-- The pending step is about a node of the tree. -/
def Within (t : Tree) (c : Cursor) : Prop := ∀ e ∈ c.pending, e.node ∈ t.nodes

theorem exists_skipped (hf : Arena.Forest t.records) (he : e.node ∈ t.nodes) :
    ∃ ret, skipped t e = .ok ret ∧ ∀ e' ∈ ret, e'.node ∈ t.nodes := by
  cases e with
  | leave n => exact ⟨_, rfl, fun _ he' => by cases he'; exact he⟩
  | enter n =>
    obtain ⟨ret, hret, hmem⟩ := Tree.exists_parent hf he
    refine ⟨_, bind_eq_ok.2 ⟨ret, hret, rfl⟩, fun e' he' => ?_⟩
    obtain ⟨p, hp, rfl⟩ := Option.map_eq_some_iff.1 he'
    exact hmem p hp

/-- **A call answers, and leaves a cursor that can be asked again.** -/
theorem Within.exists_next (hf : Arena.Forest t.records) (h : c.Within t) :
    ∃ ret c', c.next t = .ok (ret, c') ∧ c'.Within t := by
  obtain ⟨start, pending, skipping⟩ := c
  rcases pending with _ | e
  · exact ⟨none, _, next_of_none t start skipping, by simp [Within]⟩
  · have he : e.node ∈ t.nodes := h e rfl
    cases skipping with
    | false =>
      obtain ⟨f, hfollow, hmem⟩ := exists_following start hf he
      exact ⟨some e, _, next_mk hfollow, hmem⟩
    | true =>
      obtain ⟨ret, hskip, hmem⟩ := exists_skipped hf he
      cases ret with
      | none => exact ⟨none, _, next_mk_end hskip, by simp [Within]⟩
      | some e' =>
        obtain ⟨f, hfollow, hmem⟩ := exists_following start hf (hmem e' rfl)
        exact ⟨some e', _, next_mk_skip hskip hfollow, hmem⟩

/-- **The cursors that calls lead to** from the start of a walk. -/
inductive Used (t : Tree) (n : NodeId) : Cursor → Prop
  | starting : Used t n (.starting n)
  | skip {c : Cursor} : Used t n c → Used t n c.skip
  | next {c c' : Cursor} {ret : Option WalkEvent} : Used t n c → c.next t = .ok (ret, c') →
    Used t n c'

theorem Used.within (hf : Arena.Forest t.records) (hn : n ∈ t.nodes) (h : Used t n c) :
    c.Within t := by
  induction h with
  | starting => exact fun e he => by cases he; exact hn
  | skip _ ih => exact ih
  | next _ hnext ih =>
    obtain ⟨_, _, hnext', hwithin⟩ := ih.exists_next hf
    cases hnext.symm.trans hnext'
    exact hwithin

/-- **Every call answers**, whatever has been called before. -/
theorem Used.exists_next (hf : Arena.Forest t.records) (hn : n ∈ t.nodes) (h : Used t n c) :
    ∃ ret, c.next t = .ok ret := by
  obtain ⟨ret, c', hnext, -⟩ := (h.within hf hn).exists_next hf
  exact ⟨(ret, c'), hnext⟩

/-! ## The end of a walk that has lost its start -/

/-- Leaving a node is followed by its siblings to come, or by leaving the parent. -/
theorem exists_rest {i : Nat} {l : Location} (hf : Arena.Forest t.records)
    (hne : t.handle i ≠ start) (hl : Arena.locationAt t.records i = some l) :
    ∃ pre rest, t.shown l.parent = pre ++ rest ∧ i ∉ rest ∧
      following t start (.leave (t.handle i)) = .ok (some (upcoming t l.parent rest)) := by
  by_cases hmem : i ∈ t.shown l.parent
  · obtain ⟨pre, rest, hshown⟩ := List.append_of_mem hmem
    have hnodup : (pre ++ i :: rest).Nodup := hshown ▸ hf.shown_nodup
    refine ⟨pre ++ [i], rest, by rw [hshown, List.append_assoc]; rfl, ?_,
      following_leave hf hne hl hshown⟩
    exact (List.nodup_cons.1 (List.nodup_append.1 hnodup).2.1).1
  · -- a child that is not shown has no siblings
    have hi := Arena.lt_size_of_locationAt hl
    have hdrop : ((t.shown l.parent).map t.handle).dropWhile (· != t.handle i) = [] := by
      refine List.dropWhile_eq_nil_iff.2 fun d hd => ?_
      obtain ⟨j, hj, rfl⟩ := List.mem_map.1 hd
      have hij : j ≠ i := fun h => hmem (h ▸ hj)
      simpa [Tree.handle] using hij
    have hsibling : t.nextSibling (t.handle i) = .ok none := by
      refine bind_eq_ok.2 ⟨_, Tree.parent_handle hi, ?_⟩
      rw [hl]
      refine bind_eq_ok.2 ⟨_, Tree.children_handle (hf.parent_lt hl), ?_⟩
      rw [hdrop]
      rfl
    refine ⟨t.shown l.parent, [], by simp, by simp, ?_⟩
    rw [following, if_neg hne]
    refine bind_eq_ok.2 ⟨none, hsibling, bind_eq_ok.2 ⟨_, Tree.parent_handle hi, ?_⟩⟩
    rw [hl]
    rfl

/-- The walk of a sibling of a node above the start finishes: the start is not below the sibling. -/
theorem finishes_beside {i d : Nat} {l m : Location} (hf : Arena.Forest t.records)
    (hl : Arena.locationAt t.records i = some l) (hm : Arena.locationAt t.records d = some m)
    (hparent : m.parent = l.parent) (hne : d ≠ i) (hbelow : Arena.Below t.records i start.index) :
    t.handle d ≠ start ∧ Finishes t plan start d (t.shown d) := by
  have hapart : ∀ j, Arena.Below t.records d j → t.handle j ≠ start := by
    rintro j hj rfl
    exact Arena.not_below_both hl hm hparent.symm hne.symm hbelow hj
  have hlt := Arena.lt_size_of_locationAt hm
  exact ⟨hapart d (hf.below_self hlt), finishes hf hlt fun j m' hm' hj =>
    hapart j (hj.trans (.up hm' (hf.below_self (hf.parent_lt hm'))))⟩

/-- **From above its start a walk gets to the root**, through what comes after on every level, and the
start is not met again. -/
theorem runs_up {i : Nat} (hf : Arena.Forest t.records)
    (hbelow : Arena.Below t.records i start.index) (hne : i ≠ start.index) (k : Nat)
    {f : Option WalkEvent} (hfollow : following t start (.leave (t.handle i)) = .ok f) :
    ∃ es k', Runs t plan k ⟨start, f, false⟩ es k' ⟨start, none, false⟩ := by
  obtain ⟨chain, hc⟩ : ∃ chain, Arena.Chain t.records i chain := by
    obtain ⟨_, hc, hmem⟩ := hbelow
    obtain ⟨chain, hc, -⟩ := hc.of_mem hmem
    exact ⟨chain, hc⟩
  have hother : t.handle i ≠ start := fun h => hne (congrArg NodeId.index h)
  induction hc generalizing k f with
  | @root i hi hl =>
    have hroot : following t start (.leave (t.handle i)) = .ok none := by
      have hparent : t.parent (t.handle i) = .ok none := by rw [Tree.parent_handle hi, hl]; rfl
      rw [following, if_neg hother]
      exact bind_eq_ok.2 ⟨none, bind_eq_ok.2 ⟨none, hparent, rfl⟩,
        bind_eq_ok.2 ⟨none, hparent, rfl⟩⟩
    cases hfollow.symm.trans hroot
    exact ⟨[], k, .refl _ _⟩
  | @up i l chain hl hc ih =>
    obtain ⟨pre, rest, hshown, hnot, hfollow'⟩ := exists_rest hf hother hl
    cases hfollow.symm.trans hfollow'
    have hneUp : l.parent ≠ start.index := fun h => Arena.not_below_parent hl (h ▸ hbelow)
    have hotherUp : t.handle l.parent ≠ start := fun h => hneUp (congrArg NodeId.index h)
    have hbelowUp : Arena.Below t.records l.parent start.index :=
      (Arena.Below.up hl (hf.below_self (hf.parent_lt hl))).trans hbelow
    obtain ⟨f', hfollowUp, -⟩ := exists_following (e := .leave (t.handle l.parent)) start hf
      (Tree.mem_nodes.2 ⟨rfl, hf.parent_lt hl⟩)
    have hchild : ∀ d ∈ rest, t.handle d ≠ start ∧ Finishes t plan start d (t.shown d) := by
      intro d hd
      obtain ⟨m, hm, hparent⟩ := hf.parent_of_shown (hshown ▸ List.mem_append_right pre hd)
      exact finishes_beside hf hl hm hparent (fun h => hnot (h ▸ hd)) hbelow
    obtain ⟨_, body, k₁, -, -, hruns⟩ := finishes_rest hf pre hshown hchild k false f' hfollowUp
    obtain ⟨es, k₂, hruns'⟩ := ih hbelowUp hneUp k₁ hfollowUp hotherUp
    exact ⟨_, k₂, hruns.trans hruns'⟩

/-- **A walk that skips its start comes to its end** all the same: it goes on from the parent. -/
theorem exists_drain_of_lost (hf : Arena.Forest t.records) (hn : n ∈ t.nodes)
    (hplan : plan.beforeCall 0 = true) : ∃ fuel ret, drain t plan fuel 0 (.starting n) = .ok ret := by
  obtain ⟨hown, hlt⟩ := Tree.mem_nodes.1 hn
  have hfirst : (starting n).beforeCall plan 0 = ⟨n, some (.enter n), true⟩ := by
    rw [starting, beforeCall_mk, hplan]
    rfl
  rcases hl : Arena.locationAt t.records n.index with _ | l
  · have hparent : t.parent n = .ok none := by
      rw [← Tree.handle_index hown, Tree.parent_handle hlt, hl]
      rfl
    refine ⟨1, _, bind_eq_ok.2 ⟨(none, ⟨n, none, false⟩), ?_, rfl⟩⟩
    rw [hfirst]
    exact next_mk_end (bind_eq_ok.2 ⟨none, hparent, rfl⟩)
  · have hup := hf.below_self (hf.parent_lt hl)
    have hne : l.parent ≠ n.index := fun h => Arena.not_below_parent hl (h ▸ hup)
    obtain ⟨f, hfollow, -⟩ := exists_following (e := .leave (t.handle l.parent)) n hf
      (Tree.mem_nodes.2 ⟨rfl, hf.parent_lt hl⟩)
    obtain ⟨es, k, hruns⟩ : ∃ es k, Runs t plan 1 ⟨n, f, false⟩ es k ⟨n, none, false⟩ :=
      runs_up hf (.up hl hup) hne 1 hfollow
    have hall : Runs t plan 0 (.starting n) (.leave (t.handle l.parent) :: es) k ⟨n, none, false⟩ := by
      refine .step ?_ hruns
      rw [hfirst]
      simpa [Tree.handle_index hown] using next_skip (i := n.index) hl hfollow
    have hlast : ((⟨n, none, false⟩ : Cursor).beforeCall plan k).next t =
        .ok (none, ⟨n, none, false⟩) := by
      rw [beforeCall_mk]
      rfl
    exact ⟨es.length + 2, _, hall.drain_eq_ok hlast (by simp)⟩

/-- **Every walk comes to its end**, whatever is skipped. -/
theorem exists_drain (hf : Arena.Forest t.records) (hn : n ∈ t.nodes) (plan : SkipPlan) :
    ∃ fuel ret, drain t plan fuel 0 (.starting n) = .ok ret := by
  rcases hplan : plan.beforeCall 0 with _ | _
  · obtain ⟨hown, hlt⟩ := Tree.mem_nodes.1 hn
    obtain ⟨steps, hwalk, -⟩ := Tree.preorder_strolls hf hown hlt hplan
    obtain ⟨ret, hdrain, -⟩ := bind_eq_ok.1 hwalk
    exact ⟨_, ret, hdrain⟩
  · exact exists_drain_of_lost hf hn hplan

end Cursor

end SyntaxForest
