import SyntaxForest.Proofs.Edit.Admission
import SyntaxForest.Proofs.Subtree.Stroll
import SyntaxForest.Subtree.Cursor

/-!
# Proofs/Subtree/Cursor — a cursor strolls

A cursor keeps one pending step, finds the next one through parents and siblings, and lets itself be
asked to skip between any two calls.  Between the steps of a node and of its parent its pending step
is determined by the children that are left (`Cursor.upcoming`), so the walk of a node can be
followed child by child, and each skip ends the walk of one node.

* `Cursor.finishes` — the walk of every node that the start does not stand under gets to leaving it.
* `Tree.preorder_strolls` — **a walk that is not asked to skip before its first step is a stroll**.
* `Tree.first_step_of_skip` — a walk that is asked so leaves the parent of its start instead.
* `Tree.exists_inside_iff` — so the request before the first step is the only one that matters.
-/

namespace SyntaxForest

/-! ## Neighbours in the tree -/

namespace Tree

variable {t : Tree} {i c : Nat} {l : Location} {pre rest : List Nat}

theorem parent_handle (hi : i < t.records.size) : t.parent (t.handle i) =
    .ok ((Arena.locationAt t.records i).map fun l => t.handle l.parent) := by
  obtain ⟨r, hr⟩ := Arena.exists_record hi
  refine bind_eq_ok.2 ⟨r, look_eq_ok.2 ⟨rfl, hr⟩, ?_⟩
  rw [Arena.locationAt_of_record hr]
  rfl

theorem children_handle (hi : i < t.records.size) :
    t.children (t.handle i) = .ok ((t.shown i).map t.handle) := by
  obtain ⟨r, hr⟩ := Arena.exists_record hi
  refine bind_eq_ok.2 ⟨r, look_eq_ok.2 ⟨rfl, hr⟩, ?_⟩
  rw [shown, Arena.shown, hr]
  rfl

theorem firstChild_handle (hi : i < t.records.size) :
    t.firstChild (t.handle i) = .ok ((t.shown i).head?.map t.handle) := by
  rw [firstChild, children_handle hi, ← List.head?_map]
  rfl

/-- The sibling after a node is the first of those that follow it. -/
theorem nextSibling_handle (hf : Arena.Forest t.records)
    (hl : Arena.locationAt t.records c = some l) (hshown : t.shown l.parent = pre ++ c :: rest) :
    t.nextSibling (t.handle c) = .ok (rest.head?.map t.handle) := by
  have hpre : ∀ d ∈ pre.map t.handle, (d != t.handle c) = true := by
    intro d hd
    obtain ⟨j, hj, rfl⟩ := List.mem_map.1 hd
    have hnodup : (pre ++ c :: rest).Nodup := hshown ▸ hf.shown_nodup
    have hne : j ≠ c := (List.nodup_append.1 hnodup).2.2 j hj c List.mem_cons_self
    simpa [handle] using hne
  rw [nextSibling, parent_handle (Arena.lt_size_of_locationAt hl), hl]
  change (do return ((← t.children (t.handle l.parent)).dropWhile (· != t.handle c))[1]?) = _
  rw [children_handle (hf.parent_lt hl), hshown, List.map_append, List.map_cons]
  change Except.ok ((pre.map t.handle ++ t.handle c :: rest.map t.handle).dropWhile _)[1]? = _
  rw [List.dropWhile_append_of_pos hpre, List.dropWhile_cons_of_neg (by simp)]
  rw [← List.head?_map]
  cases rest.map t.handle <;> rfl

/-! ### Neighbours are nodes of the tree -/

variable {n : NodeId}

theorem exists_parent (hf : Arena.Forest t.records) (hn : n ∈ t.nodes) :
    ∃ ret, t.parent n = .ok ret ∧ ∀ p ∈ ret, p ∈ t.nodes := by
  obtain ⟨hn, hlt⟩ := mem_nodes.1 hn
  refine ⟨_, handle_index hn ▸ parent_handle hlt, fun p hp => ?_⟩
  obtain ⟨l, hl, rfl⟩ := Option.map_eq_some_iff.1 hp
  exact mem_nodes.2 ⟨rfl, hf.parent_lt hl⟩

theorem exists_children (hf : Arena.Forest t.records) (hn : n ∈ t.nodes) :
    ∃ cs, t.children n = .ok cs ∧ ∀ c ∈ cs, c ∈ t.nodes := by
  obtain ⟨hn, hlt⟩ := mem_nodes.1 hn
  refine ⟨_, handle_index hn ▸ children_handle hlt, fun c hc => ?_⟩
  obtain ⟨i, hi, rfl⟩ := List.mem_map.1 hc
  obtain ⟨l, hl, -⟩ := hf.parent_of_shown hi
  exact mem_nodes.2 ⟨rfl, Arena.lt_size_of_locationAt hl⟩

theorem exists_firstChild (hf : Arena.Forest t.records) (hn : n ∈ t.nodes) :
    ∃ ret, t.firstChild n = .ok ret ∧ ∀ c ∈ ret, c ∈ t.nodes := by
  obtain ⟨cs, hcs, hmem⟩ := exists_children hf hn
  exact ⟨cs.head?, bind_eq_ok.2 ⟨cs, hcs, rfl⟩, fun c hc => hmem c (List.mem_of_head? hc)⟩

theorem exists_nextSibling (hf : Arena.Forest t.records) (hn : n ∈ t.nodes) :
    ∃ ret, t.nextSibling n = .ok ret ∧ ∀ c ∈ ret, c ∈ t.nodes := by
  obtain ⟨ret, hparent, hmem⟩ := exists_parent hf hn
  rcases ret with _ | p
  · exact ⟨none, bind_eq_ok.2 ⟨none, hparent, rfl⟩, by simp⟩
  · obtain ⟨cs, hcs, hmem'⟩ := exists_children hf (hmem p rfl)
    refine ⟨_, bind_eq_ok.2 ⟨some p, hparent, bind_eq_ok.2 ⟨cs, hcs, rfl⟩⟩, fun c hc => ?_⟩
    exact hmem' c ((List.dropWhile_sublist _).subset (List.mem_of_getElem? hc))

end Tree

namespace Cursor

variable {t : Tree} {plan : SkipPlan} {start : NodeId} {k k' k'' : Nat} {c c' c'' : Cursor}
  {es es' : List WalkEvent}

/-! ## Runs of calls -/

/-- **Calls one after the other**, each of which yields a step; calls are numbered. -/
inductive Runs (t : Tree) (plan : SkipPlan) : Nat → Cursor → List WalkEvent → Nat → Cursor → Prop
  | refl (k : Nat) (c : Cursor) : Runs t plan k c [] k c
  | step {k k' : Nat} {c c' c'' : Cursor} {e : WalkEvent} {es : List WalkEvent} :
    (c.beforeCall plan k).next t = .ok (some e, c') →
    Runs t plan (k + 1) (afterStep plan c' e) es k' c'' → Runs t plan k c (e :: es) k' c''

theorem Runs.trans (h : Runs t plan k c es k' c') (h' : Runs t plan k' c' es' k'' c'') :
    Runs t plan k c (es ++ es') k'' c'' := by
  induction h with
  | refl _ _ => exact h'
  | step hnext _ ih => exact .step hnext (ih h')

/-- Draining finds the run that ends at the end, given enough fuel. -/
theorem Runs.drain_eq_ok {fuel : Nat} (h : Runs t plan k c es k' c')
    (hend : (c'.beforeCall plan k').next t = .ok (none, c'')) (hfuel : es.length < fuel) :
    drain t plan fuel k c = .ok (es, c'') := by
  induction h generalizing fuel with
  | refl k c =>
    obtain ⟨fuel, rfl⟩ := Nat.exists_eq_succ_of_ne_zero (Nat.ne_of_gt hfuel)
    rw [drain, hend]
    rfl
  | step hnext _ ih =>
    obtain ⟨fuel, rfl⟩ := Nat.exists_eq_succ_of_ne_zero (Nat.ne_of_gt (Nat.zero_lt_of_lt hfuel))
    rw [drain, hnext]
    change (drain t plan fuel _ _ >>= _) = _
    rw [ih hend (Nat.lt_of_succ_lt_succ hfuel)]
    rfl

/-- …and finds no other. -/
theorem Runs.eq_of_drain {fuel : Nat} (h : Runs t plan k c es k' c')
    (hend : (c'.beforeCall plan k').next t = .ok (none, c''))
    (hdrain : ∃ answer, drain t plan fuel k c = .ok answer) :
    drain t plan fuel k c = .ok (es, c'') := by
  induction h generalizing fuel with
  | refl k c =>
    rcases fuel with _ | fuel
    · obtain ⟨_, hdrain⟩ := hdrain
      cases hdrain
    · rw [drain, hend]
      rfl
  | @step k _ _ c' _ e es hnext _ ih =>
    rcases fuel with _ | fuel
    · obtain ⟨_, hdrain⟩ := hdrain
      cases hdrain
    · rw [drain, hnext] at hdrain ⊢
      change ∃ answer, (drain t plan fuel _ _ >>= _) = .ok answer at hdrain
      change (drain t plan fuel _ _ >>= _) = _
      obtain ⟨_, hdrain⟩ := hdrain
      obtain ⟨rest, hrest, -⟩ := bind_eq_ok.1 hdrain
      rw [ih hend ⟨rest, hrest⟩]
      rfl

/-- The first step of a drained walk is that of the first call. -/
theorem head?_of_drain {fuel : Nat} {first : Option WalkEvent}
    (hfirst : (c.beforeCall plan k).next t = .ok (first, c'))
    (h : drain t plan (fuel + 1) k c = .ok (es, c'')) : es.head? = first := by
  rw [drain, hfirst] at h
  cases first with
  | none =>
    cases h
    rfl
  | some e =>
    change (drain t plan fuel (k + 1) (afterStep plan c' e) >>= _) = .ok (es, c'') at h
    obtain ⟨⟨_, _⟩, -, hret⟩ := bind_eq_ok.1 h
    cases hret
    rfl

/-! ## The pending step -/

/-- The step that is pending when some children of a node are left. -/
def upcoming (t : Tree) (i : Nat) : List Nat → WalkEvent
  | [] => .leave (t.handle i)
  | c :: _ => .enter (t.handle c)

theorem following_enter {i : Nat} (hi : i < t.records.size) :
    following t start (.enter (t.handle i)) = .ok (some (upcoming t i (t.shown i))) := by
  rw [following, Tree.firstChild_handle hi]
  rcases t.shown i with _ | ⟨c, rest⟩ <;> rfl

theorem following_leave {i : Nat} {l : Location} {pre rest : List Nat} (hf : Arena.Forest t.records)
    (hne : t.handle i ≠ start) (hl : Arena.locationAt t.records i = some l)
    (hshown : t.shown l.parent = pre ++ i :: rest) :
    following t start (.leave (t.handle i)) = .ok (some (upcoming t l.parent rest)) := by
  rw [following, if_neg hne]
  rw [Tree.nextSibling_handle hf hl hshown]
  rcases rest with _ | ⟨c, rest⟩
  · change ((t.parent (t.handle i)) >>= _) = _
    rw [Tree.parent_handle (Arena.lt_size_of_locationAt hl), hl]
    rfl
  · rfl

theorem following_leave_start : following t start (.leave start) = .ok none := by
  rw [following, if_pos rfl]
  rfl

/-- **A step is followed by a step or by the end**, and the one that follows is about a node of the tree
if the other is. -/
theorem exists_following (start : NodeId) {e : WalkEvent} (hf : Arena.Forest t.records)
    (he : e.node ∈ t.nodes) :
    ∃ f, following t start e = .ok f ∧ ∀ e' ∈ f, e'.node ∈ t.nodes := by
  cases e with
  | enter n =>
    obtain ⟨ret, hret, hmem⟩ := Tree.exists_firstChild hf he
    cases ret with
    | none => exact ⟨_, bind_eq_ok.2 ⟨none, hret, rfl⟩, fun _ he' => by cases he'; exact he⟩
    | some c =>
      exact ⟨_, bind_eq_ok.2 ⟨some c, hret, rfl⟩, fun _ he' => by cases he'; exact hmem c rfl⟩
  | leave n =>
    rw [following]
    split
    · exact ⟨none, rfl, by simp⟩
    · obtain ⟨ret, hret, hmem⟩ := Tree.exists_nextSibling hf he
      cases ret with
      | some c =>
        exact ⟨_, bind_eq_ok.2 ⟨some c, hret, rfl⟩, fun _ he' => by cases he'; exact hmem c rfl⟩
      | none =>
        obtain ⟨up, hup, hmem⟩ := Tree.exists_parent hf he
        refine ⟨_, bind_eq_ok.2 ⟨none, hret, bind_eq_ok.2 ⟨up, hup, rfl⟩⟩, fun e' he' => ?_⟩
        obtain ⟨p, hp, rfl⟩ := Option.map_eq_some_iff.1 he'
        exact hmem p hp

/-! ## Single calls -/

variable {f : Option WalkEvent} {e e' : WalkEvent} {b : Bool}

theorem beforeCall_mk {pending : Option WalkEvent} :
    (⟨start, pending, b⟩ : Cursor).beforeCall plan k =
      ⟨start, pending, b || plan.beforeCall k⟩ := by
  rw [beforeCall]
  cases plan.beforeCall k <;> simp [skip]

theorem afterStep_enter {pending : Option WalkEvent} {n : NodeId} :
    afterStep plan ⟨start, pending, false⟩ (.enter n) =
      ⟨start, pending, plan.afterEntering n⟩ := by
  rcases h : plan.afterEntering n with _ | _ <;> simp [afterStep, h, skip]

/-- A call yields what is pending, as long as nothing is skipped. -/
theorem next_mk (h : following t start e = .ok f) :
    next t ⟨start, some e, false⟩ = .ok (some e, ⟨start, f, false⟩) := by
  change (following t start e >>= fun f => pure (some e, (⟨start, f, false⟩ : Cursor))) = _
  rw [h]
  rfl

/-- A skip puts another step in the place of the pending one. -/
theorem next_mk_skip (hskip : skipped t e = .ok (some e')) (h : following t start e' = .ok f) :
    next t ⟨start, some e, true⟩ = .ok (some e', ⟨start, f, false⟩) := by
  change (skipped t e >>= _) = _
  rw [hskip]
  change (following t start e' >>= fun f => pure (some e', (⟨start, f, false⟩ : Cursor))) = _
  rw [h]
  rfl

/-- …or the end, where there is none. -/
theorem next_mk_end (hskip : skipped t e = .ok none) :
    next t ⟨start, some e, true⟩ = .ok (none, ⟨start, none, false⟩) := by
  change (skipped t e >>= _) = _
  rw [hskip]
  rfl

/-- Leaving a node cannot be skipped. -/
theorem next_leave {n : NodeId} (h : following t start (.leave n) = .ok f) :
    next t ⟨start, some (.leave n), b⟩ = .ok (some (.leave n), ⟨start, f, false⟩) := by
  cases b with
  | false => exact next_mk h
  | true => exact next_mk_skip rfl h

/-- Skipping the entry of a child leaves its parent. -/
theorem next_skip {i : Nat} {l : Location} (hl : Arena.locationAt t.records i = some l)
    (h : following t start (.leave (t.handle l.parent)) = .ok f) :
    next t ⟨start, some (.enter (t.handle i)), true⟩ =
      .ok (some (.leave (t.handle l.parent)), ⟨start, f, false⟩) := by
  refine next_mk_skip ?_ h
  rw [skipped, Tree.parent_handle (Arena.lt_size_of_locationAt hl), hl]
  rfl

/-! ## The walk of what is left of a node -/

/-- From the entry of a node on, whatever is skipped, some first children are gone through and the
node is left. -/
def Finishes (t : Tree) (plan : SkipPlan) (start : NodeId) (i : Nat) (rest : List Nat) : Prop :=
  ∀ k b f, following t start (.leave (t.handle i)) = .ok f → ∃ done body k',
    done <+: rest ∧ t.Strolls done body ∧
      Runs t plan k ⟨start, some (upcoming t i rest), b⟩ (body ++ [.leave (t.handle i)]) k'
        ⟨start, f, false⟩

/-- The walk of what is left of a node finishes if those of the children do. -/
theorem finishes_rest {i : Nat} {rest : List Nat} (hf : Arena.Forest t.records) (pre : List Nat)
    (hshown : t.shown i = pre ++ rest)
    (hchild : ∀ c ∈ rest, t.handle c ≠ start ∧ Finishes t plan start c (t.shown c)) :
    Finishes t plan start i rest := by
  induction rest generalizing pre with
  | nil =>
    intro k b f hfollow
    refine ⟨[], [], k + 1, List.prefix_refl _, .nil, .step ?_ (.refl _ _)⟩
    rw [beforeCall_mk]
    exact next_leave hfollow
  | cons c rest ih =>
    intro k b f hfollow
    have hmem : c ∈ t.shown i := hshown ▸ List.mem_append_right _ List.mem_cons_self
    obtain ⟨⟨hne, hfinishes⟩, hrest⟩ := List.forall_mem_cons.1 hchild
    obtain ⟨l, hl, rfl⟩ := hf.parent_of_shown hmem
    by_cases hskip : (b || plan.beforeCall k) = true
    · -- the entry of the child is skipped, and with it all that is left
      refine ⟨[], [], k + 1, List.nil_prefix, .nil, .step ?_ (.refl _ _)⟩
      rw [beforeCall_mk, hskip]
      exact next_skip hl hfollow
    · rw [Bool.not_eq_true] at hskip
      obtain ⟨done, body, k₁, hdone, hbody, hruns⟩ :=
        hfinishes (k + 1) (plan.afterEntering (t.handle c)) _ (following_leave hf hne hl hshown)
      obtain ⟨done', body', k₂, hdone', hbody', hruns'⟩ :=
        ih (pre ++ [c]) (by rw [hshown, List.append_assoc]; rfl) hrest k₁ false f hfollow
      have hnext : next t ⟨start, some (.enter (t.handle c)), false⟩ =
          .ok (some (.enter (t.handle c)), ⟨start, some (upcoming t c (t.shown c)), false⟩) :=
        next_mk (following_enter (Arena.lt_size_of_locationAt hl))
      refine ⟨c :: done', .enter (t.handle c) :: (body ++ .leave (t.handle c) :: body'), k₂,
        List.cons_prefix_cons.2 ⟨rfl, hdone'⟩, .cons hdone hbody hbody',
        .step (by rw [beforeCall_mk, hskip]; exact hnext) ?_⟩
      rw [afterStep_enter]
      simpa using hruns.trans hruns'

/-- **The walk of every node finishes** that the start does not stand under. -/
theorem finishes {i : Nat} (hf : Arena.Forest t.records) (hi : i < t.records.size)
    (hstart : ∀ c l, Arena.locationAt t.records c = some l → Arena.Below t.records i l.parent →
      t.handle c ≠ start) : Finishes t plan start i (t.shown i) := by
  refine hf.induct (motive := fun i => (∀ c l, Arena.locationAt t.records c = some l →
    Arena.Below t.records i l.parent → t.handle c ≠ start) → Finishes t plan start i (t.shown i))
    (fun i hi ih hstart => ?_) hi hstart
  refine finishes_rest hf [] rfl fun c hc => ?_
  obtain ⟨l, hl, rfl⟩ := hf.parent_of_shown hc
  have hself := hf.below_self hi
  exact ⟨hstart c l hl hself, ih c l hl rfl fun d m hm hbelow =>
    hstart d m hm ((Arena.Below.up hl hself).trans hbelow)⟩

end Cursor

namespace Tree

variable {t : Tree} {n : NodeId} {plan : SkipPlan}

/-- **A walk that is not asked to skip before its first step is a stroll** from its start, and its
cursor stays at the end. -/
theorem preorder_strolls (hf : Arena.Forest t.records) (hn : n.tree = t.id)
    (hlt : n.index < t.records.size) (hplan : plan.beforeCall 0 = false) :
    ∃ steps, t.preorder n plan = .ok (steps, true) ∧ t.Strolls [n.index] steps := by
  have hend : Cursor.following t n (.leave (t.handle n.index)) = .ok none := by
    rw [handle_index hn]
    exact Cursor.following_leave_start
  have hstart : ∀ c l, Arena.locationAt t.records c = some l →
      Arena.Below t.records n.index l.parent → t.handle c ≠ n := by
    rintro c l hl hbelow rfl
    exact Arena.not_below_parent hl hbelow
  obtain ⟨done, body, k, hdone, hbody, hruns⟩ :=
    Cursor.finishes hf hlt hstart 1 (plan.afterEntering n) none hend
  rw [handle_index hn] at hruns
  have hstrolls : t.Strolls [n.index] (.enter n :: (body ++ [.leave n])) := by
    simpa [handle_index hn] using Strolls.cons hdone hbody .nil
  have hfirst : ((Cursor.starting n).beforeCall plan 0).next t =
      .ok (some (.enter n), ⟨n, some (Cursor.upcoming t n.index (t.shown n.index)), false⟩) := by
    rw [Cursor.starting, Cursor.beforeCall_mk, hplan]
    exact Cursor.next_mk (handle_index hn ▸ Cursor.following_enter hlt)
  have hall : Cursor.Runs t plan 0 (.starting n) (.enter n :: (body ++ [.leave n])) k
      ⟨n, none, false⟩ := .step hfirst (by rwa [Cursor.afterStep_enter])
  have hlast : ((⟨n, none, false⟩ : Cursor).beforeCall plan k).next t =
      .ok (none, ⟨n, none, false⟩) := by
    rw [Cursor.beforeCall_mk]
    rfl
  have hfuel := hstrolls.length_le hf hlt
  refine ⟨_, ?_, hstrolls⟩
  rw [preorder, hall.drain_eq_ok hlast (by omega)]
  rfl

/-- A walk that is asked to skip before its first step starts by leaving the parent of its start;
from a root it yields nothing. -/
theorem first_step_of_skip (hf : Arena.Forest t.records) (hn : n.tree = t.id)
    (hlt : n.index < t.records.size) :
    ∃ parent c, t.parent n = .ok parent ∧
      (Cursor.starting n).skip.next t = .ok (parent.map .leave, c) := by
  have hparent := parent_handle (t := t) hlt
  rw [handle_index hn] at hparent
  rcases hl : Arena.locationAt t.records n.index with _ | l <;> rw [hl] at hparent
  · refine ⟨none, ⟨n, none, false⟩, hparent, Cursor.next_mk_end ?_⟩
    rw [Cursor.skipped, hparent]
    rfl
  · obtain ⟨f, hfollow, -⟩ := Cursor.exists_following (e := .leave (t.handle l.parent)) n hf
      (mem_nodes.2 ⟨rfl, hf.parent_lt hl⟩)
    refine ⟨some (t.handle l.parent), ⟨n, f, false⟩, hparent, Cursor.next_mk_skip ?_ hfollow⟩
    rw [Cursor.skipped, hparent]
    rfl

/-- **A walk is as it is meant exactly if it is not asked to skip before its first step.** -/
theorem exists_inside_iff (hf : Arena.Forest t.records) (hn : n.tree = t.id)
    (hlt : n.index < t.records.size) :
    (∃ steps, t.preorder n plan = .ok (steps, true) ∧ t.Inside n steps) ↔
      plan.beforeCall 0 = false := by
  constructor
  · rintro ⟨steps, hwalk, hinside⟩
    rw [← Bool.not_eq_true]
    intro hplan
    obtain ⟨parent, c, -, hfirst⟩ := first_step_of_skip hf hn hlt
    obtain ⟨⟨steps', c'⟩, hdrain, hret⟩ := bind_eq_ok.1 hwalk
    obtain ⟨_, -, hret⟩ := bind_eq_ok.1 hret
    obtain ⟨rfl, -⟩ := Prod.mk.inj (Except.ok.inj hret)
    have hhead := Cursor.head?_of_drain (by rwa [Cursor.beforeCall, if_pos hplan]) hdrain
    rw [hinside.first] at hhead
    cases parent <;> cases hhead
  · intro hplan
    obtain ⟨steps, hwalk, hstrolls⟩ := preorder_strolls hf hn hlt hplan
    exact ⟨steps, hwalk, handle_index hn ▸ hstrolls.inside hf hlt⟩

end Tree

end SyntaxForest
