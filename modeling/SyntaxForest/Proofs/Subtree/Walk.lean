import SyntaxForest.Proofs.Edit.Visible
import SyntaxForest.Proofs.Subtree.Children
import SyntaxForest.Proofs.Subtree.Cursor

/-!
# Proofs/Subtree/Walk — the visitor and the cursor take the same walk

Two ways lead through a subtree.  A visitor is called back in a recursion over the children; a cursor
gets from each step to the next through parents and siblings.  Where the visitor refuses to descend
into a node, the cursor is asked to skip right after it has entered the node.  Both then take the
steps `Subtree.steps`.

* `Tree.recordWalk_eq_ok` — **the visitor takes exactly these steps**.
* `Cursor.walks` — between entering a node and leaving it, so does the cursor.
* `Tree.preorder_eq_ok` — **the cursor takes exactly these steps**, and stays at its end.
* `Tree.Shows.length_steps` — where nothing is refused, there are two steps for each node.
-/

namespace SyntaxForest

/-- A recorder that does not descend into the nodes that are refused. -/
def Recorder.refusing (refuses : NodeId → Bool) : Recorder := { refuses := fun h => refuses h.node }

/-- Skips right after entering each node that is refused, and nowhere else. -/
def SkipPlan.refusing (refuses : NodeId → Bool) : SkipPlan := { afterEntering := refuses }

namespace Subtree

variable {shape : Shape} {refuses : NodeId → Bool}

/-- The steps of one node, given those of its children. -/
def stepsNode (shape : Shape) (refuses : NodeId → Bool) (h : Head)
    (slots : List (Slot (List WalkEvent))) : List WalkEvent :=
  .enter h.node ::
    ((if refuses h.node then [] else ((h.kind.liveOnly shape slots).flatMap Slot.members).flatten) ++
      [.leave h.node])

/-- **The steps of a walk**: into a node, through the children shown unless it is refused, and out
of it. -/
def steps (shape : Shape) (refuses : NodeId → Bool) (s : Subtree) : List WalkEvent :=
  s.fold (stepsNode shape refuses)

/-- The steps between entering a node and leaving it. -/
def body (shape : Shape) (refuses : NodeId → Bool) (s : Subtree) : List WalkEvent :=
  if refuses s.head.node then [] else (s.liveChildren shape).flatMap (steps shape refuses)

theorem steps_eq (s : Subtree) : s.steps shape refuses =
    .enter s.head.node :: (s.body shape refuses ++ [.leave s.head.node]) := by
  obtain ⟨h, ss⟩ := s
  rw [steps, fold_node, stepsNode]
  change _ :: ((if refuses h.node then [] else
    ((h.kind.liveOnly shape (ss.map (Slot.map (steps shape refuses)))).flatMap
      Slot.members).flatten) ++ _) = _
  rw [map_liveChildren, ← List.flatMap_def]
  rfl

/-! ## The walk of a recorder -/

/-- The walk of the recorder adds the steps of the subtree to the record. -/
def TakesDown (shape : Shape) (refuses : NodeId → Bool) (s : Subtree) : Prop :=
  ∀ log : Array WalkEvent, s.walk shape (Recorder.refusing refuses).visitor log =
    .ok () (log ++ (s.steps shape refuses).toArray)

theorem forM_walk_run {cs : List Subtree} (h : ∀ c ∈ cs, TakesDown shape refuses c)
    (log : Array WalkEvent) :
    (cs.map (walk shape (Recorder.refusing refuses).visitor)).forM id log =
      .ok () (log ++ (cs.flatMap (steps shape refuses)).toArray) := by
  induction cs generalizing log with
  | nil => simp [pure, EStateM.pure]
  | cons c cs ih =>
    obtain ⟨hc, hcs⟩ := List.forall_mem_cons.1 h
    rw [List.forM_eq_forM] at ih ⊢
    rw [List.map_cons, List.forM_cons, id_eq, bind_of_ok (hc log), ih hcs, List.flatMap_cons]
    simp

/-- **A recorder takes down the steps of the walk.** -/
theorem takesDown (s : Subtree) : TakesDown shape refuses s := by
  induction s using Subtree.induct with
  | node h ss ih =>
    intro log
    have hchildren : ∀ c ∈ (node h ss).liveChildren shape, TakesDown shape refuses c := by
      intro c hc
      obtain ⟨slot, hslot, hc⟩ := List.mem_flatMap.1 hc
      exact ih slot ((Kind.liveOnly_sublist _ _ _).subset hslot) c hc
    have henter : (Recorder.refusing refuses).visitor.enter h log =
        .ok (!refuses h.node) (log.push (.enter h.node)) := rfl
    have hleave : ∀ log, (Recorder.refusing refuses).visitor.leave h log =
        .ok () (log.push (.leave h.node)) := fun _ => rfl
    rw [walk_node, walkNode, map_liveChildren, steps_eq, body, bind_of_ok henter, head]
    cases refuses h.node
    · change (_ >>= fun _ => (Recorder.refusing refuses).visitor.leave h) _ = _
      rw [bind_of_ok (forM_walk_run hchildren _), hleave]
      simp
    · change (Recorder.refusing refuses).visitor.leave h _ = _
      rw [hleave, Array.push_eq_append, Array.push_eq_append, Array.append_assoc]
      rfl

end Subtree

namespace Tree

variable {t : Tree} {n : NodeId} {i : Nat} {s : Subtree} {refuses : NodeId → Bool}

/-- **A recorder takes down the steps of the walk** of a node. -/
theorem recordWalk_eq_ok (h : t.subtree n = .ok s) :
    t.recordWalk n (.refusing refuses) = .ok (s.steps t.shape refuses, none) := by
  have hwalk : t.walk n (Recorder.refusing refuses).visitor =
      .ok (s.walk t.shape (Recorder.refusing refuses).visitor) := bind_eq_ok.2 ⟨s, h, rfl⟩
  refine bind_eq_ok.2 ⟨_, hwalk, ?_⟩
  simp only [Subtree.takesDown s #[], Array.empty_append]
  rfl

end Tree

/-! ## The walk of a cursor -/

namespace Cursor

variable {t : Tree} {refuses : NodeId → Bool} {start : NodeId} {i : Nat} {s : Subtree}
  {f : Option WalkEvent}

/-- From the entry of a node on, the cursor takes the steps of its body and leaves it. -/
def Walks (t : Tree) (refuses : NodeId → Bool) (start : NodeId) (i : Nat) (s : Subtree) : Prop :=
  ∀ k f, following t start (.leave (t.handle i)) = .ok f → ∃ k', Runs t (.refusing refuses) k
    ⟨start, some (upcoming t i (t.shown i)), refuses (t.handle i)⟩
    (s.body t.shape refuses ++ [.leave (t.handle i)]) k' ⟨start, f, false⟩

/-- The steps of a node, when its body is walked. -/
theorem Walks.steps (h : Walks t refuses start i s) (hs : t.Shows i s) (k : Nat)
    (hfollow : following t start (.leave (t.handle i)) = .ok f) :
    ∃ k', Runs t (.refusing refuses) k ⟨start, some (.enter (t.handle i)), false⟩
      (s.steps t.shape refuses) k' ⟨start, f, false⟩ := by
  obtain ⟨k', hruns⟩ := h (k + 1) f hfollow
  have hnext : ((⟨start, some (.enter (t.handle i)), false⟩ : Cursor).beforeCall
      (.refusing refuses) k).next t = .ok (some (.enter (t.handle i)),
        ⟨start, some (upcoming t i (t.shown i)), false⟩) := by
    rw [beforeCall_mk]
    exact next_mk (following_enter hs.lt_size)
  rw [Subtree.steps_eq, hs.node_eq]
  exact ⟨k', .step hnext (by rwa [afterStep_enter])⟩

/-- A row of children that is left of a node is walked child by child. -/
theorem runs_rest (hf : Arena.Forest t.records)
    (hfollow : following t start (.leave (t.handle i)) = .ok f) {rest : List (Nat × Subtree)}
    (hrest : ∀ x ∈ rest, t.handle x.1 ≠ start ∧ t.Shows x.1 x.2 ∧ Walks t refuses start x.1 x.2) :
    ∀ pre k, t.shown i = pre ++ rest.map Prod.fst → ∃ k', Runs t (.refusing refuses) k
      ⟨start, some (upcoming t i (rest.map Prod.fst)), false⟩
      ((rest.map Prod.snd).flatMap (Subtree.steps t.shape refuses) ++ [.leave (t.handle i)]) k'
      ⟨start, f, false⟩ := by
  induction rest with
  | nil =>
    intro pre k _
    refine ⟨k + 1, .step ?_ (.refl _ _)⟩
    rw [beforeCall_mk]
    exact next_leave hfollow
  | cons x rest ih =>
    intro pre k hshown
    obtain ⟨⟨hne, hshows, hwalks⟩, hrest⟩ := List.forall_mem_cons.1 hrest
    rw [List.map_cons] at hshown
    have hmem : x.1 ∈ t.shown i := hshown ▸ List.mem_append_right _ List.mem_cons_self
    obtain ⟨l, hl, rfl⟩ := hf.parent_of_shown hmem
    obtain ⟨k₁, hruns⟩ := hwalks.steps hshows k (following_leave hf hne hl hshown)
    obtain ⟨k₂, hruns'⟩ := ih hrest (pre ++ [x.1]) k₁ (by rw [hshown, List.append_assoc]; rfl)
    refine ⟨k₂, ?_⟩
    rw [List.map_cons, List.map_cons, List.flatMap_cons, List.append_assoc]
    exact hruns.trans hruns'

/-- **Between entering a node and leaving it, the cursor takes the steps of its body.** -/
theorem walks (start : NodeId) (hf : Arena.Forest t.records)
    (hi : Arena.Below t.records start.index i) (hs : t.Shows i s) : Walks t refuses start i s := by
  refine hf.induct (motive := fun i => ∀ s, Arena.Below t.records start.index i → t.Shows i s →
    Walks t refuses start i s) (fun i hlt ih s hbelow hs k f hfollow => ?_) hi.lt_size s hi hs
  rw [Subtree.body, hs.node_eq]
  cases hrefuses : refuses (t.handle i)
  · obtain ⟨children, hfst, hsnd, hshows⟩ := hs.exists_children
    rw [← hsnd, ← hfst]
    refine runs_rest hf hfollow (fun x hx => ?_) [] k (by rw [hfst]; rfl)
    have hmem : x.1 ∈ t.shown i := hfst ▸ List.mem_map_of_mem hx
    obtain ⟨l, hl, rfl⟩ := hf.parent_of_shown hmem
    refine ⟨?_, hshows x hx, ih x.1 l hl rfl x.2 (hbelow.up hl) (hshows x hx)⟩
    rintro rfl
    exact Arena.not_below_parent hl hbelow
  · -- the skip makes of whatever is pending the exit from the node
    refine ⟨k + 1, .step ?_ (.refl _ _)⟩
    rw [beforeCall_mk]
    rcases hshown : t.shown i with _ | ⟨c, rest⟩
    · exact next_leave hfollow
    · have hmem : c ∈ t.shown i := hshown ▸ List.mem_cons_self
      obtain ⟨l, hl, rfl⟩ := hf.parent_of_shown hmem
      exact next_skip hl hfollow

/-- What a cursor answers to further calls, before each of which it may be asked to skip. -/
def answers (t : Tree) : List Bool → Cursor → Except Failure (List (Option WalkEvent))
  | [], _ => return []
  | skips :: later, c => do
    let (answer, c) ← (if skips then c.skip else c).next t
    return answer :: (← answers t later c)

/-- **A cursor that has come to its end stays there.** -/
theorem answers_of_end (skips : List Bool) :
    answers t skips ⟨start, none, false⟩ = .ok (skips.map fun _ => none) := by
  induction skips with
  | nil => rfl
  | cons b skips ih =>
    rw [answers]
    cases b <;> exact bind_eq_ok.2 ⟨_, next_of_none t start _, bind_eq_ok.2 ⟨_, ih, rfl⟩⟩

end Cursor

namespace Tree

variable {t : Tree} {n : NodeId} {s : Subtree} {refuses : NodeId → Bool}

/-- **The cursor takes the steps of the walk**, and comes to its end. -/
theorem drain_eq_ok (hf : Arena.Forest t.records) (hn : n.tree = t.id)
    (hs : t.Shows n.index s) : Cursor.drain t (.refusing refuses) (2 * t.size + 2) 0 (.starting n) =
      .ok (s.steps t.shape refuses, ⟨n, none, false⟩) := by
  have hend : Cursor.following t n (.leave (t.handle n.index)) = .ok none := by
    rw [handle_index hn]
    exact Cursor.following_leave_start
  obtain ⟨k, hruns⟩ := (Cursor.walks n hf (hf.below_self hs.lt_size) hs).steps hs 0 hend
  rw [handle_index hn] at hruns
  refine hruns.eq_of_drain ?_ ?_
  · rw [Cursor.beforeCall_mk]
    rfl
  · obtain ⟨steps, hwalk, -⟩ := @preorder_strolls t n (.refusing refuses) hf hn hs.lt_size rfl
    obtain ⟨answer, hdrain, -⟩ := bind_eq_ok.1 hwalk
    exact ⟨answer, hdrain⟩

theorem preorder_eq_ok (hf : Arena.Forest t.records) (hn : n.tree = t.id)
    (hs : t.Shows n.index s) :
    t.preorder n (.refusing refuses) = .ok (s.steps t.shape refuses, true) :=
  bind_eq_ok.2 ⟨_, drain_eq_ok hf hn hs, rfl⟩

end Tree

/-! ## How long the walk is -/

/-- Slots that are not read but hold nothing may be read as well. -/
theorem Kind.flatMap_members_liveOnly {α : Type} {shape : Shape} {k : Kind} {xs : List (Slot α)}
    (h : ∀ (slot : Nat) content, xs[slot]? = some content → content.members ≠ [] →
      k.slotIsLive shape slot = true) :
    (k.liveOnly shape xs).flatMap Slot.members = xs.flatMap Slot.members := by
  have hfrom : ∀ n, (∀ (slot : Nat) content, xs[slot]? = some content → content.members ≠ [] →
      k.slotIsLive shape (n + slot) = true) →
      ((xs.zipIdx n).filterMap fun e => if k.slotIsLive shape e.2 then some e.1 else none).flatMap
        Slot.members = xs.flatMap Slot.members := by
    clear h
    induction xs with
    | nil => exact fun _ _ => rfl
    | cons content xs ih =>
      intro n h
      have hrest := ih (n + 1) fun slot content hslot hmembers => by
        rw [Nat.add_assoc, Nat.add_comm 1]
        exact h (slot + 1) content hslot hmembers
      rw [List.zipIdx_cons, List.filterMap_cons, List.flatMap_cons]
      by_cases hlive : k.slotIsLive shape n = true
      · simp only [hlive, if_true, List.flatMap_cons, hrest]
      · have hempty : content.members = [] :=
          Decidable.byContradiction fun hmembers => hlive (h 0 content rfl hmembers)
        simp only [hlive, hempty, List.nil_append]
        exact hrest
  exact hfrom 0 fun slot content hslot => by simpa using h slot content hslot

namespace Subtree

/-- Two steps for each node of some subtrees, if there are two for each node of each. -/
theorem length_flatMap_steps {shape : Shape} {refuses : NodeId → Bool} {cs : List Subtree}
    (h : ∀ c ∈ cs, (c.steps shape refuses).length = 2 * c.size) :
    (cs.flatMap (steps shape refuses)).length = 2 * total (cs.map size) := by
  induction cs with
  | nil => rfl
  | cons c cs ih =>
    obtain ⟨hc, hcs⟩ := List.forall_mem_cons.1 h
    rw [List.flatMap_cons, List.length_append, hc, ih hcs, List.map_cons, total_cons, Nat.mul_add]

end Subtree

namespace Tree

variable {t : Tree} {i : Nat} {s : Subtree} {refuses : NodeId → Bool}

/-- A walk passes over no child. -/
theorem Shows.liveChildren_eq (hv : t.Visible) (hs : t.Shows i s) :
    s.liveChildren t.shape = s.children := by
  refine Kind.flatMap_members_liveOnly fun slot content hslot hmembers => ?_
  obtain ⟨c, hc⟩ := List.exists_mem_of_ne_nil _ hmembers
  obtain ⟨d, hd, -⟩ := hs.exists_member hslot hc
  obtain ⟨k, hk, hlive⟩ := hv i slot d hd
  obtain rfl : s.head.kind = k := Option.some.inj (hs.kindAt.symm.trans hk)
  exact hlive

/-- **Where nothing is refused, every node is entered and left.** -/
theorem Shows.length_steps (hv : t.Visible) (hs : t.Shows i s)
    (hrefuses : ∀ m, refuses m = false) :
    (s.steps t.shape refuses).length = 2 * s.size := by
  induction hs with
  | @node i r pairs hr hfits hslots hx ih =>
    have hchildren := (Shows.node hr hfits hslots hx).liveChildren_eq hv
    rw [Subtree.children, Subtree.slots, Slot.flatMap_members_map] at hchildren
    have hlength := Subtree.length_flatMap_steps fun c hc => by
      obtain ⟨x, hx, rfl⟩ := List.mem_map.1 hc
      obtain ⟨slot, hslot, hx⟩ := List.mem_flatMap.1 hx
      exact ih slot hslot x hx
    rw [Subtree.steps_eq, Subtree.body, hrefuses, if_neg Bool.false_ne_true, hchildren,
      List.length_cons, List.length_append, hlength, Subtree.size_node, Slot.flatMap_members_map,
      List.length_singleton]
    omega

end Tree

end SyntaxForest
