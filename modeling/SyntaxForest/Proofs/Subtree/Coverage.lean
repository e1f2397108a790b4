import SyntaxForest.Proofs.Subtree.Walk

/-!
# Proofs/Subtree/Coverage — what a walk covers

A walk goes down through slots; whether it gets to a node is a matter of the way up from it, which goes by
parents.  `Tree.FreeWay` says that the way up from a node leads to the start of the walk, and that none of the
nodes above it that lie on the way is refused.

* `Tree.entered_iff` — **a node is entered exactly if its way is free**.
* `Tree.exists_infix` — the steps of a node that is entered stand together in those of the walk.
* `Tree.Covers` — what is asked of the steps of a walk: which nodes, how often, and in what order.
* `Tree.Shows.covers` — **every walk covers what is below its start**.
-/

namespace SyntaxForest

/-! ## Steps that are nested -/

namespace WalkEvent

variable {n : NodeId} {es es' : List WalkEvent}

theorem Nested.append (h : Nested es) (h' : Nested es') : Nested (es ++ es') := by
  induction h with
  | nil => exact h'
  | pair hinner _ _ ih =>
    rw [List.cons_append, List.append_assoc]
    exact .pair hinner ih

theorem Nested.flatMap {α : Type} {f : α → List WalkEvent} {xs : List α}
    (h : ∀ x ∈ xs, Nested (f x)) : Nested (xs.flatMap f) := by
  induction xs with
  | nil => exact .nil
  | cons x xs ih =>
    obtain ⟨hx, hxs⟩ := List.forall_mem_cons.1 h
    exact hx.append (ih hxs)

/-- In a nested row each node is left as often as it is entered. -/
theorem Nested.count_leave (h : Nested es) (n : NodeId) :
    es.count (.leave n) = es.count (.enter n) := by
  induction h with
  | nil => rfl
  | @pair m inner rest _ _ ihInner ih =>
    simp only [List.count_cons, List.count_append, ihInner, ih, beq_iff_eq, reduceCtorEq, if_false,
      WalkEvent.leave.injEq, WalkEvent.enter.injEq]
    omega

/-- …and first entered, then left. -/
theorem Nested.enter_leave_sublist (h : Nested es) (hn : .enter n ∈ es) :
    List.Sublist [.enter n, .leave n] es := by
  induction h with
  | nil => cases hn
  | @pair m inner rest _ _ ihInner ih =>
    rcases List.mem_cons.1 hn with heq | hn
    · cases heq
      exact (List.singleton_sublist.2 (List.mem_append_right _ List.mem_cons_self)).cons_cons _
    rcases List.mem_append.1 hn with hn | hn
    · exact ((ihInner hn).trans (List.sublist_append_left _ _)).cons _
    · rcases List.mem_cons.1 hn with heq | hn
      · cases heq
      · exact (((ih hn).cons _).trans (List.sublist_append_right _ _)).cons _

/-- A node is entered as often as it is among the nodes that are entered. -/
theorem count_entered (es : List WalkEvent) (n : NodeId) :
    (es.filterMap entered?).count n = es.count (.enter n) := by
  induction es with
  | nil => rfl
  | cons e es ih => cases e <;> simp [List.filterMap_cons, List.count_cons, entered?, ih]

end WalkEvent

open WalkEvent

/-! ## Steps of a node within those of a walk -/

namespace Subtree

variable {shape : Shape} {refuses : NodeId → Bool} {s c : Subtree} {n : NodeId}

/-- The steps of a child stand together in those of a node that is not refused. -/
theorem steps_infix (hrefuses : refuses s.head.node = false) (hc : c ∈ s.liveChildren shape) :
    c.steps shape refuses <:+: s.steps shape refuses := by
  obtain ⟨before, after, hsplit⟩ := List.append_of_mem hc
  refine ⟨.enter s.head.node :: before.flatMap (steps shape refuses),
    after.flatMap (steps shape refuses) ++ [.leave s.head.node], ?_⟩
  rw [steps_eq s, body, if_neg (by simp [hrefuses]), hsplit]
  simp

/-- A node is entered first, and then what is below it, unless it is refused. -/
theorem mem_steps_iff : .enter n ∈ s.steps shape refuses ↔ n = s.head.node ∨
    refuses s.head.node = false ∧ ∃ c ∈ s.liveChildren shape, .enter n ∈ c.steps shape refuses := by
  rw [steps_eq, body]
  cases refuses s.head.node <;> simp

theorem nested_body (h : ∀ c ∈ s.liveChildren shape, Nested (c.steps shape refuses)) :
    Nested (s.body shape refuses) := by
  rw [body]
  split
  · exact .nil
  · exact .flatMap h

theorem nested_steps (s : Subtree) : Nested (s.steps shape refuses) := by
  induction s using Subtree.induct with
  | node h ss ih =>
    rw [steps_eq]
    refine .pair (nested_body fun c hc => ?_) .nil
    obtain ⟨slot, hslot, hc⟩ := List.mem_flatMap.1 hc
    exact ih slot ((Kind.liveOnly_sublist _ _ _).subset hslot) c hc

/-- What is entered below a node is entered after it, and left before it. -/
theorem around_sublist (hn : .enter n ∈ s.steps shape refuses) (hne : s.head.node ≠ n) :
    List.Sublist [.enter s.head.node, .enter n, .leave n, .leave s.head.node]
      (s.steps shape refuses) := by
  rw [steps_eq] at hn ⊢
  have hbody : .enter n ∈ s.body shape refuses := by simpa [hne.symm] using hn
  exact (((nested_body fun c _ => c.nested_steps).enter_leave_sublist hbody).append
    (List.Sublist.refl _)).cons_cons _

/-- The steps of two children come one after the other. -/
theorem in_order_sublist {d : Subtree} (hrefuses : refuses s.head.node = false)
    (hcd : List.Sublist [c, d] (s.liveChildren shape)) :
    List.Sublist [.enter c.head.node, .leave c.head.node, .enter d.head.node, .leave d.head.node]
      (s.steps shape refuses) := by
  have hpair : ∀ v : Subtree, List.Sublist [.enter v.head.node, .leave v.head.node]
      (v.steps shape refuses) := fun v =>
    v.nested_steps.enter_leave_sublist (mem_steps_iff.2 (.inl rfl))
  have hboth : List.Sublist (c.steps shape refuses ++ (d.steps shape refuses ++ []))
      (s.body shape refuses) := by
    rw [body, if_neg (by simp [hrefuses])]
    exact hcd.flatMap _
  rw [List.append_nil] at hboth
  rw [steps_eq]
  exact ((((hpair c).append (hpair d)).trans hboth).trans (List.sublist_append_left _ _)).cons _

end Subtree

namespace Tree

variable {t : Tree} {refuses : NodeId → Bool} {start m n : NodeId} {i j c d : Nat} {l : Location}
  {s : Subtree}

/-- **The way from a start down to a node is free**: the start is met on the way up from the node, and no
node above it, up to and including the start, is refused. -/
def FreeWay (t : Tree) (refuses : NodeId → Bool) (start n : NodeId) : Prop :=
  ∃ below above, t.ancestors n = .ok (below ++ start :: above) ∧
    ∀ a ∈ (below ++ [start]).tail, refuses a = false

namespace FreeWay

theorem self (hf : Arena.Forest t.records) (hi : i < t.records.size) :
    t.FreeWay refuses (t.handle i) (t.handle i) := by
  obtain ⟨chain, hc⟩ := hf.rooted hi
  cases hc with
  | root hi hl => exact ⟨[], [], ancestors_eq_ok.2 ⟨rfl, _, .root hi hl, rfl⟩, by simp⟩
  | @up _ l chain hl hc =>
    exact ⟨[], chain.map t.handle, ancestors_eq_ok.2 ⟨rfl, _, .up hl hc, rfl⟩, by simp⟩

/-- The way to a child is free if the way to its parent is, and the parent is not refused. -/
theorem down (h : t.FreeWay refuses start (t.handle l.parent))
    (hl : Arena.locationAt t.records c = some l) (hrefuses : refuses (t.handle l.parent) = false) :
    t.FreeWay refuses start (t.handle c) := by
  obtain ⟨below, above, hup, hfree⟩ := h
  obtain ⟨-, chain, hc, hsplit⟩ := ancestors_eq_ok.1 hup
  refine ⟨t.handle c :: below, above, ancestors_eq_ok.2 ⟨rfl, _, .up hl hc, ?_⟩, ?_⟩
  · rw [List.map_cons, ← hsplit]
    rfl
  · -- the parent is the first of the nodes that are now above
    have hhead : ∃ rest, below ++ [start] = t.handle l.parent :: rest := by
      cases hc <;> cases below <;> simp_all [handle]
    obtain ⟨rest, hrest⟩ := hhead
    rw [List.cons_append, List.tail_cons, hrest]
    rw [hrest, List.tail_cons] at hfree
    exact List.forall_mem_cons.2 ⟨hrefuses, hfree⟩

/-- A way that is free starts at the node, or is one to its parent, which is not refused. -/
theorem eq_or_up (h : t.FreeWay refuses start (t.handle c)) :
    start = t.handle c ∨ ∃ l, Arena.locationAt t.records c = some l ∧
      refuses (t.handle l.parent) = false ∧ t.FreeWay refuses start (t.handle l.parent) := by
  obtain ⟨below, above, hup, hfree⟩ := h
  obtain ⟨-, chain, hc, hsplit⟩ := ancestors_eq_ok.1 hup
  rcases below with _ | ⟨first, below⟩
  · cases hc with
    | root _ _ => exact .inl (List.cons.inj hsplit).1
    | up _ _ => exact .inl (List.cons.inj hsplit).1
  · rw [List.cons_append, List.tail_cons] at hfree
    cases hc with
    | root _ _ => simp at hsplit
    | @up _ l chain hl hc =>
      obtain ⟨-, hsplit⟩ := List.cons.inj hsplit
      refine .inr ⟨l, hl, hfree _ ?_, below, above, ancestors_eq_ok.2 ⟨rfl, _, hc, hsplit⟩,
        fun a ha => hfree a (List.mem_of_mem_tail ha)⟩
      cases hc <;> cases below <;> simp_all [handle]

/-- The start of a free way is above the node. -/
theorem below (h : t.FreeWay refuses (t.handle i) (t.handle j)) : Arena.Below t.records i j := by
  obtain ⟨below, above, hup, -⟩ := h
  obtain ⟨-, chain, hc, hsplit⟩ := ancestors_eq_ok.1 hup
  have hmem : t.handle i ∈ chain.map t.handle :=
    hsplit ▸ List.mem_append_right _ List.mem_cons_self
  exact ⟨chain, hc, (mem_map_handle rfl).1 hmem⟩

/-- A free way is free from every node on it. -/
theorem from_above (hf : Arena.Forest t.records) (hstart : t.FreeWay refuses (t.handle i) (t.handle d))
    (h : t.FreeWay refuses (t.handle i) (t.handle j)) (hd : Arena.Below t.records d j) :
    t.FreeWay refuses (t.handle d) (t.handle j) := by
  obtain ⟨chain, hc, hmem⟩ := hd
  induction hc with
  | @root j hj _ =>
    obtain rfl := List.mem_singleton.1 hmem
    exact .self hf hj
  | @up j l chain hl hc ih =>
    rcases List.mem_cons.1 hmem with rfl | habove
    · exact .self hf (Arena.lt_size_of_locationAt hl)
    rcases h.eq_or_up with heq | ⟨l', hl', hrefuses, hway⟩
    · -- the start would stand below its own parent
      obtain rfl : i = j := congrArg NodeId.index heq
      exact absurd (hstart.below.trans ⟨chain, hc, habove⟩) (Arena.not_below_parent hl)
    · obtain rfl : l = l' := Option.some.inj (hl.symm.trans hl')
      exact (ih hway habove).down hl hrefuses

end FreeWay

/-! ## What is entered -/

/-- Where every child is in sight, the children shown are those in all slots. -/
theorem Visible.shown_eq (hv : t.Visible) {r : Record} (hr : t.records[i]? = some r) :
    t.shown i = r.slots.flatMap Slot.members := by
  rw [shown, Arena.shown, hr]
  refine Kind.flatMap_members_liveOnly fun slot content hslot hmembers => ?_
  obtain ⟨c, hc⟩ := List.exists_mem_of_ne_nil _ hmembers
  obtain ⟨k, hk, hlive⟩ := hv i slot c (by rwa [Arena.membersAt_of_content hr hslot])
  obtain rfl : r.kind = k := Option.some.inj ((Arena.kindAt_of_record hr).symm.trans hk)
  exact hlive

/-- …and so every node is shown with its parent. -/
theorem Visible.mem_shown (hv : t.Visible) (hf : Arena.Forest t.records)
    (hl : Arena.locationAt t.records c = some l) : c ∈ t.shown l.parent := by
  obtain ⟨r, hr⟩ := Arena.exists_record (hf.parent_lt hl)
  rw [hv.shown_eq hr]
  exact (Arena.mem_record_iff hr).2 ⟨_, (hf.held hl).2⟩

/-- **The steps of a node that is entered stand together** in those of the walk. -/
theorem exists_infix (hs : t.Shows i s) (hn : .enter (t.handle j) ∈ s.steps t.shape refuses) :
    ∃ v, t.Shows j v ∧ v.steps t.shape refuses <:+: s.steps t.shape refuses := by
  induction s using Subtree.induct generalizing i with
  | node h ss ih =>
    rcases Subtree.mem_steps_iff.1 hn with heq | ⟨hrefuses, c, hc, hn⟩
    · obtain rfl := congrArg NodeId.index (heq.trans hs.node_eq)
      exact ⟨_, hs, List.infix_rfl⟩
    · obtain ⟨children, -, hsnd, hshows⟩ := hs.exists_children
      obtain ⟨x, hx, rfl⟩ := List.mem_map.1 (hsnd ▸ hc)
      obtain ⟨slot, hslot, hmem⟩ := List.mem_flatMap.1 hc
      obtain ⟨v, hv, hinfix⟩ :=
        ih slot ((Kind.liveOnly_sublist _ _ _).subset hslot) _ hmem (hshows x hx) hn
      exact ⟨v, hv, hinfix.trans (Subtree.steps_infix hrefuses hc)⟩

/-- A walk gets to every child of a node that it enters and that is not refused. -/
theorem mem_steps_of_parent (hf : Arena.Forest t.records) (hv : t.Visible) (hs : t.Shows i s)
    (hn : .enter (t.handle l.parent) ∈ s.steps t.shape refuses)
    (hrefuses : refuses (t.handle l.parent) = false) (hl : Arena.locationAt t.records c = some l) :
    .enter (t.handle c) ∈ s.steps t.shape refuses := by
  obtain ⟨v, hshows, hinfix⟩ := exists_infix hs hn
  obtain ⟨children, hfst, hsnd, hchildren⟩ := hshows.exists_children
  obtain ⟨x, hx, rfl⟩ := List.mem_map.1 (hfst ▸ hv.mem_shown hf hl)
  refine hinfix.subset (Subtree.mem_steps_iff.2 (.inr ⟨hshows.node_eq ▸ hrefuses, x.2, ?_, ?_⟩))
  · exact hsnd ▸ List.mem_map_of_mem hx
  · exact Subtree.mem_steps_iff.2 (.inl (hchildren x hx).node_eq.symm)

/-- What a walk enters lies on a free way, if its start does. -/
theorem freeWay_of_mem_steps (hf : Arena.Forest t.records) (hs : t.Shows i s)
    (hway : t.FreeWay refuses start (t.handle i)) (hn : .enter n ∈ s.steps t.shape refuses) :
    t.FreeWay refuses start n := by
  induction s using Subtree.induct generalizing i with
  | node h ss ih =>
    rcases Subtree.mem_steps_iff.1 hn with rfl | ⟨hrefuses, c, hc, hn⟩
    · rwa [hs.node_eq]
    · obtain ⟨children, hfst, hsnd, hshows⟩ := hs.exists_children
      obtain ⟨x, hx, rfl⟩ := List.mem_map.1 (hsnd ▸ hc)
      obtain ⟨slot, hslot, hmem⟩ := List.mem_flatMap.1 hc
      have hmemShown : x.1 ∈ t.shown i := hfst ▸ List.mem_map_of_mem hx
      obtain ⟨l, hl, rfl⟩ := hf.parent_of_shown hmemShown
      exact ih slot ((Kind.liveOnly_sublist _ _ _).subset hslot) _ hmem (hshows x hx)
        (hway.down hl (hs.node_eq ▸ hrefuses)) hn

/-- **A node is entered exactly if the way to it is free.** -/
theorem entered_iff (hf : Arena.Forest t.records) (hv : t.Visible) (hs : t.Shows i s) :
    .enter n ∈ s.steps t.shape refuses ↔ t.FreeWay refuses (t.handle i) n := by
  constructor
  · exact freeWay_of_mem_steps hf hs (.self hf hs.lt_size)
  · intro hway
    obtain ⟨hown, chain, hc⟩ : n.tree = t.id ∧ ∃ chain, Arena.Chain t.records n.index chain := by
      obtain ⟨below, above, hup, -⟩ := hway
      obtain ⟨hown, chain, hc, -⟩ := ancestors_eq_ok.1 hup
      exact ⟨hown, chain, hc⟩
    rw [← handle_index hown] at hway ⊢
    generalize n.index = j at hc hway ⊢
    have hself : .enter (t.handle i) ∈ s.steps t.shape refuses :=
      Subtree.mem_steps_iff.2 (.inl hs.node_eq.symm)
    induction hc with
    | root _ hl =>
      rcases hway.eq_or_up with heq | ⟨l, hl', -, -⟩
      · exact heq ▸ hself
      · rw [hl] at hl'
        cases hl'
    | up hl _ ih =>
      rcases hway.eq_or_up with heq | ⟨l', hl', hrefuses, hway⟩
      · exact heq ▸ hself
      · obtain rfl := Option.some.inj (hl.symm.trans hl')
        exact mem_steps_of_parent hf hv hs (ih hway) hrefuses hl

/-! ## The walk as a whole -/

/-- **A walk that covers what is below its start**, but for what is below the nodes that are refused. -/
structure Covers (t : Tree) (refuses : NodeId → Bool) (start : NodeId) (steps : List WalkEvent) :
    Prop where
  /-- a node is entered exactly if the way to it is free -/
  entered_iff : ∀ n, .enter n ∈ steps ↔ t.FreeWay refuses start n
  /-- what is entered is entered once and left once -/
  once : ∀ n, .enter n ∈ steps → steps.count (.enter n) = 1 ∧ steps.count (.leave n) = 1
  /-- what is left was entered -/
  entered_of_left : ∀ n, .leave n ∈ steps → .enter n ∈ steps
  nested : Nested steps
  /-- a node is entered before all that is entered below it, and left after it -/
  around : ∀ a n ns, .enter a ∈ steps → .enter n ∈ steps → t.ancestors n = .ok ns → a ∈ ns → a ≠ n →
    List.Sublist [.enter a, .enter n, .leave n, .leave a] steps
  /-- of two children of a node the first, by slots and within a list, is left before the second is
  entered -/
  in_order : ∀ n r c d, .enter n ∈ steps → refuses n = false → t.look n = .ok r →
    List.Sublist [c, d] (r.slots.flatMap Slot.members) →
    List.Sublist [.enter (t.handle c), .leave (t.handle c), .enter (t.handle d), .leave (t.handle d)]
      steps

/-- The steps of a walk are those of a stroll that skips the children of what is refused. -/
theorem Shows.strolls (hf : Arena.Forest t.records) (hs : t.Shows i s) :
    t.Strolls [i] (s.steps t.shape refuses) := by
  obtain ⟨steps, hwalk, hstrolls⟩ :=
    @preorder_strolls t (t.handle i) (.refusing refuses) hf rfl hs.lt_size rfl
  cases hwalk.symm.trans (preorder_eq_ok hf rfl hs)
  exact hstrolls

/-- **Every walk covers what is below its start.** -/
theorem Shows.covers (hf : Arena.Forest t.records) (hv : t.Visible) (hs : t.Shows i s) :
    t.Covers refuses (t.handle i) (s.steps t.shape refuses) where
  entered_iff n := entered_iff hf hv hs
  once n hn := by
    have hstrolls : t.Strolls [i] (s.steps t.shape refuses) := hs.strolls hf
    have hnodup := (hstrolls.inside hf hs.lt_size).once
    have hcount : (s.steps t.shape refuses).count (.enter n) = 1 := by
      rw [← count_entered]
      exact List.count_eq_one_of_mem hnodup (List.mem_filterMap.2 ⟨_, hn, rfl⟩)
    exact ⟨hcount, (s.nested_steps.count_leave n).trans hcount⟩
  entered_of_left n hn := by
    rw [← List.count_pos_iff] at hn ⊢
    rwa [← s.nested_steps.count_leave n]
  nested := s.nested_steps
  around a n ns ha hn hup hmem hne := by
    obtain ⟨hown, chain, hc, rfl⟩ := ancestors_eq_ok.1 hup
    obtain ⟨d, hd, rfl⟩ := List.mem_map.1 hmem
    obtain ⟨v, hshows, hinfix⟩ := exists_infix hs ha
    have hway : t.FreeWay refuses (t.handle d) n := by
      rw [entered_iff hf hv hs, ← handle_index hown] at hn
      rw [← handle_index hown]
      exact .from_above hf ((entered_iff hf hv hs).1 ha) hn ⟨chain, hc, hd⟩
    have haround := v.around_sublist ((entered_iff hf hv hshows).2 hway) (hshows.node_eq ▸ hne)
    rw [hshows.node_eq] at haround
    exact haround.trans hinfix.sublist
  in_order n r c d hn hrefuses hr hcd := by
    obtain ⟨hown, hr⟩ := look_eq_ok.1 hr
    rw [← handle_index hown] at hn hrefuses
    obtain ⟨v, hshows, hinfix⟩ := exists_infix hs hn
    obtain ⟨children, hfst, hsnd, hchildren⟩ := hshows.exists_children
    rw [← hv.shown_eq hr, ← hfst] at hcd
    obtain ⟨pair, hpair, hmap⟩ := List.sublist_map_iff.1 hcd
    obtain ⟨x, rest, rfl, rfl, hrest⟩ := List.map_eq_cons_iff.1 hmap.symm
    obtain ⟨y, rest, rfl, rfl, hnil⟩ := List.map_eq_cons_iff.1 hrest
    obtain rfl := List.map_eq_nil_iff.1 hnil
    have hlive : List.Sublist [x.2, y.2] (v.liveChildren t.shape) := hsnd ▸ hpair.map Prod.snd
    have horder := Subtree.in_order_sublist (hshows.node_eq ▸ hrefuses) hlive
    rw [(hchildren x (hpair.subset (by simp))).node_eq,
      (hchildren y (hpair.subset (by simp))).node_eq] at horder
    exact horder.trans hinfix.sublist

end Tree

end SyntaxForest
