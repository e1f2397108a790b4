import SyntaxForest.Proofs.Edit.Foreign
import SyntaxForest.Proofs.Session.Accounts
import SyntaxForest.Proofs.Session.Answers
import SyntaxForest.Proofs.Session.Locality
import SyntaxForest.Proofs.Session.Refusal

/-!
# Proofs/Session/Foreign — no tree takes a node of another tree for its own

A node names its tree by the id of the tree.  As long as the counter of ids has not come round, no two trees
have the same, and a node is one of the tree that it names.  Which of the nodes of that tree it is does not
matter to any other tree, where its index may be in use as well.

A row of copies is the only call that something can come of: the copies of the nodes before the first one
that is refused.

* `Session.cloneAll_stops` — a row of copies stops at a node that is refused.
* `Session.foreign_excluded` — **a node is excluded from every tree but its own** (`Session.Excludes`), if there
  are fewer than 2³² trees.
* `Session.foreign_accepted` — with one more, a tree takes a node of another one for its own.
-/

namespace SyntaxForest

namespace Session

variable {α : Type} {s s' : Session} {i j target : Nat} {t u : Tree} {n m : NodeId} {T : Typing}

/-- A node of one of the trees. -/
def Knows (s : Session) (n : NodeId) : Prop := ∃ t ∈ s.trees, n ∈ t.nodes

/-- **Fewer than 2³² trees have ids of their own.** -/
theorem Sound.number_eq (h : s.Sound T) (hsize : s.trees.size < UInt32.size) (ht : s.trees[i]? = some t)
    (hu : s.trees[j]? = some u) (hid : u.id = t.id) : j = i := by
  obtain ⟨hi, -⟩ := Array.getElem?_eq_some_iff.1 ht
  obtain ⟨hj, -⟩ := Array.getElem?_eq_some_iff.1 hu
  rwa [h.ids hu, h.ids ht, Tree.idOf_of_lt (Nat.lt_of_le_of_lt hj hsize),
    Tree.idOf_of_lt (Nat.lt_of_le_of_lt hi hsize)] at hid

/-- A node that names a tree is a node of that tree, if it is one of any. -/
theorem Knows.mem_nodes (hn : s.Knows n) (h : s.Sound T) (hsize : s.trees.size < UInt32.size)
    (ht : s.trees[i]? = some t) (hown : n.tree = t.id) : n ∈ t.nodes := by
  obtain ⟨u, hu, hn⟩ := hn
  obtain ⟨j, hu⟩ := Array.mem_iff_getElem?.1 hu
  obtain rfl := h.number_eq hsize ht hu ((Tree.mem_nodes.1 hn).1.symm.trans hown)
  obtain rfl := Option.some.inj (hu.symm.trans ht)
  exact hn

/-- An action that fails and leaves the tree as it is leaves the session as it is. -/
theorem act_error {a : TreeM α} {e : Failure} (ht : s.trees[i]? = some t)
    (ha : a t = .error e t) : act i a s = .error e s := by
  simp only [act, tree_eq_ok.2 ht, ha, setIfInBounds_same ht]

/-- What comes after a question that a tree fails to answer does not come about. -/
theorem look_tree_error {β : Type} {f : Tree → Except Failure α} {k : α → SessionM β} {e : Failure}
    (ht : s.trees[i]? = some t) (hf : f t = .error e) :
    (look (fun s => do f (← s.tree i)) >>= k) s = .error e s := by
  refine look_bind_error ?_
  rw [tree_eq_ok.2 ht]
  exact hf

/-! ## Copies -/

theorem clone_foreign (ht : s.trees[i]? = some t) (hn : n.tree ≠ t.id) :
    clone i n target s = .error (.refused .foreignTree) s :=
  look_tree_error ht (Tree.snapshot_foreign hn)

/-- **A row of copies stops at a node that is refused**: the nodes before it are copied, that one is not,
and the row fails for the same reason. -/
structure Stops (i : Nat) (ns : List NodeId) (target : Nat) (s : Session) (r : Refusal) (s' : Session) :
    Prop where
  fails : cloneAll i ns target s = .error (.refused r) s'
  splits : ∃ before m after copies, ns = before ++ m :: after ∧
    cloneAll i before target s = .ok copies s' ∧
    clone i m target s' = .error (.refused r) s' ∧ (m.tree ≠ Tree.idOf i → r = .foreignTree)

theorem cloneAll_cons_error {ns : List NodeId} {e : Failure}
    (h : clone i n target s = .error e s') : cloneAll i (n :: ns) target s = .error e s' := by
  rw [cloneAll, List.mapM_cons]
  exact bind_of_error h

theorem cloneAll_cons_of_ok {ns : List NodeId} {copy : NodeId} (h : clone i n target s = .ok copy s') :
    cloneAll i (n :: ns) target s =
      ((cloneAll i ns target >>= fun copies => pure (copy :: copies)) : SessionM (List NodeId)) s' := by
  rw [cloneAll, List.mapM_cons]
  exact bind_of_ok h

/-- The first node of the row may be the one. -/
theorem Stops.here {ns : List NodeId} {r : Refusal} (h : clone i n target s = .error (.refused r) s)
    (hr : n.tree ≠ Tree.idOf i → r = .foreignTree) : Stops i (n :: ns) target s r s where
  fails := cloneAll_cons_error h
  splits := ⟨[], n, ns, [], rfl, rfl, h, hr⟩

/-- A node that is copied may come before the row. -/
theorem Stops.cons {ns : List NodeId} {copy : NodeId} {r : Refusal} {s'' : Session}
    (h : clone i n target s = .ok copy s') (hstops : Stops i ns target s' r s'') :
    Stops i (n :: ns) target s r s'' where
  fails := by
    rw [cloneAll_cons_of_ok h]
    exact bind_of_error hstops.fails
  splits := by
    obtain ⟨before, m, after, copies, rfl, hbefore, hm⟩ := hstops.splits
    refine ⟨n :: before, m, after, copy :: copies, rfl, ?_, hm⟩
    rw [cloneAll_cons_of_ok h]
    exact bind_of_ok hbefore

/-- **A foreign node stops a row of copies**, if no other does before. -/
theorem cloneAll_stops {ns : List NodeId} (h : s.Sound .declared) (ht : s.trees[i]? = some t)
    (htarget : target < s.trees.size) (hns : ∀ m ∈ ns, m.tree = t.id → m ∈ t.nodes)
    (hn : n ∈ ns) (hforeign : n.tree ≠ t.id) : ∃ r s', Stops i ns target s r s' := by
  induction ns generalizing s t with
  | nil => cases hn
  | cons m ms ih =>
    obtain ⟨hm, hms⟩ := List.forall_mem_cons.1 hns
    by_cases hown : m.tree = t.id
    · have hanswers := clone_answers h ⟨t, ht, hm hown⟩ htarget
      rcases hrun : clone i m target s with ⟨copy, s'⟩ | ⟨e, s'⟩
      · -- the nodes that come after it are nodes of the tree that this copy leaves
        have hleads := ((clone_adds h i m target).of_ok hrun).leadsTo h
        obtain ⟨t', ht', hr⟩ := hleads.trees ht
        have hid := hr.id_config.1
        have hn' : n ∈ ms := (List.mem_cons.1 hn).resolve_left fun heq => hforeign (heq ▸ hown)
        obtain ⟨r, s'', hstops⟩ := ih (hleads.sound h) ht' (hleads.size ▸ htarget)
          (fun c hc hct => hr.mem_nodes (hms c hc (hct.trans hid))) hn' (hid ▸ hforeign)
        exact ⟨r, s'', hstops.cons hrun⟩
      · obtain rfl := clone_reverts h i m target e s' hrun
        obtain ⟨r, rfl⟩ := hanswers e s' hrun
        exact ⟨r, s', .here hrun fun hne => absurd (hown.trans (h.ids ht)) hne⟩
    · exact ⟨_, s, .here (clone_foreign ht hown) fun _ => rfl⟩

/-- Copies add to the tree that they are made in, and are not counted. -/
theorem Stops.trees {ns : List NodeId} {r : Refusal} {k : Nat} (hstops : Stops i ns target s r s')
    (h : s.Sound .declared) (hu : s.trees[k]? = some u) : ∃ u', s'.trees[k]? = some u' ∧
      u.Extends u' ∧ u'.stamp = u.stamp ∧ (k ≠ target → u' = u) := by
  obtain ⟨before, m, after, copies, rfl, hcopies, -⟩ := hstops.splits
  obtain ⟨u', hu', hextends, hstamp⟩ := ((cloneAll_adds h i before target).of_ok hcopies).extends hu
  refine ⟨u', hu', hextends, hstamp, fun hk => ?_⟩
  have hspared : s'.trees[k]? = s.trees[k]? :=
    Leaves.of_ok (cloneAll_spares hk.symm) hcopies
  exact Option.some.inj (hu'.symm.trans (hspared.trans hu))

/-! ## Nodes of another tree -/

/-- **A node that is excluded from a tree**, the one with the number `i`: whatever is called on the tree
with it, beside nodes that the session knows, fails or is refused, and nothing has happened.  Only of a row
of copies, those before it stay. -/
structure Excludes (s : Session) (i : Nat) (t : Tree) (n : NodeId) : Prop where
  read : t.Illegible n
  asked : t.Unavailable n
  /-- the node is compared with no node of any tree -/
  compared : ∀ v k, ∀ {m : Type → Type} [Monad m] (sameScalar : Property → Scalar → Scalar → m Bool),
    t.compare n v k sameScalar = .error (.foreignRead n)
  /-- …and no node with it; of two foreign nodes the one on the left is read first -/
  matched : ∀ v ∈ s.trees, ∀ k, s.Knows k → ∀ {m : Type → Type} [Monad m]
    (sameScalar : Property → Scalar → Scalar → m Bool),
    v.compare k t n sameScalar = .error (.foreignRead (if v.owns k then n else k))
  /-- no call is made on the node, and none with it -/
  edited : ∀ e : Edit, (∀ m ∈ e.handles, s.Knows m) → n ∈ e.handles →
    ∃ r, run (.edit i e) s = .error (.refused r) s ∧ (e.handles.head? = some n → r = .foreignTree)
  /-- it does not come into a list that was opened, neither at once nor after other edits of the list -/
  listed : ∀ m p l, t.sequence m p = .ok l → ∀ es, ∀ e : ListEdit, (∀ c ∈ e.newcomers, s.Knows c) →
    n ∈ e.newcomers → (l.apply e).Declines (l.through t es)
  /-- typed handles ask for a scalar, a list or a child that may be missing, or look at the class -/
  questioned : Typed.questions n t =
    .replicate 15 (.error (.refused .foreignTree)) ++ .replicate 2 (.error (.foreignRead n))
  /-- what typed handles do, each beside the call that it comes to -/
  typed : ∀ a c, s.Knows a → s.Knows c → ∀ text code before after,
    List.Forall₂ (fun m e => m = discard (Edit.run e) ∧ (n ∈ e.handles →
      ∃ r, m t = .error (.refused r) t ∧ (e.handles.head? = some n → r = .foreignTree)))
      (Typed.calls a c text code before after) (Typed.edits a c text code before after)
  snapshot : run (.snapshot i n) s = .error (.refused .foreignTree) s
  locate : run (.locate i n) s = .error (.foreignRead n) s
  clone : ∀ target, run (.clone i n target) s = .error (.refused .foreignTree) s
  cloneAll : ∀ ns target, target < s.trees.size → (∀ m ∈ ns, s.Knows m) → n ∈ ns → ∃ r s',
    run (.cloneAll i ns target) s = .error (.refused r) s' ∧ Stops i ns target s r s' ∧
      ∀ k u, s.trees[k]? = some u → ∃ u', s'.trees[k]? = some u' ∧ u.Extends u' ∧
        u'.stamp = u.stamp ∧ (k ≠ target → u' = u)

/-- A call that is given a foreign node is refused, and a call on one for this reason. -/
theorem edit_foreign (h : s.Sound .declared) (hsize : s.trees.size < UInt32.size)
    (ht : s.trees[i]? = some t) (hn : n.tree ≠ t.id) {e : Edit} (he : ∀ m ∈ e.handles, s.Knows m)
    (hmem : n ∈ e.handles) :
    ∃ r, e.run t = .error (.refused r) t ∧ (e.handles.head? = some n → r = .foreignTree) := by
  obtain ⟨r, hr⟩ :=
    Edit.run_foreign (h.trees ht) (fun m hm => (he m hm).mem_nodes h hsize ht) hmem hn
  refine ⟨r, hr, fun hhead => ?_⟩
  cases hr.symm.trans (Edit.run_subject_foreign hhead hn)
  rfl

theorem excludes (h : s.Sound .declared) (hsize : s.trees.size < UInt32.size) (ht : s.trees[i]? = some t)
    (hn : n.tree ≠ t.id) : s.Excludes i t n where
  read := Tree.illegible hn
  asked := Tree.unavailable hn
  compared v k m _ sameScalar := (Tree.compare_foreign hn sameScalar).1
  matched v hv k hk m _ sameScalar := by
    by_cases hown : k.tree = v.id
    · obtain ⟨j, hv⟩ := Array.mem_iff_getElem?.1 hv
      obtain ⟨a, ha, -⟩ := ((h.trees hv).legible (hk.mem_nodes h hsize hv hown)).subtree
      rw [Tree.owns, if_pos (beq_iff_eq.2 hown)]
      exact (Tree.compare_foreign hn sameScalar).2 ⟨a, ha⟩
    · rw [Tree.owns, if_neg (mt beq_iff_eq.1 hown)]
      exact (Tree.compare_foreign hown sameScalar).1
  edited e he hmem := by
    obtain ⟨r, hr, hhead⟩ := edit_foreign h hsize ht hn he hmem
    exact ⟨r, act_error ht hr, hhead⟩
  listed m p l hl es e he hmem := by
    obtain ⟨ho, -, -⟩ := Sequence.sequence_eq_ok.1 hl
    obtain ⟨ho', hf'⟩ := ho.through (h.trees ht).forest es
    have hid : (l.through t es).id = t.id := ho'.owned.symm.trans ho.owned
    refine Sequence.apply_foreign hf' ho' (fun c hc hct => ?_) hmem (hid ▸ hn)
    rw [ho.nodes_through (h.trees ht).forest]
    exact (he c hc).mem_nodes h hsize ht (hct.trans hid)
  questioned := Typed.questions_foreign hn
  typed a c ha hc text code before after := by
    rw [Typed.calls_eq_edits, List.forall₂_map_left_iff, List.forall₂_same]
    refine fun e he => ⟨rfl, fun hmem => ?_⟩
    have hknows : ∀ k ∈ e.handles, s.Knows k := fun k hk =>
      (Typed.mem_handles_edits e he hk).elim (fun heq => heq ▸ ha) fun heq => heq ▸ hc
    obtain ⟨r, hr, hhead⟩ := edit_foreign h hsize ht hn hknows hmem
    exact ⟨r, TreeM.discard_error hr, hhead⟩
  snapshot := bind_of_error (look_tree_error ht (Tree.snapshot_foreign hn))
  locate := bind_of_error (look_tree_error ht (Tree.illegible hn).locator)
  clone target := bind_of_error (clone_foreign ht hn)
  cloneAll ns target htarget hns hmem := by
    obtain ⟨r, s', hstops⟩ :=
      cloneAll_stops h ht htarget (fun m hm => (hns m hm).mem_nodes h hsize ht) hmem hn
    exact ⟨r, s', bind_of_error hstops.fails, hstops, fun k u hu => hstops.trees h hu⟩

/-- **A node is excluded from every tree but its own**, whether or not its index is in use there, if there are
fewer than 2³² trees. -/
theorem foreign_excluded (h : Reachable s) (hsize : s.trees.size < UInt32.size) (ht : s.trees[i]? = some t)
    (hu : s.trees[j]? = some u) (hij : i ≠ j) (hn : n ∈ u.nodes) : s.Excludes i t n := by
  refine excludes h.sound hsize ht fun hid => hij.symm ?_
  exact h.sound.number_eq hsize ht hu ((Tree.mem_nodes.1 hn).1.symm.trans hid)

/-- Two trees of the same make: a pattern in each, and a name beside it. -/
def twinPatterns : Session := played [⟨.current, {}⟩, ⟨.current, {}⟩]
  [.edit 0 (.create .pattern), .edit 0 (.create .simpleName),
    .edit 1 (.create .pattern), .edit 1 (.create .simpleName)]

/-- The name of the second tree is no element for the pattern of the first, although the name there has the
same index; it comes in with no batch.  The pattern before it is copied. -/
theorem foreign_excluded_twinPatterns : ∃ s t, Reachable s ∧ s.trees[0]? = some t ∧
    (⟨0, 1⟩ : NodeId) ∈ t.nodes ∧ s.Excludes 0 t ⟨1, 1⟩ ∧
    (∃ r, run (.edit 0 (.list ⟨0, 0⟩ .patternElements (.extend [⟨0, 1⟩, ⟨1, 1⟩]))) s =
      .error (.refused r) s) ∧
    (∃ r s', run (.cloneAll 0 [⟨0, 0⟩, ⟨1, 1⟩] 1) s = .error (.refused r) s') ∧
    (after (.cloneAll 0 [⟨0, 0⟩, ⟨1, 1⟩] 1) s).trees[1]?.map Tree.size = some 3 := by
  have hs : Reachable twinPatterns := .played _ _
  have ht : twinPatterns.trees[0]? = some _ := Array.getElem?_eq_getElem (by decide +kernel)
  have hu : twinPatterns.trees[1]? = some _ := Array.getElem?_eq_getElem (by decide +kernel)
  have hnodes : ∀ n : NodeId, n = ⟨0, 0⟩ ∨ n = ⟨0, 1⟩ ∨ n = ⟨1, 1⟩ → twinPatterns.Knows n := by
    rintro n (rfl | rfl | rfl)
    · exact ⟨_, Array.mem_of_getElem? ht, by decide +kernel⟩
    · exact ⟨_, Array.mem_of_getElem? ht, by decide +kernel⟩
    · exact ⟨_, Array.mem_of_getElem? hu, by decide +kernel⟩
  have hexcludes := foreign_excluded hs (by decide +kernel) ht hu (by decide) (n := ⟨1, 1⟩)
    (by decide +kernel)
  obtain ⟨r, hextend, -⟩ := hexcludes.edited
    (.list ⟨0, 0⟩ .patternElements (.extend [⟨0, 1⟩, ⟨1, 1⟩]))
    (fun m hm => hnodes m (by simpa [Edit.handles, ListEdit.newcomers] using hm)) (by decide)
  obtain ⟨r', s', hcopies, -⟩ := hexcludes.cloneAll [⟨0, 0⟩, ⟨1, 1⟩] 1 (by decide +kernel)
    (fun m hm => hnodes m (by simp at hm; tauto)) (by decide)
  exact ⟨_, _, hs, ht, by decide +kernel, hexcludes, ⟨r, hextend⟩, ⟨r', s', hcopies⟩,
    by decide +kernel⟩

/-- A session of some trees of the same make, with a pattern in the first and a name in the last. -/
def crowd (n : Nat) : Session := played (List.replicate n {})
  [.edit 0 (.create .pattern), .edit (n - 1) (.create .simpleName)]

theorem crowd_trees {n : Nat} (hn : 1 < n) : (crowd n).trees.size = n ∧
    (crowd n).trees[0]? = some ((Tree.start (Tree.idOf 0) {}).created .pattern) ∧
    (crowd n).trees[n - 1]? = some ((Tree.start (Tree.idOf (n - 1)) {}).created .simpleName) := by
  have hstart : ∀ i < n, (start (List.replicate n {})).trees[i]? = some (Tree.start (Tree.idOf i) {}) :=
    fun i hi => by rw [getElem?_start, List.getElem?_replicate_of_lt hi, Option.map_some]
  have hfirst := after_edit (e := .create .pattern) (hstart 0 (by omega))
  have hlast : (after (.edit 0 (.create .pattern)) (start (List.replicate n {}))).trees[n - 1]? =
      some (Tree.start (Tree.idOf (n - 1)) {}) :=
    (after_frame (by simp [Command.target?]; omega)).trans (hstart (n - 1) (by omega))
  refine ⟨?_, (after_frame (by simp [Command.target?]; omega)).trans hfirst, after_edit hlast⟩
  have hsize := ((Sound.start (List.replicate n {})).leadsTo_later
    [.edit 0 (.create .pattern), .edit (n - 1) (.create .simpleName)]).size
  rwa [size_start, List.length_replicate] at hsize

/-- **Where the counter has come round, a node of another tree is accepted.**  The first and the last of 2³²
trees have one id.  So the first reads the name of the last as the pattern that it has at the same index, and
takes an edit of it. -/
theorem foreign_accepted : ∃ s t u, Reachable s ∧ s.trees.size = UInt32.size ∧ s.trees[0]? = some t ∧
    s.trees[UInt32.size - 1]? = some u ∧ ⟨0, 0⟩ ∈ u.nodes ∧ u.kind ⟨0, 0⟩ = .ok .simpleName ∧
    t.kind ⟨0, 0⟩ = .ok .pattern ∧
    answer? (.edit 0 (.setFlags ⟨0, 0⟩ { protect := true })) s = some .done ∧
    ¬s.Excludes 0 t ⟨0, 0⟩ := by
  obtain ⟨hsize, ht, hu⟩ := crowd_trees (n := UInt32.size) (by decide)
  rw [Tree.idOf_wraps] at hu
  refine ⟨crowd UInt32.size, _, _, .played _ _, hsize, ht, hu, by decide, by decide, by decide, ?_, fun h => ?_⟩
  · rw [answer?_edit ht]
    rfl
  · cases h.read.kind

end Session

end SyntaxForest
