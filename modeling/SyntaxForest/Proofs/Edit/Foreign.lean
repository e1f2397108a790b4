import SyntaxForest.Proofs.Edit.Calls
import SyntaxForest.Subtree.Comparison
import SyntaxForest.Subtree.Cursor
import SyntaxForest.Subtree.Footprint
import SyntaxForest.Subtree.Locator
import SyntaxForest.Subtree.Outline

/-!
# Proofs/Edit/Foreign — nodes of another tree

A record names its children and its parent by bare indexes, and the index of a foreign node may well be
one of the arena.  So everything rests on the question whose node it is, which every call asks of every
handle before it uses the index.  The readers fail on a foreign node (`Tree.Illegible`), and what takes
part in edits refuses it (`Tree.Unavailable`).

* `Tree.illegible`, `Tree.unavailable` — **a foreign node is neither read nor asked for a property**.
* `Edit.run_subject_foreign` — **a call on a foreign node is refused**, for that reason.
* `Edit.run_foreign` — **a call that is given a foreign node is refused**, for one reason or another.
* `Typed.calls_eq_edits` — what typed handles do are calls like any other.
-/

namespace SyntaxForest

open TreeM

/-! ## Refusals -/

/-- The question is refused. -/
def Refused {α : Type} (x : Except Failure α) : Prop := ∃ r, x = .error (.refused r)

/-- **The action is refused**, and nothing has happened. -/
def TreeM.Declines {α : Type} (m : TreeM α) (t : Tree) : Prop := ∃ r, m t = .error (.refused r) t

section Refusals

variable {α β : Type} {t : Tree} {e : Failure}

theorem Refused.bind {x : Except Failure α} {f : α → Except Failure β} (h : Refused x) :
    Refused (x >>= f) := by
  obtain ⟨r, rfl⟩ := h
  exact ⟨r, rfl⟩

/-- Where an answered question is followed by a refused one, one of the two is refused. -/
theorem Answered.bind_refused {x : Except Failure α} {f : α → Except Failure β} (h : Answered x)
    (hf : ∀ a, x = .ok a → Refused (f a)) : Refused (x >>= f) := by
  rcases x with e | a
  · obtain ⟨r, rfl⟩ := h e rfl
    exact ⟨r, rfl⟩
  · exact hf a rfl

theorem TreeM.discard_error {m : TreeM α} (h : m t = .error e t) :
    (discard m) t = .error e t := by
  simp [discard, Functor.discard, LawfulFunctor.map_const, Functor.map, EStateM.map, h]

theorem TreeM.Declines.bind_pure {m : TreeM α} {g : α → β} (h : m.Declines t) :
    Declines (m >>= fun x => pure (g x)) t := by
  obtain ⟨r, hr⟩ := h
  exact ⟨r, bind_of_error hr⟩

/-- A refused question comes first. -/
theorem TreeM.Declines.look_refused {f : Tree → Except Failure α} {k : α → TreeM β}
    (h : Refused (f t)) : Declines (look f >>= k) t := by
  obtain ⟨r, hr⟩ := h
  exact ⟨r, look_bind_error hr⟩

/-- An answered question comes first. -/
theorem TreeM.Declines.look_bind {f : Tree → Except Failure α} {k : α → TreeM β}
    (h : Answered (f t)) (hk : ∀ x, f t = .ok x → (k x).Declines t) :
    Declines (look f >>= k) t := by
  rcases hf : f t with e | x
  · obtain ⟨r, rfl⟩ := h e hf
    exact ⟨r, look_bind_error hf⟩
  · obtain ⟨r, hr⟩ := hk x hf
    exact ⟨r, (look_bind_run hf).trans hr⟩

end Refusals

/-! ## Readers and questions -/

namespace Tree

variable {t u : Tree} {n c k : NodeId} {p : Property} {ty : ChildType}

/-- **A node that no reader reads**, for it is of another tree. -/
structure Illegible (t : Tree) (n : NodeId) : Prop where
  kind : t.kind n = .error (.foreignRead n)
  range : t.range n = .error (.foreignRead n)
  flags : t.flags n = .error (.foreignRead n)
  parent : t.parent n = .error (.foreignRead n)
  locationInParent : t.locationInParent n = .error (.foreignRead n)
  ancestors : t.ancestors n = .error (.foreignRead n)
  root : t.root n = .error (.foreignRead n)
  children : t.children n = .error (.foreignRead n)
  subtree : t.subtree n = .error (.foreignRead n)
  outline : t.outline n = .error (.foreignRead n)
  footprint : t.footprint n = .error (.foreignRead n)
  subtreeFootprint : t.subtreeFootprint n = .error (.foreignRead n)
  locator : t.locator n = .error (.foreignRead n)
  walk : ∀ {m : Type → Type} [Monad m] (v : Visitor m), t.walk n v = .error (.foreignRead n)
  recordWalk : ∀ r, t.recordWalk n r = .error (.foreignRead n)
  /-- a cursor that starts at the node fails at its first step, skipping or not -/
  next : (Cursor.starting n).next t = .error (.foreignRead n) ∧
    (Cursor.starting n).skip.next t = .error (.foreignRead n)
  preorder : ∀ plan, t.preorder n plan = .error (.foreignRead n)
  cast : ∀ k, Typed.cast? k t n = .error (.foreignRead n)
  expression : Expression.cast? t n = .error (.foreignRead n)
  type : TypeNode.cast? t n = .error (.foreignRead n)

/-- **A node of which no property is to be had**: the questions that edits ask are refused. -/
structure Unavailable (t : Tree) (n : NodeId) : Prop where
  snapshot : t.snapshot n = .error (.refused .foreignTree)
  peekChild : ∀ p, t.peekChild n p = .error (.refused .foreignTree)
  scalar : ∀ p, t.scalar n p = .error (.refused .foreignTree)
  peekValue : ∀ p, t.peekValue n p = .error (.refused .foreignTree)
  sequence : ∀ p, t.sequence n p = .error (.refused .foreignTree)

section Foreign

variable (hn : n.tree ≠ t.id)

include hn

theorem own_foreign : t.own n = .error (.refused .foreignTree) := by
  simp [own, owns, hn, unlessRefused, refuse]

theorem checkReadable_foreign : t.checkReadable n = .error (.foreignRead n) := by
  simp [checkReadable, owns, hn]

/-- What comes after the question whose node it is does not come about. -/
theorem readable_bind_foreign {α : Type} {f : Unit → Except Failure α} :
    (t.checkReadable n >>= f) = .error (.foreignRead n) := by
  rw [checkReadable_foreign hn]
  rfl

theorem own_bind_foreign {α : Type} {f : Unit → Except Failure α} :
    (t.own n >>= f) = .error (.refused .foreignTree) := by
  rw [own_foreign hn]
  rfl

theorem look_foreign : t.look n = .error (.foreignRead n) := readable_bind_foreign hn

theorem subtree_foreign : t.subtree n = .error (.foreignRead n) := readable_bind_foreign hn

theorem kind_foreign : t.kind n = .error (.foreignRead n) := by
  rw [Tree.kind, look_foreign hn]
  rfl

theorem children_foreign : t.children n = .error (.foreignRead n) := by
  rw [Tree.children, look_foreign hn]
  rfl

theorem parent_foreign : t.parent n = .error (.foreignRead n) := by
  rw [Tree.parent, look_foreign hn]
  rfl

theorem walk_foreign {m : Type → Type} [Monad m] (v : Visitor m) :
    t.walk n v = .error (.foreignRead n) := by
  rw [Tree.walk, subtree_foreign hn]
  rfl

theorem checkProperty_foreign : t.checkProperty n p = .error (.refused .foreignTree) :=
  own_bind_foreign hn

theorem sequence_foreign : t.sequence n p = .error (.refused .foreignTree) := by
  rw [Tree.sequence, checkProperty_foreign hn]
  rfl

theorem peekChild_foreign : t.peekChild n p = .error (.refused .foreignTree) := by
  rw [Tree.peekChild, checkProperty_foreign hn]
  rfl

theorem scalar_foreign : t.scalar n p = .error (.refused .foreignTree) := by
  rw [Tree.scalar, checkProperty_foreign hn]
  rfl

theorem snapshot_foreign : t.snapshot n = .error (.refused .foreignTree) := by
  rw [Tree.snapshot, Tree.ownSubtree, own_bind_foreign hn]
  rfl

theorem checkAttachable_foreign {m : NodeId} :
    t.checkAttachable m p ty n = .error (.refused .foreignTree) := own_bind_foreign hn

/-- The first step of a walk goes down from the node, or up if it is to skip. -/
theorem next_foreign : (Cursor.starting n).next t = .error (.foreignRead n) ∧
    (Cursor.starting n).skip.next t = .error (.foreignRead n) := by
  have hdown : Cursor.following t n (.enter n) = .error (.foreignRead n) := by
    rw [Cursor.following, firstChild, children_foreign hn]
    rfl
  have hup : Cursor.skipped t (.enter n) = .error (.foreignRead n) := by
    rw [Cursor.skipped, parent_foreign hn]
    rfl
  constructor
  · change (do return (some _, (⟨n, ← Cursor.following t n (.enter n), false⟩ : Cursor))) = _
    rw [hdown]
    rfl
  · change (Cursor.skipped t (.enter n) >>= _) = _
    rw [hup]
    rfl

theorem preorder_foreign (plan : SkipPlan) : t.preorder n plan = .error (.foreignRead n) := by
  obtain ⟨hnext, hskip⟩ := next_foreign hn
  have hfirst : ((Cursor.starting n).beforeCall plan 0).next t = .error (.foreignRead n) := by
    rw [Cursor.beforeCall]
    split
    · exact hskip
    · exact hnext
  rw [Tree.preorder, Cursor.drain, hfirst]
  rfl

/-- **A foreign node is not read.** -/
theorem illegible : t.Illegible n where
  kind := kind_foreign hn
  range := by
    rw [Tree.range, look_foreign hn]
    rfl
  flags := by
    rw [Tree.flags, look_foreign hn]
    rfl
  parent := parent_foreign hn
  locationInParent := by
    rw [Tree.locationInParent, look_foreign hn]
    rfl
  ancestors := readable_bind_foreign hn
  root := by
    rw [Tree.root, Tree.ancestors, readable_bind_foreign hn]
    rfl
  children := children_foreign hn
  subtree := subtree_foreign hn
  outline := by
    rw [Tree.outline, subtree_foreign hn]
    rfl
  footprint := by
    rw [Tree.footprint, look_foreign hn]
    rfl
  subtreeFootprint := by
    rw [Tree.subtreeFootprint, subtree_foreign hn]
    rfl
  locator := by
    rw [Tree.locator, subtree_foreign hn]
    rfl
  walk := walk_foreign hn
  recordWalk r := by
    rw [Tree.recordWalk, walk_foreign hn]
    rfl
  next := next_foreign hn
  preorder := preorder_foreign hn
  cast k := by
    rw [Typed.cast?, kind_foreign hn]
    rfl
  expression := by
    rw [Expression.cast?, kind_foreign hn]
    rfl
  type := by
    rw [TypeNode.cast?, kind_foreign hn]
    rfl

/-- **A foreign node is not asked for a property.** -/
theorem unavailable : t.Unavailable n where
  snapshot := snapshot_foreign hn
  peekChild _ := peekChild_foreign hn
  scalar _ := scalar_foreign hn
  sequence _ := sequence_foreign hn
  peekValue p := by
    rw [Tree.peekValue]
    cases p.form with
    | scalar _ => rw [scalar_foreign hn]; rfl
    | child _ => rw [peekChild_foreign hn]; rfl
    | list _ => rw [sequence_foreign hn]; rfl

/-- **A foreign node is not compared**, on either side. -/
theorem compare_foreign {m : Type → Type} [Monad m] (sameScalar : Property → Scalar → Scalar → m Bool) :
    t.compare n u k sameScalar = .error (.foreignRead n) ∧
      (Returns (u.subtree k) → u.compare k t n sameScalar = .error (.foreignRead n)) := by
  constructor
  · rw [Tree.compare, subtree_foreign hn]
    rfl
  · rintro ⟨s, hs⟩
    rw [Tree.compare, hs, subtree_foreign hn]
    rfl

end Foreign

/-! ## Batches -/

/-- **A batch with a foreign node in it is refused**, if its other nodes are of the tree: one of the
questions about the nodes before it is, or the one about itself. -/
theorem checkBatch_foreign {s : Sequence} {seen cs : List NodeId} (hf : Arena.Forest t.records)
    (ho : s.Open t) (hcs : ∀ c ∈ cs, c.tree = t.id → c ∈ t.nodes) (hn : n ∈ cs)
    (hforeign : n.tree ≠ t.id) : Refused (t.checkBatch s seen cs) := by
  induction cs generalizing seen with
  | nil => cases hn
  | cons c cs ih =>
    obtain ⟨hc, hcs⟩ := List.forall_mem_cons.1 hcs
    refine (Answered.guard _ _).bind_refused fun _ _ => ?_
    by_cases hown : c.tree = t.id
    · refine (checkAttachable_answered hf ho.mem_nodes (hc hown)).bind_refused fun _ _ => ih hcs ?_
      exact (List.mem_cons.1 hn).resolve_left fun heq => hforeign (heq ▸ hown)
    · exact Refused.bind ⟨_, checkAttachable_foreign hown⟩

end Tree

/-! ## Calls -/

namespace Sequence

variable {t : Tree} {s : Sequence} {n : NodeId} {cs : List NodeId} {index : Nat}

theorem insertAll_foreign (hf : Arena.Forest t.records) (ho : s.Open t)
    (hcs : ∀ c ∈ cs, c.tree = t.id → c ∈ t.nodes) (hn : n ∈ cs) (hforeign : n.tree ≠ t.id) :
    (s.insertAll index cs).Declines t :=
  .look_bind (ho.items_answered hf) fun _ _ => .look_bind (ho.checkIndex_answered hf) fun _ _ =>
    .look_bind (Tree.checkModifiable_answered ho.mem_nodes) fun _ _ =>
    .look_refused (Tree.checkBatch_foreign hf ho hcs hn hforeign)

/-- **A list takes in no foreign node**, and none of those that come with it. -/
theorem apply_foreign (hf : Arena.Forest t.records) (ho : s.Open t) {e : ListEdit}
    (he : ∀ c ∈ e.newcomers, c.tree = t.id → c ∈ t.nodes) (hn : n ∈ e.newcomers)
    (hforeign : n.tree ≠ t.id) : (s.apply e).Declines t := by
  have hitems : Answered (t.items s) := ho.items_answered hf
  cases e with
  | push c =>
    exact .bind_pure (.look_bind hitems fun _ _ => insertAll_foreign hf ho he hn hforeign)
  | insert index c => exact .bind_pure (insertAll_foreign hf ho he hn hforeign)
  | extend cs =>
    exact .bind_pure (.look_bind hitems fun _ _ => insertAll_foreign hf ho he hn hforeign)
  | set index c =>
    obtain rfl := List.mem_singleton.1 hn
    exact .bind_pure (.look_bind hitems fun _ _ =>
      .look_bind (ho.checkIndex_answered hf) fun _ _ =>
      .look_bind (Tree.checkModifiable_answered ho.mem_nodes) fun _ _ =>
      .look_refused ⟨_, Tree.checkAttachable_foreign hforeign⟩)
  | remove index => cases hn
  | clear => cases hn

end Sequence

theorem Tree.Splices.nodes_eq {t t' : Tree} {n : Nat} {p : Property} {xs : List Splice}
    (h : Splices n p t xs t') : t'.nodes = t.nodes := by
  induction h with
  | nil _ => rfl
  | cons _ _ ih => rw [ih, nodes, nodes, size, splice_records, Arena.size_rewire, splice_handle, size]

/-- Edits of a list leave the tree its nodes, and bring it no others. -/
theorem Sequence.Open.nodes_through {t : Tree} {s : Sequence} (hf : Arena.Forest t.records)
    (ho : s.Open t) (es : List ListEdit) : (s.through t es).nodes = t.nodes := by
  induction es generalizing t with
  | nil => rfl
  | cons e es ih =>
    obtain ⟨ho', hf', hnodes⟩ := ((apply_settles hf ho e).atomic.mono
      (Q := fun _ t' => s.Open t' ∧ Arena.Forest t'.records ∧ t'.nodes = t.nodes)
      fun _ _ ⟨_, hxs, _⟩ =>
        ⟨(ho.splices hf hxs).1, (ho.splices hf hxs).2, hxs.nodes_eq⟩).after ⟨ho, hf, rfl⟩
    exact (ih hf' ho').trans hnodes

namespace NodeId

variable {t : Tree} {n c : NodeId} {p : Property}

theorem setChild_foreign (hn : n ∈ t.nodes) (hc : c.tree ≠ t.id) : (n.setChild p c).Declines t :=
  .look_bind (Tree.checkProperty_answered hn) fun _ _ =>
    .look_bind Property.childType_answered fun _ _ =>
    .look_bind (Tree.checkModifiable_answered hn) fun _ _ =>
    .look_refused ⟨_, Tree.checkAttachable_foreign hc⟩

theorem setValue_foreign {v : Value} (hn : n ∈ t.nodes) (hv : c ∈ v.members)
    (hc : c.tree ≠ t.id) : (n.setValue p v).Declines t := by
  refine .look_bind (Tree.checkProperty_answered hn) fun _ _ => ?_
  split
  · exact ⟨_, rfl⟩
  · cases hv
  · obtain rfl := List.mem_singleton.1 hv
    exact setChild_foreign hn hc
  · cases hv
  · exact ⟨_, rfl⟩
  · exact ⟨_, rfl⟩

theorem child_subject_foreign (hn : n.tree ≠ t.id) :
    n.child p t = .error (.refused .foreignTree) t :=
  look_bind_error (Tree.peekChild_foreign hn)

theorem value_subject_foreign (hn : n.tree ≠ t.id) :
    n.value p t = .error (.refused .foreignTree) t := by
  rw [value]
  cases p.form with
  | scalar _ => exact look_bind_error (Tree.scalar_foreign hn)
  | child _ => exact bind_of_error (child_subject_foreign hn)
  | list _ => exact look_bind_error (Tree.sequence_foreign hn)

end NodeId

namespace Edit

variable {t : Tree} {T : Typing} {e : Edit} {n : NodeId}

/-- **A call on a foreign node is refused**, because the node is foreign. -/
theorem run_subject_foreign (hn : e.handles.head? = some n) (hforeign : n.tree ≠ t.id) :
    e.run t = .error (.refused .foreignTree) t := by
  have hprop : ∀ {α} {p} {k : Unit → TreeM α},
      (look (·.checkProperty n p) >>= k) t = .error (.refused .foreignTree) t := fun {_ _ _} =>
    look_bind_error (Tree.checkProperty_foreign hforeign)
  have hown : ∀ {α} {k : Unit → TreeM α},
      (look (·.own n) >>= k) t = .error (.refused .foreignTree) t := fun {_ _} =>
    look_bind_error (Tree.own_foreign hforeign)
  cases e with
  | create _ | createWith _ _ _ | observe _ => cases hn
  | setRange _ _ | setFlags _ _ | detach _ => cases hn; exact bind_of_error hown
  | child _ _ => cases hn; exact bind_of_error (NodeId.child_subject_foreign hforeign)
  | required _ _ =>
    cases hn
    exact bind_of_error (bind_of_error (NodeId.child_subject_foreign hforeign))
  | setChild _ _ _ | clearChild _ _ | setScalar _ _ _ | setValue _ _ _ =>
    cases hn
    exact bind_of_error hprop
  | value _ _ => cases hn; exact bind_of_error (NodeId.value_subject_foreign hforeign)
  | list _ _ _ => cases hn; exact look_bind_error (Tree.sequence_foreign hforeign)
  | copySubtree _ =>
    cases hn
    exact bind_of_error (look_bind_error (Tree.snapshot_foreign hforeign))

/-- **A call that is given a foreign node is refused**, and has not happened. -/
theorem run_foreign (h : t.Sound T) (he : ∀ m ∈ e.handles, m.tree = t.id → m ∈ t.nodes)
    (hn : n ∈ e.handles) (hforeign : n.tree ≠ t.id) : e.run.Declines t := by
  have hf := h.forest
  -- a node of the tree is not the foreign one, which must be one of those that come with it
  have hsubject : ∀ m ms, e.handles = m :: ms →
      (m ∈ t.nodes → n ∈ ms → e.run.Declines t) → e.run.Declines t := by
    intro m ms hms hrest
    rw [hms] at hn he
    by_cases hm : m.tree = t.id
    · refine hrest (he m List.mem_cons_self hm) ((List.mem_cons.1 hn).resolve_left ?_)
      rintro rfl
      exact hforeign hm
    · exact ⟨_, run_subject_foreign (by rw [hms]; rfl) hm⟩
  cases e with
  | create _ | createWith _ _ _ | observe _ => cases hn
  | setRange _ _ | setFlags _ _ | child _ _ | required _ _ | clearChild _ _ | detach _
  | setScalar _ _ _ | value _ _ | copySubtree _ =>
    exact hsubject _ _ rfl fun _ hmem => by cases hmem
  | setChild m p c =>
    refine hsubject _ _ rfl fun hm hc => .bind_pure ?_
    obtain rfl := List.mem_singleton.1 hc
    exact NodeId.setChild_foreign hm hforeign
  | setValue m p v =>
    exact hsubject _ _ rfl fun hm hc => .bind_pure (NodeId.setValue_foreign hm hc hforeign)
  | list m p edit =>
    refine hsubject _ _ rfl fun hm hc => .look_bind (Tree.sequence_answered hm) fun s hs => .bind_pure ?_
    obtain ⟨ho, -, -⟩ := Sequence.sequence_eq_ok.1 hs
    exact Sequence.apply_foreign hf ho (fun d hd => he d (List.mem_cons_of_mem _ hd)) hc hforeign

end Edit

/-! ## Typed handles -/

namespace Typed

variable {α β : Type}

/-- The calls of typed handles, as calls on a tree. -/
def edits (n c : NodeId) (text : String) (code : PrimitiveCode) (before : PrefixOp)
    (after : PostfixOp) : List Edit :=
  [.createWith .simpleName .simpleNameIdentifier (.symbol text),
    .setScalar n .simpleNameIdentifier (.symbol text),
    .createWith .numberLiteral .numberLiteralToken (.symbol text),
    .setScalar n .numberLiteralToken (.symbol text), .setScalar n .operatorToken (.symbol text),
    .createWith .primitiveType .primitiveTypeCode (.primitive code),
    .setScalar n .primitiveTypeCode (.primitive code),
    .required n .simpleTypeName, .setChild n .simpleTypeName c,
    .required n .qualifiedTypeQualifier, .setChild n .qualifiedTypeQualifier c,
    .required n .qualifiedTypeName, .setChild n .qualifiedTypeName c,
    .required n .arrayAccessArray, .setChild n .arrayAccessArray c,
    .required n .arrayAccessIndex, .setChild n .arrayAccessIndex c,
    .required n .castType, .setChild n .castType c,
    .required n .castExpression, .setChild n .castExpression c,
    .required n .conditionExpression, .setChild n .conditionExpression c,
    .required n .thenExpression, .setChild n .thenExpression c,
    .required n .elseExpression, .setChild n .elseExpression c,
    .setScalar n .prefixOperator (.prefixOp before),
    .required n .prefixOperand, .setChild n .prefixOperand c,
    .setScalar n .postfixOperator (.postfixOp after),
    .required n .postfixOperand, .setChild n .postfixOperand c,
    .setChild n .patternBinding c, .clearChild n .patternBinding]

theorem discard_bind_pure (m : TreeM α) (g : α → β) :
    discard (m >>= fun x => pure (g x)) = discard m := by
  simp [discard, Functor.discard, LawfulFunctor.map_const]

theorem discard_unit (m : TreeM Unit) : discard m = m := by
  simp only [discard, Functor.discard, LawfulFunctor.map_const]
  exact id_map m

/-- **What typed handles do are calls like any other.** -/
theorem calls_eq_edits {n c : NodeId} {text : String} {code : PrimitiveCode} {before : PrefixOp}
    {after : PostfixOp} : calls n c text code before after =
      (edits n c text code before after).map fun e => discard e.run := by
  simp only [edits, List.map_cons, List.map_nil, Edit.run, discard_bind_pure, discard_unit]
  simp only [calls, SimpleType.name, QualifiedType.name, Pattern.clearBinding, discard_bind_pure]
  rfl

/-- The nodes that the calls of a typed handle are given. -/
theorem mem_handles_edits {n c k : NodeId} {text : String} {code : PrimitiveCode} {before : PrefixOp}
    {after : PostfixOp} : ∀ e ∈ edits n c text code before after, k ∈ e.handles → k = n ∨ k = c := by
  simpa [edits, Edit.handles] using Or.inl

/-- **Typed handles ask nothing of a foreign node**; whether it is an expression or a type is read off it. -/
theorem questions_foreign {t : Tree} {n : NodeId} (hn : n.tree ≠ t.id) : questions n t =
    .replicate 15 (.error (.refused .foreignTree)) ++ .replicate 2 (.error (.foreignRead n)) := by
  have hscalar : ∀ {k : Kind} {α : Type} p (f : Scalar → Option α),
      discard ((⟨n⟩ : Typed k).project p f t) = .error (.refused .foreignTree) := by
    intro k α p f
    rw [project, Tree.scalar_foreign hn]
    rfl
  have hlist : ∀ p, discard (t.sequence n p) = .error (.refused .foreignTree) := by
    intro p
    rw [Tree.sequence_foreign hn]
    rfl
  have hbinding : discard (Pattern.binding ⟨n⟩ t) = .error (.refused .foreignTree) := by
    rw [Pattern.binding, Tree.peekChild_foreign hn]
    rfl
  have hcasts : discard (Expression.cast? t n) = .error (.foreignRead n) ∧
      discard (TypeNode.cast? t n) = .error (.foreignRead n) := by
    rw [(Tree.illegible hn).expression, (Tree.illegible hn).type]
    exact ⟨rfl, rfl⟩
  simp only [questions, List.replicate, List.cons_append, List.nil_append, List.cons.injEq, and_true]
  exact ⟨hscalar _ _, hscalar _ _, hscalar _ _, hscalar _ _, hscalar _ _, hscalar _ _, hlist _,
    hlist _, hlist _, hlist _, hlist _, hlist _, hlist _, hlist _, hbinding, hcasts⟩

end Typed

end SyntaxForest
