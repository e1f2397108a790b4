import SyntaxForest.Proofs.Edit.Change
import SyntaxForest.Session.Command

/-!
# Proofs/Edit/Run — every call on a tree is a run of steps, or nothing

`Edit.run` performs any call that may change a tree.  What a call can do is said once (`Edit.Does`), case
by case from the specifications of the single calls, so all that is known of steps (`Tree.Step`) holds of
calls.

* `Edit.run_does` — **a call does what it may do, or nothing**.
* `Edit.run_changes` — a call that plants nothing and leaves the observer alone is a run of changes.
* `Edit.run_atomic` — **a call takes the tree some steps on, or leaves it as it is**; only the call
  that creates a node and then writes its scalar can stop half way.
* `Edit.run_reaches` — …and whatever becomes of a call, the tree it leaves is some steps on.
-/

namespace SyntaxForest

open TreeM

/-- Whether a call is made of two, so that the first can stand when the second is refused. -/
def Edit.isComposite : Edit → Bool
  | createWith _ _ _ => true
  | _ => false

/-- Whether a call neither plants an image nor concerns the observer. -/
def Edit.isChange : Edit → Bool
  | copySubtree _ | observe _ => false
  | _ => true

variable {t : Tree} {n : NodeId} {S T : Typing}

/-- **The action takes the tree some steps on, or leaves it as it is.** -/
abbrev TreeM.Advances {α : Type} (T : Typing) (m : TreeM α) (t : Tree) : Prop :=
  m.Atomic t fun _ t' => t.Reaches T t'

theorem Tree.Step.reaches {t' : Tree} (h : t.Step T t') : t.Reaches T t' := .single h

/-- **To copy is to plant the image of a node** where it is, or nothing happens. -/
theorem NodeId.copySubtree_atomic (ht : Arena.Typed T t.records) :
    n.copySubtree.Atomic t fun copy t' => ∃ i, t.snapshot n = .ok i ∧
      i.checkPlantable t.shape = .ok () ∧ copy = t.handle t.size ∧ t' = t.planted i := by
  refine .look_bind fun i hi => ?_
  exact (Image.graft_atomic (Tree.snapshot_sound ht hi)).mono fun _ _ hplanted => ⟨i, hi, hplanted⟩

namespace Edit

/-- What a typing asks of a call: the newcomers of a list are of kinds that their slot admits. -/
def Obeys (T : Typing) (t : Tree) : Edit → Prop
  | list _ p edit => ∀ c ∈ edit.newcomers, ∀ k, t.kind c = .ok k → T.Takes p k
  | _ => True

theorem obeys_declared (e : Edit) (t : Tree) : e.Obeys .declared t := by
  cases e with
  | list _ p edit => exact fun _ _ k _ => Typing.declared_takes p k
  | _ => trivial

/-! ## What a call may do -/

/-- The place at which a call reads, if it is made to read. -/
def reads : Edit → Option (NodeId × Property)
  | child n p | required n p | value n p => some (n, p)
  | _ => none

/-- Whether a call sets a range or marks. -/
def isMark : Edit → Bool
  | setRange _ _ | setFlags _ _ => true
  | _ => false

/-- **What a call does to a tree**, if it succeeds.  Only a call that reads lets a placeholder come to
exist, and only the call that sets marks does anything to them. -/
inductive Does (T : Typing) (t : Tree) : Edit → Tree → Prop
  | turn {e : Edit} {t' : Tree} : e.isMark = false → t.Turns T t' → Does T t e t'
  | read {e : Edit} {n : NodeId} {p : Property} {k : Kind} : e.reads = some (n, p) → n.tree = t.id →
    t.Lacks n.index p k → Does T t e (t.materialized n.index p k)
  | setRange {n : NodeId} {range : Span} : n.tree = t.id → n.index < t.records.size →
    Does T t (.setRange n range) (t.amended n.index fun r => { r with range := some range })
  | setFlags {n : NodeId} {flags : Flags} : n.tree = t.id → n.index < t.records.size →
    Does T t (.setFlags n flags) (t.amended n.index fun r => { r with flags })
  | copy {n : NodeId} {i : Image} : t.snapshot n = .ok i → i.checkPlantable t.shape = .ok () →
    Does T t (.copySubtree n) (t.planted i)
  | observe (observer : Option Observer) : Does T t (.observe observer) { t with observer }

variable {t' : Tree} {e : Edit} {p : Property}

theorem isMark_of_reads {x : NodeId × Property} (he : e.reads = some x) : e.isMark = false := by
  cases e <;> first | rfl | cases he

theorem Does.of_read (he : e.reads = some (n, p)) (hn : n.tree = t.id)
    (h : t' = t ∨ ∃ k, t.Lacks n.index p k ∧ t' = t.materialized n.index p k) : e.Does T t t' := by
  obtain rfl | ⟨k, hk, rfl⟩ := h
  · exact .turn (isMark_of_reads he) .refl
  · exact .read he hn hk

/-- **A call does one of these things**, or nothing.  What it obeys may be stricter than what the tree keeps. -/
theorem run_does (h : t.Sound S) (e : Edit) (hc : e.isComposite = false) (hT : e.Obeys T t) :
    e.run.Atomic t fun _ => e.Does T t := by
  have hf := h.forest
  have hread : ∀ {e : Edit} {n p}, e.reads = some (n, p) →
      (n.child p).Atomic t fun _ => e.Does T t := fun he =>
    (NodeId.child_atomic hf).mono fun _ _ ⟨hn, hc⟩ =>
      .of_read he hn (hc.imp And.right fun ⟨k, hk, _, ht'⟩ => ⟨k, hk, ht'⟩)
  have hturn : ∀ {α} {m : TreeM α} {e : Edit}, e.isMark = false → m.Turns T t →
      m.Atomic t fun _ => e.Does T t := fun he hm => hm.mono fun _ _ => .turn he
  cases e with
  | createWith k p v => cases hc
  | create k => exact .of_ok rfl (.turn rfl (Tree.Turn.create k).turns)
  | setRange n range =>
    exact .bind_pure (NodeId.setRange_settles.atomic.mono fun _ _ ⟨hn, hlt, ht'⟩ =>
      ht' ▸ .setRange hn hlt)
  | setFlags n flags =>
    exact .bind_pure (NodeId.setFlags_settles.atomic.mono fun _ _ ⟨hn, hlt, ht'⟩ =>
      ht' ▸ .setFlags hn hlt)
  | child n p => exact .bind_pure (hread rfl)
  | required n p => exact .bind_pure (Typed.required_atomic hf (hread rfl))
  | value n p => exact .bind_pure (NodeId.value_atomic (.turn rfl .refl) (hread rfl))
  | setChild n p c => exact .bind_pure (hturn rfl (NodeId.setChild_turns hf))
  | clearChild n p => exact .bind_pure (hturn rfl (NodeId.clearChild_turns hf))
  | detach n => exact .bind_pure (hturn rfl (NodeId.detach_turns hf))
  | setScalar n p v => exact .bind_pure (hturn rfl (NodeId.setScalar_turns hf))
  | setValue n p v => exact .bind_pure (hturn rfl (NodeId.setValue_turns hf))
  | list n p edit =>
    refine .look_bind fun s hs => .bind_pure (hturn rfl ?_)
    obtain ⟨ho, -, rfl⟩ := Sequence.sequence_eq_ok.1 hs
    exact Sequence.apply_turns hf ho hT
  | copySubtree n =>
    exact .bind_pure ((NodeId.copySubtree_atomic h.typed).mono fun _ _ ⟨_, hi, hplant, _, ht'⟩ =>
      ht' ▸ .copy hi hplant)
  | observe observer => exact .of_ok rfl (.observe observer)

/-- What a call does that plants nothing and leaves the observer alone. -/
theorem Does.changes (he : e.isChange = true) (hdoes : e.Does T t t') : t.Changes T t' := by
  cases hdoes with
  | turn _ hturns => exact hturns.changes
  | read _ _ hk => exact (Tree.Change.materialize _ _ _ hk).changes
  | setRange _ hlt => exact (Tree.Change.setRange _ _ hlt).changes
  | setFlags _ hlt => exact (Tree.Change.setFlags _ _ hlt).changes
  | copy _ _ | observe _ => cases he

/-- What any call does is done in steps. -/
theorem Does.reaches (h : t.Sound T) (hdoes : e.Does T t t') : t.Reaches T t' := by
  cases hdoes with
  | copy hi hplant => exact (Tree.Step.plant _ (Tree.snapshot_sound h.typed hi) hplant).reaches
  | observe observer => exact (Tree.Step.observe observer).reaches
  | turn he hturns => exact hturns.changes.reaches
  | read he hn hk => exact (Tree.Step.materialize _ _ _ hk).reaches
  | setRange hn hlt => exact (Tree.Step.setRange _ _ hlt).reaches
  | setFlags hn hlt => exact (Tree.Step.setFlags _ _ hlt).reaches

/-! ## What a call leaves -/

/-- A node that is created with a scalar is there before the scalar is written. -/
theorem run_createWith (k : Kind) (p : Property) (v : Scalar) : (createWith k p v).run t =
    (((t.handle t.size).setScalar p v >>= fun _ => pure (.node (t.handle t.size))) : TreeM Reply)
      (t.created k) := by
  simp only [run, Typed.createWith, Typed.create, bind_assoc, pure_bind]
  exact create_bind

/-- …so whatever becomes of it, the tree it leaves is some turns on. -/
theorem createWith_turns (h : t.Sound S) (k : Kind) (p : Property) (v : Scalar) :
    t.Turns T (after (createWith k p v).run t) := by
  have hcreated : (t.created k).Sound S := h.create
  have hset := (NodeId.setScalar_turns (n := t.handle t.size) (p := p) (v := v) (T := T)
    hcreated.forest).answer (g := fun _ => Reply.node (t.handle t.size))
  rw [after, run_createWith]
  exact .head (.create k) hset.after

/-- **Whatever becomes of a call, it has done one of the things that it may do.** -/
theorem after_does (h : t.Sound S) (e : Edit) (hT : e.Obeys T t) :
    after e.run t = t ∨ e.Does T t (after e.run t) := by
  by_cases hc : e.isComposite = false
  · exact (run_does h e hc hT).after_cases.imp_right fun ⟨_, hdoes⟩ => hdoes
  · cases e with
    | createWith k p v => exact .inr (.turn rfl (createWith_turns h k p v))
    | _ => simp [isComposite] at hc

/-- A call that plants nothing and leaves the observer alone leaves a tree some changes on. -/
theorem run_changes (h : t.Sound S) (e : Edit) (he : e.isChange = true) (hT : e.Obeys T t) :
    t.Changes T (after e.run t) := by
  obtain heq | hdoes := after_does h e hT
  · rw [heq]
    exact .refl
  · exact hdoes.changes he

/-- **A call takes the tree some steps on, or leaves it as it is.** -/
theorem run_atomic (h : t.Sound T) (e : Edit) (he : e.isComposite = false) (hT : e.Obeys T t) :
    e.run.Advances T t := (run_does h e he hT).mono fun _ _ hdoes => hdoes.reaches h

/-- **Whatever becomes of a call, the tree it leaves is some steps on.** -/
theorem run_reaches (h : t.Sound T) (e : Edit) (hT : e.Obeys T t) :
    t.Reaches T (after e.run t) := by
  obtain heq | hdoes := after_does h e hT
  · rw [heq]
    exact .refl
  · exact hdoes.reaches h

end Edit

end SyntaxForest
