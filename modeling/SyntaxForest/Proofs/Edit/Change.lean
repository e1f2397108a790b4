import SyntaxForest.Proofs.Edit.Scalar
import SyntaxForest.Proofs.Edit.Sequence
import SyntaxForest.Edit.Reflection
import SyntaxForest.Typed.Handle

/-!
# Proofs/Edit/Change — what the calls on single nodes do, step by step

Most calls neither plant an image nor concern the observer.  Their steps are a sort of their own
(`Tree.Change`), and the calls are runs of such steps, or nothing.  Of these, the calls that neither read
a child nor set a range or marks make do with three sorts of steps (`Tree.Turn`).

* `Tree.Turns.changes`, `Tree.Changes.reaches` — turns are changes, and changes are steps.
* `NodeId.setChild_turns`, `NodeId.detach_turns`, … — one lemma for each call.
-/

namespace SyntaxForest

open TreeM

variable {t t' : Tree} {n : NodeId} {p : Property} {T : Typing}

namespace Tree

/-- **One step of a call that plants nothing and leaves the observer alone.** -/
inductive Change (T : Typing) (t : Tree) : Tree → Prop
  | create (k : Kind) : Change T t (t.created k)
  | splice (n : Nat) (p : Property) (x : Splice) : t.Allows n p x → t.Brings T p x →
    Change T t (t.splice n p x)
  | materialize (n : Nat) (p : Property) (k : Kind) : t.Lacks n p k →
    Change T t (t.materialized n p k)
  | write (n : Nat) (p : Property) (v : Scalar) : t.Takes n p v → Change T t (t.written n p v)
  | setRange (n : Nat) (range : Span) : n < t.records.size →
    Change T t (t.amended n fun r => { r with range := some range })
  | setFlags (n : Nat) (flags : Flags) : n < t.records.size →
    Change T t (t.amended n fun r => { r with flags })

/-- A run of such steps. -/
def Changes (T : Typing) : Tree → Tree → Prop := Relation.ReflTransGen (Change T)

/-- **One step of a call that is made to change something**: a node is created, a slot is spliced, or a
scalar is written. -/
inductive Turn (T : Typing) (t : Tree) : Tree → Prop
  | create (k : Kind) : Turn T t (t.created k)
  | splice (n : Nat) (p : Property) (x : Splice) : t.Allows n p x → t.Brings T p x →
    Turn T t (t.splice n p x)
  | write (n : Nat) (p : Property) (v : Scalar) : t.Takes n p v → Turn T t (t.written n p v)

/-- A run of such steps. -/
def Turns (T : Typing) : Tree → Tree → Prop := Relation.ReflTransGen (Turn T)

theorem Turn.change (h : t.Turn T t') : t.Change T t' := by
  cases h with
  | create k => exact .create k
  | splice n p x hx hbrings => exact .splice n p x hx hbrings
  | write n p v hv => exact .write n p v hv

theorem Turn.turns (h : t.Turn T t') : t.Turns T t' := .single h

theorem Turns.changes (h : t.Turns T t') : t.Changes T t' :=
  Relation.ReflTransGen.mono (fun _ _ => Turn.change) _ _ h

theorem Change.step (h : t.Change T t') : t.Step T t' := by
  cases h with
  | create k => exact .create k
  | splice n p x hx hbrings => exact .splice n p x hx hbrings
  | materialize n p k hk => exact .materialize n p k hk
  | write n p v hv => exact .write n p v hv
  | setRange n range hn => exact .setRange n range hn
  | setFlags n flags hn => exact .setFlags n flags hn

theorem Change.changes (h : t.Change T t') : t.Changes T t' := .single h

theorem Changes.reaches (h : t.Changes T t') : t.Reaches T t' :=
  Relation.ReflTransGen.mono (fun _ _ => Change.step) _ _ h

theorem Splices.turns {n : Nat} {xs : List Splice} (h : Splices n p t xs t')
    (hxs : ∀ x ∈ xs, t.Brings T p x) : t.Turns T t' := by
  induction h with
  | nil _ => exact .refl
  | cons hx _ ih =>
    obtain ⟨hbrings, hxs⟩ := List.forall_mem_cons.1 hxs
    exact .head (.splice n p _ hx hbrings) (ih fun y hy => (hxs y hy).splice)

end Tree

/-- **The action turns the tree step by step, or leaves it as it is.** -/
abbrev TreeM.Turns {α : Type} (T : Typing) (m : TreeM α) (t : Tree) : Prop :=
  m.Atomic t fun _ t' => t.Turns T t'

/-- Answering otherwise changes nothing. -/
theorem TreeM.Turns.answer {α β : Type} {m : TreeM α} {g : α → β} (h : m.Turns T t) :
    Turns T (m >>= fun x => pure (g x)) t := Atomic.bind_pure h

theorem TreeM.Turns.after {α : Type} {m : TreeM α} (h : m.Turns T t) :
    t.Turns T (after m t) := Atomic.after h .refl

namespace NodeId

theorem setChild_turns {c : NodeId} (hf : Arena.Forest t.records) :
    (n.setChild p c).Turns T t := by
  refine (setChild_settles hf).atomic.mono fun _ t' ⟨_, _, _, hx, ht'⟩ => ?_
  exact ht' ▸ (Tree.Turn.splice _ _ _ hx (.of_replace hx.suits)).turns

theorem clearChild_turns (hf : Arena.Forest t.records) : (n.clearChild p).Turns T t := by
  refine (clearChild_settles hf).atomic.mono fun _ t' ⟨_, _, hc⟩ => ?_
  rcases hc with ⟨-, -, rfl⟩ | ⟨_, -, hx, rfl⟩
  · exact .refl
  · exact (Tree.Turn.splice _ _ _ hx (.of_added_eq_none rfl)).turns

theorem detach_turns (hf : Arena.Forest t.records) : n.detach.Turns T t := by
  refine (detach_settles hf).atomic.mono fun _ t' ⟨_, hc⟩ => ?_
  rcases hc with ⟨-, rfl⟩ | ⟨_, _, -, -, hadded, hx, rfl⟩
  · exact .refl
  · exact (Tree.Turn.splice _ _ _ hx (.of_added_eq_none hadded)).turns

theorem setScalar_turns {v : Scalar} (hf : Arena.Forest t.records) :
    (n.setScalar p v).Turns T t := by
  refine (setScalar_settles hf).atomic.mono fun _ t' ⟨_, hv, ht'⟩ => ?_
  exact ht' ▸ (Tree.Turn.write _ _ _ hv).turns

/-- A value is read as a child is, or nothing happens. -/
theorem value_atomic {Q : Tree → Prop} (ht : Q t) (h : (n.child p).Atomic t fun _ => Q) :
    (n.value p).Atomic t fun _ => Q := by
  rw [value]
  cases p.form with
  | scalar ty => exact .look_bind fun _ _ => .pure ht
  | child ty => exact .bind_pure h
  | list ty => exact .look_bind fun _ _ => .look_bind fun _ _ => .pure ht

theorem setValue_turns {v : Value} (hf : Arena.Forest t.records) :
    (n.setValue p v).Turns T t := by
  refine .look_bind fun _ _ => ?_
  split
  · exact .look fun _ hx => absurd hx refuse_ne_ok
  · exact setScalar_turns hf
  · exact setChild_turns hf
  · exact (clearChild_turns hf).answer
  · exact .look fun _ hx => absurd hx refuse_ne_ok
  · exact .look fun _ hx => absurd hx refuse_ne_ok

end NodeId

namespace Typed

variable {k : Kind} {m : Typed k}

/-- A child that has to be there is read like any other: what the read does to the tree is done to it. -/
theorem required_atomic {Q : Tree → Prop} (hf : Arena.Forest t.records)
    (h : (m.node.child p).Atomic t fun _ => Q) : (m.required p).Atomic t fun _ => Q := by
  have hchild := NodeId.child_atomic (n := m.node) (p := p) hf
  rcases hrun : m.node.child p t with ⟨ret, t'⟩ | ⟨e, t'⟩
  · rcases ret with _ | c
    · -- only a peek finds nothing, so nothing has happened when this is a failure
      obtain ⟨-, ⟨-, rfl⟩ | ⟨_, -, hret, -⟩⟩ := hchild.of_ok_eq hrun
      · exact .of_error (bind_of_ok hrun)
      · cases hret
    · exact .of_ok (bind_of_ok hrun) (h.of_ok_eq hrun)
  · obtain rfl := hchild.unchanged hrun
    refine .of_error (e := e) ?_
    simp [required, bind, EStateM.bind, hrun]

end Typed

/-- **An edit of a list** turns the tree splice by splice, if what it brings in is of kinds that the
slot admits. -/
theorem Sequence.apply_turns {s : Sequence} {e : ListEdit} (hf : Arena.Forest t.records)
    (ho : s.Open t) (hnew : ∀ c ∈ e.newcomers, ∀ k, t.kind c = .ok k → T.Takes s.property k) :
    (s.apply e).Turns T t := by
  refine (Sequence.apply_settles hf ho e).atomic.mono fun _ _ ⟨_, hxs, hadded⟩ => ?_
  exact hxs.turns fun x hx c k hc hk => hnew _ (hadded x hx c hc) k (Tree.kind_eq_ok.2 ⟨rfl, hk⟩)

end SyntaxForest
