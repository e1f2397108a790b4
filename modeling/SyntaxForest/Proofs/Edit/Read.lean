import SyntaxForest.Edit.Reflection
import SyntaxForest.Proofs.Edit.View

/-!
# Proofs/Edit/Read — what a read goes by

A read of a property asks whose node it is, whether the property is one of its kind that the shape shows,
and what the slot holds.  So it answers the same in trees that agree on the node's kind and on the one slot,
whatever else is different in them (`Tree.AgreesAt`).  A read that makes a placeholder also asks for the next
free index.

* `TreeM.answer` — what an action answers, whatever it leaves.
* `NodeId.answer_child` — **what reading a child answers**: the child that is there, or the placeholder to be.
* `Tree.AgreesAt.peekValue_eq`, `Tree.AgreesAt.answer_value` — **reads of slots that agree answer the same**.
-/

namespace SyntaxForest

namespace TreeM

variable {α β : Type} {m : TreeM α} {t t' : Tree}

/-- What an action answers, whatever it leaves. -/
def answer (m : TreeM α) (t : Tree) : Except Failure α :=
  match m t with
  | .ok x _ => .ok x
  | .error e _ => .error e

theorem answer_of_ok {x : α} (h : m t = .ok x t') : answer m t = .ok x := by rw [answer, h]

theorem answer_look {f : Tree → Except Failure α} : answer (look f) t = f t := by
  rcases hf : f t with e | x
  · rw [answer, look_run_error hf]
  · rw [answer, look_run_ok hf]

theorem answer_look_bind {f : Tree → Except Failure α} {k : α → TreeM β} :
    answer (look f >>= k) t = f t >>= fun x => answer (k x) t := by
  rcases hf : f t with e | x
  · rw [answer, look_bind_error hf]
    rfl
  · rw [answer, look_bind_run hf]
    rfl

theorem answer_bind_pure {g : α → β} :
    answer (m >>= fun x => pure (g x)) t = (answer m t).map g := by
  rcases h : m t with ⟨x, t'⟩ | ⟨e, t'⟩
  · rw [answer, bind_of_ok h, answer, h]
    rfl
  · rw [answer, bind_of_error h, answer, h]
    rfl

end TreeM

/-! ## Reading a single child -/

namespace Tree

variable {t : Tree} {n : NodeId} {p : Property} {ty : ChildType} {old : Option Nat}

/-- **What a peek finds**: all that the slot holds, if that is no more than one child. -/
theorem peekChild_of_members (hf : Arena.Forest t.records) (hn : n.tree = t.id) (hp : t.Offers n.index p)
    (hform : p.form = .child ty) (hmem : Arena.membersAt t.records n.index p.slot = old.toList) :
    t.peekChild n p = .ok (old.map t.handle) := by
  refine bind_eq_ok.2 ⟨(), checkProperty_iff.2 ⟨hn, hp⟩, bind_eq_ok.2 ⟨ty, Property.childType_eq_ok.2 hform, ?_⟩⟩
  exact bind_eq_ok.2 ⟨old, currentChild_of_members hf hn hp hform hmem, rfl⟩

end Tree

namespace NodeId

open TreeM

variable {t : Tree} {n : NodeId} {p : Property}

/-- A read that finds a child, or nothing that stands in for one, does nothing. -/
theorem child_of_found {c : Option NodeId} (h : t.peekChild n p = .ok c)
    (hc : c = none → p.placeholder = none) : n.child p t = .ok c t := by
  cases c with
  | some c => exact child_of_peek h
  | none =>
    rw [child, look_bind_run h, hc rfl]
    rfl

/-- **What reading a child answers**: the child that is there, and else the placeholder to be. -/
theorem answer_child (hf : Arena.Forest t.records) : answer (n.child p) t =
    (t.peekChild n p).map (·.or (p.placeholder.map fun _ => t.handle t.size)) := by
  rcases hpeek : t.peekChild n p with e | _ | c
  · rw [child, answer_look_bind, hpeek]
    rfl
  · rcases hplace : p.placeholder with _ | k
    · rw [answer_of_ok (child_of_found hpeek fun _ => hplace)]
      rfl
    · obtain ⟨-, hp, old, hold, hnone⟩ := Tree.peekChild_ok hpeek
      obtain rfl := Option.map_eq_none_iff.1 hnone
      rw [answer_of_ok (child_run hf ⟨hp, hplace, (Tree.currentChild_members hold).2⟩ hpeek)]
      rfl
  · rw [answer_of_ok (child_of_peek hpeek)]
    rfl

end NodeId

/-! ## Trees that agree on one slot -/

namespace Tree

variable {t t' : Tree} {n : NodeId} {p : Property}

/-- **Trees that agree on what a node is.** -/
structure AgreesOn (n : NodeId) (t t' : Tree) : Prop where
  id : t'.id = t.id
  config : t'.config = t.config
  kindAt : n.tree = t.id → Arena.kindAt t'.records n.index = Arena.kindAt t.records n.index

/-- …and on what one of its slots holds. -/
structure AgreesAt (n : NodeId) (slot : Nat) (t t' : Tree) : Prop extends AgreesOn n t t' where
  slotAt : n.tree = t.id → Arena.slotAt t'.records n.index slot = Arena.slotAt t.records n.index slot

theorem AgreesOn.handle_eq (h : AgreesOn n t t') : t'.handle = t.handle := by
  funext i
  rw [handle, handle, h.id]

/-- A property may be used on the node in both trees or in neither, for the same reason. -/
theorem AgreesOn.checkProperty_eq (h : AgreesOn n t t') : t'.checkProperty n p = t.checkProperty n p := by
  by_cases hn : n.tree = t.id
  · have hown : t'.owns n = t.owns n := by rw [owns, owns, h.id]
    have hkind := h.kindAt hn
    rw [Arena.kindAt, Arena.kindAt] at hkind
    rcases hr : t.records[n.index]? with _ | r <;> rcases hr' : t'.records[n.index]? with _ | r' <;>
      rw [hr, hr'] at hkind
    · simp only [checkProperty, own, hown, record, hr, hr', breach, bind, Except.bind]
    · cases hkind
    · cases hkind
    · have hkind : r'.kind = r.kind := Option.some.inj hkind
      simp only [checkProperty, own, hown, record, hr, hr', shape, h.config, bind, Except.bind, hkind]
  · have hn' : n.tree ≠ t'.id := h.id ▸ hn
    simp only [checkProperty, own, owns, beq_eq_false_iff_ne.2 hn, beq_eq_false_iff_ne.2 hn']
    rfl

/-- What is asked after the question about the property may rely on its answer. -/
theorem AgreesOn.guarded {α : Type} {f g : Except Failure α} (h : AgreesOn n t t')
    (hfg : t.checkProperty n p = .ok () → f = g) :
    (t'.checkProperty n p >>= fun _ => f) = (t.checkProperty n p >>= fun _ => g) := by
  rw [h.checkProperty_eq]
  rcases hp : t.checkProperty n p with e | ⟨⟩
  · rfl
  · exact hfg hp

namespace AgreesAt

variable (h : AgreesAt n p.slot t t')

include h

/-- Once the property may be used, the node has a record in both trees, of one kind and with the same content
in the slot. -/
theorem exists_records (hp : t.checkProperty n p = .ok ()) :
    ∃ r r', t.look n = .ok r ∧ t'.look n = .ok r' ∧ r'.kind = r.kind ∧ r'.slots[p.slot]? = r.slots[p.slot]? := by
  obtain ⟨hn, r, hr, -⟩ := checkProperty_iff.1 hp
  have hkind := h.kindAt hn
  rw [Arena.kindAt_of_record hr] at hkind
  obtain ⟨r', hr', hkind⟩ := Option.map_eq_some_iff.1 hkind
  have hslot := h.slotAt hn
  rw [Arena.slotAt_of_record hr, Arena.slotAt_of_record hr'] at hslot
  exact ⟨r, r', look_eq_ok.2 ⟨hn, hr⟩, look_eq_ok.2 ⟨hn.trans h.id.symm, hr'⟩, hkind, hslot⟩

theorem scalar_eq : t'.scalar n p = t.scalar n p := by
  refine h.guarded fun hp => ?_
  obtain ⟨r, r', hr, hr', -, hslot⟩ := h.exists_records hp
  simp only [hr, hr', bind, Except.bind, hslot]

theorem peekChild_eq : t'.peekChild n p = t.peekChild n p := by
  refine h.guarded fun hp => ?_
  obtain ⟨r, r', hr, hr', hkind, hslot⟩ := h.exists_records hp
  simp only [currentChild, hr, hr', bind, Except.bind, hslot, hkind, h.handle_eq]

theorem sequence_eq : t'.sequence n p = t.sequence n p := h.guarded fun _ => rfl

theorem elements_eq {s : Sequence} (hs : t.sequence n p = .ok s) : t'.elements s = t.elements s := by
  obtain ⟨_, hp, hs⟩ := bind_eq_ok.1 hs
  obtain ⟨ty, -, hs⟩ := bind_eq_ok.1 hs
  obtain rfl := Except.ok.inj hs
  obtain ⟨r, r', hr, hr', -, hslot⟩ := h.exists_records hp
  simp only [elements, items, currentItems, hr, hr', bind, Except.bind, hslot, h.handle_eq]

/-- **Reads of slots that agree answer the same**, if they make nothing, -/
theorem peekValue_eq : t'.peekValue n p = t.peekValue n p := by
  rw [peekValue, peekValue]
  cases p.form with
  | scalar ty => rw [h.scalar_eq]
  | child ty => rw [h.peekChild_eq]
  | list ty =>
    simp only [h.sequence_eq]
    rcases hs : t.sequence n p with e | s
    · rfl
    · simp only [bind, Except.bind, h.elements_eq hs]

/-- …and also if they make placeholders, as long as these have the same index. -/
theorem answer_value (hf : Arena.Forest t.records) (hf' : Arena.Forest t'.records) (hsize : t'.size = t.size) :
    TreeM.answer (n.value p) t' = TreeM.answer (n.value p) t := by
  rw [NodeId.value]
  cases p.form with
  | scalar ty =>
    rw [TreeM.answer_bind_pure, TreeM.answer_bind_pure, TreeM.answer_look, TreeM.answer_look, h.scalar_eq]
  | child ty =>
    rw [TreeM.answer_bind_pure, TreeM.answer_bind_pure, NodeId.answer_child hf, NodeId.answer_child hf',
      h.peekChild_eq, hsize, h.handle_eq]
  | list ty =>
    rw [TreeM.answer_look_bind, TreeM.answer_look_bind, h.sequence_eq]
    rcases hs : t.sequence n p with e | s
    · rfl
    · change TreeM.answer (TreeM.look _ >>= _) t' = TreeM.answer (TreeM.look _ >>= _) t
      rw [TreeM.answer_bind_pure, TreeM.answer_bind_pure, TreeM.answer_look, TreeM.answer_look,
        h.elements_eq hs]

end AgreesAt

end Tree

end SyntaxForest
