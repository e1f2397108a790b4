import SyntaxForest.Edit.Child
import SyntaxForest.Proofs.Edit.Splice

/-!
# Proofs/Edit/Atomic — all or nothing, and how the writes run

An action may leave anything behind when it fails.  `TreeM.Atomic` says that it does not: it leaves
the tree as it found it, or it succeeds with a given result.  Looking comes before writing in every
edit, so an edit is atomic once its writes cannot fail.

* `TreeM.Atomic.look_bind` — a question before an atomic action; its failure changes nothing.
* `TreeM.Atomic.bind_ok` — after an atomic action, one that cannot fail.
* `TreeM.writeSlot_bind`, `TreeM.link_bind`, … — one write, then the rest of the action.
-/

namespace SyntaxForest

namespace TreeM

variable {α β : Type} {t t' : Tree}

/-- **All or nothing**: the action leaves the tree as it is, or succeeds as stated. -/
def Atomic (m : TreeM α) (t : Tree) (Q : α → Tree → Prop) : Prop :=
  match m t with
  | .ok x t' => Q x t'
  | .error _ t' => t' = t

/-- The tree that an action leaves, whether it succeeds or fails. -/
def after (m : TreeM α) (t : Tree) : Tree :=
  match m t with
  | .ok _ t' | .error _ t' => t'

namespace Atomic

variable {m : TreeM α} {P Q : α → Tree → Prop}

theorem of_ok {x : α} {u : Tree} (h : m t = .ok x u) (hQ : Q x u) : Atomic m t Q := by
  rw [Atomic, h]
  exact hQ

theorem of_error {e : Failure} (h : m t = .error e t) : Atomic m t Q := by
  rw [Atomic, h]

theorem unchanged {e : Failure} (h : Atomic m t Q) (he : m t = .error e t') : t' = t := by
  rw [Atomic, he] at h
  exact h

theorem of_ok_eq {x : α} (h : Atomic m t Q) (hx : m t = .ok x t') : Q x t' := by
  rw [Atomic, hx] at h
  exact h

/-- What an atomic action leaves is the tree it found, or as stated. -/
theorem after_cases (h : Atomic m t Q) : after m t = t ∨ ∃ x, Q x (after m t) := by
  rw [Atomic] at h
  rw [after]
  rcases hm : m t with ⟨x, t'⟩ | ⟨e, t'⟩ <;> rw [hm] at h
  · exact .inr ⟨x, h⟩
  · exact .inl h

/-- What holds of the tree that is found, and of the one that success leaves, holds of the tree that is
left. -/
theorem after {P : Tree → Prop} (h : Atomic m t fun _ => P) (ht : P t) : P (m.after t) := by
  rcases h.after_cases with heq | ⟨_, hP⟩
  · rwa [heq]
  · exact hP

theorem mono (h : Atomic m t P) (hPQ : ∀ x t', P x t' → Q x t') : Atomic m t Q := by
  rw [Atomic] at *
  rcases hm : m t with ⟨x, t'⟩ | ⟨e, t'⟩ <;> rw [hm] at h
  · exact hPQ x t' h
  · exact h

/-- …and what follows may go by the run itself. -/
theorem mono_of_ok (h : Atomic m t P) (hPQ : ∀ x t', m t = .ok x t' → P x t' → Q x t') : Atomic m t Q := by
  rw [Atomic] at *
  rcases hm : m t with ⟨x, t'⟩ | ⟨e, t'⟩ <;> rw [hm] at h
  · exact hPQ x t' hm h
  · exact h

theorem pure {x : α} (h : Q x t) : Atomic (pure x) t Q := of_ok rfl h

theorem look {f : Tree → Except Failure α} (h : ∀ x, f t = .ok x → Q x t) :
    Atomic (look f) t Q := by
  rcases hf : f t with e | x
  · exact of_error (look_run_error hf)
  · exact of_ok (look_run_ok hf) (h x hf)

/-- **A question may fail before anything has happened.** -/
theorem look_bind {f : Tree → Except Failure α} {k : α → TreeM β} {Q : β → Tree → Prop}
    (h : ∀ x, f t = .ok x → Atomic (k x) t Q) : Atomic (TreeM.look f >>= k) t Q := by
  rw [Atomic]
  rcases hf : f t with e | x
  · simp [bind, EStateM.bind, look_run_error hf]
  · have := h x hf
    rw [Atomic] at this
    simpa [bind, EStateM.bind, look_run_ok hf] using this

/-- **After an atomic action, only one that cannot fail.** -/
theorem bind_ok {k : α → TreeM β} {Q : β → Tree → Prop} (h : Atomic m t P)
    (hk : ∀ x t', P x t' → ∃ y t'', k x t' = .ok y t'' ∧ Q y t'') : Atomic (m >>= k) t Q := by
  rw [Atomic] at *
  rcases hm : m t with ⟨x, t'⟩ | ⟨e, t'⟩ <;> rw [hm] at h
  · obtain ⟨y, t'', hy, hQ⟩ := hk x t' h
    simpa [bind, EStateM.bind, hm, hy] using hQ
  · simpa [bind, EStateM.bind, hm] using h

/-- Answering otherwise changes nothing. -/
theorem bind_pure {g : α → β} {Q : β → Tree → Prop} (h : Atomic m t fun x => Q (g x)) :
    Atomic (m >>= fun x => Pure.pure (g x)) t Q :=
  h.bind_ok fun x t' hx => ⟨g x, t', rfl, hx⟩

end Atomic

end TreeM

/-! ## Writes in the arena -/

namespace Arena

variable {a : Arena} {n i j s c : Nat} {r : Record} {l : Option Location} {content : Slot Nat}
  {p : Property} {x : Splice}

/-- The arena with a node located elsewhere, or nowhere. -/
def place (a : Arena) (c : Nat) (l : Option Location) : Arena :=
  a.modify c fun r => { r with location := l }

/-- The arena with a slot overwritten. -/
def setSlot (a : Arena) (n s : Nat) (content : Slot Nat) : Arena :=
  a.modify n fun r => { r with slots := r.slots.set s content }

@[simp] theorem size_place : (a.place c l).size = a.size := Array.size_modify

@[simp] theorem size_setSlot : (a.setSlot n s content).size = a.size := Array.size_modify

theorem getElem?_place :
    (a.place c l)[i]? = if c = i then a[i]?.map fun r => { r with location := l } else a[i]? :=
  Array.getElem?_modify

theorem getElem?_setSlot : (a.setSlot n s content)[i]? =
    if n = i then a[i]?.map fun r => { r with slots := r.slots.set s content } else a[i]? :=
  Array.getElem?_modify

@[simp] theorem kindAt_setSlot : (a.setSlot n s content).kindAt i = a.kindAt i :=
  kindAt_modify fun _ => rfl

@[simp] theorem slotAt_place : (a.place c l).slotAt i s = a.slotAt i s := by
  rw [slotAt, getElem?_place, slotAt]
  split
  · rw [Option.bind_map]
    rfl
  · rfl

theorem place_setSlot :
    (a.setSlot n s content).place c l = (a.place c l).setSlot n s content := by
  refine Array.ext_getElem? fun i => ?_
  rw [getElem?_place, getElem?_setSlot, getElem?_setSlot, getElem?_place]
  rcases a[i]? with _ | r <;> by_cases hc : c = i <;> by_cases hn : n = i <;> simp [hc, hn]

/-- The locations that a splice leaves: first the child that goes out loses its own, then the child
that comes in gets one. -/
def relocate (a : Arena) (n : Nat) (p : Property) (x : Splice) : Arena :=
  let a := x.removed.elim a (a.place · none)
  x.added.elim a (a.place · (some ⟨n, p.primary⟩))

theorem getElem?_relocate : (a.relocate n p x)[i]? = a[i]?.map fun r =>
    { r with
      location :=
        if x.added = some i then some ⟨n, p.primary⟩
        else if x.removed = some i then none
        else r.location } := by
  rw [relocate]
  rcases x.added with _ | c <;> rcases x.removed with _ | d <;>
    simp only [Option.elim_none, Option.elim_some, getElem?_place, Option.some.injEq,
      reduceCtorEq, if_false]
  · exact (Option.map_id' ..).symm
  · split <;> simp [*]
  · split <;> simp [*]
  · split <;> split <;> simp [*, Function.comp_def]

/-- **A splice, write by write.** -/
theorem setSlot_relocate (hs : a.slotAt n p.slot = some content) :
    (a.relocate n p x).setSlot n p.slot (content.withMembers (x.apply content.members)) =
      a.rewire n p x := by
  refine Array.ext_getElem? fun i => ?_
  rw [getElem?_setSlot, getElem?_relocate, getElem?_rewire]
  by_cases hi : n = i
  · subst hi
    obtain ⟨r, hr, hslot⟩ := Option.bind_eq_some_iff.1 hs
    simp only [if_true, hr, Option.map_some, Option.some.injEq, Record.mk.injEq, true_and]
    refine List.ext_getElem? fun j => ?_
    rw [List.getElem?_set, List.getElem?_modify]
    by_cases hj : p.slot = j
    · subst hj
      obtain ⟨hlt, rfl⟩ := List.getElem?_eq_some_iff.1 hslot
      simp [hlt]
    · simp [hj]
  · rw [if_neg hi]
    simp [Ne.symm hi]

end Arena

/-- A step that succeeds hands its answer and its state on. -/
theorem bind_of_ok {ε σ α β : Type} {m : EStateM ε σ α} {k : α → EStateM ε σ β} {x : α} {s s' : σ}
    (h : m s = .ok x s') : (m >>= k) s = k x s' := by
  simp [bind, EStateM.bind, h]

/-- What follows a failure does not come about. -/
theorem bind_of_error {ε σ α β : Type} {m : EStateM ε σ α} {k : α → EStateM ε σ β} {e : ε} {s s' : σ}
    (h : m s = .error e s') : (m >>= k) s = .error e s' := by
  simp [bind, EStateM.bind, h]

/-- A run of two steps that succeeds is made of steps that do. -/
theorem exists_of_bind_ok {ε σ α β : Type} {m : EStateM ε σ α} {k : α → EStateM ε σ β} {y : β}
    {s s'' : σ} (h : (m >>= k) s = .ok y s'') : ∃ x s', m s = .ok x s' ∧ k x s' = .ok y s'' := by
  rcases hm : m s with ⟨x, s'⟩ | ⟨e, s'⟩
  · exact ⟨x, s', rfl, by rwa [bind_of_ok hm] at h⟩
  · simp [bind, EStateM.bind, hm] at h

namespace TreeM

/-! ## One write, then the rest -/

variable {α β : Type} {t : Tree} {k : Unit → TreeM β} {phase : Phase} {event : Event} {i s c : Nat}

theorem look_bind_run {f : Tree → Except Failure α} {k : α → TreeM β} {x : α} (h : f t = .ok x) :
    (look f >>= k) t = k x t := bind_of_ok (look_run_ok h)

/-- …and a question without an answer ends the run where it began. -/
theorem look_bind_error {f : Tree → Except Failure α} {k : α → TreeM β} {e : Failure}
    (h : f t = .error e) : (look f >>= k) t = .error e t := bind_of_error (look_run_error h)

/-- A question that comes first has an answer in every run that succeeds. -/
theorem exists_of_look_bind_ok {f : Tree → Except Failure α} {k : α → TreeM β} {y : β} {t' : Tree}
    (h : (look f >>= k) t = .ok y t') : ∃ x, f t = .ok x ∧ k x t = .ok y t' := by
  rcases hf : f t with e | x
  · simp [bind, EStateM.bind, look_run_error hf] at h
  · exact ⟨x, rfl, by rwa [look_bind_run hf] at h⟩

theorem tell_bind : (tell phase event >>= k) t = k () (t.tell phase event) := rfl

theorem touch_bind : (touch >>= k) t = k () { t with stamp := t.stamp + 1 } := rfl

theorem amend_bind {f : Record → Record} (h : i < t.records.size) :
    (amend i f >>= k) t = k () { t with records := t.records.modify i f } :=
  bind_of_ok (amend_run h)

theorem create_bind {kind : Kind} {k : NodeId → TreeM β} :
    (create kind >>= k) t =
      k (t.handle t.size)
        { t with records := t.records.push (.fresh kind t.config.defaultFlags) } := rfl

theorem unlink_bind (h : c < t.records.size) :
    (unlink c >>= k) t = k () { t with records := Arena.place t.records c none } := amend_bind h

theorem link_bind {p : Property} (h : c < t.records.size) :
    (link c i p >>= k) t =
      k () { t with records := Arena.place t.records c (some ⟨i, p.primary⟩) } := amend_bind h

theorem writeSlot_run {content content' : Slot Nat}
    (h : Arena.slotAt t.records i s = some content') :
    writeSlot i s content t = .ok () { t with records := Arena.setSlot t.records i s content } := by
  obtain ⟨r, hr, hs⟩ := Option.bind_eq_some_iff.1 h
  rw [writeSlot, look_bind_run (Tree.record_eq_ok.2 hr), if_pos (List.getElem?_eq_some_iff.1 hs).1,
    amend_run (Arena.lt_size_of_record hr)]
  rfl

theorem writeSlot_bind {content content' : Slot Nat}
    (h : Arena.slotAt t.records i s = some content') :
    (writeSlot i s content >>= k) t =
      k () { t with records := Arena.setSlot t.records i s content } :=
  bind_of_ok (writeSlot_run h)

/-- Filling a slot of either form makes `c` its only child. -/
theorem fill_bind {n c : NodeId} {p : Property} {f : List Nat → List Nat} {content : Slot Nat}
    {ty : ChildType} (hn : n.tree = t.id)
    (hs : Arena.slotAt t.records n.index p.slot = some content)
    (hfits : content.fits p.primary.form = true) (hty : p.primary.form.childType? = some ty)
    (hf : f content.members = [c.index]) :
    (fill n p f c >>= k) t = k () { t with
      records := Arena.setSlot t.records n.index p.slot (content.withMembers [c.index]) } := by
  obtain ⟨r, hr, hslot⟩ := Option.bind_eq_some_iff.1 hs
  have hlook : t.look n = .ok r :=
    bind_eq_ok.2 ⟨(), Tree.checkReadable_eq_ok.2 hn, Tree.record_eq_ok.2 hr⟩
  refine bind_of_ok ?_
  rw [fill, look_bind_run hlook, hslot]
  cases content with
  | scalar v =>
    rcases hform : p.primary.form with _ | _ | _ <;> rw [hform] at hfits hty
    · cases hty
    · cases hfits
    · cases hfits
  | child d => exact writeSlot_run hs
  | list cs =>
    have : f cs = [c.index] := hf
    simp only [this]
    exact writeSlot_run hs

end TreeM

end SyntaxForest
