import SyntaxForest.Edit.Scalar
import SyntaxForest.Edit.Sequence
import SyntaxForest.Proofs.Edit.Admission

/-!
# Proofs/Edit/Answers — questions about nodes of the tree are answered

A failure is an answer like any other if it is a refusal.  The others say that a handle was of another
tree, or that the store is broken; and a sound store is never found to be.  The questions that an edit
asks are asked one after the other, so each may take for granted what the ones before it established.

* `Returns`, `Answered`, `Answers` — what is asked of a reader, of a question, and of an action.
* `TreeM.Settles` — all or nothing, with an answer.
* `Tree.checkProperty_answered`, `Tree.checkAttachable_answered`, … — **each question is answered** if it is
  about nodes of the tree.
-/

namespace SyntaxForest

/-! ## Questions -/

section Answered

variable {α β : Type} {x : Except Failure α}

/-- The question is answered by a value. -/
def Returns (x : Except Failure α) : Prop := ∃ a, x = .ok a

/-- **The question is answered**, by a value or by a refusal. -/
def Answered (x : Except Failure α) : Prop := ∀ e, x = .error e → ∃ r, e = .refused r

theorem Returns.map (h : Returns x) (f : α → β) : Returns (do return f (← x)) := by
  obtain ⟨a, ha⟩ := h
  exact ⟨f a, bind_eq_ok.2 ⟨a, ha, rfl⟩⟩

namespace Answered

theorem of_ok {a : α} (h : x = .ok a) : Answered x := by
  intro e he
  cases h.symm.trans he

theorem refuse (r : Refusal) : Answered (SyntaxForest.refuse r : Except Failure α) := by
  rintro _ ⟨⟩
  exact ⟨r, rfl⟩

theorem guard (ok : Bool) (r : Refusal) : Answered (unlessRefused ok r) := by
  cases ok
  · exact refuse r
  · exact of_ok rfl

/-- The second question may rely on the answer to the first. -/
theorem bind {f : α → Except Failure β} (h : Answered x) (hf : ∀ a, x = .ok a → Answered (f a)) :
    Answered (x >>= f) := by
  intro e he
  rcases hx : x with e' | a <;> rw [hx] at he
  · cases he
    exact h e hx
  · exact hf a hx e he

/-- Dropping the answer changes nothing. -/
theorem discard (h : Answered x) : Answered (discard x) := by
  cases x with
  | error e =>
    rintro _ ⟨⟩
    exact h e rfl
  | ok a => exact of_ok rfl

/-- A row of questions is answered if each is. -/
theorem forM {xs : List α} {f : α → Except Failure Unit} (h : ∀ a ∈ xs, Answered (f a)) :
    Answered (xs.forM f) := by
  induction xs with
  | nil => exact of_ok rfl
  | cons a xs ih =>
    obtain ⟨ha, hxs⟩ := List.forall_mem_cons.1 h
    exact ha.bind fun _ _ => ih hxs

end Answered

end Answered

/-! ## Actions -/

section Answers

variable {σ α β : Type} {m : EStateM Failure σ α} {s s' : σ}

/-- **The action answers**: it succeeds, or is refused. -/
def Answers (m : EStateM Failure σ α) (s : σ) : Prop :=
  ∀ e s', m s = .error e s' → ∃ r, e = .refused r

namespace Answers

theorem of_ok {x : α} (h : m s = .ok x s') : Answers m s := by
  intro e s'' he
  cases h.symm.trans he

/-- What comes after an action that succeeds may rely on what it leaves. -/
theorem bind {k : α → EStateM Failure σ β} (h : Answers m s)
    (hk : ∀ x s', m s = .ok x s' → Answers (k x) s') : Answers (m >>= k) s := by
  intro e s' he
  rcases hm : m s with ⟨x, s''⟩ | ⟨e', s''⟩
  · rw [bind_of_ok hm] at he
    exact hk x s'' hm e s' he
  · have herror : (m >>= k) s = .error e' s'' := by simp [Bind.bind, EStateM.bind, hm]
    cases herror.symm.trans he
    exact h e s' hm

theorem bind_pure {g : α → β} (h : Answers m s) : Answers (m >>= fun x => Pure.pure (g x)) s :=
  h.bind fun _ _ _ => of_ok rfl

/-- Dropping the answer changes nothing. -/
theorem discard (h : Answers m s) : Answers (discard m) s := h.bind_pure

end Answers

end Answers

namespace TreeM

variable {α β : Type} {H : Prop} {m : TreeM α} {t t' : Tree} {P Q : α → Tree → Prop}

theorem answers_look {f : Tree → Except Failure α} (h : Answered (f t)) : Answers (look f) t := by
  rcases hf : f t with e | x
  · intro e' t' he
    cases (look_run_error hf).symm.trans he
    exact h e hf
  · exact .of_ok (look_run_ok hf)

/-- A question that is answered may come first. -/
theorem answers_look_bind {f : Tree → Except Failure α} {k : α → TreeM β} (h : Answered (f t))
    (hk : ∀ x, f t = .ok x → Answers (k x) t) : Answers (TreeM.look f >>= k) t := by
  refine (answers_look h).bind fun x t' hx => ?_
  rcases hf : f t with e | y
  · cases (look_run_error hf).symm.trans hx
  · cases (look_run_ok hf).symm.trans hx
    exact hk x hf

/-- **All or nothing, with an answer**: the action is atomic, and answers under the condition. -/
structure Settles (H : Prop) (m : TreeM α) (t : Tree) (Q : α → Tree → Prop) : Prop where
  atomic : m.Atomic t Q
  answers : H → Answers m t

namespace Settles

theorem of_ok {x : α} {u : Tree} (h : m t = .ok x u) (hQ : Q x u) : m.Settles H t Q :=
  ⟨.of_ok h hQ, fun _ => .of_ok h⟩

/-- A failure that is no refusal must not come about under the condition. -/
theorem of_error {e : Failure} (h : m t = .error e t) (he : ¬H) : m.Settles H t Q :=
  ⟨.of_error h, fun hH => absurd hH he⟩

theorem pure {x : α} (h : Q x t) : Settles H (Pure.pure x) t Q := of_ok rfl h

/-- **A question comes first**: its failure changes nothing, and is a refusal. -/
theorem look_bind {f : Tree → Except Failure α} {k : α → TreeM β} {Q : β → Tree → Prop}
    (hf : H → Answered (f t)) (hk : ∀ x, f t = .ok x → (k x).Settles H t Q) :
    (TreeM.look f >>= k).Settles H t Q :=
  ⟨.look_bind fun x hx => (hk x hx).atomic,
    fun h => answers_look_bind (hf h) fun x hx => (hk x hx).answers h⟩

theorem mono (h : m.Settles H t P) (hPQ : ∀ x t', P x t' → Q x t') : m.Settles H t Q :=
  ⟨h.atomic.mono hPQ, h.answers⟩

/-- The condition may be strengthened. -/
theorem when {H' : Prop} (hH : H → H') (h : m.Settles H' t Q) : m.Settles H t Q :=
  ⟨h.atomic, fun hh => h.answers (hH hh)⟩

theorem bind_pure {g : α → β} {Q : β → Tree → Prop} (h : m.Settles H t fun x => Q (g x)) :
    Settles H (m >>= fun x => Pure.pure (g x)) t Q :=
  ⟨h.atomic.bind_pure, fun hH => (h.answers hH).bind_pure⟩

end Settles

end TreeM

/-! ## The questions of properties -/

namespace Property

variable {p : Property} {ty : ChildType}

theorem childType_answered : Answered p.childType := by
  rw [childType]
  split
  · exact .of_ok rfl
  · exact .refuse _

theorem elementType_answered : Answered p.elementType := by
  rw [elementType]
  split
  · exact .of_ok rfl
  · exact .refuse _

theorem scalarType_answered : Answered p.scalarType := by
  rw [scalarType]
  split
  · exact .of_ok rfl
  · exact .refuse _

/-- A list owns its slot. -/
theorem primary_of_list (h : p.form = .list ty) : p.primary = p := by
  cases p <;> first | rfl | cases h

/-- A slot that holds a scalar is read by the property that owns it only. -/
theorem form_of_primary {sty : ScalarType} (h : p.primary.form = .scalar sty) :
    p.form = .scalar sty := by
  cases p <;> first | exact h | cases h

/-- A mandatory child has something to stand in for it. -/
theorem exists_placeholder (hp : p.isMandatory = true) (hform : p.form = .child ty) :
    ∃ k, p.placeholder = some k := by
  cases p <;> first | exact ⟨_, rfl⟩ | exact absurd hp (by decide) | cases hform

/-- So does any property that is no view. -/
theorem primary_of_direct (h : p.isSoleElementView = false) : p.primary = p := by
  cases p <;> first | rfl | cases h

/-- A view reads a list. -/
theorem form_of_view (h : p.isSoleElementView = true) : ∃ ty, p.primary.form = .list ty := by
  cases p <;> first | exact ⟨_, rfl⟩ | cases h

end Property

/-! ## The questions about nodes -/

namespace Tree

variable {t : Tree} {n c : NodeId} {p : Property} {ty : ChildType}

theorem own_answered : Answered (t.own n) := .guard _ _

theorem exists_look (hn : n ∈ t.nodes) : ∃ r, t.look n = .ok r := by
  obtain ⟨hn, hlt⟩ := mem_nodes.1 hn
  obtain ⟨r, hr⟩ := Arena.exists_record hlt
  exact ⟨r, look_eq_ok.2 ⟨hn, hr⟩⟩

theorem look_answered (hn : n ∈ t.nodes) : Answered (t.look n) := by
  obtain ⟨r, hr⟩ := exists_look hn
  exact .of_ok hr

theorem record_answered (hn : n ∈ t.nodes) : Answered (t.record n.index) := by
  obtain ⟨r, hr⟩ := exists_look hn
  exact .of_ok (record_eq_ok.2 (look_eq_ok.1 hr).2)

theorem exists_kind (hn : n ∈ t.nodes) : ∃ k, t.kind n = .ok k := by
  obtain ⟨r, hr⟩ := exists_look hn
  exact ⟨r.kind, bind_eq_ok.2 ⟨r, hr, rfl⟩⟩

/-- **A node of a forest has its ancestors.** -/
theorem exists_ancestors (hf : Arena.Forest t.records) (hn : n ∈ t.nodes) :
    ∃ ns, t.ancestors n = .ok ns := by
  obtain ⟨hn, hlt⟩ := mem_nodes.1 hn
  obtain ⟨chain, hc⟩ := hf.rooted hlt
  exact ⟨_, ancestors_eq_ok.2 ⟨hn, chain, hc, rfl⟩⟩

theorem checkProperty_answered (hn : n ∈ t.nodes) : Answered (t.checkProperty n p) :=
  own_answered.bind fun _ _ => (record_answered hn).bind fun _ _ =>
    (Answered.guard _ _).bind fun _ _ => .guard _ _

theorem checkModifiable_answered (hn : n ∈ t.nodes) : Answered (t.checkModifiable n) :=
  (look_answered hn).bind fun _ _ => .guard _ _

theorem checkAttachable_answered (hf : Arena.Forest t.records) (hn : n ∈ t.nodes)
    (hc : c ∈ t.nodes) : Answered (t.checkAttachable n p ty c) := by
  refine own_answered.bind fun _ _ => (record_answered hc).bind fun r _ =>
    (Answered.guard _ _).bind fun _ _ => (Answered.guard _ _).bind fun _ _ =>
    (Answered.guard _ _).bind fun _ _ => ?_
  split
  · obtain ⟨ns, hns⟩ := exists_ancestors hf hn
    exact (Answered.of_ok hns).bind fun _ _ => .guard _ _
  · exact .of_ok rfl

/-- **The slot of a single child is found to be one**, be it of its own or a list. -/
theorem currentChild_answered (hf : Arena.Forest t.records) (hn : n.tree = t.id)
    (hp : t.Offers n.index p) (hform : p.form = .child ty) : Answered (t.currentChild n p) := by
  obtain ⟨r, hr, ho, -⟩ := hp
  obtain ⟨content, hs, hfits⟩ := hf.exists_slot hr ho
  refine (Answered.of_ok (look_eq_ok.2 ⟨hn, hr⟩)).bind fun r' hr' => ?_
  obtain rfl := Option.some.inj (hr.symm.trans (look_eq_ok.1 hr').2)
  rw [hs]
  rcases hsole : p.isSoleElementView with _ | _
  · rw [Property.primary_of_direct hsole, hform] at hfits
    obtain ⟨c, rfl⟩ := Slot.eq_child_of_fits hfits
    exact .of_ok rfl
  · obtain ⟨_, hlist⟩ := Property.form_of_view hsole
    rw [hlist] at hfits
    obtain ⟨cs, rfl⟩ := Slot.eq_list_of_fits hfits
    rcases cs with _ | ⟨c, _ | ⟨d, cs⟩⟩
    · exact .of_ok rfl
    · exact .of_ok rfl
    · exact .refuse _

theorem peekChild_answered (hf : Arena.Forest t.records) (hn : n ∈ t.nodes) :
    Answered (t.peekChild n p) := by
  refine (checkProperty_answered hn).bind fun _ hp => Property.childType_answered.bind fun ty hty =>
    Answered.bind ?_ fun _ _ => .of_ok rfl
  obtain ⟨hn, hp⟩ := checkProperty_iff.1 hp
  exact currentChild_answered hf hn hp (Property.childType_eq_ok.1 hty)

/-- **Any property may be asked for a scalar.** -/
theorem scalar_answered (hf : Arena.Forest t.records) (hn : n ∈ t.nodes) :
    Answered (t.scalar n p) := by
  refine (checkProperty_answered hn).bind fun _ hp => (look_answered hn).bind fun r hr => ?_
  obtain ⟨-, r', hr', ho, -⟩ := checkProperty_iff.1 hp
  obtain rfl := Option.some.inj (hr'.symm.trans (look_eq_ok.1 hr).2)
  obtain ⟨content, hs, -⟩ := hf.exists_slot hr' ho
  rw [hs]
  cases content with
  | scalar v => exact .of_ok rfl
  | child _ | list _ => exact .refuse _

theorem sequence_answered (hn : n ∈ t.nodes) : Answered (t.sequence n p) :=
  (checkProperty_answered hn).bind fun _ _ =>
    Property.elementType_answered.bind fun _ _ => .of_ok rfl

end Tree

end SyntaxForest
