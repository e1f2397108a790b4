import SyntaxForest.Proofs.Subtree.Walk

/-!
# Proofs/Subtree/Interruption — a walk that stops is a beginning of the whole walk

A visitor may stop the walk from any of its calls.  Nothing is called after that: neither the nodes that were to
come nor the ways out of those that had been entered.  So the walk of a visitor that fails from its `k`-th call on
is the walk of the visitor that never fails, up to this call.

The proof is by a relation between computations of two monads that returning and sequencing respect; **what
relates the calls of two visitors relates their walks** (`Subtree.walk_related`).

* `Visitor.noted` — a visitor that takes down its calls.
* `Visitor.interrupted` — the same, that fails from its `k`-th call.
* `Subtree.walk_notes` — what is taken down changes nothing.
* `Subtree.walk_cuts` — **the walk that fails is the other one, cut short**.
-/

namespace SyntaxForest

/-! ## Computations side by side -/

section Related

variable {m m' : Type → Type} [Monad m] [Monad m']

/-- A relation between the computations of two monads that returning and sequencing respect. -/
structure Respected (R : ∀ {α : Type}, m α → m' α → Prop) : Prop where
  pure {α : Type} (a : α) : R (Pure.pure a : m α) (Pure.pure a : m' α)
  bind {α β : Type} {x : m α} {x' : m' α} {f : α → m β} {f' : α → m' β} :
    R x x' → (∀ a, R (f a) (f' a)) → R (x >>= f) (x' >>= f')

variable {R : ∀ {α : Type}, m α → m' α → Prop} {shape : Shape} {v : Visitor m} {v' : Visitor m'}

theorem Respected.forM (hR : Respected @R) {cs : List Subtree}
    (h : ∀ c ∈ cs, R (c.walk shape v) (c.walk shape v')) :
    R ((cs.map (Subtree.walk shape v)).forM id) ((cs.map (Subtree.walk shape v')).forM id) := by
  induction cs with
  | nil => exact hR.pure ()
  | cons c cs ih =>
    obtain ⟨hc, hcs⟩ := List.forall_mem_cons.1 h
    exact hR.bind hc fun _ => ih hcs

/-- **What relates the calls of two visitors relates their walks.** -/
theorem Subtree.walk_related (hR : Respected @R) (henter : ∀ h, R (v.enter h) (v'.enter h))
    (hleave : ∀ h, R (v.leave h) (v'.leave h)) (s : Subtree) : R (s.walk shape v) (s.walk shape v') := by
  induction s using Subtree.induct with
  | node h ss ih =>
    have hchildren : ∀ c ∈ (node h ss).liveChildren shape, R (c.walk shape v) (c.walk shape v') := by
      intro c hc
      obtain ⟨slot, hslot, hc⟩ := List.mem_flatMap.1 hc
      exact ih slot ((Kind.liveOnly_sublist _ _ _).subset hslot) c hc
    rw [walk_node, walk_node, walkNode, walkNode, map_liveChildren, map_liveChildren]
    refine hR.bind (henter h) fun descends => ?_
    cases descends
    · exact hleave h
    · exact hR.bind (hR.forM hchildren) fun _ => hleave h

end Related

/-! ## Visitors that take down their calls -/

namespace Visitor

variable {σ ε α : Type}

/-- A call of a visitor, and the state that it leaves. -/
structure Call (σ : Type) where
  event : WalkEvent
  state : σ
  deriving DecidableEq, Repr

/-- The state of a visitor, with the calls that have led to it. -/
structure Noted (σ : Type) where
  state : σ
  calls : List (Call σ)
  deriving DecidableEq, Repr

/-- Makes a call and takes it down. -/
def note (event : WalkEvent) (x : StateM σ α) : StateM (Noted σ) α := fun c =>
  let r := x c.state
  (r.1, ⟨r.2, c.calls ++ [⟨event, r.2⟩]⟩)

/-- Makes a call and takes it down, and fails if it is the `k`-th one. -/
def interrupt (k : Nat) (err : Call σ → ε) (event : WalkEvent) (x : StateM σ α) : EStateM ε (Noted σ) α := fun c =>
  let r := note event x c
  if r.2.calls.length = k then .error (err ⟨event, r.2.state⟩) r.2 else .ok r.1 r.2

/-- **The visitor, with its calls taken down.** -/
def noted (v : Visitor (StateM σ)) : Visitor (StateM (Noted σ)) where
  enter h := note (.enter h.node) (v.enter h)
  leave h := note (.leave h.node) (v.leave h)

/-- **The visitor, but that it fails from its `k`-th call**; with what error may depend on the call. -/
def interrupted (v : Visitor (StateM σ)) (k : Nat) (err : Call σ → ε) : Visitor (EStateM ε (Noted σ)) where
  enter h := interrupt k err (.enter h.node) (v.enter h)
  leave h := interrupt k err (.leave h.node) (v.leave h)

/-! ## What is taken down changes nothing -/

/-- The second computation does as the first, and takes down the calls it makes. -/
def Notes (x : StateM σ α) (y : StateM (Noted σ) α) : Prop :=
  ∀ c, ∃ calls, y c = ((x c.state).1, ⟨(x c.state).2, c.calls ++ calls⟩)

theorem Notes.respected : Respected (@Notes σ) where
  pure a c := ⟨[], by rw [List.append_nil]; rfl⟩
  bind {α β x y f g} hx hf c := by
    obtain ⟨calls, hy⟩ := hx c
    obtain ⟨calls', hz⟩ := hf (x c.state).1 ⟨(x c.state).2, c.calls ++ calls⟩
    refine ⟨calls ++ calls', ?_⟩
    change g (y c).1 (y c).2 = _
    rw [hy, hz, List.append_assoc]
    rfl

/-- **Taking down its calls does not change what a visitor does.** -/
theorem walk_notes (v : Visitor (StateM σ)) (shape : Shape) (s : Subtree) :
    Notes (s.walk shape v) (s.walk shape v.noted) :=
  s.walk_related Notes.respected (fun _ _ => ⟨_, rfl⟩) fun _ _ => ⟨_, rfl⟩

/-! ## What fails is cut short -/

/-- What comes of a run if its `k`-th call fails: all of it, if there are fewer calls; otherwise what there is up
to this call. -/
inductive CutShort (k : Nat) (err : Call σ → ε) (whole : α × Noted σ) : EStateM.Result ε (Noted σ) α → Prop
  | ends : whole.2.calls.length < k → CutShort k err whole (.ok whole.1 whole.2)
  | fails {before after : List (Call σ)} {call : Call σ} :
    whole.2.calls = before ++ call :: after → before.length + 1 = k →
    CutShort k err whole (.error (err call) ⟨call.state, before ++ [call]⟩)

section CutShort

variable {k : Nat} {err : Call σ → ε} {whole : α × Noted σ} {r : EStateM.Result ε (Noted σ) α}

theorem CutShort.eq_ok (h : CutShort k err whole r) (hlt : whole.2.calls.length < k) :
    r = .ok whole.1 whole.2 := by
  cases h with
  | ends => rfl
  | fails hsplit hk =>
    rw [hsplit, List.length_append, List.length_cons] at hlt
    omega

theorem CutShort.eq_error {call : Call σ} (h : CutShort k err whole r)
    (hcall : whole.2.calls[k - 1]? = some call) :
    r = .error (err call) ⟨call.state, whole.2.calls.take k⟩ := by
  cases h with
  | ends hlt =>
    have := (List.getElem?_eq_some_iff.1 hcall).1
    omega
  | @fails before after call' hsplit hk =>
    subst hk
    rw [hsplit, Nat.add_sub_cancel, List.getElem?_append_right (Nat.le_refl _), Nat.sub_self] at hcall
    cases hcall
    rw [hsplit, List.take_length_add_append]
    rfl

end CutShort

/-- The second computation is the first one, cut short at the `k`-th call. -/
def Cuts (k : Nat) (err : Call σ → ε) {α : Type} (x : StateM (Noted σ) α) (y : EStateM ε (Noted σ) α) : Prop :=
  ∀ c, c.calls <+: (x c).2.calls ∧ (c.calls.length < k → CutShort k err (x c) (y c))

variable {k : Nat} {err : Call σ → ε}

theorem Cuts.respected : Respected (@Cuts σ ε k err) where
  pure a c := ⟨List.prefix_rfl, fun hlt => .ends hlt⟩
  bind {α β x y f g} hx hf c := by
    obtain ⟨hcalls, hcut⟩ := hx c
    obtain ⟨hcalls', hcut'⟩ := hf (x c).1 (x c).2
    refine ⟨hcalls.trans hcalls', fun hlt => ?_⟩
    change CutShort k err (f (x c).1 (x c).2) ((y >>= g) c)
    generalize hyc : y c = r at hcut
    cases hcut hlt with
    | ends hlt' =>
      rw [bind_of_ok hyc]
      exact hcut' hlt'
    | @fails before after call hsplit hk =>
      rw [bind_of_error hyc]
      obtain ⟨more, hmore⟩ := hcalls'
      have hsplit' : (f (x c).1 (x c).2).2.calls = before ++ call :: (after ++ more) := by
        rw [← hmore, hsplit, List.append_assoc, List.cons_append]
      exact .fails hsplit' hk

theorem cuts_note (event : WalkEvent) (x : StateM σ α) :
    Cuts k err (note event x) (interrupt k err event x) := by
  intro c
  refine ⟨List.prefix_append _ _, fun hlt => ?_⟩
  have hlength : (note event x c).2.calls.length = c.calls.length + 1 := List.length_append
  by_cases hk : (note event x c).2.calls.length = k
  · rw [interrupt, if_pos hk]
    exact .fails rfl (hlength.symm.trans hk)
  · rw [interrupt, if_neg hk]
    exact .ends (by omega)

/-- **The walk of the visitor that fails is the walk of the other one, cut short.** -/
theorem walk_cuts (v : Visitor (StateM σ)) (k : Nat) (err : Call σ → ε) (shape : Shape) (s : Subtree) :
    Cuts k err (s.walk shape v.noted) (s.walk shape (v.interrupted k err)) :=
  s.walk_related Cuts.respected (fun _ => cuts_note _ _) fun _ => cuts_note _ _

end Visitor

end SyntaxForest
