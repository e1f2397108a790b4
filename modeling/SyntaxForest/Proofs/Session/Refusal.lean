import SyntaxForest.Proofs.Session.Run

/-!
# Proofs/Session/Refusal — a call that fails has not happened

Every call looks before it writes, and its writes cannot fail (`Edit.run_atomic`).  So a call that
fails leaves the session as it was: the records and stamps of all trees, what their observers were
told, images and locators.  Only the calls made of several can stop half way.

* `Session.failed_call_changes_nothing` — **a failed call changes nothing**.
-/

namespace SyntaxForest

/-- Whether a call is made of several, so that some can stand when a later one fails. -/
def Command.isComposite : Command → Bool
  | edit _ e => e.isComposite
  | cloneAll _ _ _ => true
  | snapshot _ _ | graft _ _ | clone _ _ _ | locate _ _ => false

namespace Session

variable {α β : Type} {s s' : Session} {e : Failure} {number : Nat}

/-- The action leaves the session as it is when it fails. -/
def Reverts (m : SessionM α) (s : Session) : Prop := ∀ e s', m s = .error e s' → s' = s

theorem Reverts.look_bind {f : Session → Except Failure α} {k : α → SessionM β}
    (h : ∀ x, f s = .ok x → Reverts (k x) s) : Reverts (Session.look f >>= k) s := by
  intro e s' hr
  rcases hf : f s with e' | x
  · cases (look_bind_error hf).symm.trans hr
    rfl
  · exact h x hf e s' ((look_bind_run hf).symm.trans hr)

/-- What cannot fail may follow. -/
theorem Reverts.bind_pure {m : SessionM α} {g : α → β} (h : Reverts m s) :
    Reverts (m >>= fun x => Pure.pure (g x)) s := by
  intro e s' hr
  rcases hm : m s with ⟨x, s''⟩ | ⟨e', s''⟩
  · simp only [bind, EStateM.bind, hm] at hr
    cases hr
  · simp only [bind, EStateM.bind, hm] at hr
    cases hr
    exact h _ _ hm

/-- **An atomic action on one tree** leaves the session as it is when it fails. -/
theorem Reverts.act {a : TreeM α} {Q : Tree → α → Tree → Prop}
    (ha : ∀ t, s.trees[number]? = some t → a.Atomic t (Q t)) : Reverts (act number a) s := by
  intro e s' hr
  rcases of_act_eq_error hr with ⟨-, rfl⟩ | ⟨t, t', ht, hm, rfl⟩
  · rfl
  · obtain rfl := (ha t ht).unchanged hm
    rw [setIfInBounds_same ht]

theorem clone_reverts (h : s.Sound .declared) (source : Nat) (n : NodeId) (target : Nat) :
    Reverts (clone source n target) s := by
  refine .look_bind fun image hi => ?_
  obtain ⟨t, ht, hi⟩ := bind_eq_ok.1 hi
  have hsound := Tree.snapshot_sound (h.trees (tree_eq_ok.1 ht)).typed hi
  exact .act fun t _ => Image.graft_atomic hsound

theorem run_reverts (h : s.Sound .declared) (c : Command) (hc : c.isComposite = false) :
    Reverts (run c) s := by
  cases c with
  | edit number e => exact .act fun t ht => Edit.run_atomic (h.trees ht) e hc (e.obeys_declared t)
  | snapshot tree n => exact .bind_pure (.look_bind fun _ _ _ _ hr => by cases hr)
  | graft tree number =>
    refine .look_bind fun image hi => .bind_pure ?_
    exact .act fun t _ => Image.graft_atomic (h.images (image_eq_ok.1 hi))
  | clone source n target => exact .bind_pure (clone_reverts h source n target)
  | cloneAll source ns target => cases hc
  | locate tree n => exact .bind_pure (.look_bind fun _ _ _ _ hr => by cases hr)

/-- **A failed call changes nothing**: neither a tree, with its nodes, its stamp and what its
observer was told, nor the images and locators. -/
theorem failed_call_changes_nothing {c : Command} (h : Reachable s) (hc : c.isComposite = false)
    (hr : run c s = .error e s') : s' = s :=
  run_reverts h.sound c hc e s' hr

/-- The commands that put one of two nodes under the other, before an observer. -/
def nestOne : List Command :=
  [.edit 0 (.observe (some ⟨true, true⟩)), .edit 0 (.create .arrayAccess),
    .edit 0 (.create .arrayAccess), .edit 0 (.setChild ⟨0, 0⟩ .arrayAccessArray ⟨0, 1⟩)]

/-- The call that would close a cycle fails, and nothing has happened. -/
theorem failed_call_changes_nothing_nestOne : ∃ s s', Reachable s ∧
    run (.edit 0 (.setChild ⟨0, 1⟩ .arrayAccessArray ⟨0, 0⟩)) s = .error (.refused .cycle) s' ∧
      s' = s := by
  have hs : Reachable (played [⟨.current, {}⟩] nestOne) := .played _ _
  have hr : run (.edit 0 (.setChild ⟨0, 1⟩ .arrayAccessArray ⟨0, 0⟩))
      (played [⟨.current, {}⟩] nestOne) =
        .error (.refused .cycle) (played [⟨.current, {}⟩] nestOne) := by rfl
  exact ⟨_, _, hs, hr, failed_call_changes_nothing hs rfl hr⟩

end Session

end SyntaxForest
