import SyntaxForest.Proofs.Edit.Account
import SyntaxForest.Proofs.Session.Mirrors

/-!
# Proofs/Session/Accounts — events and stamps account for exactly what was done

Whoever listens to a tree before and after each change hears, of one command, a row of announcements and
nothing else; and the stamp goes up by the number of changes among them.  Only ranges and marks are
counted without being announced.

* `Session.after_accounts` — **every command is accounted for**, whether it succeeds or fails.
* `Session.changes_accounted` — …and calls that have nothing to do are not even heard of.
-/

namespace SyntaxForest

/-- Whether a command sets a range or marks in the tree with the number. -/
def Command.isMark (i : Nat) : Command → Bool
  | .edit number e => number = i && e.isMark
  | _ => false

namespace Session

variable {s s' : Session} {i : Nat} {t : Tree} {c : Command}

/-- What is added to a session is announced copy by copy. -/
theorem Additions.accounts (h : s.Additions s') (ht : s.trees[i]? = some t) (ho : t.Observed) :
    ∃ t' told, s'.trees[i]? = some t' ∧ t.Accounts told 0 t' ∧ t'.Observed := by
  induction h with
  | refl => exact ⟨t, [], ht, .refl t, ho⟩
  | tail _ hadds ih =>
    obtain ⟨u, told, hu, haccounts, ho'⟩ := ih
    cases hadds with
    | keep _ | locate _ => exact ⟨u, told, hu, haccounts, ho'⟩
    | plant hv _ _ =>
      obtain ⟨u', hu', hrel⟩ := exists_setIfInBounds
        (P := fun u u' => u.Observed → ∃ told, u.Accounts told 0 u' ∧ u'.Observed) hv
        (fun hv' => ⟨_, hv'.planted, hv'.of_observer_eq Tree.planted_observer⟩) hu
        fun hu' => ⟨[], .refl u, hu'⟩
      obtain ⟨told', haccounts', ho''⟩ := hrel ho'
      exact ⟨u', told ++ told', hu', haccounts.trans haccounts', ho''⟩

/-- What a call on a tree answers. -/
theorem answer?_edit {e : Edit} (ht : s.trees[i]? = some t) :
    answer? (.edit i e) s = match e.run t with | .ok reply _ => some reply | .error _ _ => none := by
  rw [answer?, run, act, tree_eq_ok.2 ht]
  rcases hr : e.run t with ⟨x, t'⟩ | ⟨e, t'⟩ <;> simp [hr]

/-- A call that leaves its tree as it is leaves the session as it is. -/
theorem after_edit_eq_self {e : Edit} (ht : s.trees[i]? = some t)
    (he : TreeM.after e.run t = t) : after (.edit i e) s = s := by
  rw [after, run, act, tree_eq_ok.2 ht]
  rw [TreeM.after] at he
  rcases hr : e.run t with ⟨x, t'⟩ | ⟨e, t'⟩ <;> simp only [hr] at he ⊢ <;>
    rw [he, setIfInBounds_same ht]

/-- How many ranges and marks a command sets in the tree with the number: one, if that is what it is for
and if it succeeds. -/
def marks (s : Session) (i : Nat) (c : Command) : Nat :=
  if c.isMark i && (answer? c s).isSome then 1 else 0

/-- A call on a tree is accounted for. -/
theorem after_edit_accounts (h : s.Sound .declared) (ht : s.trees[i]? = some t) (ho : t.Observed)
    (e : Edit) : ∃ told, t.Accounts told (s.marks i (.edit i e)) (TreeM.after e.run t) ∧
      (e.isMark = true → told = []) := by
  have hanswer := answer?_edit (e := e) ht
  have hT := e.obeys_declared t
  by_cases hc : e.isComposite = false
  · rcases hrun : e.run t with ⟨reply, t'⟩ | ⟨x, t'⟩ <;> rw [hrun] at hanswer
    · have hdoes := (Edit.run_does (h.trees ht) e hc hT).of_ok_eq hrun
      simpa [marks, Command.isMark, hanswer, TreeM.after, hrun] using hdoes.accounts ho
    · obtain rfl := (Edit.run_does (h.trees ht) e hc hT).unchanged hrun
      refine ⟨[], ?_, fun _ => rfl⟩
      simpa [marks, hanswer, TreeM.after, hrun] using Tree.Accounts.refl t'
  · -- the call that is made of two sets no marks
    have hmark : e.isMark = false := by
      cases e <;> first | rfl | exact absurd rfl hc
    rcases Edit.after_does (h.trees ht) e hT with heq | hdoes
    · rw [heq]
      exact ⟨[], by simpa [marks, Command.isMark, hmark] using Tree.Accounts.refl t, fun _ => rfl⟩
    · simpa [marks, Command.isMark, hmark] using hdoes.accounts ho

/-- **Every command is accounted for** in a tree that is observed, whether it succeeds or fails. -/
theorem after_accounts (h : s.Sound .declared) (ht : s.trees[i]? = some t) (ho : t.Observed)
    (c : Command) : ∃ t' told, (after c s).trees[i]? = some t' ∧
      t.Accounts told (s.marks i c) t' ∧ (c.isMark i = true → told = []) := by
  obtain ⟨e, rfl, ht'⟩ | ⟨number, e, hi, rfl, ht'⟩ | ⟨hc, hadds⟩ := after_cases h ht c
  · obtain ⟨told, haccounts, hmark⟩ := after_edit_accounts h ht ho e
    exact ⟨_, told, ht', haccounts, fun he => hmark (by simpa [Command.isMark] using he)⟩
  · refine ⟨t, [], ht', ?_, fun _ => rfl⟩
    simpa [marks, Command.isMark, hi] using Tree.Accounts.refl t
  · obtain ⟨t', told, ht', haccounts, -⟩ := hadds.accounts ht ho
    have hmark : c.isMark i = false := by
      cases c <;> first | rfl | cases hc
    exact ⟨t', told, ht', by simpa [marks, hmark] using haccounts, fun he => by simp [hmark] at he⟩

/-- What a call on a tree leaves, if it succeeds and is accounted for then. -/
theorem accounts_of_answer {e : Edit} {reply : Reply} {told : List Announcement}
    (ht : s.trees[i]? = some t) (he : e.run.Atomic t fun _ => t.Accounts told 0)
    (hreply : answer? (.edit i e) s = some reply) :
    ∃ t', (after (.edit i e) s).trees[i]? = some t' ∧ t.Accounts told 0 t' := by
  rw [answer?_edit ht] at hreply
  refine ⟨_, after_edit ht, ?_⟩
  rcases hrun : e.run t with ⟨x, t'⟩ | ⟨x, t'⟩ <;> rw [hrun] at hreply
  · rw [TreeM.after, hrun]
    exact he.of_ok_eq hrun
  · cases hreply

/-- **Events and stamps account for exactly what was done.**  Of a command, an observer of a tree hears a
row of announcements, each a change before and after, a copy before and after, or a placeholder after; the
stamp goes up by the number of changes, and by one for a range or marks that were set, of which nothing is
heard.  A call that has nothing to do leaves everything as it is, and a batch that comes into a list, or
goes out of it, is announced and counted element by element. -/
theorem changes_accounted (h : Reachable s) (ht : s.trees[i]? = some t) (ho : t.Observed) :
    (∀ c, ∃ t' told, (after c s).trees[i]? = some t' ∧ t.Accounts told (s.marks i c) t' ∧
      (c.isMark i = true → told = [])) ∧
    (∀ e : Edit, e.Idle t → after (.edit i e) s = s) ∧
    ∀ n p l es, t.sequence n p = .ok l → t.elements l = .ok es →
      (∀ cs reply, answer? (.edit i (.list n p (.extend cs))) s = some reply →
        ∃ t', (after (.edit i (.list n p (.extend cs))) s).trees[i]? = some t' ∧
          t.Accounts (Announcement.additions n p es.length cs) 0 t' ∧
          t'.stamp = t.stamp + cs.length) ∧
      ∀ reply, answer? (.edit i (.list n p .clear)) s = some reply →
        ∃ t', (after (.edit i (.list n p .clear)) s).trees[i]? = some t' ∧
          t.Accounts (Announcement.removals n p es) 0 t' ∧ t'.stamp = t.stamp + es.length := by
  have hsound := h.sound.trees ht
  refine ⟨after_accounts h.sound ht ho, fun e he => after_edit_eq_self ht (he.unchanged hsound),
    fun n p l es hl hes => ⟨fun cs reply hreply => ?_, fun reply hreply => ?_⟩⟩
  · obtain ⟨t', ht', haccounts⟩ :=
      accounts_of_answer ht (Edit.extend_accounts hsound ho hl hes) hreply
    refine ⟨t', ht', haccounts, ?_⟩
    rw [haccounts.stamp, Announcement.countP_additions, Nat.add_zero]
  · obtain ⟨t', ht', haccounts⟩ :=
      accounts_of_answer ht (Edit.clear_accounts hsound ho hl hes) hreply
    refine ⟨t', ht', haccounts, ?_⟩
    rw [haccounts.stamp, Announcement.countP_removals, Nat.add_zero]

/-- A session of one tree, which is observed, with a pattern and two names beside it. -/
def namesBeside : Session := played [⟨.current, {}⟩]
  [.edit 0 (.observe (some ⟨true, true⟩)), .edit 0 (.create .pattern),
    .edit 0 (.create .simpleName), .edit 0 (.create .simpleName)]

/-- The call that brings both names into the pattern. -/
def bringBoth : Command :=
  .edit 0 (.list ⟨0, 0⟩ .patternElements (.extend [⟨0, 1⟩, ⟨0, 2⟩]))

/-- The two names come in one after the other, as two changes; marks are counted and not heard of, and to
take away a name that stands nowhere is nothing. -/
theorem changes_accounted_namesBeside : ∃ s t t' u, Reachable s ∧ s.trees[0]? = some t ∧
    t.Observed ∧ t.stamp = 0 ∧ (after bringBoth s).trees[0]? = some t' ∧ t'.stamp = 2 ∧
    t'.journal.toList = [⟨.pre, .addChild ⟨0, 0⟩ .patternElements 0 ⟨0, 1⟩⟩,
      ⟨.post, .addChild ⟨0, 0⟩ .patternElements 0 ⟨0, 1⟩⟩,
      ⟨.pre, .addChild ⟨0, 0⟩ .patternElements 1 ⟨0, 2⟩⟩,
      ⟨.post, .addChild ⟨0, 0⟩ .patternElements 1 ⟨0, 2⟩⟩] ∧
    (after (.edit 0 (.setFlags ⟨0, 0⟩ { malformed := true })) s).trees[0]? = some u ∧
    u.stamp = 1 ∧ u.journal.toList = [] ∧ after (.edit 0 (.detach ⟨0, 1⟩)) s = s := by
  have hs : Reachable namesBeside := .played _ _
  have ht : namesBeside.trees[0]? = some _ := Array.getElem?_eq_getElem (by decide +kernel)
  have ho : namesBeside.trees[0].Observed := by
    show namesBeside.trees[0].observer = _
    decide +kernel
  have hstamp : namesBeside.trees[0].stamp = 0 := by decide +kernel
  have hjournal : namesBeside.trees[0].journal.toList = [] := by decide +kernel
  have hlist : namesBeside.trees[0].sequence ⟨0, 0⟩ .patternElements =
      .ok ⟨⟨0, 0⟩, .patternElements, .any⟩ := by decide +kernel
  have hnone : namesBeside.trees[0].elements ⟨⟨0, 0⟩, .patternElements, .any⟩ = .ok [] := by
    decide +kernel
  obtain ⟨hall, hidle, hlists⟩ := changes_accounted hs ht ho
  obtain ⟨t', ht', haccounts, hcount⟩ :=
    (hlists _ _ _ _ hlist hnone).1 [⟨0, 1⟩, ⟨0, 2⟩] (.nodes []) (by decide +kernel)
  obtain ⟨u, told, hu, hmarks, hsilent⟩ := hall (.edit 0 (.setFlags ⟨0, 0⟩ { malformed := true }))
  obtain rfl := hsilent rfl
  have hone : namesBeside.marks 0 (.edit 0 (.setFlags ⟨0, 0⟩ { malformed := true })) = 1 := by
    decide +kernel
  refine ⟨_, _, t', u, hs, ht, ho, hstamp, ht', ?_, ?_, hu, ?_, ?_, hidle _ (.detach ?_)⟩
  · rw [hcount, hstamp]
    rfl
  · rw [haccounts.journal, hjournal]
    rfl
  · rw [hmarks.stamp, hone, hstamp]
    rfl
  · rw [hmarks.journal, hjournal]
    rfl
  · decide +kernel

end Session

end SyntaxForest
