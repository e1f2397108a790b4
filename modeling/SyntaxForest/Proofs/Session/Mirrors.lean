import SyntaxForest.Proofs.Edit.Mirror
import SyntaxForest.Proofs.Session.Run

/-!
# Proofs/Session/Mirrors — observers that follow a tree from its creation

An observer that listens from the start, and to the end of each change, is told enough to know every
child of the tree at any time.  Only copies come without the news of what they consist of: nothing may
be planted into the tree.

* `Session.after_frame` — a command leaves every tree as it is but the one that it is about.
* `Session.after_cases` — what a command comes to for one tree.
* `Session.replica_follows_tree` — **after every command the replica is what the tree holds**.
-/

namespace SyntaxForest

/-- Whether a call plants nothing, and leaves an observer that listens to the end of each change. -/
def Edit.keepsMirror : Edit → Bool
  | .copySubtree _ => false
  | .observe observer => observer.any (·.hearsPost)
  | _ => true

namespace Command

/-- The tree that a command may change. -/
def target? : Command → Option Nat
  | .edit number _ | .graft number _ | .clone _ _ number | .cloneAll _ _ number => some number
  | .snapshot _ _ | .locate _ _ => none

/-- Whether a command plants nothing into the tree with the number, and leaves an observer to it that
listens to the end of each change. -/
def keepsMirror (i : Nat) : Command → Bool
  | .edit number e => number != i || e.keepsMirror
  | c => c.target? != some i

end Command

namespace Session

variable {α β : Type} {s s' : Session} {i number : Nat} {t : Tree} {c : Command}

/-! ## Trees that a command does not concern -/

/-- The action leaves the tree with the number as it is, whether it succeeds or fails. -/
def Spares (i : Nat) (m : SessionM α) (s : Session) : Prop :=
  Leaves (fun s' => s'.trees[i]? = s.trees[i]?) m s

theorem Spares.pure {x : α} : Spares i (pure x) s := Leaves.pure rfl

theorem Spares.look_bind {f : Session → Except Failure α} {k : α → SessionM β}
    (h : ∀ x, Spares i (k x) s) : Spares i (look f >>= k) s := Leaves.look_bind rfl fun x _ => h x

theorem Spares.bind {m : SessionM α} {k : α → SessionM β} (h : Spares i m s)
    (hk : ∀ x s', Spares i (k x) s') : Spares i (m >>= k) s :=
  Leaves.bind h (fun _ hm => hm) fun x s' hm => (hk x s').mono fun _ hx => hx.trans hm

theorem Spares.act {a : TreeM α} (h : number ≠ i) : Spares i (act number a) s :=
  Leaves.act rfl fun _ _ => Array.getElem?_setIfInBounds_ne h

theorem clone_spares {n : NodeId} {source target : Nat} (h : target ≠ i) :
    Spares i (clone source n target) s := .look_bind fun _ => .act h

theorem cloneAll_spares {ns : List NodeId} {source target : Nat} (h : target ≠ i) :
    Spares i (cloneAll source ns target) s := by
  rw [cloneAll]
  induction ns generalizing s with
  | nil => exact .pure
  | cons n ns ih =>
    rw [List.mapM_cons]
    exact .bind (clone_spares h) fun _ _ => .bind ih fun _ _ => .pure

theorem run_spares (h : c.target? ≠ some i) : Spares i (run c) s := by
  have hne : ∀ {number : Nat}, some number ≠ some i → number ≠ i := fun h heq => h (heq ▸ rfl)
  cases c with
  | edit number e => exact .act (hne h)
  | snapshot tree n => exact .bind (.look_bind fun _ => rfl) fun _ _ => .pure
  | graft tree number => exact .look_bind fun _ => .bind (.act (hne h)) fun _ _ => .pure
  | clone source n target => exact .bind (clone_spares (hne h)) fun _ _ => .pure
  | cloneAll source ns target => exact .bind (cloneAll_spares (hne h)) fun _ _ => .pure
  | locate tree n => exact .bind (.look_bind fun _ => rfl) fun _ _ => .pure

/-- **A command leaves every tree as it is but the one that it is about.** -/
theorem after_frame (h : c.target? ≠ some i) : (after c s).trees[i]? = s.trees[i]? :=
  (run_spares h).after

/-- The tree that a call is about, afterwards. -/
theorem after_edit {e : Edit} (ht : s.trees[i]? = some t) :
    (after (.edit i e) s).trees[i]? = some (TreeM.after e.run t) := by
  have hlt := (Array.getElem?_eq_some_iff.1 ht).1
  rw [after, run, act, tree_eq_ok.2 ht, TreeM.after]
  rcases hr : e.run t with ⟨x, t'⟩ | ⟨e, t'⟩ <;> simp [hr, hlt]

/-- **What a command comes to for a tree**: it is a call on the tree, or one on another, or else it adds to
the session. -/
theorem after_cases {T : Typing} (h : s.Sound T) (ht : s.trees[i]? = some t) (c : Command) :
    (∃ e, c = .edit i e ∧ (after c s).trees[i]? = some (TreeM.after e.run t)) ∨
    (∃ number e, number ≠ i ∧ c = .edit number e ∧ (after c s).trees[i]? = some t) ∨
    c.isEdit = false ∧ s.Additions (after c s) := by
  cases hedit : c.isEdit with
  | false => exact .inr (.inr ⟨rfl, (run_adds h hedit).after⟩)
  | true =>
    cases c with
    | edit number e =>
      by_cases hi : number = i
      · subst hi
        exact .inl ⟨e, rfl, after_edit ht⟩
      · have hframe : (after (.edit number e) s).trees[i]? = s.trees[i]? :=
          after_frame fun heq => hi (Option.some.inj heq)
        exact .inr (.inl ⟨number, e, hi, rfl, hframe.trans ht⟩)
    | _ => cases hedit

/-! ## The tree that is followed -/

/-- **A command that keeps the mirror** leaves the tree mirrored, whether it succeeds or fails. -/
theorem after_mirrored (h : s.Sound .declared) (ht : s.trees[i]? = some t) (hf : t.Followed)
    (hm : t.Mirrored) (hc : c.keepsMirror i = true) :
    ∃ t', (after c s).trees[i]? = some t' ∧ t'.Followed ∧ t'.Mirrored := by
  by_cases htarget : c.target? = some i
  · cases c with
    | edit number e =>
      obtain rfl : number = i := Option.some.inj htarget
      have he : e.keepsMirror = true := by simpa [Command.keepsMirror] using hc
      refine ⟨_, after_edit ht, ?_⟩
      by_cases hchange : e.isChange = true
      · exact (Edit.run_changes (h.trees ht) e hchange (e.obeys_declared t)).mirrored (h.trees ht) hf hm
      · cases e with
        | copySubtree n => cases he
        | observe observer => exact ⟨he, hm.congr rfl rfl⟩
        | _ => simp [Edit.isChange] at hchange
    | _ => simp_all [Command.keepsMirror]
  · exact ⟨t, (after_frame htarget).trans ht, hf, hm⟩

/-- …and so do all commands. -/
theorem later_mirrored (h : Reachable s) (ht : s.trees[i]? = some t) (hf : t.Followed)
    (hm : t.Mirrored) {cs : List Command} (hcs : ∀ c ∈ cs, c.keepsMirror i = true) :
    ∃ t', (s.later cs).trees[i]? = some t' ∧ t'.Mirrored := by
  induction cs generalizing s t with
  | nil => exact ⟨t, ht, hm⟩
  | cons c cs ih =>
    obtain ⟨hc, hcs⟩ := List.forall_mem_cons.1 hcs
    obtain ⟨t', ht', hf', hm'⟩ := after_mirrored h.sound ht hf hm hc
    exact ih (.step c h) ht' hf' hm' hcs

/-- **The replica follows the tree**: of a tree that was observed before anything else was done to it, and
into which nothing was planted, the observer knows after every command what each slot holds. -/
theorem replica_follows_tree (h : Reachable s) {config : Config}
    (ht : s.trees[i]? = some (Tree.start i config)) {observer : Observer}
    (hobserver : observer.hearsPost = true) {cs : List Command}
    (hcs : ∀ c ∈ cs, c.keepsMirror i = true) :
    ∃ t, ((after (.edit i (.observe (some observer))) s).later cs).trees[i]? = some t ∧
      t.Mirrored := by
  have hstart : (Tree.start i config).Mirrored := .start i config
  have hobserved := after_edit (e := .observe (some observer)) ht
  exact later_mirrored (.step _ h) hobserved hobserver (hstart.congr rfl rfl) hcs

/-- Calls that make a placeholder, replace it through a view, detach what replaced it, and bring both into
another list; the last one is refused. -/
def moveCondition : List Command :=
  [.edit 0 (.create .conditionalExpression), .edit 0 (.child ⟨0, 0⟩ .conditionExpression),
    .edit 0 (.create .numberLiteral), .edit 0 (.setChild ⟨0, 0⟩ .conditionExpression ⟨0, 2⟩),
    .edit 0 (.detach ⟨0, 2⟩), .edit 0 (.create .pattern),
    .edit 0 (.list ⟨0, 3⟩ .patternElements (.extend [⟨0, 1⟩, ⟨0, 2⟩])),
    .edit 0 (.list ⟨0, 3⟩ .patternElements (.set 0 ⟨0, 0⟩)),
    .edit 0 (.setChild ⟨0, 0⟩ .conditionExpression ⟨0, 3⟩)]

/-- The observer is told of one slot under two names, and follows it. -/
theorem replica_follows_tree_moveCondition : ∃ s t, Reachable s ∧
    s.trees[0]? = some (Tree.start 0 ⟨.legacy, {}⟩) ∧
    ((after (.edit 0 (.observe (some ⟨false, true⟩))) s).later moveCondition).trees[0]? = some t ∧
    t.posts = [.lazyInit ⟨0, 0⟩ .conditionExpression ⟨0, 1⟩,
      .replaceChild ⟨0, 0⟩ .conditionExpression (some ⟨0, 1⟩) (some ⟨0, 2⟩),
      .removeChild ⟨0, 0⟩ .conditionElements 0 ⟨0, 2⟩,
      .addChild ⟨0, 3⟩ .patternElements 0 ⟨0, 1⟩, .addChild ⟨0, 3⟩ .patternElements 1 ⟨0, 2⟩,
      .replaceElement ⟨0, 3⟩ .patternElements 0 ⟨0, 1⟩ ⟨0, 0⟩] ∧ t.Mirrored := by
  have hs : Reachable (start [⟨.legacy, {}⟩]) := .start _
  have hstart : (start [⟨.legacy, {}⟩]).trees[0]? = some (Tree.start 0 ⟨.legacy, {}⟩) := rfl
  have hears : Observer.hearsPost ⟨false, true⟩ = true := rfl
  have hkeeps : ∀ c ∈ moveCondition, c.keepsMirror 0 = true := by decide
  obtain ⟨t, ht, hm⟩ := replica_follows_tree hs hstart hears hkeeps
  have hposts : ((after (.edit 0 (.observe (some ⟨false, true⟩)))
      (start [⟨.legacy, {}⟩])).later moveCondition).trees[0]?.map Tree.posts =
        some [.lazyInit ⟨0, 0⟩ .conditionExpression ⟨0, 1⟩,
          .replaceChild ⟨0, 0⟩ .conditionExpression (some ⟨0, 1⟩) (some ⟨0, 2⟩),
          .removeChild ⟨0, 0⟩ .conditionElements 0 ⟨0, 2⟩,
          .addChild ⟨0, 3⟩ .patternElements 0 ⟨0, 1⟩, .addChild ⟨0, 3⟩ .patternElements 1 ⟨0, 2⟩,
          .replaceElement ⟨0, 3⟩ .patternElements 0 ⟨0, 1⟩ ⟨0, 0⟩] := by decide +kernel
  rw [ht] at hposts
  exact ⟨_, t, hs, hstart, ht, Option.some.inj hposts, hm⟩

end Session

end SyntaxForest
