import SyntaxForest.Proofs.Edit.Mirror
import SyntaxForest.Proofs.Edit.Run

/-!
# Proofs/Edit/Account — what an observer hears of a call, and what the stamp counts of it

An observer that listens to both phases hears **announcements**: a change before and after, a copy before
and, by its name, after, and a placeholder after only.  The stamp counts the changes, and beside them the
ranges and marks that were set, of which no observer hears.

* `Tree.Accounts` — the journal and the stamp, brought up to date by some announcements.
* `Tree.Turns.accounts`, `Tree.Splices.accounts` — turns are announced one by one.
* `Edit.Does.accounts` — **every call is accounted for**.
-/

namespace SyntaxForest

/-! ## Announcements -/

/-- Whether an event is a change of what was there.  Copies and placeholders come in addition. -/
def Event.isChange : Event → Bool
  | lazyInit _ _ _ | clone _ _ => false
  | _ => true

theorem Event.isChange_addChild {n c : NodeId} {p : Property} {index : Nat} :
    (addChild n p index c).isChange = true := rfl

theorem Event.isChange_removeChild {n c : NodeId} {p : Property} {index : Nat} :
    (removeChild n p index c).isChange = true := rfl

theorem Event.isChange_valueChange {n : NodeId} {p : Property} :
    (valueChange n p).isChange = true := rfl

/-- **What is announced at a time.** -/
inductive Announcement where
  | change (event : Event) (isChange : event.isChange = true)
  | copy (source made : NodeId)
  /-- a placeholder came to exist -/
  | arrival (node : NodeId) (property : Property) (child : NodeId)

namespace Announcement

/-- The notices that an announcement consists of, in the order in which they are heard. -/
def notices : Announcement → List Notice
  | change e _ => [⟨.pre, e⟩, ⟨.post, e⟩]
  | copy source made => [⟨.pre, .clone source none⟩, ⟨.post, .clone source (some made)⟩]
  | arrival n p c => [⟨.post, .lazyInit n p c⟩]

/-- Whether the stamp counts what is announced. -/
def isCounted : Announcement → Bool
  | change _ _ => true
  | copy _ _ | arrival _ _ _ => false

/-- A batch that comes into a list, from an index on. -/
def additions (n : NodeId) (p : Property) (index : Nat) : List NodeId → List Announcement
  | [] => []
  | c :: cs => .change (.addChild n p index c) Event.isChange_addChild :: additions n p (index + 1) cs

/-- Elements that go out of a list, always the first one. -/
def removals (n : NodeId) (p : Property) (cs : List NodeId) : List Announcement :=
  cs.map fun c => .change (.removeChild n p 0 c) Event.isChange_removeChild

theorem countP_additions {n : NodeId} {p : Property} {index : Nat} {cs : List NodeId} :
    (additions n p index cs).countP isCounted = cs.length := by
  induction cs generalizing index with
  | nil => rfl
  | cons c cs ih => rw [additions, List.countP_cons, ih, List.length_cons, isCounted, if_pos rfl]

theorem countP_removals {n : NodeId} {p : Property} {cs : List NodeId} :
    (removals n p cs).countP isCounted = cs.length := by
  rw [removals, List.countP_map]
  exact List.countP_eq_length.2 fun _ _ => rfl

end Announcement

/-- Every splice is a change. -/
theorem Splice.isChange_event (t : Tree) (n : Nat) (p : Property) (x : Splice) :
    (x.event t n p).isChange = true := by
  cases x <;> rfl

/-- What a splice announces. -/
def Splice.announcement (t : Tree) (n : Nat) (p : Property) (x : Splice) : Announcement :=
  .change (x.event t n p) (x.isChange_event t n p)

namespace Tree

variable {t t' t'' : Tree} {T : Typing} {n : Nat} {p : Property} {k : Kind}
  {told told' : List Announcement} {marks marks' : Nat}

/-- An observer listens to both phases of each change. -/
def Observed (t : Tree) : Prop := t.observer = some ⟨true, true⟩

/-- **The journal and the stamp account for what was announced**, and the stamp for some marks as well. -/
structure Accounts (t : Tree) (told : List Announcement) (marks : Nat) (t' : Tree) : Prop where
  journal : t'.journal.toList = t.journal.toList ++ told.flatMap Announcement.notices
  stamp : t'.stamp = t.stamp + told.countP Announcement.isCounted + marks

theorem Accounts.refl (t : Tree) : t.Accounts [] 0 t := ⟨by simp, rfl⟩

theorem Accounts.trans (h : t.Accounts told marks t') (h' : t'.Accounts told' marks' t'') :
    t.Accounts (told ++ told') (marks + marks') t'' where
  journal := by rw [h'.journal, h.journal, List.flatMap_append, List.append_assoc]
  stamp := by
    rw [h'.stamp, h.stamp, List.countP_append]
    omega

/-! ## One step -/

theorem Observed.tell {phase : Phase} {e : Event} (h : t.Observed) :
    (t.tell phase e).journal.toList = t.journal.toList ++ [⟨phase, e⟩] := by
  have hhears : t.observer.any (·.hears phase) = true := by
    rw [h]
    cases phase <;> rfl
  rw [Tree.tell, if_pos hhears, Array.toList_push]

theorem Observed.of_observer_eq (h : t.Observed) (ho : t'.observer = t.observer) : t'.Observed :=
  ho.trans h

/-- What is announced before and after is heard twice. -/
theorem Observed.tell_twice {u : Tree} {e e' : Event} (h : t.Observed)
    (hobserver : u.observer = t.observer) (hjournal : u.journal = (t.tell .pre e).journal) :
    (u.tell .post e').journal.toList = t.journal.toList ++ [⟨.pre, e⟩, ⟨.post, e'⟩] := by
  rw [(h.of_observer_eq hobserver).tell, hjournal, h.tell, List.append_assoc]
  rfl

theorem Observed.commit {e : Event} {a : Arena} (h : t.Observed) (he : e.isChange = true) :
    t.Accounts [.change e he] 0 (t.commit e a) where
  journal := by
    rw [Tree.commit]
    exact h.tell_twice (tell_observer ..) rfl
  stamp := by simp [Tree.commit, Announcement.isCounted]

theorem Observed.splice {x : Splice} (h : t.Observed) :
    t.Accounts [x.announcement t n p] 0 (t.splice n p x) := h.commit (x.isChange_event t n p)

theorem Observed.planted {i : Image} (h : t.Observed) :
    t.Accounts [.copy i.source (t.handle t.size)] 0 (t.planted i) where
  journal := by
    rw [Tree.planted]
    exact h.tell_twice (tell_observer ..) rfl
  stamp := planted_stamp

theorem planted_observer {i : Image} : (t.planted i).observer = t.observer := by simp [planted]

theorem Observed.materialized (h : t.Observed) :
    t.Accounts [.arrival (t.handle n) p (t.handle t.size)] 0 (t.materialized n p k) where
  journal := by
    rw [Tree.materialized]
    exact Observed.tell (h.of_observer_eq rfl)
  stamp := materialized_stamp

/-! ## Many steps -/

theorem Turn.observer_eq (h : t.Turn T t') : t'.observer = t.observer := h.change.observer_eq

theorem Turn.accounts (h : t.Turn T t') (ho : t.Observed) : ∃ told, t.Accounts told 0 t' := by
  cases h with
  | create k => exact ⟨[], by simp [created], rfl⟩
  | splice n p x _ _ => exact ⟨_, ho.splice⟩
  | write n p v _ => exact ⟨_, ho.commit Event.isChange_valueChange⟩

/-- **Turns are announced one by one.** -/
theorem Turns.accounts (h : t.Turns T t') (ho : t.Observed) :
    ∃ told, t.Accounts told 0 t' ∧ t'.Observed := by
  induction h with
  | refl => exact ⟨[], .refl t, ho⟩
  | tail _ hturn ih =>
    obtain ⟨told, haccounts, ho'⟩ := ih
    obtain ⟨told', haccounts'⟩ := hturn.accounts ho'
    exact ⟨told ++ told', haccounts.trans haccounts', ho'.of_observer_eq hturn.observer_eq⟩

theorem announcement_splice {m : Nat} {q : Property} {x y : Splice} :
    y.announcement (t.splice m q x) n p = y.announcement t n p := by
  have hevent : y.event (t.splice m q x) n p = y.event t n p := by
    cases y <;> simp only [Splice.event, splice_handle]
  simp only [Splice.announcement, hevent]

/-- **A row of splices is announced splice by splice.** -/
theorem Splices.accounts {xs : List Splice} (h : Splices n p t xs t') (ho : t.Observed) :
    t.Accounts (xs.map (·.announcement t n p)) 0 t' := by
  induction h with
  | nil t => exact .refl t
  | @cons t t' x xs _ _ ih =>
    have hrest := ih (ho.of_observer_eq commit_observer)
    simp only [announcement_splice] at hrest
    exact ho.splice.trans hrest

theorem announcements_insertions {index : Nat} {ds : List Nat} :
    (Sequence.insertions index ds).map (·.announcement t n p) =
      Announcement.additions (t.handle n) p index (ds.map t.handle) := by
  induction ds generalizing index with
  | nil => rfl
  | cons d ds ih =>
    rw [Sequence.insertions, List.map_cons, ih]
    rfl

theorem announcements_removals {ds : List Nat} :
    (ds.map (Splice.remove 0)).map (·.announcement t n p) =
      Announcement.removals (t.handle n) p (ds.map t.handle) := by
  rw [Announcement.removals, List.map_map, List.map_map]
  rfl

end Tree

/-! ## Calls -/

namespace Edit

open TreeM

variable {t t' : Tree} {T : Typing} {e : Edit}

/-- **Every call is accounted for**: those that set a range or marks by the stamp alone, the others by
what they announce. -/
theorem Does.accounts (h : e.Does T t t') (ho : t.Observed) :
    ∃ told, t.Accounts told (if e.isMark then 1 else 0) t' ∧ (e.isMark = true → told = []) := by
  cases h with
  | turn he hturns =>
    obtain ⟨told, haccounts, -⟩ := hturns.accounts ho
    simp only [he]
    exact ⟨told, haccounts, fun hmark => absurd hmark Bool.false_ne_true⟩
  | read he _ _ =>
    simp only [isMark_of_reads he]
    exact ⟨_, ho.materialized, fun hmark => absurd hmark Bool.false_ne_true⟩
  | setRange _ _ | setFlags _ _ => exact ⟨[], ⟨by simp [Tree.amended], rfl⟩, fun _ => rfl⟩
  | copy _ _ => exact ⟨_, ho.planted, fun hmark => absurd hmark Bool.false_ne_true⟩
  | observe _ => exact ⟨[], ⟨by simp, rfl⟩, fun hmark => absurd hmark Bool.false_ne_true⟩

/-- **A call that has nothing to do.** -/
inductive Idle (t : Tree) : Edit → Prop
  /-- the child to be read is there -/
  | read {e : Edit} {n : NodeId} {p : Property} {c : NodeId} : e.reads = some (n, p) →
    t.peekChild n p = .ok (some c) → Idle t e
  /-- the child to be cleared is not there -/
  | clearChild {n : NodeId} {p : Property} : t.peekChild n p = .ok none → Idle t (.clearChild n p)
  | clearValue {n : NodeId} {p : Property} : t.peekChild n p = .ok none →
    Idle t (.setValue n p (.child none))
  /-- the node to be detached is a root -/
  | detach {n : NodeId} : t.parent n = .ok none → Idle t (.detach n)
  | extend {n : NodeId} {p : Property} : Idle t (.list n p (.extend []))
  | clear {n : NodeId} {p : Property} {s : Sequence} : t.sequence n p = .ok s →
    t.elements s = .ok [] → Idle t (.list n p .clear)

theorem clearChild_idle {n : NodeId} {p : Property} (hf : Arena.Forest t.records)
    (h : t.peekChild n p = .ok none) : (n.clearChild p).Atomic t fun _ t' => t' = t := by
  refine (NodeId.clearChild_settles hf).atomic.mono fun _ t' ⟨_, _, hc⟩ => ?_
  obtain ⟨-, -, ht'⟩ | ⟨c, -, hx, -⟩ := hc
  · exact ht'
  · -- what would be taken out is not there to be peeked at
    obtain ⟨-, -, old, hold, hnone⟩ := Tree.peekChild_ok h
    obtain rfl := Option.map_eq_none_iff.1 hnone
    have hmem : [c] = [] := hx.applies.symm.trans (Tree.currentChild_members hold).2
    cases hmem

/-- A call on a list comes to what the list makes of the edit. -/
theorem list_atomic {n : NodeId} {p : Property} {s : Sequence} {edit : ListEdit} {Q : Tree → Prop}
    (hs : t.sequence n p = .ok s) (h : (s.apply edit).Atomic t fun _ => Q) :
    (list n p edit).run.Atomic t fun _ => Q := by
  refine .look_bind fun s' hs' => .bind_pure ?_
  obtain rfl : s = s' := Except.ok.inj (hs.symm.trans hs')
  exact h

/-- **A call that has nothing to do does nothing.** -/
theorem Idle.unchanged (h : t.Sound T) (he : e.Idle t) : after e.run t = t := by
  have hf := h.forest
  suffices hrun : e.run.Atomic t fun _ t' => t' = t from hrun.after rfl
  cases he with
  | @read _ n p c hreads hc =>
    have hchild : (n.child p).Atomic t fun _ t' => t' = t := .of_ok (NodeId.child_of_peek hc) rfl
    cases e <;> cases hreads
    · exact .bind_pure hchild
    · exact .bind_pure (Typed.required_atomic hf hchild)
    · exact .bind_pure (NodeId.value_atomic rfl hchild)
  | clearChild hnone => exact .bind_pure (clearChild_idle hf hnone)
  | @clearValue n p hnone =>
    obtain ⟨_, -, hpeek⟩ := bind_eq_ok.1 hnone
    obtain ⟨ty, hty, -⟩ := bind_eq_ok.1 hpeek
    refine .bind_pure (.look_bind fun _ _ => ?_)
    simp only [Property.childType_eq_ok.1 hty]
    exact .bind_pure (clearChild_idle hf hnone)
  | @detach n hroot =>
    refine .bind_pure ((NodeId.detach_settles hf).atomic.mono fun _ t' ⟨hn, hc⟩ => ?_)
    obtain ⟨-, ht'⟩ | ⟨l, -, hl, -⟩ := hc
    · exact ht'
    · cases hroot.symm.trans (Tree.parent_eq_some.2 ⟨hn, l, hl, rfl⟩)
  | @extend n p =>
    refine .look_bind fun s hs => .bind_pure (.bind_pure ?_)
    obtain ⟨ho, -, -⟩ := Sequence.sequence_eq_ok.1 hs
    refine (Sequence.extend_settles hf ho).atomic.mono fun _ t' ⟨_, ds, _, hds, hsplices⟩ => ?_
    obtain rfl := List.map_eq_nil_iff.1 hds.symm
    cases hsplices
    rfl
  | @clear n p s hs hnone =>
    obtain ⟨ho, -, -⟩ := Sequence.sequence_eq_ok.1 hs
    refine list_atomic hs ((Sequence.clear_settles hf ho).atomic.mono
      fun _ t' ⟨ds, hds, _, hsplices⟩ => ?_)
    rw [Tree.elements, hds] at hnone
    obtain rfl := List.map_eq_nil_iff.1 (Except.ok.inj hnone)
    cases hsplices
    rfl

/-- **A batch is announced element by element**, at the end of the list. -/
theorem extend_accounts {n : NodeId} {p : Property} {s : Sequence} {es cs : List NodeId}
    (h : t.Sound T) (ho : t.Observed) (hs : t.sequence n p = .ok s) (hes : t.elements s = .ok es) :
    (list n p (.extend cs)).run.Atomic t fun _ => t.Accounts (Announcement.additions n p es.length cs) 0 := by
  refine list_atomic hs (.bind_pure ?_)
  obtain ⟨hopen, rfl, rfl⟩ := Sequence.sequence_eq_ok.1 hs
  refine (Sequence.extend_settles h.forest hopen).atomic.mono
    fun _ t' ⟨items, ds, hitems, hds, hsplices⟩ => ?_
  rw [Tree.elements, hitems] at hes
  obtain rfl := Except.ok.inj hes
  have haccounts := hsplices.accounts ho
  rwa [Tree.announcements_insertions, Tree.handle_index hopen.owned, ← hds,
    ← List.length_map (f := t.handle)] at haccounts

/-- **…and so are the elements that a list is cleared of.** -/
theorem clear_accounts {n : NodeId} {p : Property} {s : Sequence} {es : List NodeId}
    (h : t.Sound T) (ho : t.Observed) (hs : t.sequence n p = .ok s) (hes : t.elements s = .ok es) :
    (list n p .clear).run.Atomic t fun _ => t.Accounts (Announcement.removals n p es) 0 := by
  refine list_atomic hs ?_
  obtain ⟨hopen, rfl, rfl⟩ := Sequence.sequence_eq_ok.1 hs
  refine (Sequence.clear_settles h.forest hopen).atomic.mono
    fun _ t' ⟨ds, hds, _, hsplices⟩ => ?_
  rw [Tree.elements, hds] at hes
  obtain rfl := Except.ok.inj hes
  have haccounts := hsplices.accounts ho
  rwa [Tree.announcements_removals, Tree.handle_index hopen.owned] at haccounts

end Edit

end SyntaxForest
