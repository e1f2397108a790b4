import SyntaxForest.Proofs.Edit.Change

/-!
# Proofs/Edit/Mirror — the children of a tree, from what its observer was told

An observer that listens to the end of each change can keep a **replica** of all that hangs together in
the tree: a row of children for every slot of every node.  Each event says how one row changes.

What one change tells is *right*: it takes the row to hold what the row does hold, and afterwards the
replica and the tree agree again (`Tree.Change.told`).  So they agree after a run of changes, which is
`Tree.Mirrored`.

* `Tree.Change.told` — **one change**: at most one event, and that is right.
* `Tree.Changes.mirrored` — **all changes**: the replica follows the tree.
-/

namespace SyntaxForest

/-! ## Replicas -/

/-- Which children the slots of nodes hold. -/
def Replica : Type := NodeId → Nat → List NodeId

namespace Replica

/-- The replica of a tree without nodes. -/
def empty : Replica := fun _ _ => []

/-- The replica with the row of one slot changed. -/
def edit (R : Replica) (n : NodeId) (slot : Nat) (f : List NodeId → List NodeId) : Replica :=
  fun m s => if m = n ∧ s = slot then f (R m s) else R m s

/-- The replica after an event. -/
def apply (R : Replica) : Event → Replica
  | .replaceChild n p _ new => R.edit n p.slot fun _ => new.toList
  | .addChild n p index c => R.edit n p.slot (·.insertIdx index c)
  | .removeChild n p index _ => R.edit n p.slot (·.eraseIdx index)
  | .replaceElement n p index _ new => R.edit n p.slot (·.set index new)
  | .lazyInit n p c => R.edit n p.slot fun _ => [c]
  | .valueChange _ _ | .clone _ _ => R

/-- The replica after some events. -/
def replay (es : List Event) : Replica := es.foldl apply empty

theorem replay_append_singleton (es : List Event) (e : Event) :
    replay (es ++ [e]) = (replay es).apply e := by
  rw [replay, List.foldl_append]
  rfl

/-- No slot holds the node. -/
def Lacks (R : Replica) (c : NodeId) : Prop := ∀ n slot, c ∉ R n slot

/-- **An event is right for a replica**: a child that goes out is where the event says, a child that comes
in is not there yet, and an index is one of the row, or the end of it for a child that is added. -/
def Right (R : Replica) : Event → Prop
  | .replaceChild n p old new => R n p.slot = old.toList ∧ ∀ c, new = some c → R.Lacks c
  | .addChild n p index c => index ≤ (R n p.slot).length ∧ R.Lacks c
  | .removeChild n p index c => (R n p.slot)[index]? = some c
  | .replaceElement n p index old new => (R n p.slot)[index]? = some old ∧ R.Lacks new
  | .lazyInit n p c => R n p.slot = [] ∧ R.Lacks c
  | .valueChange _ _ | .clone _ _ => True

end Replica

namespace Tree

variable {t t' : Tree} {T : Typing} {n : Nat} {p : Property} {k : Kind} {x : Splice} {e : Event}

/-- What the slots of the tree hold. -/
def contents (t : Tree) : Replica := fun n slot =>
  if n.tree = t.id then (Arena.membersAt t.records n.index slot).map t.handle else []

/-- The events that were announced after the fact, oldest first. -/
def posts (t : Tree) : List Event :=
  (t.journal.toList.filter (·.phase = .post)).map (·.event)

/-- An observer listens to the end of each change. -/
def Followed (t : Tree) : Prop := t.observer.any (·.hearsPost) = true

/-- **The tree is mirrored by what was told of it**: every event was right for the replica that the
events before it had led to, and the replica that all of them lead to is what the tree holds. -/
structure Mirrored (t : Tree) : Prop where
  right : ∀ before e after, t.posts = before ++ e :: after → (Replica.replay before).Right e
  contents : Replica.replay t.posts = t.contents

/-! ## What is told -/

theorem posts_tell_pre : (t.tell .pre e).posts = t.posts := by
  unfold tell posts
  split
  · simp
  · rfl

theorem Followed.posts_tell (h : t.Followed) : (t.tell .post e).posts = t.posts ++ [e] := by
  have hhears : t.observer.any (·.hears .post) = true := h
  unfold tell posts
  rw [if_pos hhears]
  simp

theorem Followed.of_observer_eq (h : t.Followed) (ho : t'.observer = t.observer) : t'.Followed := by
  rwa [Followed, ho]

theorem Followed.posts_commit {a : Arena} (h : t.Followed) :
    (t.commit e a).posts = t.posts ++ [e] := by
  have hbetween : Followed { t.tell .pre e with records := a, stamp := t.stamp + 1 } :=
    h.of_observer_eq (t.tell_observer .pre e)
  rw [commit, hbetween.posts_tell]
  exact congrArg (· ++ [e]) posts_tell_pre

theorem Followed.posts_materialized (h : t.Followed) : (t.materialized n p k).posts =
    t.posts ++ [.lazyInit (t.handle n) p (t.handle t.size)] :=
  Followed.posts_tell (h.of_observer_eq rfl)

/-- No change takes the observer away. -/
theorem Change.observer_eq (h : t.Change T t') : t'.observer = t.observer := by
  cases h with
  | create _ | setRange _ _ _ | setFlags _ _ _ => rfl
  | splice _ _ _ _ _ | write _ _ _ _ => exact commit_observer
  | materialize _ _ _ _ => exact materialized_observer

/-! ## What the slots hold after a change -/

theorem contents_congr (hid : t'.id = t.id)
    (h : ∀ i s, Arena.membersAt t'.records i s = Arena.membersAt t.records i s) :
    t'.contents = t.contents := by
  funext m s
  have hhandle : t'.handle = t.handle := by
    funext i
    rw [handle, handle, hid]
  rw [contents, contents, hid, h, hhandle]

theorem contents_created : (t.created k).contents = t.contents := by
  refine contents_congr rfl fun i s => ?_
  rcases Nat.lt_or_ge i t.records.size with hi | hi
  · exact Arena.membersAt_of_old (fun _ => Arena.getElem?_push_old) hi
  · rw [created, Arena.membersAt_push_fresh hi]
    simp [Arena.membersAt, Arena.slotAt, Array.getElem?_eq_none hi]

/-- What the slot of a node of the tree holds, by handles. -/
theorem contents_handle (i s : Nat) :
    t.contents (t.handle i) s = (Arena.membersAt t.records i s).map t.handle := if_pos rfl

/-- The row of a slot after a splice, by handles. -/
def spliceRow (t : Tree) : Splice → List NodeId → List NodeId
  | .replace _ new => fun _ => (new.map t.handle).toList
  | .insert index c => (·.insertIdx index (t.handle c))
  | .remove index _ => (·.eraseIdx index)
  | .exchange index _ new => (·.set index (t.handle new))

theorem spliceRow_map (x : Splice) (cs : List Nat) :
    t.spliceRow x (cs.map t.handle) = (x.apply cs).map t.handle := by
  cases x with
  | replace old new => cases new <;> rfl
  | insert index c => exact (List.map_insertIdx ..).symm
  | remove index c => exact (List.eraseIdx_map ..)
  | exchange index old new => exact (List.map_set ..).symm

theorem apply_event (R : Replica) : R.apply (x.event t n p) =
    R.edit (t.handle n) p.slot (t.spliceRow x) := by
  cases x <;> rfl

/-- **A splice of the arena changes one row of the contents.** -/
theorem contents_rewire (hf : Arena.Forest t.records) (hx : Arena.Admits t.records n p x)
    (hid : t'.id = t.id) (hrecords : t'.records = Arena.rewire t.records n p x) :
    t'.contents = t.contents.apply (x.event t n p) := by
  have hhandle : t'.handle = t.handle := by
    funext i
    rw [handle, handle, hid]
  rw [apply_event]
  funext m s
  obtain ⟨tree, i⟩ := m
  rw [Replica.edit]
  by_cases htree : tree = t.id
  · obtain rfl := htree
    change t'.contents (t.handle i) s = if t.handle i = t.handle n ∧ s = p.slot then
      t.spliceRow x (t.contents (t.handle i) s) else t.contents (t.handle i) s
    rw [← hhandle, contents_handle, hhandle, contents_handle, hrecords]
    split
    · next hslot =>
      obtain ⟨hi, rfl⟩ := hslot
      obtain rfl : i = n := congrArg NodeId.index hi
      rw [Arena.membersAt_rewire hf hx, spliceRow_map]
    · next hslot =>
      have hne : ¬(i = n ∧ s = p.slot) := fun h => hslot ⟨congrArg t.handle h.1, h.2⟩
      rw [Arena.membersAt_rewire_of_ne hne]
  · have hne : ¬((⟨tree, i⟩ : NodeId) = t.handle n ∧ s = p.slot) := fun h =>
      htree (congrArg NodeId.tree h.1)
    rw [if_neg hne, contents, contents, hid, if_neg htree, if_neg htree]

/-- A root stands in no slot. -/
theorem contents_lacks (hf : Arena.Forest t.records) {c : Nat}
    (hc : Arena.locationAt t.records c = none) : t.contents.Lacks (t.handle c) := by
  intro n s hmem
  rw [contents] at hmem
  split at hmem
  · obtain ⟨d, hd, heq⟩ := List.mem_map.1 hmem
    cases heq
    exact hf.not_mem_of_root hc hd
  · cases hmem

/-! ## One change -/

/-- What a splice tells is right. -/
theorem Allows.right (hf : Arena.Forest t.records) (hx : t.Allows n p x) :
    t.contents.Right (x.event t n p) := by
  have hholds := hx.applies
  have hrow := t.contents_handle n p.slot
  have hlacks : ∀ c, x.added = some c → t.contents.Lacks (t.handle c) := fun c hc =>
    contents_lacks hf (hx.welcomes c hc).free
  cases x with
  | replace old new =>
    refine ⟨?_, fun c hc => ?_⟩
    · rw [hrow, show _ = old.toList from hholds]
      cases old <;> rfl
    · obtain ⟨d, hd, rfl⟩ := Option.map_eq_some_iff.1 hc
      exact hlacks d hd
  | insert index c =>
    refine ⟨?_, hlacks c rfl⟩
    rw [hrow, List.length_map]
    exact hholds
  | remove index c =>
    change (t.contents (t.handle n) p.slot)[index]? = _
    rw [hrow, List.getElem?_map, show _ = some c from hholds]
    rfl
  | exchange index old new =>
    refine ⟨?_, hlacks new rfl⟩
    rw [hrow, List.getElem?_map, show _ = some old from hholds]
    rfl

/-- What a placeholder that comes to exist tells is right. -/
theorem Lacks.right (hf : Arena.Forest t.records) (h : t.Lacks n p k) :
    t.contents.Right (.lazyInit (t.handle n) p (t.handle t.size)) := by
  refine ⟨?_, ?_⟩
  · rw [contents_handle, h.unset]
    rfl
  · rw [← contents_created (k := k)]
    exact contents_lacks (t := t.created k) hf.push_fresh (Arena.locationAt_push_fresh (Nat.le_refl _))

/-- **One change tells at most one event**, which is right and says all that becomes of the children. -/
theorem Change.told (ht : t.Sound T) (hfollowed : t.Followed) (h : t.Change T t') :
    (t'.posts = t.posts ∧ t'.contents = t.contents) ∨
      ∃ e, t'.posts = t.posts ++ [e] ∧ t.contents.Right e ∧ t'.contents = t.contents.apply e := by
  cases h with
  | create k => exact .inl ⟨rfl, contents_created⟩
  | splice n p x hx _ =>
    exact .inr ⟨_, hfollowed.posts_commit, hx.right ht.forest,
      contents_rewire ht.forest hx.admits splice_id splice_records⟩
  | materialize n p k hk =>
    refine .inr ⟨_, hfollowed.posts_materialized, hk.right ht.forest, ?_⟩
    have hcreated : (t.created k).Sound T := ht.create
    have hcontents : (t.materialized n p k).contents = (t.created k).contents.apply
        (.lazyInit (t.handle n) p (t.handle t.size)) :=
      contents_rewire hcreated.forest (hk.admits ht.forest) materialized_id materialized_records
    rw [contents_created] at hcontents
    exact hcontents
  | write n p v hv =>
    refine .inr ⟨_, hfollowed.posts_commit, trivial, contents_congr commit_id fun i s => ?_⟩
    rw [written, commit_records]
    exact Arena.membersAt_modify fun r hr => hv.members_set ht.forest hr
  | setRange n range _ | setFlags n flags _ =>
    exact .inl ⟨rfl, contents_congr rfl fun i s => Arena.membersAt_modify fun _ _ _ => rfl⟩

/-! ## All changes -/

theorem Mirrored.start (id : Nat) (config : Config) : (start id config).Mirrored where
  right before e after h := by
    have hlen := congrArg List.length h
    simp [posts, Tree.start] at hlen
  contents := by
    funext n s
    simp [posts, Tree.start, Tree.contents, Replica.replay, Replica.empty, Arena.membersAt,
      Arena.slotAt]

/-- What changes neither the events nor the contents changes nothing about the mirror. -/
theorem Mirrored.congr (h : t.Mirrored) (hposts : t'.posts = t.posts)
    (hcontents : t'.contents = t.contents) : t'.Mirrored where
  right before e after he := h.right before e after (hposts ▸ he)
  contents := by rw [hposts, h.contents, hcontents]

/-- **A change keeps the mirror.** -/
theorem Change.mirrored (ht : t.Sound T) (hfollowed : t.Followed) (h : t.Change T t')
    (hm : t.Mirrored) : t'.Mirrored := by
  obtain ⟨hposts, hcontents⟩ | ⟨e, hposts, hright, hcontents⟩ := h.told ht hfollowed
  · exact hm.congr hposts hcontents
  · refine ⟨fun before e' after he => ?_, ?_⟩
    · rw [hposts] at he
      rcases List.eq_nil_or_concat after with rfl | ⟨after, last, rfl⟩
      · obtain ⟨rfl, hlast⟩ := List.append_inj' he rfl
        obtain rfl : e = e' := List.singleton_inj.1 hlast
        rw [hm.contents]
        exact hright
      · refine hm.right before e' after ?_
        rw [List.concat_eq_append, ← List.cons_append, ← List.append_assoc] at he
        exact (List.append_inj' he rfl).1
    · rw [hposts, Replica.replay_append_singleton, hm.contents, hcontents]

/-- **…and so do all changes.** -/
theorem Changes.mirrored (ht : t.Sound T) (hfollowed : t.Followed) (h : t.Changes T t')
    (hm : t.Mirrored) : t'.Followed ∧ t'.Mirrored := by
  induction h with
  | refl => exact ⟨hfollowed, hm⟩
  | tail hr hs ih =>
    exact ⟨ih.1.of_observer_eq hs.observer_eq, hs.mirrored ((Changes.reaches hr).sound ht) ih.1 ih.2⟩

end Tree

end SyntaxForest
