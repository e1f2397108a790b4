import SyntaxForest.Proofs.Edit.Run

/-!
# Proofs/Session/Run — what a session does in one command, and in all

A command takes each tree of a session some steps on (`Session.LeadsTo`), and the images it adds are
sound.  So what every tree keeps, every tree of a reachable session has.

* `Session.Leaves` — what can be said of the session that an action leaves, whatever becomes of it.
* `Session.after_leadsTo` — **one command**, whether it succeeds or fails.
* `Session.Reachable.sound` — **all commands**: reachable sessions are sound.
* `Session.Sound.leadsTo_later` — further commands lead on from a sound session.
-/

namespace SyntaxForest

/-- Whether a command is a call on one tree. -/
def Command.isEdit : Command → Bool
  | .edit _ _ => true
  | _ => false

namespace Session

variable {α β : Type} {s s' s'' : Session} {i number : Nat} {t : Tree} {image : Image} {T : Typing}

/-! ## Questions -/

section Look

variable {f : Session → Except Failure α} {k : α → SessionM β}

theorem look_bind_run {x : α} (h : f s = .ok x) : (look f >>= k) s = k x s := by
  simp [bind, EStateM.bind, look, h]

theorem look_bind_error {e : Failure} (h : f s = .error e) : (look f >>= k) s = .error e s := by
  simp [bind, EStateM.bind, look, h]

/-- A question that comes first has an answer in every run that succeeds. -/
theorem exists_of_look_bind_ok {y : β} (h : (look f >>= k) s = .ok y s') :
    ∃ x, f s = .ok x ∧ k x s = .ok y s' := by
  rcases hf : f s with e | x
  · cases (look_bind_error hf).symm.trans h
  · exact ⟨x, rfl, (look_bind_run hf).symm.trans h⟩

end Look

/-! ## Actions, whatever becomes of them -/

/-- The action leaves a session of the sort, whether it succeeds or fails. -/
def Leaves (P : Session → Prop) (m : SessionM α) (s : Session) : Prop :=
  match m s with
  | .ok _ s' | .error _ s' => P s'

section Leaves

variable {P Q : Session → Prop}

theorem Leaves.pure {x : α} (h : P s) : Leaves P (pure x) s := h

theorem Leaves.look_bind {f : Session → Except Failure α} {k : α → SessionM β} (hs : P s)
    (h : ∀ x, f s = .ok x → Leaves P (k x) s) : Leaves P (look f >>= k) s := by
  rcases hf : f s with e | x
  · rwa [Leaves, look_bind_error hf]
  · rw [Leaves, look_bind_run hf]
    exact h x hf

/-- Where the first action fails, what it leaves is what both leave. -/
theorem Leaves.bind {m : SessionM α} {k : α → SessionM β} (h : Leaves Q m s)
    (hfails : ∀ s', Q s' → P s') (hk : ∀ x s', Q s' → Leaves P (k x) s') :
    Leaves P (m >>= k) s := by
  rw [Leaves] at h ⊢
  rcases hm : m s with ⟨x, s'⟩ | ⟨e, s'⟩ <;> rw [hm] at h
  · have hx := hk x s' h
    rw [Leaves] at hx
    rcases hkx : k x s' with ⟨y, s''⟩ | ⟨e, s''⟩ <;> rw [hkx] at hx <;>
      simpa [Bind.bind, EStateM.bind, hm, hkx] using hx
  · simpa [Bind.bind, EStateM.bind, hm] using hfails s' h

theorem Leaves.mono {m : SessionM α} (h : Leaves Q m s) (hQ : ∀ s', Q s' → P s') :
    Leaves P m s := by
  rw [Leaves] at h ⊢
  rcases hm : m s with ⟨x, s'⟩ | ⟨e, s'⟩ <;> rw [hm] at h <;> exact hQ s' h

/-- …in particular when it succeeds. -/
theorem Leaves.of_ok {m : SessionM α} {x : α} (h : Leaves P m s) (hrun : m s = .ok x s') : P s' := by
  rw [Leaves, hrun] at h
  exact h

/-- …and when it fails. -/
theorem Leaves.of_error {m : SessionM α} {e : Failure} (h : Leaves P m s) (hrun : m s = .error e s') : P s' := by
  rw [Leaves, hrun] at h
  exact h

theorem Leaves.after {c : Command} (h : Leaves P (run c) s) : P (after c s) := by
  rw [Leaves] at h
  rw [Session.after]
  rcases hr : run c s with ⟨x, s'⟩ | ⟨e, s'⟩ <;> rw [hr] at h <;> exact h

end Leaves

/-! ## Later sessions -/

/-- **What every session keeps**: a tree has the id that goes with its number, and trees and images are
sound. -/
structure Sound (T : Typing) (s : Session) : Prop where
  ids : ∀ {i : Nat} {t : Tree}, s.trees[i]? = some t → t.id = Tree.idOf i
  trees : ∀ {i : Nat} {t : Tree}, s.trees[i]? = some t → t.Sound T
  images : ∀ {i : Nat} {image : Image}, s.images[i]? = some image → image.Sound T

/-- **A later session**: each tree is some steps on, and images were added only. -/
structure LeadsTo (T : Typing) (s s' : Session) : Prop where
  size : s'.trees.size = s.trees.size
  trees : ∀ {i : Nat} {t : Tree}, s.trees[i]? = some t →
    ∃ t', s'.trees[i]? = some t' ∧ t.Reaches T t'
  images : ∀ {i : Nat} {image : Image}, s'.images[i]? = some image →
    s.images[i]? = some image ∨ image.Sound T

theorem LeadsTo.refl (s : Session) : s.LeadsTo T s := ⟨rfl, fun h => ⟨_, h, .refl⟩, .inl⟩

theorem LeadsTo.trans (h : s.LeadsTo T s') (h' : s'.LeadsTo T s'') : s.LeadsTo T s'' where
  size := h'.size.trans h.size
  trees ht := by
    obtain ⟨t', ht', hr⟩ := h.trees ht
    obtain ⟨t'', ht'', hr'⟩ := h'.trees ht'
    exact ⟨t'', ht'', hr.trans hr'⟩
  images hi := by
    rcases h'.images hi with hi | hi
    · exact h.images hi
    · exact .inr hi

/-- A tree of a later session comes from the tree with the same number. -/
theorem LeadsTo.exists_earlier {t' : Tree} (h : s.LeadsTo T s')
    (ht' : s'.trees[i]? = some t') : ∃ t, s.trees[i]? = some t ∧ t.Reaches T t' := by
  obtain ⟨hlt, -⟩ := Array.getElem?_eq_some_iff.1 ht'
  rw [h.size] at hlt
  obtain ⟨t'', ht'', hr⟩ := h.trees (Array.getElem?_eq_getElem hlt)
  rw [ht'] at ht''
  cases ht''
  exact ⟨_, Array.getElem?_eq_getElem hlt, hr⟩

theorem LeadsTo.sound (h : s.LeadsTo T s') (hs : s.Sound T) : s'.Sound T where
  ids ht' := by
    obtain ⟨t, ht, hr⟩ := h.exists_earlier ht'
    exact hr.id_config.1.trans (hs.ids ht)
  trees ht' := by
    obtain ⟨t, ht, hr⟩ := h.exists_earlier ht'
    exact hr.sound (hs.trees ht)
  images hi := by
    rcases h.images hi with hi | hi
    · exact hs.images hi
    · exact hi

/-! ## Questions and actions on one tree -/

theorem tree_eq_ok : s.tree number = .ok t ↔ s.trees[number]? = some t := by
  rw [tree, numbered, breach]
  split <;> simp_all

theorem image_eq_ok :
    s.image number = .ok image ↔ s.images[number]? = some image := by
  rw [Session.image, numbered, breach]
  split <;> simp_all

/-- An action on one tree that succeeds puts the tree that it leaves in the place of the one it found. -/
theorem act_eq_ok {a : TreeM α} {x : α} : act number a s = .ok x s' ↔ ∃ t t',
    s.trees[number]? = some t ∧ a t = .ok x t' ∧
      s' = { s with trees := s.trees.setIfInBounds number t' } := by
  constructor
  · intro h
    rw [act] at h
    rcases ht : s.tree number with e | t <;> simp only [ht] at h
    · cases h
    · rcases ha : a t with ⟨y, t'⟩ | ⟨e, t'⟩ <;> simp only [ha] at h <;> cases h
      exact ⟨t, t', tree_eq_ok.1 ht, ha, rfl⟩
  · rintro ⟨t, t', ht, ha, rfl⟩
    simp only [act, tree_eq_ok.2 ht, ha]

/-- An action on one tree that fails does so for lack of the tree, or puts the tree that it leaves in the
place of the one it found. -/
theorem of_act_eq_error {a : TreeM α} {e : Failure} (h : act number a s = .error e s') :
    s.tree number = .error e ∧ s' = s ∨ ∃ t t', s.trees[number]? = some t ∧ a t = .error e t' ∧
      s' = { s with trees := s.trees.setIfInBounds number t' } := by
  rw [act] at h
  rcases ht : s.tree number with e' | t <;> simp only [ht] at h
  · cases h
    exact .inl ⟨rfl, rfl⟩
  · rcases ha : a t with ⟨x, t'⟩ | ⟨e', t'⟩ <;> simp only [ha] at h <;> cases h
    exact .inr ⟨t, t', tree_eq_ok.1 ht, ha, rfl⟩

/-- An action on one tree leaves the session with what it makes of the tree. -/
theorem Leaves.act {P : Session → Prop} {a : TreeM α} (hs : P s)
    (h : ∀ t, s.trees[number]? = some t →
      P { s with trees := s.trees.setIfInBounds number (TreeM.after a t) }) :
    Leaves P (act number a) s := by
  rw [Leaves, Session.act]
  rcases ht : s.tree number with e | t
  · exact hs
  · have hleft := h t (tree_eq_ok.1 ht)
    rw [TreeM.after] at hleft
    rcases hm : a t with ⟨x, t'⟩ | ⟨e, t'⟩ <;> rw [hm] at hleft <;> simpa only [hm] using hleft

/-- Putting a tree where it is changes nothing. -/
theorem setIfInBounds_same (ht : s.trees[number]? = some t) :
    s.trees.setIfInBounds number t = s.trees := by
  obtain ⟨hlt, rfl⟩ := Array.getElem?_eq_some_iff.1 ht
  rw [Array.setIfInBounds_def, dif_pos hlt, Array.set_getElem_self]

/-- A tree that takes the place of another one is found there. -/
theorem getElem?_setIfInBounds_same (ht : s.trees[number]? = some t) (u : Tree) :
    (s.trees.setIfInBounds number u)[number]? = some u :=
  Array.getElem?_setIfInBounds_self_of_lt (Array.getElem?_eq_some_iff.1 ht).1

/-- **One tree is exchanged, the others stay**: each tree is followed by one that it is related to, if the
exchanged one is. -/
theorem exists_setIfInBounds {P : Tree → Tree → Prop} {u t' : Tree} (ht : s.trees[number]? = some t)
    (h : P t t') (hu : s.trees[i]? = some u) (hrefl : P u u) :
    ∃ u', (s.trees.setIfInBounds number t')[i]? = some u' ∧ P u u' := by
  rw [Array.getElem?_setIfInBounds]
  split
  · next hi =>
    subst hi
    obtain rfl : t = u := Option.some.inj (ht.symm.trans hu)
    exact ⟨t', if_pos (Array.getElem?_eq_some_iff.1 ht).1, h⟩
  · exact ⟨u, hu, hrefl⟩

/-! ## Commands that only add -/

/-- **An image that is at hand**: one that was kept, or one that a tree gives now. -/
inductive Holds (s : Session) (image : Image) : Prop
  | kept {number : Nat} : s.images[number]? = some image → Holds s image
  | taken {t : Tree} {n : NodeId} : t ∈ s.trees → t.snapshot n = .ok image → Holds s image

/-- **What is added to a session at once**: an image that is at hand is planted at the end of a tree, or
kept, or else a locator is. -/
inductive Adds (s : Session) : Session → Prop
  | plant {number : Nat} {t : Tree} {image : Image} : s.trees[number]? = some t → s.Holds image →
    image.checkPlantable t.shape = .ok () →
    Adds s { s with trees := s.trees.setIfInBounds number (t.planted image) }
  | keep {image : Image} : s.Holds image → Adds s { s with images := s.images.push image }
  | locate (locator : Locator) : Adds s { s with locators := s.locators.push locator }

/-- Some additions, one after the other. -/
def Additions : Session → Session → Prop := Relation.ReflTransGen Adds

/-- A session with one tree some steps on. -/
theorem LeadsTo.of_tree {t' : Tree} (ht : s.trees[number]? = some t) (hr : t.Reaches T t') :
    s.LeadsTo T { s with trees := s.trees.setIfInBounds number t' } where
  size := Array.size_setIfInBounds
  trees hu := exists_setIfInBounds ht hr hu .refl
  images := .inl

theorem Sound.tree (h : s.Sound T) (ht : t ∈ s.trees) : t.Sound T := by
  obtain ⟨i, hi⟩ := Array.mem_iff_getElem?.1 ht
  exact h.trees hi

theorem Holds.sound (h : s.Sound T) (hi : s.Holds image) : image.Sound T := by
  cases hi with
  | kept hi => exact h.images hi
  | taken ht hi => exact Tree.snapshot_sound (h.tree ht).typed hi

/-- **An addition leads on.** -/
theorem Adds.leadsTo (h : s.Sound T) (hadds : s.Adds s') : s.LeadsTo T s' := by
  cases hadds with
  | plant ht hi hcheck => exact .of_tree ht (Tree.Step.plant _ (hi.sound h) hcheck).reaches
  | locate _ => exact ⟨rfl, fun ht => ⟨_, ht, .refl⟩, .inl⟩
  | @keep image hi =>
    refine ⟨rfl, fun ht => ⟨_, ht, .refl⟩, fun {i image'} hi' => ?_⟩
    change (s.images.push image)[i]? = some image' at hi'
    rw [Array.getElem?_push] at hi'
    split at hi'
    · cases hi'
      exact .inr (hi.sound h)
    · exact .inl hi'

theorem Additions.leadsTo (h : s.Sound T) (hadds : s.Additions s') : s.LeadsTo T s' := by
  induction hadds with
  | refl => exact .refl s
  | tail _ hadds ih => exact ih.trans (hadds.leadsTo (ih.sound h))

/-- A graft plants the image, or does nothing. -/
theorem graft_adds (h : s.Sound T) (hi : s.Holds image) :
    Leaves s.Additions (act number image.graft) s := by
  refine .act .refl fun t ht => ?_
  rcases (Image.graft_atomic (hi.sound h)).after_cases with heq | ⟨_, hcheck, -, heq⟩
  · rw [heq, setIfInBounds_same ht]
    exact .refl
  · rw [heq]
    exact .single (.plant ht hi hcheck)

theorem clone_adds (h : s.Sound T) (source : Nat) (n : NodeId) (target : Nat) :
    Leaves s.Additions (clone source n target) s := by
  refine .look_bind .refl fun image hi => graft_adds h ?_
  obtain ⟨t, ht, hi⟩ := bind_eq_ok.1 hi
  exact .taken (Array.mem_of_getElem? (tree_eq_ok.1 ht)) hi

/-- What comes after some additions, and adds, adds to them. -/
theorem Leaves.bind_adds {m : SessionM α} {k : α → SessionM β} (h : s.Sound T)
    (hm : Leaves s.Additions m s)
    (hk : ∀ x s', s'.Sound T → Leaves s'.Additions (k x) s') :
    Leaves s.Additions (m >>= k) s :=
  hm.bind (fun _ hadds => hadds) fun x s' hadds =>
    (hk x s' ((hadds.leadsTo h).sound h)).mono fun _ => hadds.trans

theorem cloneAll_adds (h : s.Sound T) (source : Nat) (ns : List NodeId) (target : Nat) :
    Leaves s.Additions (cloneAll source ns target) s := by
  rw [cloneAll]
  induction ns generalizing s with
  | nil => exact .pure .refl
  | cons n ns ih =>
    rw [List.mapM_cons]
    exact .bind_adds h (clone_adds h source n target) fun _ _ h' =>
      .bind_adds h' (ih h') fun _ _ _ => .pure .refl

/-- **Every command that is no call on one tree adds**, whether it succeeds or fails. -/
theorem run_adds (h : s.Sound T) {c : Command} (hc : c.isEdit = false) :
    Leaves s.Additions (run c) s := by
  cases c with
  | edit number e => cases hc
  | snapshot tree n =>
    refine .bind_adds h (.look_bind .refl fun image hi => ?_) fun _ _ _ => .pure .refl
    obtain ⟨t, ht, hi⟩ := bind_eq_ok.1 hi
    exact .single (.keep (.taken (Array.mem_of_getElem? (tree_eq_ok.1 ht)) hi))
  | graft tree number =>
    refine .look_bind .refl fun image hi => .bind_adds h ?_ fun _ _ _ => .pure .refl
    exact graft_adds h (.kept (image_eq_ok.1 hi))
  | clone source n target => exact .bind_adds h (clone_adds h source n target) fun _ _ _ => .pure .refl
  | cloneAll source ns target =>
    exact .bind_adds h (cloneAll_adds h source ns target) fun _ _ _ => .pure .refl
  | locate tree n =>
    exact .bind_adds h (.look_bind .refl fun _ _ => .single (.locate _)) fun _ _ _ => .pure .refl

/-! ## All commands -/

/-- Whatever becomes of a command, it leaves a later session. -/
theorem run_leadsTo (h : s.Sound .declared) (c : Command) : Leaves (s.LeadsTo .declared) (run c) s := by
  by_cases hedit : c.isEdit = true
  · cases c with
    | edit number e =>
      exact .act (.refl s) fun t ht =>
        .of_tree ht (Edit.run_reaches (h.trees ht) e (e.obeys_declared t))
    | _ => cases hedit
  · exact (run_adds h (by simpa using hedit)).mono fun _ hadds => hadds.leadsTo h

/-- **One command leads on**, whether it succeeds or fails. -/
theorem after_leadsTo (h : s.Sound .declared) (c : Command) : s.LeadsTo .declared (after c s) :=
  (run_leadsTo h c).after

/-! ## Runs of commands -/

/-- A session starts with a tree for each configuration. -/
theorem size_start {configs : List Config} : (start configs).trees.size = configs.length := by
  simp [Session.start]

theorem getElem?_start {configs : List Config} :
    (start configs).trees[i]? = configs[i]?.map (Tree.start (Tree.idOf i)) := by
  rw [Session.start, List.getElem?_toArray, List.getElem?_map, List.getElem?_zipIdx, Option.map_map,
    Nat.zero_add]
  rfl

theorem exists_config {configs : List Config} (ht : (start configs).trees[i]? = some t) :
    ∃ config, t = Tree.start (Tree.idOf i) config := by
  obtain ⟨config, -, rfl⟩ := Option.map_eq_some_iff.1 (getElem?_start.symm.trans ht)
  exact ⟨config, rfl⟩

theorem Sound.start (configs : List Config) : (start configs).Sound T where
  ids ht := by
    obtain ⟨config, rfl⟩ := exists_config ht
    rfl
  trees ht := by
    obtain ⟨config, rfl⟩ := exists_config ht
    exact Tree.Sound.start _ config
  images hi := by simp [Session.start] at hi

/-- **Reachable sessions are sound.** -/
theorem Reachable.sound (h : Reachable s) : s.Sound .declared := by
  induction h with
  | start configs => exact .start configs
  | step c _ ih => exact (after_leadsTo ih c).sound ih

theorem Reachable.tree_sound (h : Reachable s) (ht : t ∈ s.trees) : t.Sound .declared :=
  h.sound.tree ht

/-! ## Later sessions -/

/-- The session that further commands lead to. -/
def later (s : Session) (cs : List Command) : Session := cs.foldl (fun s c => after c s) s

theorem Sound.leadsTo_later (h : s.Sound .declared) (cs : List Command) :
    s.LeadsTo .declared (s.later cs) := by
  induction cs generalizing s with
  | nil => exact .refl s
  | cons c cs ih =>
    have hafter := after_leadsTo h c
    exact hafter.trans (ih (hafter.sound h))

theorem Reachable.later (h : Reachable s) (cs : List Command) : Reachable (s.later cs) :=
  .run cs h

/-- A tree of a later session comes from the tree that had its number. -/
theorem Reachable.reaches {cs : List Command} {t' : Tree} (h : Reachable s)
    (ht : s.trees[i]? = some t) (ht' : (s.later cs).trees[i]? = some t') : t.Reaches .declared t' := by
  obtain ⟨u, hu, hr⟩ := (h.sound.leadsTo_later cs).exists_earlier ht'
  obtain rfl : t = u := Option.some.inj (ht.symm.trans hu)
  exact hr

/-- The session that commands lead to from fresh trees. -/
def played (configs : List Config) (cs : List Command) : Session :=
  cs.foldl (fun s c => after c s) (start configs)

/-- What a command answers, if it succeeds. -/
def answer? (c : Command) (s : Session) : Option Reply :=
  match run c s with
  | .ok reply _ => some reply
  | .error _ _ => none

/-- An answer and the session after it are all there is to a command that succeeds. -/
theorem run_of_answer? {c : Command} {reply : Reply} (h : answer? c s = some reply) :
    run c s = .ok reply (after c s) := by
  rw [answer?] at h
  rw [after]
  rcases hr : run c s with ⟨x, s'⟩ | ⟨e, s'⟩ <;> rw [hr] at h <;> cases h
  rfl

theorem Reachable.played (configs : List Config) (cs : List Command) :
    Reachable (played configs cs) :=
  .run cs (.start configs)

end Session

end SyntaxForest
