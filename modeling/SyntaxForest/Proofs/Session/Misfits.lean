import SyntaxForest.Proofs.Edit.Fitting
import SyntaxForest.Proofs.Session.Copies
import SyntaxForest.Proofs.Session.Refusal
import Mathlib.Data.List.Induction

/-!
# Proofs/Session/Misfits — elements of qualified types that are no types

A property that reads a single child declares the type that the owner of its slot declares, with one
exception: the qualifier of a qualified type is to be a type, and the list that it is read out of takes any
node.  An edit of that list may put a node there that is no type, and the node may then be moved, copied
and planted.  Which nodes these are, in trees and in images, is told by the commands (`Session.Misfit`).

* `Typing.strict` — what is declared, and types only among the elements of a qualified type.
* `Session.fitting_or_misfit` — **what does not fit so is a misfit**.
* `Session.Misfit.exists_kind` — **no misfit is a type**.
-/

namespace SyntaxForest

namespace Property

variable {p : Property}

/-- A property declares the type that the owner of its slot declares, except for the qualifier. -/
theorem childType?_primary (hp : p ≠ .qualifiedTypeQualifier) :
    p.primary.form.childType? = p.form.childType? := by
  cases p <;> first | rfl | exact absurd rfl hp

theorem eq_of_primary_elements (hp : p.primary = .qualifiedTypeElements) :
    p = .qualifiedTypeElements ∨ p.form = .child .type := by
  cases p <;> first | exact .inl rfl | exact .inr rfl | cases hp

end Property

namespace Typing

variable {p : Property} {k : Kind} {ty : ChildType}

/-- **What is declared, and types only where qualifiers are read.** -/
def strict : Typing where
  admits p k := declared.admits p k ∧ (p = .qualifiedTypeElements → k.conformsTo .type = true)
  single {p ty k} hp hk := by
    refine ⟨declared.single hp hk, fun heq => ?_⟩
    rcases Property.eq_of_primary_elements heq with rfl | htype
    · cases hp
    · cases hp.symm.trans htype
      exact hk

/-- What passes for a property is admitted, except among the elements of a qualified type. -/
theorem strict_takes (h : p = .qualifiedTypeElements → k.conformsTo .type = true) :
    strict.Takes p k := by
  intro ty hty hk
  refine ⟨declared_takes p k ty hty hk, fun heq => ?_⟩
  rcases Property.eq_of_primary_elements heq with rfl | htype
  · exact h rfl
  · rw [htype] at hty
    cases hty
    exact hk

/-- Types are admitted there. -/
theorem strict_elements (h : k.conformsTo .type = true) : strict.admits .qualifiedTypeElements k :=
  strict_takes (p := .qualifiedTypeElements) (fun _ => h) .any rfl rfl

end Typing

/-- Whatever is edited but the elements of qualified types, what comes in is admitted. -/
theorem Edit.obeys_strict {e : Edit} (he : ∀ n edit, e ≠ .list n .qualifiedTypeElements edit) (t : Tree) :
    e.Obeys .strict t := by
  cases e with
  | list n p edit => exact fun _ _ k _ => Typing.strict_takes fun hp => absurd (hp ▸ rfl) (he n edit)
  | _ => trivial

namespace Session

/-! ## The history of misfits -/

/-- Where a node is: in a tree, at an index, or in an image, at a position. -/
inductive Place where
  | tree (number index : Nat)
  | image (number position : Nat)

/-- The kind of the node at a place. -/
def kindAt (s : Session) : Place → Option Kind
  | .tree number index => s.trees[number]?.bind fun t => Arena.kindAt t.records index
  | .image number position => (s.images[number]?.bind (·.nodes[position]?)).map ImageNode.kind

/-- **What a command copies, and to where.**  The nodes below a node, in the order of a walk, become the
positions of an image or the indices at the end of a tree. -/
inductive Carries (s : Session) : Command → Place → Place → Prop
  | snapshot {i q : Nat} {n d : NodeId} {t : Tree} {a : Subtree} :
    s.trees[i]? = some t → t.subtree n = .ok a → a.nodes[q]? = some d →
    Carries s (.snapshot i n) (.tree i d.index) (.image s.images.size q)
  | graft {i q number : Nat} {u : Tree} : s.trees[i]? = some u →
    Carries s (.graft i number) (.image number q) (.tree i (u.size + q))
  | copy {i j q : Nat} {n d : NodeId} {t u : Tree} {a : Subtree} {c : Command} : Copies i n j c →
    s.trees[i]? = some t → t.subtree n = .ok a → a.nodes[q]? = some d → s.trees[j]? = some u →
    Carries s c (.tree i d.index) (.tree j (u.size + q))

/-- **The misfits**: nodes that an edit of a list put among the elements of a qualified type although they are
no types, and copies of such nodes.  A row of copies is told as the copies that were made, one by one. -/
inductive Misfit (configs : List Config) : List Command → Place → Prop
  | put {cs : List Command} {i : Nat} {t : Tree} {n d : NodeId} {edit : ListEdit} {k : Kind}
      {reply : Reply} {s' : Session} : (played configs cs).trees[i]? = some t →
    run (.edit i (.list n .qualifiedTypeElements edit)) (played configs cs) = .ok reply s' →
    d ∈ edit.newcomers → t.kind d = .ok k → k.conformsTo .type = false →
    Misfit configs (cs ++ [.edit i (.list n .qualifiedTypeElements edit)]) (.tree i d.index)
  | copied {cs : List Command} {c : Command} {x y : Place} {reply : Reply} {s' : Session} :
    Misfit configs cs x → (played configs cs).Carries c x y →
    run c (played configs cs) = .ok reply s' → Misfit configs (cs ++ [c]) y
  | cloned {cs : List Command} {i j : Nat} {ns done : List NodeId} {x : Place} : done <+: ns →
    played configs (cs ++ done.map (.clone i · j)) = played configs (cs ++ [.cloneAll i ns j]) →
    Misfit configs (cs ++ done.map (.clone i · j)) x → Misfit configs (cs ++ [.cloneAll i ns j]) x
  | stays {cs : List Command} {x : Place} (c : Command) : Misfit configs cs x →
    Misfit configs (cs ++ [c]) x

variable {s s' : Session} {configs : List Config} {cs : List Command} {c : Command} {x y : Place}
  {reply : Reply} {i j : Nat} {n : NodeId} {t u : Tree} {image : Image}

theorem played_append (cs cs' : List Command) :
    played configs (cs ++ cs') = (played configs cs).later cs' := List.foldl_append ..

theorem played_snoc : played configs (cs ++ [c]) = after c (played configs cs) := played_append cs [c]

theorem after_of_ok (h : run c s = .ok reply s') : after c s = s' := by rw [after, h]

/-! ## What the commands do that copy -/

theorem snapshot_ok (hrun : run (.snapshot i n) s = .ok reply s') : ∃ t image, s.trees[i]? = some t ∧
    t.snapshot n = .ok image ∧ s' = { s with images := s.images.push image } := by
  obtain ⟨_, _, htaken, hreply⟩ := exists_of_bind_ok hrun
  obtain ⟨image, hlook, hkeep⟩ := exists_of_look_bind_ok htaken
  obtain ⟨t, ht, hsnap⟩ := bind_eq_ok.1 hlook
  cases hkeep
  cases hreply
  exact ⟨t, image, tree_eq_ok.1 ht, hsnap, rfl⟩

theorem graft_ok {number : Nat} (h : s.Sound .declared) (hrun : run (.graft j number) s = .ok reply s') :
    ∃ u image, s.trees[j]? = some u ∧ s.images[number]? = some image ∧ image.Sound .declared ∧
      s' = { s with trees := s.trees.setIfInBounds j (u.planted image) } := by
  obtain ⟨image, himage, hplant⟩ := exists_of_look_bind_ok hrun
  obtain ⟨_, _, hact, hreply⟩ := exists_of_bind_ok hplant
  obtain ⟨u, u', hu, hgraft, rfl⟩ := act_eq_ok.1 hact
  cases hreply
  rw [image_eq_ok] at himage
  have hi := h.images himage
  obtain ⟨-, -, rfl⟩ := (Image.graft_atomic hi).of_ok_eq hgraft
  exact ⟨u, image, hu, himage, hi, rfl⟩

theorem Copies.run_ok (hc : Copies i n j c) (h : s.Sound .declared) (hrun : run c s = .ok reply s') :
    ∃ t u image, s.trees[i]? = some t ∧ s.trees[j]? = some u ∧ t.snapshot n = .ok image ∧
      image.Sound .declared ∧ s' = { s with trees := s.trees.setIfInBounds j (u.planted image) } := by
  obtain ⟨copy, rfl⟩ : ∃ copy, reply = .node copy := by
    cases hc with
    | clone =>
      obtain ⟨copy, _, -, hreply⟩ := exists_of_bind_ok hrun
      cases hreply
      exact ⟨copy, rfl⟩
    | copySubtree _ =>
      obtain ⟨_, _, -, hedit, -⟩ := act_eq_ok.1 hrun
      obtain ⟨copy, _, -, hreply⟩ := exists_of_bind_ok hedit
      cases hreply
      exact ⟨copy, rfl⟩
  obtain ⟨t, u, image, u', ht, hu, hsnap, hgraft, rfl⟩ := hc.run_eq_ok hrun
  have hi := Tree.snapshot_sound (h.trees ht).typed hsnap
  obtain ⟨-, -, rfl⟩ := (Image.graft_atomic hi).of_ok_eq hgraft
  exact ⟨t, u, image, ht, hu, hsnap, hi, rfl⟩

/-! ## Copies, one after the other -/

/-- A row of copies leaves what copies leave that are made one by one. -/
theorem cloneAll_clones (i : Nat) (ns : List NodeId) (j : Nat) : Leaves
    (fun s' => ∃ done, done <+: ns ∧ s' = s.later (done.map (.clone i · j))) (cloneAll i ns j) s := by
  rw [cloneAll]
  induction ns generalizing s with
  | nil => exact .pure ⟨[], List.prefix_refl _, rfl⟩
  | cons n ns ih =>
    have hfirst : Leaves (· = after (.clone i n j) s) (clone i n j) s := by
      rw [Leaves, after, run]
      rcases hclone : clone i n j s with ⟨copy, s'⟩ | ⟨e, s'⟩ <;>
        simp [bind, EStateM.bind, pure, EStateM.pure, hclone]
    rw [List.mapM_cons]
    refine hfirst.bind (fun s' hs' => ⟨[n], List.prefix_append [n] ns, hs'⟩) ?_
    rintro copy _ rfl
    have hrest : Leaves (fun s' => ∃ done, done <+: n :: ns ∧ s' = s.later (done.map (.clone i · j)))
        (ns.mapM fun n => clone i n j) (after (.clone i n j) s) := by
      refine ih.mono fun s' hs' => ?_
      obtain ⟨done, hdone, rfl⟩ := hs'
      exact ⟨n :: done, (List.prefix_cons_inj n).2 hdone, rfl⟩
    exact hrest.bind (fun _ h => h) fun _ _ h => .pure h

/-- …and so does the command. -/
theorem exists_clones (i : Nat) (ns : List NodeId) (j : Nat) : ∃ done, done <+: ns ∧
    after (.cloneAll i ns j) s = s.later (done.map (.clone i · j)) :=
  Leaves.after (P := fun s' => ∃ done, done <+: ns ∧ s' = s.later (done.map (.clone i · j)))
    ((cloneAll_clones i ns j).bind (fun _ h => h) fun _ _ h => .pure h)

/-! ## What does not fit is a misfit -/

/-- **Whatever does not fit under the strict typing is a misfit.** -/
structure Tidy (s : Session) (misfit : Place → Prop) : Prop where
  trees : ∀ {i : Nat} {t : Tree} (d : Nat), s.trees[i]? = some t →
    Arena.Fitting .strict t.records d ∨ misfit (.tree i d)
  images : ∀ {i : Nat} {image : Image} (q : Nat), s.images[i]? = some image →
    Image.Fitting .strict image.nodes q ∨ misfit (.image i q)

namespace Tidy

variable {misfit misfit' : Place → Prop}

theorem start : (start configs).Tidy misfit where
  trees d ht := by
    obtain ⟨config, rfl⟩ := exists_config ht
    exact .inl (.of_root rfl)
  images q hi := by simp [Session.start] at hi

theorem mono (h : s.Tidy misfit) (hstays : ∀ x, misfit x → misfit' x) : s.Tidy misfit' where
  trees d ht := (h.trees d ht).imp_right (hstays _)
  images q hi := (h.images q hi).imp_right (hstays _)

/-- One tree is exchanged for another. -/
theorem set_tree (h : s.Tidy misfit) {t' : Tree}
    (ht' : ∀ d, Arena.Fitting .strict t'.records d ∨ misfit (.tree i d)) :
    Tidy { s with trees := s.trees.setIfInBounds i t' } misfit where
  trees {j u} d hu := by
    rw [Array.getElem?_setIfInBounds] at hu
    split at hu
    · rename_i hij
      subst hij
      split at hu
      · cases hu
        exact ht' d
      · cases hu
    · exact h.trees d hu
  images := h.images

/-- An image is planted. -/
theorem plant {S : Typing} (h : s.Tidy misfit) (hu : s.trees[j]? = some u) (hi : image.Sound S)
    (hnew : ∀ q, Image.Fitting .strict image.nodes q ∨ misfit (.tree j (u.size + q))) :
    Tidy { s with trees := s.trees.setIfInBounds j (u.planted image) } misfit := by
  obtain ⟨k, hlaid⟩ := hi
  refine h.set_tree fun d => ?_
  rw [Tree.planted_records]
  rcases Nat.lt_or_ge d u.size with hlt | hge
  · exact (h.trees d hu).imp_left (.of_old (fun _ => Arena.getElem?_plant_old) hlt)
  · obtain ⟨q, rfl⟩ := Nat.exists_eq_add_of_le hge
    exact (hnew q).imp_left (.plant hlaid)

/-- An image is kept. -/
theorem keep (h : s.Tidy misfit)
    (hnew : ∀ q, Image.Fitting .strict image.nodes q ∨ misfit (.image s.images.size q)) :
    Tidy { s with images := s.images.push image } misfit where
  trees := h.trees
  images {j image'} q hi := by
    rw [Array.getElem?_push] at hi
    split at hi
    · rename_i hj
      cases hi
      exact hj ▸ hnew q
    · exact h.images q hi

/-- **An image that is taken fits, or is of a misfit.** -/
theorem snapshot (h : s.Tidy misfit) (hf : Arena.Forest t.records) (ht : s.trees[i]? = some t)
    (hsnap : t.snapshot n = .ok image) (q : Nat) : Image.Fitting .strict image.nodes q ∨
      ∃ a d, t.subtree n = .ok a ∧ a.nodes[q]? = some d ∧ misfit (.tree i d.index) := by
  obtain ⟨a, hown, himage⟩ := bind_eq_ok.1 hsnap
  cases himage
  obtain ⟨-, -, hunfold⟩ := bind_eq_ok.1 hown
  have hshows := Tree.unfold_shows hunfold
  rcases hd : a.nodes[q]? with _ | d
  · exact .inl (hshows.fitting hf fun d hd' => by rw [hd] at hd'; cases hd')
  · rcases h.trees d.index ht with hfit | hmisfit
    · refine .inl (hshows.fitting hf fun d' hd' => ?_)
      rw [hd] at hd'
      cases hd'
      exact hfit
    · exact .inr ⟨a, d, Tree.subtree_of_ownSubtree hown, hd, hmisfit⟩

end Tidy

/-- A node that fits before the elements of a qualified type are edited fits afterwards, or is one of the
newcomers and no type. -/
theorem fitting_or_put {d : Nat} {edit : ListEdit} (ht : (played configs cs).trees[i]? = some t)
    (hfit : Arena.Fitting .strict t.records d) :
    Arena.Fitting .strict (TreeM.after (Edit.list n .qualifiedTypeElements edit).run t).records d ∨
      Misfit configs (cs ++ [.edit i (.list n .qualifiedTypeElements edit)]) (.tree i d) := by
  have hsound := (Reachable.played configs cs).sound.trees ht
  by_cases hbad : t.handle d ∈ edit.newcomers ∧
    ∃ k, t.kind (t.handle d) = .ok k ∧ k.conformsTo .type = false
  · obtain ⟨hd, k, hk, htype⟩ := hbad
    rcases hrun : (Edit.list n .qualifiedTypeElements edit).run t with ⟨reply, t'⟩ | ⟨e, t'⟩
    · exact .inr (.put ht (act_eq_ok.2 ⟨t, t', ht, hrun, rfl⟩) hd hk htype)
    · obtain rfl := (Edit.run_atomic hsound _ rfl (Edit.obeys_declared _ t)).unchanged hrun
      rw [TreeM.after, hrun]
      exact .inl hfit
  · have hnew : t.handle d ∈ edit.newcomers → ∀ k, t.kind (t.handle d) = .ok k →
        Typing.strict.admits .qualifiedTypeElements k := fun hd k hk =>
      Typing.strict_elements (by simpa using fun htype => hbad ⟨hd, k, hk, htype⟩)
    exact .inl (TreeM.Atomic.after (Edit.list_fitting hsound.forest hnew hfit) hfit)

/-- A call on one tree that is no copy. -/
theorem Tidy.edit (h : (played configs cs).Tidy (Misfit configs cs)) {e : Edit}
    (he : ∀ n, e ≠ .copySubtree n) :
    (played configs (cs ++ [.edit i e])).Tidy (Misfit configs (cs ++ [.edit i e])) := by
  rw [played_snoc]
  have hstays := h.mono fun x => Misfit.stays (.edit i e)
  suffices hleaves : Leaves (Tidy · (Misfit configs (cs ++ [.edit i e]))) (run (.edit i e))
      (played configs cs) from hleaves.after
  refine .act hstays fun t ht => hstays.set_tree fun d => ?_
  rcases h.trees d ht with hfit | hmisfit
  · by_cases helements : ∃ n edit, e = .list n .qualifiedTypeElements edit
    · obtain ⟨n, edit, rfl⟩ := helements
      exact fitting_or_put ht hfit
    · have hobeys := Edit.obeys_strict (fun n edit heq => helements ⟨n, edit, heq⟩) t
      exact .inl (Edit.after_fitting ((Reachable.played configs cs).sound.trees ht) he hobeys hfit)
  · exact .inr (.stays _ hmisfit)

/-- A call that copies a node. -/
theorem Tidy.copy (h : (played configs cs).Tidy (Misfit configs cs)) (hc : Copies i n j c)
    (hrun : run c (played configs cs) = .ok reply s') : s'.Tidy (Misfit configs (cs ++ [c])) := by
  have hsound := (Reachable.played configs cs).sound
  obtain ⟨t, u, image, ht, hu, hsnap, hi, rfl⟩ := hc.run_ok hsound hrun
  refine (h.mono fun x => Misfit.stays c).plant hu hi fun q => ?_
  rcases h.snapshot (hsound.trees ht).forest ht hsnap q with hfit | ⟨a, d, ha, hd, hmisfit⟩
  · exact .inl hfit
  · exact .inr (.copied hmisfit (.copy hc ht ha hd hu) hrun)

/-- Any command but a row of copies. -/
theorem Tidy.snoc (h : (played configs cs).Tidy (Misfit configs cs))
    (hc : ∀ i ns j, c ≠ .cloneAll i ns j) :
    (played configs (cs ++ [c])).Tidy (Misfit configs (cs ++ [c])) := by
  have hsound := (Reachable.played configs cs).sound
  have hstays := h.mono fun x => Misfit.stays c
  -- a command that fails changes nothing
  have hok : c.isComposite = false → (∀ reply s', run c (played configs cs) = .ok reply s' →
      s'.Tidy (Misfit configs (cs ++ [c]))) →
      (played configs (cs ++ [c])).Tidy (Misfit configs (cs ++ [c])) := fun hcomposite hok => by
    rw [played_snoc, after]
    rcases hrun : run c (played configs cs) with ⟨reply, s'⟩ | ⟨e, s'⟩
    · exact hok reply s' hrun
    · exact run_reverts hsound c hcomposite e s' hrun ▸ hstays
  cases c with
  | edit i e =>
    by_cases he : ∃ n, e = .copySubtree n
    · obtain ⟨n, rfl⟩ := he
      exact hok rfl fun _ _ => h.copy (.copySubtree rfl)
    · exact h.edit fun n heq => he ⟨n, heq⟩
  | snapshot i n =>
    refine hok rfl fun reply s' hrun => ?_
    obtain ⟨t, image, ht, hsnap, rfl⟩ := snapshot_ok hrun
    refine hstays.keep fun q => ?_
    rcases h.snapshot (hsound.trees ht).forest ht hsnap q with hfit | ⟨a, d, ha, hd, hmisfit⟩
    · exact .inl hfit
    · exact .inr (.copied hmisfit (.snapshot ht ha hd) hrun)
  | graft i number =>
    refine hok rfl fun reply s' hrun => ?_
    obtain ⟨u, image, hu, himage, hi, rfl⟩ := graft_ok hsound hrun
    exact hstays.plant hu hi fun q => (h.images q himage).imp_right
      fun hmisfit => .copied hmisfit (.graft hu) hrun
  | clone i n j => exact hok rfl fun _ _ => h.copy .clone
  | cloneAll i ns j => exact absurd rfl (hc i ns j)
  | locate i n =>
    refine hok rfl fun reply s' hrun => ?_
    obtain ⟨_, _, hlocate, hreply⟩ := exists_of_bind_ok hrun
    obtain ⟨_, -, hkeep⟩ := exists_of_look_bind_ok hlocate
    cases hkeep
    cases hreply
    exact ⟨hstays.trees, hstays.images⟩

theorem Tidy.append (h : (played configs cs).Tidy (Misfit configs cs)) {cs' : List Command}
    (hcs' : ∀ c ∈ cs', ∀ i ns j, c ≠ .cloneAll i ns j) :
    (played configs (cs ++ cs')).Tidy (Misfit configs (cs ++ cs')) := by
  induction cs' generalizing cs with
  | nil => simpa using h
  | cons c cs' ih =>
    obtain ⟨hc, hcs'⟩ := List.forall_mem_cons.1 hcs'
    simpa using ih (h.snoc hc) hcs'

/-- **What does not fit under the strict typing is a misfit**, in every session. -/
theorem fitting_or_misfit (configs : List Config) (cs : List Command) :
    (played configs cs).Tidy (Misfit configs cs) := by
  induction cs using List.reverseRecOn with
  | nil => exact .start
  | append_singleton cs c ih =>
    by_cases hc : ∀ i ns j, c ≠ .cloneAll i ns j
    · exact ih.snoc hc
    · push Not at hc
      obtain ⟨i, ns, j, rfl⟩ := hc
      obtain ⟨done, hdone, hafter⟩ := exists_clones (s := played configs cs) i ns j
      have hplayed : played configs (cs ++ done.map (.clone i · j)) =
          played configs (cs ++ [.cloneAll i ns j]) := by
        rw [played_append, played_snoc, hafter]
      have hclones : (played configs (cs ++ done.map (.clone i · j))).Tidy
          (Misfit configs (cs ++ done.map (.clone i · j))) := ih.append (by simp)
      rw [hplayed] at hclones
      exact hclones.mono fun x => .cloned hdone hplayed

/-! ## No misfit is a type -/

variable {k : Kind}

/-- Images are kept when something is added. -/
theorem Additions.image_kept (h : s.Additions s') (hi : s.images[i]? = some image) :
    s'.images[i]? = some image := by
  induction h with
  | refl => exact hi
  | tail _ hadds ih =>
    cases hadds with
    | plant _ _ _ => exact ih
    | locate _ => exact ih
    | keep _ =>
      change (Array.push _ _)[i]? = _
      rw [Array.getElem?_push, if_neg (Nat.ne_of_lt (Array.getElem?_eq_some_iff.1 ih).1)]
      exact ih

/-- Images are kept, whatever is called. -/
theorem after_image (h : s.Sound .declared) (c : Command) (hi : s.images[i]? = some image) :
    (after c s).images[i]? = some image := by
  by_cases hedit : c.isEdit = true
  · cases c with
    | edit j e =>
      have hleaves : Leaves (·.images[i]? = some image) (run (.edit j e)) s := .act hi fun _ _ => hi
      exact hleaves.after
    | _ => cases hedit
  · exact (run_adds h (by simpa using hedit)).after.image_kept hi

/-- **No command changes the kind of what is at a place.** -/
theorem kindAt_after (h : s.Sound .declared) (c : Command) (hk : s.kindAt x = some k) :
    (after c s).kindAt x = some k := by
  cases x with
  | tree i d =>
    obtain ⟨t, ht, hk⟩ := Option.bind_eq_some_iff.1 hk
    obtain ⟨t', ht', hr⟩ := (after_leadsTo h c).trees ht
    exact Option.bind_eq_some_iff.2 ⟨t', ht', hr.kindAt hk⟩
  | image i q =>
    rw [kindAt, Option.map_eq_some_iff] at hk ⊢
    obtain ⟨node, hnode, hk⟩ := hk
    obtain ⟨image, hi, hnode⟩ := Option.bind_eq_some_iff.1 hnode
    exact ⟨node, Option.bind_eq_some_iff.2 ⟨image, after_image h c hi, hnode⟩, hk⟩

/-- An image has the kind of the node that it is of. -/
theorem image_kind {a : Subtree} {d : NodeId} {q : Nat} (hsnap : t.snapshot n = .ok image)
    (ha : t.subtree n = .ok a) (hd : a.nodes[q]? = some d)
    (hk : Arena.kindAt t.records d.index = some k) :
    ∃ node, image.nodes[q]? = some node ∧ node.kind = k := by
  obtain ⟨b, hown, himage⟩ := bind_eq_ok.1 hsnap
  cases himage
  obtain rfl : b = a := Except.ok.inj ((Tree.subtree_of_ownSubtree hown).symm.trans ha)
  obtain ⟨-, -, hunfold⟩ := bind_eq_ok.1 hown
  have hshows := Tree.unfold_shows hunfold
  rw [← b.map_node_encounters 0, List.getElem?_map, Option.map_eq_some_iff] at hd
  obtain ⟨e, he, rfl⟩ := hd
  obtain ⟨r, hr, hhead, -⟩ := hshows.has e (List.mem_of_getElem? he)
  rw [Arena.kindAt_of_record (Tree.look_eq_ok.1 hr).2] at hk
  have hown := congrArg (·[q]?) (b.map_rowFrom 0 0)
  simp only [List.getElem?_map, he] at hown
  obtain ⟨node, hnode, hnode'⟩ := Option.map_eq_some_iff.1 hown
  refine ⟨node, hnode, ?_⟩
  have hkind : node.kind = e.head.kind := congrArg Prod.fst hnode'
  rw [hkind, hhead]
  exact Option.some.inj hk

/-- What is planted is of the kind that the image has. -/
theorem kindAt_planted {q : Nat} {node : ImageNode} (hu : s.trees[j]? = some u)
    (hnode : image.nodes[q]? = some node) :
    kindAt { s with trees := s.trees.setIfInBounds j (u.planted image) } (.tree j (u.size + q)) =
      some node.kind := by
  refine Option.bind_eq_some_iff.2 ⟨_, getElem?_setIfInBounds_same hu _, ?_⟩
  rw [Tree.planted_records]
  exact Arena.kindAt_plant ⟨node, List.mem_zipIdx_iff_getElem?.2 hnode, rfl⟩

/-- **What is copied is of the kind of its original.** -/
theorem Carries.kindAt_eq (h : s.Sound .declared) (hc : s.Carries c x y)
    (hrun : run c s = .ok reply s') (hk : s.kindAt x = some k) : s'.kindAt y = some k := by
  cases hc with
  | snapshot ht ha hd =>
    obtain ⟨t, image, ht', hsnap, rfl⟩ := snapshot_ok hrun
    obtain rfl := Option.some.inj (ht.symm.trans ht')
    rw [kindAt, ht, Option.bind_some] at hk
    obtain ⟨node, hnode, rfl⟩ := image_kind hsnap ha hd hk
    simp [kindAt, hnode]
  | graft hu =>
    obtain ⟨u, image, hu', himage, -, rfl⟩ := graft_ok h hrun
    obtain rfl := Option.some.inj (hu.symm.trans hu')
    rw [kindAt, himage, Option.bind_some, Option.map_eq_some_iff] at hk
    obtain ⟨node, hnode, rfl⟩ := hk
    exact kindAt_planted hu hnode
  | copy hc ht ha hd hu =>
    obtain ⟨t, u, image, ht', hu', hsnap, -, rfl⟩ := hc.run_ok h hrun
    obtain rfl := Option.some.inj (ht.symm.trans ht')
    obtain rfl := Option.some.inj (hu.symm.trans hu')
    rw [kindAt, ht, Option.bind_some] at hk
    obtain ⟨node, hnode, rfl⟩ := image_kind hsnap ha hd hk
    exact kindAt_planted hu hnode

/-- **No misfit is a type.** -/
theorem Misfit.exists_kind (h : Misfit configs cs x) :
    ∃ k, (played configs cs).kindAt x = some k ∧ k.conformsTo .type = false := by
  have hsound : ∀ cs, (played configs cs).Sound .declared := fun cs => (Reachable.played configs cs).sound
  induction h with
  | @put cs i t n d edit k _ _ ht _ _ hk htype =>
    have hkind : (played configs cs).kindAt (.tree i d.index) = some k :=
      Option.bind_eq_some_iff.2 ⟨t, ht, (Tree.kind_eq_ok.1 hk).2⟩
    exact ⟨k, played_snoc ▸ kindAt_after (hsound cs) _ hkind, htype⟩
  | @copied cs c x y _ _ _ hcarries hrun ih =>
    obtain ⟨k, hk, htype⟩ := ih
    rw [played_snoc, after_of_ok hrun]
    exact ⟨k, hcarries.kindAt_eq (hsound cs) hrun hk, htype⟩
  | cloned _ hplayed _ ih => exact hplayed ▸ ih
  | stays c _ ih =>
    obtain ⟨k, hk, htype⟩ := ih
    exact ⟨k, played_snoc ▸ kindAt_after (hsound _) c hk, htype⟩

end Session

end SyntaxForest
