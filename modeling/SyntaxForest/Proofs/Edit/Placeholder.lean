import SyntaxForest.Proofs.Edit.Read
import SyntaxForest.Proofs.Edit.Undo
import SyntaxForest.Proofs.Subtree.Materialization
import SyntaxForest.Proofs.Subtree.Renumbering

/-!
# Proofs/Edit/Placeholder — reads that make placeholders, again and in any order

Reading a mandatory child that is unset makes one node and fills one slot.  After that the child is there, so
reading it again does nothing.  A read of another slot does not notice, except for the next free index.  So
of two reads either one is idle before and after the other, or both of them make a placeholder, and then the
order only decides which of the two gets the lower number.

* `NodeId.child_idle`, `NodeId.child_run` — a read does nothing, or it fills its slot.
* `Tree.ReadsOnce` — **a read is made once**, shown by `NodeId.child_once`.
* `Tree.Lacks.peekChild_eq` — a placeholder is noticed in its own slot only.
* `Tree.ReadsInAnyOrder` — **two reads in either order**, shown by `Tree.reads_in_any_order`.
-/

namespace SyntaxForest

namespace Property

variable {p q : Property} {ty ty' : ChildType}

/-- A slot is read as a single child by one property at most. -/
theorem eq_of_single (hp : p.form = .child ty) (hq : q.form = .child ty') (ho : p.owner = q.owner)
    (hs : p.slot = q.slot) : p = q := by
  cases p <;> cases hp <;> cases q <;>
    first | rfl | exact absurd ho (by decide) | exact absurd hs (by decide) | cases hq

end Property

/-- The slots of a fresh node name nobody, so nobody is renumbered in them. -/
theorem Kind.map_freshSlots {α β : Type} (k : Kind) (f : α → β) (s : Nat) :
    ((k.freshSlots : List (Slot α))[s]?).map (Slot.map f) = (k.freshSlots : List (Slot β))[s]? := by
  rw [freshSlots, freshSlots, List.getElem?_map, List.getElem?_map, Option.map_map]
  refine congrArg (k.storage[s]?.map ·) (funext fun p => ?_)
  cases h : p.form <;> simp [Slot.fresh, Slot.map, h]

/-- The tree that a read leaves, whether it succeeds or fails. -/
def Tree.read (t : Tree) (n : NodeId) (p : Property) : Tree := TreeM.after (n.child p) t

/-- The handle renumbered. -/
def NodeId.renumber (σ : Equiv.Perm Nat) (n : NodeId) : NodeId := ⟨n.tree, σ n.index⟩

namespace Tree

variable {t t' : Tree} {n m : NodeId} {i s : Nat} {p q : Property} {k : Kind}

/-! ## The tree with a placeholder -/

theorem materialized_size : (t.materialized i p k).size = t.size + 1 := by
  simp [size, created]

theorem created_forest (hf : Arena.Forest t.records) : Arena.Forest (t.created k).records := hf.push_fresh

theorem Lacks.forest (hf : Arena.Forest t.records) (h : t.Lacks i p k) :
    Arena.Forest (t.materialized i p k).records :=
  materialized_records ▸ (created_forest hf).rewire (h.admits hf)

theorem created_slotAt : Arena.slotAt (t.created k).records i s =
    if i = t.size then (k.freshSlots)[s]? else Arena.slotAt t.records i s := by
  rw [Arena.slotAt, created, Array.getElem?_push]
  by_cases hi : i = t.size
  · rw [if_pos hi, if_pos (show i = t.records.size from hi)]
    rfl
  · rw [if_neg hi, if_neg (show ¬i = t.records.size from hi)]
    rfl

/-- **The slots of a tree with a placeholder**: those of the placeholder are fresh, one is filled, and the
others are what they were. -/
theorem materialized_slotAt (hlt : n.index < t.size) : Arena.slotAt (t.materialized n.index p k).records i s =
    if i = t.size then (k.freshSlots)[s]?
    else if i = n.index ∧ s = p.slot then
      (Arena.slotAt t.records i s).map fun content => content.withMembers [t.size]
    else Arena.slotAt t.records i s := by
  rw [materialized_records, Arena.slotAt_rewire, created_slotAt]
  by_cases hi : i = t.size
  · rw [if_neg fun h => absurd (h.1.symm.trans hi) (Nat.ne_of_lt hlt), if_pos hi, if_pos hi]
  · rw [if_neg hi, if_neg hi]
    rfl

/-- The placeholder is a bare node of its kind, and all other nodes are what they were. -/
theorem materialized_self : (t.materialized i p k).records[s]?.map Record.self =
    if s = t.size then some (k, none, t.config.defaultFlags) else t.records[s]?.map Record.self := by
  rw [materialized_records, Arena.SameBeside.rewire.nodes s, created, Array.getElem?_push]
  by_cases hs : s = t.size
  · rw [if_pos hs, if_pos (show s = t.records.size from hs)]
    rfl
  · rw [if_neg hs, if_neg (show ¬s = t.records.size from hs)]

/-- An unset child is found to be none. -/
theorem Lacks.peekChild (hf : Arena.Forest t.records) (hn : n.tree = t.id) (h : t.Lacks n.index p k) :
    t.peekChild n p = .ok none := by
  obtain ⟨ty, hform⟩ := Property.form_of_placeholder h.placeholder
  have hmem : Arena.membersAt t.records n.index p.slot = (none : Option Nat).toList := h.unset
  exact peekChild_of_members hf hn h.offers hform hmem

/-- What a read finds once the placeholder is there. -/
theorem Lacks.peekChild_materialized (hf : Arena.Forest t.records) (hn : n.tree = t.id)
    (h : t.Lacks n.index p k) : (t.materialized n.index p k).peekChild n p = .ok (some (t.handle t.size)) := by
  obtain ⟨ty, hform⟩ := Property.form_of_placeholder h.placeholder
  have hmem : Arena.membersAt (t.materialized n.index p k).records n.index p.slot = (some t.size).toList := by
    rw [materialized_records, Arena.membersAt_rewire (created_forest hf) (h.admits hf)]
    rfl
  have hoffers : (t.materialized n.index p k).Offers n.index p := by
    obtain ⟨r, hr, ho, hlive⟩ := h.offers
    exact ⟨_, getElem?_materialized hr, ho, by rwa [shape, materialized_config]⟩
  have hpeek := peekChild_of_members (h.forest hf) (hn.trans materialized_id.symm) hoffers hform hmem
  rwa [Option.map_some, handle, materialized_id] at hpeek

/-- Where a child is lacking, no other property reads one in the same slot. -/
theorem Lacks.eq_of_slot {ty : ChildType} (h : t.Lacks i p k) (hq : t.Offers i q) (hform : q.form = .child ty)
    (hslot : q.slot = p.slot) : q = p := by
  obtain ⟨ty', hform'⟩ := Property.form_of_placeholder h.placeholder
  have howner := hq.kindAt.symm.trans h.offers.kindAt
  exact Property.eq_of_single hform hform' (Option.some.inj howner) hslot

/-- Two slots that lack a child are different, unless it is one property of one node. -/
theorem Lacks.slot_ne {k' : Kind} (hn : n.tree = t.id) (h : t.Lacks n.index p k) (hm : m.tree = t.id)
    (h' : t.Lacks m.index q k') (hne : ¬(m = n ∧ q = p)) : ¬(m.index = n.index ∧ q.slot = p.slot) := by
  rintro ⟨hindex, hslot⟩
  obtain rfl := eq_of_index hm hn hindex
  obtain ⟨ty, hform⟩ := Property.form_of_placeholder h'.placeholder
  exact hne ⟨rfl, h.eq_of_slot h'.offers hform hslot⟩

/-- **A placeholder is noticed in its own slot only.**  Where another property reads the same slot, it reads it
as a list, and there is no child to ask for in either tree. -/
theorem Lacks.peekChild_eq (hn : n.tree = t.id) (h : t.Lacks n.index p k)
    (hm : m ∈ t.nodes) (hne : ¬(m = n ∧ q = p)) :
    (t.materialized n.index p k).peekChild m q = t.peekChild m q := by
  obtain ⟨hmtree, hmlt⟩ := mem_nodes.1 hm
  have hagrees : AgreesOn m t (t.materialized n.index p k) := by
    refine ⟨materialized_id, materialized_config, fun _ => ?_⟩
    rw [materialized_records, Arena.kindAt_rewire]
    exact Arena.kindAt_of_old (fun _ => Arena.getElem?_push_old) hmlt
  by_cases hslot : m.index = n.index ∧ q.slot = p.slot
  · obtain rfl := eq_of_index hmtree hn hslot.1
    refine hagrees.guarded fun hq => ?_
    rcases hty : q.childType with e | ty
    · rfl
    · exact absurd ⟨rfl, h.eq_of_slot (checkProperty_iff.1 hq).2 (Property.childType_eq_ok.1 hty) hslot.2⟩ hne
  · refine AgreesAt.peekChild_eq ⟨hagrees, fun _ => ?_⟩
    rw [materialized_slotAt h.offers.lt_size, if_neg (Nat.ne_of_lt hmlt), if_neg hslot]

/-- What a node lacks it still lacks when another slot was filled. -/
theorem Lacks.materialized {k' : Kind} (hf : Arena.Forest t.records) (hn : n.tree = t.id)
    (h : t.Lacks n.index p k) (hm : m.tree = t.id) (h' : t.Lacks m.index q k') (hne : ¬(m = n ∧ q = p)) :
    (t.materialized n.index p k).Lacks m.index q k' := by
  have hpeek := h.peekChild_eq hn (mem_nodes.2 ⟨hm, h'.offers.lt_size⟩) hne
  rw [h'.peekChild hf hm] at hpeek
  obtain ⟨-, hoffers, old, hold, hnone⟩ := peekChild_ok hpeek
  obtain rfl := Option.map_eq_none_iff.1 hnone
  exact ⟨hoffers, h'.placeholder, (currentChild_members hold).2⟩

end Tree

/-! ## A read does nothing, or fills its slot -/

namespace NodeId

open TreeM

variable {t t' : Tree} {n : NodeId} {p : Property} {k : Kind} {ret : Option NodeId}

/-- **A read is idle** where a child is there, none is there and none stands in, or there is a failure. -/
def Idle (n : NodeId) (p : Property) (t : Tree) : Prop := t.peekChild n p = .ok none → p.placeholder = none

theorem idle_or_lacks : n.Idle p t ∨ ∃ k, n.tree = t.id ∧ t.Lacks n.index p k := by
  by_cases hidle : n.Idle p t
  · exact .inl hidle
  · obtain ⟨hpeek, hplace⟩ := Classical.not_imp.1 hidle
    obtain ⟨k, hk⟩ := Option.ne_none_iff_exists'.1 hplace
    obtain ⟨hn, hp, old, hold, hnone⟩ := Tree.peekChild_ok hpeek
    obtain rfl := Option.map_eq_none_iff.1 hnone
    exact .inr ⟨k, hn, hp, hk, (Tree.currentChild_members hold).2⟩

/-- **An idle read answers what a peek does, and leaves the tree as it is.** -/
theorem child_idle (h : n.Idle p t) : answer (n.child p) t = t.peekChild n p ∧ t.read n p = t := by
  rcases hpeek : t.peekChild n p with e | c
  · rw [answer, Tree.read, after, child, look_bind_error hpeek]
    exact ⟨rfl, rfl⟩
  · have hrun : n.child p t = .ok c t := child_of_found hpeek fun hnone => h (hnone ▸ hpeek)
    rw [answer, Tree.read, after, hrun]
    exact ⟨rfl, rfl⟩

/-- A read that is not idle makes the placeholder. -/
theorem child_lacks (hf : Arena.Forest t.records) (hn : n.tree = t.id) (h : t.Lacks n.index p k) :
    answer (n.child p) t = .ok (some (t.handle t.size)) ∧ t.read n p = t.materialized n.index p k := by
  rw [answer, Tree.read, after, child_run hf h (h.peekChild hf hn)]
  exact ⟨rfl, rfl⟩

theorem child_forest (hf : Arena.Forest t.records) : Arena.Forest (t.read n p).records := by
  rcases idle_or_lacks (n := n) (p := p) (t := t) with hidle | ⟨k, hn, hlacks⟩
  · rwa [(child_idle hidle).2]
  · rw [(child_lacks hf hn hlacks).2]
    exact hlacks.forest hf

end NodeId

namespace Tree

open TreeM

variable {t t' : Tree} {n m n₁ n₂ : NodeId} {p q p₁ p₂ : Property} {k k₁ k₂ : Kind} {ret : Option NodeId}
  {T : Typing}

/-- **A read is made once.** -/
structure ReadsOnce (t : Tree) (n : NodeId) (p : Property) (ret : Option NodeId) (t' : Tree) : Prop where
  /-- the next read has the same answer, and nothing happens: no node, no change, no announcement -/
  again : n.child p t' = .ok ret t'
  peek : t'.peekChild n p = .ok ret
  /-- the first read made nothing, or one node: a fresh one of the kind that stands in, under the property -/
  made : t' = t ∨ ∃ k, p.placeholder = some k ∧ ret = some (t.handle t.size) ∧ t'.size = t.size + 1 ∧
    t'.records[t.size]? = some
      { Record.fresh k t.config.defaultFlags with location := some ⟨n.index, p.primary⟩ }

/-- **Every read is made once.** -/
theorem child_once (hf : Arena.Forest t.records) (h : n.child p t = .ok ret t') : t.ReadsOnce n p ret t' := by
  obtain ⟨hn, ⟨hpeek, rfl⟩ | ⟨k, hlacks, rfl, rfl⟩⟩ := (NodeId.child_settles hf).atomic.of_ok_eq h
  · exact ⟨h, hpeek, .inl rfl⟩
  · have hpeek := hlacks.peekChild_materialized hf hn
    refine ⟨NodeId.child_of_peek hpeek, hpeek, .inr ⟨k, hlacks.placeholder, rfl, materialized_size, ?_⟩⟩
    exact getElem?_materialized_new hlacks.offers.lt_size

/-! ## Two reads -/

/-- **Two reads in either order**: the tree that the first order leaves has its nodes renumbered in the tree
that the other one leaves, and each read answers the same up to that, be it a node, none or a failure. -/
structure ReadsInAnyOrder (t : Tree) (n₁ : NodeId) (p₁ : Property) (n₂ : NodeId) (p₂ : Property)
    (σ : Equiv.Perm Nat) : Prop where
  /-- nodes that were there keep their numbers -/
  fixes : ∀ m ∈ t.nodes, σ m.index = m.index
  first : answer (n₁.child p₁) (t.read n₂ p₂) =
    (answer (n₁.child p₁) t).map (Option.map (NodeId.renumber σ))
  second : answer (n₂.child p₂) t =
    (answer (n₂.child p₂) (t.read n₁ p₁)).map (Option.map (NodeId.renumber σ))
  trees : ((t.read n₁ p₁).read n₂ p₂).Renumbered σ
    ((t.read n₂ p₂).read n₁ p₁)

/-- Where all is the same, nothing has to be renumbered. -/
theorem ReadsInAnyOrder.of_eq
    (hfirst : answer (n₁.child p₁) (t.read n₂ p₂) = answer (n₁.child p₁) t)
    (hsecond : answer (n₂.child p₂) t = answer (n₂.child p₂) (t.read n₁ p₁))
    (htrees : (t.read n₂ p₂).read n₁ p₁ = (t.read n₁ p₁).read n₂ p₂) :
    t.ReadsInAnyOrder n₁ p₁ n₂ p₂ (.refl Nat) := by
  have hsame : ∀ x : Except Failure (Option NodeId), x.map (Option.map (NodeId.renumber (.refl Nat))) = x := by
    rintro (e | _ | c) <;> rfl
  exact ⟨fun _ _ => rfl, hfirst.trans (hsame _).symm, hsecond.trans (hsame _).symm, htrees ▸ .refl⟩

/-- **A read that is idle stays so** whatever else is read, and answers the same. -/
theorem idle_after (hf : Arena.Forest t.records) (hm : m ∈ t.nodes) (h : m.Idle q t) :
    answer (m.child q) (t.read n p) = answer (m.child q) t ∧
      (t.read n p).read m q = t.read n p := by
  rcases NodeId.idle_or_lacks (n := n) (p := p) (t := t) with hidle | ⟨k, hn, hlacks⟩
  · rw [(NodeId.child_idle hidle).2]
    exact ⟨rfl, (NodeId.child_idle h).2⟩
  · have hne : ¬(m = n ∧ q = p) := by
      rintro ⟨rfl, rfl⟩
      cases hlacks.placeholder.symm.trans (h (hlacks.peekChild hf hn))
    have hpeek := hlacks.peekChild_eq hn hm hne
    have hidle : m.Idle q (t.materialized n.index p k) := fun hnone => h (hpeek ▸ hnone)
    rw [(NodeId.child_lacks hf hn hlacks).2, (NodeId.child_idle hidle).1, (NodeId.child_idle h).1]
    exact ⟨hpeek, (NodeId.child_idle hidle).2⟩

/-- The slots of a tree with two placeholders. -/
theorem materialized_twice_slotAt (hlt₁ : n₁.index < t.size) (hlt₂ : n₂.index < t.size)
    (hne : ¬(n₂.index = n₁.index ∧ p₂.slot = p₁.slot)) :
    Arena.slotAt ((t.materialized n₁.index p₁ k₁).materialized n₂.index p₂ k₂).records i s =
      if i = t.size + 1 then (k₂.freshSlots)[s]?
      else if i = t.size then (k₁.freshSlots)[s]?
      else if i = n₂.index ∧ s = p₂.slot then
        (Arena.slotAt t.records i s).map fun content => content.withMembers [t.size + 1]
      else if i = n₁.index ∧ s = p₁.slot then
        (Arena.slotAt t.records i s).map fun content => content.withMembers [t.size]
      else Arena.slotAt t.records i s := by
  have hlt₂' : n₂.index < (t.materialized n₁.index p₁ k₁).size := by
    rw [materialized_size]
    omega
  rw [materialized_slotAt hlt₂', materialized_size, materialized_slotAt hlt₁]
  by_cases hlast : i = t.size + 1
  · rw [if_pos hlast, if_pos hlast]
  rw [if_neg hlast, if_neg hlast]
  by_cases hnew : i = t.size
  · rw [if_pos hnew, if_pos hnew, if_neg fun h => absurd (h.1.symm.trans hnew) (Nat.ne_of_lt hlt₂)]
  rw [if_neg hnew, if_neg hnew]
  by_cases hsecond : i = n₂.index ∧ s = p₂.slot
  · rw [if_pos hsecond, if_pos hsecond, if_neg fun h =>
      hne ⟨hsecond.1.symm.trans h.1, hsecond.2.symm.trans h.2⟩]
  · rw [if_neg hsecond, if_neg hsecond]

/-- …and its nodes. -/
theorem materialized_twice_self :
    ((t.materialized n₁.index p₁ k₁).materialized n₂.index p₂ k₂).records[i]?.map Record.self =
      if i = t.size + 1 then some (k₂, none, t.config.defaultFlags)
      else if i = t.size then some (k₁, none, t.config.defaultFlags)
      else t.records[i]?.map Record.self := by
  rw [materialized_self, materialized_self, materialized_size, materialized_config]

/-- **Two placeholders come to exist in either order**, and change places. -/
theorem materialized_renumbered (hf : Arena.Forest t.records) (hn₁ : n₁.tree = t.id) (hn₂ : n₂.tree = t.id)
    (h₁ : t.Lacks n₁.index p₁ k₁) (h₂ : t.Lacks n₂.index p₂ k₂) (hne : ¬(n₂ = n₁ ∧ p₂ = p₁)) :
    ((t.materialized n₁.index p₁ k₁).materialized n₂.index p₂ k₂).Renumbered
      (Equiv.swap t.size (t.size + 1)) ((t.materialized n₂.index p₂ k₂).materialized n₁.index p₁ k₁) := by
  have hne' : ¬(n₁ = n₂ ∧ p₁ = p₂) := fun h => hne ⟨h.1.symm, h.2.symm⟩
  have h₂' := h₁.materialized hf hn₁ hn₂ h₂ hne
  have h₁' := h₂.materialized hf hn₂ hn₁ h₁ hne'
  have hlt₁ := h₁.offers.lt_size
  have hlt₂ := h₂.offers.lt_size
  refine ⟨by simp, by simp, by simp, by simp only [materialized_size],
    .of_slots (h₂'.forest (h₁.forest hf)) (h₁'.forest (h₂.forest hf)) (fun i => ?_) fun i s => ?_⟩
  · rw [materialized_twice_self, materialized_twice_self, Equiv.swap_apply_def]
    split_ifs <;> first | rfl | omega
  · rw [materialized_twice_slotAt hlt₂ hlt₁ (h₂.slot_ne hn₂ hn₁ h₁ hne'),
      materialized_twice_slotAt hlt₁ hlt₂ (h₁.slot_ne hn₁ hn₂ h₂ hne)]
    have hfixed : ∀ c < t.records.size, Equiv.swap t.size (t.size + 1) c = c := fun c hc =>
      Equiv.swap_apply_of_ne_of_ne (Nat.ne_of_lt hc) (Nat.ne_of_lt (Nat.lt_succ_of_lt hc))
    by_cases hlast : i = t.size + 1
    · rw [hlast, Equiv.swap_apply_right, if_neg (by omega), if_pos rfl, if_pos rfl, Kind.map_freshSlots]
    by_cases hnew : i = t.size
    · rw [hnew, Equiv.swap_apply_left, if_pos rfl, if_neg (by omega), if_pos rfl, Kind.map_freshSlots]
    rw [Equiv.swap_apply_of_ne_of_ne hnew hlast, if_neg hlast, if_neg hnew, if_neg hlast, if_neg hnew]
    by_cases hfirst : i = n₁.index ∧ s = p₁.slot
    · rw [if_pos hfirst, if_neg fun h => h₁.slot_ne hn₁ hn₂ h₂ hne
        ⟨h.1.symm.trans hfirst.1, h.2.symm.trans hfirst.2⟩, if_pos hfirst,
        hf.map_slotAt_withMembers hfixed, Equiv.swap_apply_left]
    rw [if_neg hfirst, if_neg hfirst]
    by_cases hsecond : i = n₂.index ∧ s = p₂.slot
    · rw [if_pos hsecond, if_pos hsecond, hf.map_slotAt_withMembers hfixed, Equiv.swap_apply_right]
    · rw [if_neg hsecond, if_neg hsecond, hf.map_slotAt hfixed]

/-- **Two reads answer the same in either order**, and leave the same tree up to the numbers of the nodes that
they make. -/
theorem reads_in_any_order (hf : Arena.Forest t.records) (h₁ : n₁ ∈ t.nodes) (h₂ : n₂ ∈ t.nodes) :
    ∃ σ, t.ReadsInAnyOrder n₁ p₁ n₂ p₂ σ := by
  rcases NodeId.idle_or_lacks (n := n₁) (p := p₁) (t := t) with hidle | ⟨k₁, hn₁, hlacks₁⟩
  · obtain ⟨hanswer, hafter⟩ := idle_after (n := n₂) (p := p₂) hf h₁ hidle
    refine ⟨_, .of_eq hanswer ?_ ?_⟩
    · rw [(NodeId.child_idle hidle).2]
    · rw [hafter, (NodeId.child_idle hidle).2]
  rcases NodeId.idle_or_lacks (n := n₂) (p := p₂) (t := t) with hidle | ⟨k₂, hn₂, hlacks₂⟩
  · obtain ⟨hanswer, hafter⟩ := idle_after (n := n₁) (p := p₁) hf h₂ hidle
    refine ⟨_, .of_eq ?_ hanswer.symm ?_⟩
    · rw [(NodeId.child_idle hidle).2]
    · rw [hafter, (NodeId.child_idle hidle).2]
  by_cases hsame : n₂ = n₁ ∧ p₂ = p₁
  · obtain ⟨rfl, rfl⟩ := hsame
    obtain ⟨hanswer, hafter⟩ := NodeId.child_lacks hf hn₂ hlacks₂
    have hagain := (child_once hf (NodeId.child_run hf hlacks₂ (hlacks₂.peekChild hf hn₂))).again
    rw [← hafter] at hagain
    have hboth := (answer_of_ok hagain).trans hanswer.symm
    exact ⟨_, .of_eq hboth hboth.symm rfl⟩
  have hsame' : ¬(n₁ = n₂ ∧ p₁ = p₂) := fun h => hsame ⟨h.1.symm, h.2.symm⟩
  obtain ⟨hanswer₁, hafter₁⟩ := NodeId.child_lacks hf hn₁ hlacks₁
  obtain ⟨hanswer₂, hafter₂⟩ := NodeId.child_lacks hf hn₂ hlacks₂
  obtain ⟨hanswer₂', hafter₂'⟩ := NodeId.child_lacks (hlacks₁.forest hf) (hn₂.trans materialized_id.symm)
    (hlacks₁.materialized hf hn₁ hn₂ hlacks₂ hsame)
  obtain ⟨hanswer₁', hafter₁'⟩ := NodeId.child_lacks (hlacks₂.forest hf) (hn₁.trans materialized_id.symm)
    (hlacks₂.materialized hf hn₂ hn₁ hlacks₁ hsame')
  refine ⟨Equiv.swap t.size (t.size + 1), fun m hm => ?_, ?_, ?_, ?_⟩
  · have hlt := (mem_nodes.1 hm).2
    exact Equiv.swap_apply_of_ne_of_ne (Nat.ne_of_lt hlt) (by omega)
  · rw [hafter₂, hanswer₁', hanswer₁]
    simp [Except.map, NodeId.renumber, handle, materialized_size]
  · rw [hafter₁, hanswer₂', hanswer₂]
    simp [Except.map, NodeId.renumber, handle, materialized_size]
  · rw [hafter₁, hafter₂, hafter₁', hafter₂']
    exact materialized_renumbered hf hn₁ hn₂ hlacks₁ hlacks₂ hsame

end Tree

end SyntaxForest
