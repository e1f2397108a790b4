import SyntaxForest.Proofs.Edit.Run
import SyntaxForest.Proofs.Edit.Stamp
import SyntaxForest.Proofs.Subtree.Cursor

/-!
# Proofs/Edit/Confined — a call is about one node

All nodes share one arena, and an edit writes up to three records: the node whose slot changes, the child
that goes out, and the child that comes in.  But what it writes to the two children is where they are.
What a node *holds* changes in one node at most, and that node stays where it is (`Tree.Confined`).

* `Edit.subject` — the node that a call is about.
* `Edit.run_confined` — **every call is confined to its subject**, whether it succeeds or fails.
-/

namespace SyntaxForest

open TreeM

namespace Tree

variable {t t' t'' : Tree} {site : Option NodeId} {n : Nat} {p : Property} {x : Splice} {k : Kind}
  {f : Record → Record}

/-- **What nodes hold changes at one node only**, or at none: the others that were there keep their kinds,
their ranges and their slots, and the way up from the one stays what it was. -/
structure Confined (site : Option NodeId) (t t' : Tree) : Prop where
  id : t'.id = t.id
  size : t.size ≤ t'.size
  records : ∀ {i : Nat} {r : Record}, t.records[i]? = some r → site ≠ some (t.handle i) →
    ∃ r', t'.records[i]? = some r' ∧ r'.kind = r.kind ∧ r'.range = r.range ∧ r'.slots = r.slots
  chain : ∀ {i : Nat} {chain : List Nat}, site = some (t.handle i) →
    Arena.Chain t.records i chain → Arena.Chain t'.records i chain

namespace Confined

theorem refl (site : Option NodeId) (t : Tree) : Confined site t t where
  id := rfl
  size := Nat.le_refl _
  records hr _ := ⟨_, hr, rfl, rfl, rfl⟩
  chain _ hc := hc

theorem trans (h : Confined site t t') (h' : Confined site t' t'') : Confined site t t'' where
  id := h'.id.trans h.id
  size := Nat.le_trans h.size h'.size
  records {i r} hr hsite := by
    obtain ⟨r', hr', hkind, hrange, hslots⟩ := h.records hr hsite
    have hsite' : site ≠ some (t'.handle i) := by rwa [handle, h.id]
    obtain ⟨r'', hr'', hkind', hrange', hslots'⟩ := h'.records hr' hsite'
    exact ⟨r'', hr'', hkind'.trans hkind, hrange'.trans hrange, hslots'.trans hslots⟩
  chain {i _} hsite hc := h'.chain (by rwa [handle, h.id]) (h.chain hsite hc)

theorem keeps_nodes {m : NodeId} (h : Confined site t t') (hm : m ∈ t.nodes) : m ∈ t'.nodes := by
  obtain ⟨htree, hlt⟩ := mem_nodes.1 hm
  exact mem_nodes.2 ⟨htree.trans h.id.symm, Nat.lt_of_lt_of_le hlt h.size⟩

/-- What is about a node that was not there is about none that was. -/
theorem of_new {n : NodeId} (h : Confined (some n) t t') (hn : t.size ≤ n.index) :
    Confined none t t' where
  id := h.id
  size := h.size
  records {i r} hr _ := by
    refine h.records hr fun hsite => ?_
    obtain rfl := Option.some.inj hsite
    exact Nat.lt_irrefl _ (Nat.lt_of_lt_of_le (Arena.lt_size_of_record hr) hn)
  chain := nofun

/-- A record may be amended that keeps its place. -/
theorem modify (hid : t'.id = t.id) (hrecords : t'.records = t.records.modify n f)
    (hloc : ∀ r, (f r).location = r.location) : Confined (some (t.handle n)) t t' where
  id := hid
  size := by simp [Tree.size, hrecords]
  records {i r} hr hsite := by
    have hne : n ≠ i := fun hi => hsite (hi ▸ rfl)
    exact ⟨r, by rw [hrecords, Array.getElem?_modify, if_neg hne, hr], rfl, rfl, rfl⟩
  chain _ hc := hc.congr (by simp [hrecords]) fun j _ => by
    rw [hrecords, Arena.locationAt_modify hloc]

/-- Marks are not what a node holds. -/
theorem setFlags {flags : Flags} : Confined none t (t.amended n fun r => { r with flags }) where
  id := rfl
  size := Nat.le_of_eq Array.size_modify.symm
  records {i r} hr _ := by
    rw [amended, Array.getElem?_modify, hr]
    split <;> exact ⟨_, rfl, rfl, rfl, rfl⟩
  chain := nofun

end Confined

theorem Extends.confined (h : t.Extends t') : t.Confined site t' where
  id := h.id
  size := h.size
  records {i r} hr _ := ⟨r, (h.old i (Arena.lt_size_of_record hr)).trans hr, rfl, rfl, rfl⟩
  chain _ hc := hc.congr h.size fun _ hj => Arena.locationAt_of_old h.old (hc.lt_size hj)

/-- **A splice is about the node whose slot it changes**; the two children move, and stay what they
are. -/
theorem Allows.confined (hf : Arena.Forest t.records) (hx : t.Allows n p x) :
    t.Confined (some (t.handle n)) (t.splice n p x) where
  id := splice_id
  size := by simp [size]
  records {i r} hr hsite := by
    have hne : i ≠ n := fun hi => hsite (hi ▸ rfl)
    rw [splice_records, Arena.getElem?_rewire, hr]
    exact ⟨_, rfl, rfl, rfl, if_neg hne⟩
  chain {i _} hsite hc := by
    obtain rfl : n = i := congrArg NodeId.index (Option.some.inj hsite)
    rw [splice_records]
    exact hf.chain_rewire hx.admits hc

theorem Splices.confined {xs : List Splice} (h : Splices n p t xs t')
    (hf : Arena.Forest t.records) : t.Confined (some (t.handle n)) t' := by
  induction h with
  | nil t => exact .refl _ t
  | @cons t t' x xs hx _ ih =>
    have hrest := ih (hx.forest hf)
    rw [splice_handle] at hrest
    exact (hx.confined hf).trans hrest

/-- A placeholder comes to exist at one node. -/
theorem Lacks.confined (hf : Arena.Forest t.records) (h : t.Lacks n p k) :
    t.Confined (some (t.handle n)) (t.materialized n p k) where
  id := materialized_id
  size := (h.settled hf).size
  records {i r} hr hsite := by
    have hne : i ≠ n := fun hi => hsite (hi ▸ rfl)
    exact ⟨_, getElem?_materialized hr, rfl, rfl, if_neg hne⟩
  chain {i _} hsite hc := by
    obtain rfl : n = i := congrArg NodeId.index (Option.some.inj hsite)
    have hold : Arena.Chain (t.created k).records n _ := extends_created.confined.chain hsite hc
    rw [materialized_records]
    exact Arena.Forest.chain_rewire hf.push_fresh (h.admits hf) hold

end Tree

/-! ## The single calls -/

/-- **The action is about one node**, or about none, or it does nothing. -/
abbrev TreeM.ConfinedTo {α : Type} (site : Option NodeId) (m : TreeM α) (t : Tree) : Prop :=
  m.Atomic t fun _ t' => t.Confined site t'

variable {t : Tree} {n : NodeId} {p : Property} {T : Typing}

theorem TreeM.ConfinedTo.answer {α β : Type} {site : Option NodeId} {m : TreeM α} {g : α → β}
    (h : m.ConfinedTo site t) : ConfinedTo site (m >>= fun x => pure (g x)) t := Atomic.bind_pure h

theorem TreeM.ConfinedTo.after {α : Type} {site : Option NodeId} {m : TreeM α}
    (h : m.ConfinedTo site t) : t.Confined site (after m t) := Atomic.after h (.refl site t)

namespace NodeId

theorem child_confined (hf : Arena.Forest t.records) : (n.child p).ConfinedTo (some n) t := by
  refine (child_atomic hf).mono fun _ t' ⟨hn, hc⟩ => ?_
  rcases hc with ⟨-, rfl⟩ | ⟨k, hk, -, rfl⟩
  · exact .refl _ _
  · exact Tree.handle_index hn ▸ hk.confined hf

theorem setChild_confined {c : NodeId} (hf : Arena.Forest t.records) :
    (n.setChild p c).ConfinedTo (some n) t :=
  (setChild_settles hf).atomic.mono fun _ _ ⟨hn, _, _, hx, ht'⟩ =>
    ht' ▸ Tree.handle_index hn ▸ hx.confined hf

theorem clearChild_confined (hf : Arena.Forest t.records) :
    (n.clearChild p).ConfinedTo (some n) t := by
  refine (clearChild_settles hf).atomic.mono fun _ t' ⟨hn, _, hc⟩ => ?_
  rcases hc with ⟨-, -, rfl⟩ | ⟨_, -, hx, rfl⟩
  · exact .refl _ _
  · exact Tree.handle_index hn ▸ hx.confined hf

/-- A node is taken out of its parent. -/
theorem detach_confined (hf : Arena.Forest t.records) :
    n.detach.ConfinedTo (t.parent n).toOption.join t := by
  refine (detach_settles hf).atomic.mono fun _ t' ⟨hn, hc⟩ => ?_
  rcases hc with ⟨-, rfl⟩ | ⟨l, x, hl, -, -, hx, rfl⟩
  · exact .refl _ _
  · have hparent := Tree.parent_handle (Arena.lt_size_of_locationAt hl)
    rw [Tree.handle_index hn, hl] at hparent
    rw [hparent]
    exact hx.confined hf

theorem setScalar_confined {v : Scalar} (hf : Arena.Forest t.records) :
    (n.setScalar p v).ConfinedTo (some n) t :=
  (setScalar_settles hf).atomic.mono fun _ _ ⟨hn, _, ht'⟩ => by
    rw [ht', ← Tree.handle_index hn]
    exact .modify Tree.commit_id Tree.commit_records fun _ => rfl

theorem setRange_confined {range : Span} : (n.setRange range).ConfinedTo (some n) t :=
  setRange_settles.atomic.mono fun _ _ ⟨hn, _, ht'⟩ => by
    rw [ht', ← Tree.handle_index hn]
    exact .modify (f := fun r => { r with range := some range }) rfl rfl fun _ => rfl

theorem setFlags_confined {flags : Flags} : (n.setFlags flags).ConfinedTo none t :=
  setFlags_settles.atomic.mono fun _ _ ⟨_, _, ht'⟩ => ht' ▸ .setFlags

theorem value_confined (hf : Arena.Forest t.records) : (n.value p).ConfinedTo (some n) t := by
  rw [value]
  cases p.form with
  | scalar ty => exact .look_bind fun _ _ => .pure (.refl _ t)
  | child ty => exact (child_confined hf).answer
  | list ty => exact .look_bind fun _ _ => .look_bind fun _ _ => .pure (.refl _ t)

theorem setValue_confined {v : Value} (hf : Arena.Forest t.records) :
    (n.setValue p v).ConfinedTo (some n) t := by
  refine .look_bind fun _ _ => ?_
  split
  · exact .look fun _ hx => absurd hx refuse_ne_ok
  · exact setScalar_confined hf
  · exact setChild_confined hf
  · exact (clearChild_confined hf).answer
  · exact .look fun _ hx => absurd hx refuse_ne_ok
  · exact .look fun _ hx => absurd hx refuse_ne_ok

theorem copySubtree_confined (ht : Arena.Typed T t.records) : n.copySubtree.ConfinedTo none t :=
  (copySubtree_atomic ht).mono fun _ _ ⟨_, _, _, _, ht'⟩ => ht' ▸ Tree.extends_planted.confined

end NodeId

theorem Typed.required_confined {k : Kind} {n : Typed k} (hf : Arena.Forest t.records) :
    (n.required p).ConfinedTo (some n.node) t :=
  required_atomic hf (NodeId.child_confined hf)

theorem Sequence.apply_confined {s : Sequence} {e : ListEdit} (hf : Arena.Forest t.records)
    (ho : s.Open t) : (s.apply e).ConfinedTo (some s.node) t :=
  (Sequence.apply_settles hf ho e).atomic.mono fun _ _ ⟨_, hxs, _⟩ =>
    Tree.handle_index ho.owned ▸ hxs.confined hf

/-! ## All calls -/

namespace Edit

/-- **The node that a call is about**: the one whose properties or range it edits, or whose child it
detaches.  To create, to copy and to mark nodes is about none of those that are there. -/
def subject (t : Tree) : Edit → Option NodeId
  | child n _ | required n _ | setChild n _ _ | clearChild n _ | setScalar n _ _ | value n _
  | setValue n _ _ | setRange n _ | list n _ _ => some n
  | detach n => (t.parent n).toOption.join
  | create _ | createWith _ _ _ | setFlags _ _ | copySubtree _ | observe _ => none

/-- **Every call is confined to its subject**, whether it succeeds or fails. -/
theorem run_confined (h : t.Sound T) (e : Edit) : t.Confined (e.subject t) (after e.run t) := by
  have hf := h.forest
  cases e with
  | create k => exact Tree.extends_created.confined
  | createWith k p v =>
    have hcreated : Arena.Forest (t.created k).records := hf.push_fresh
    have hset := (NodeId.setScalar_confined (n := t.handle t.size) (p := p) (v := v)
      hcreated).answer (g := fun _ => Reply.node (t.handle t.size))
    rw [after, run_createWith]
    exact (Tree.extends_created.confined.trans hset.after).of_new (Nat.le_refl _)
  | setRange n range => exact NodeId.setRange_confined.answer.after
  | setFlags n flags => exact NodeId.setFlags_confined.answer.after
  | child n p => exact (NodeId.child_confined hf).answer.after
  | required n p => exact (Typed.required_confined hf).answer.after
  | setChild n p c => exact (NodeId.setChild_confined hf).answer.after
  | clearChild n p => exact (NodeId.clearChild_confined hf).answer.after
  | detach n => exact (NodeId.detach_confined hf).answer.after
  | setScalar n p v => exact (NodeId.setScalar_confined hf).answer.after
  | value n p => exact (NodeId.value_confined hf).answer.after
  | setValue n p v => exact (NodeId.setValue_confined hf).answer.after
  | list n p edit =>
    refine ConfinedTo.after (.look_bind fun s hs => ConfinedTo.answer ?_)
    obtain ⟨ho, rfl, -⟩ := Sequence.sequence_eq_ok.1 hs
    exact Sequence.apply_confined hf ho
  | copySubtree n => exact (NodeId.copySubtree_confined h.typed).answer.after
  | observe observer =>
    exact ⟨rfl, Nat.le_refl _, fun hr _ => ⟨_, hr, rfl, rfl, rfl⟩,
      fun hsite => absurd hsite.symm (Option.some_ne_none _)⟩

end Edit

end SyntaxForest
