import SyntaxForest.Proofs.Edit.Confined
import SyntaxForest.Proofs.Edit.Overwrite
import SyntaxForest.Proofs.Edit.Placeholder
import SyntaxForest.Proofs.Subtree.Weight
import SyntaxForest.Session.Command

/-!
# Proofs/Edit/Balance — children come and go, and the weights above them change by theirs

An edit that moves nodes changes who the children of one node are, and nothing else that counts: no node costs
more alone, and all other nodes keep their children.  So away from that node and from those above it nobody
weighs more or less.  On the way up each node has one child at which the change is felt, and so it is the same
change at all of them: what came in, less what went out.

* `Tree.Balanced` — **the weights account for each other**, shown by `Tree.Confined.balanced`.
* `Tree.Trades` — **children come and go at a node**, and `Tree.Trades.balanced`: a trade is balanced.
* `Edit.Structural` — the structural edits, and `Edit.Exchanges` — the nodes that they take away and bring in.
* `Edit.Exchanges.trades` — **each structural edit is a trade** of these nodes.
-/

namespace SyntaxForest

namespace Tree

variable {t t' : Tree} {i j k : Nat} {out inn : List Nat}

/-! ## A change at one node -/

/-- Away from the site of a change nodes cost what they cost, and have the children that they had. -/
theorem Confined.keeps (h : t.Confined (some (t.handle k)) t') (hi : i < t.size) (hne : i ≠ k) :
    Arena.bulk t'.records i = Arena.bulk t.records i ∧
      Arena.offspring t'.records i = Arena.offspring t.records i := by
  obtain ⟨r, hr⟩ := Arena.exists_record hi
  obtain ⟨r', hr', hkind, -, hslots⟩ := h.records hr fun heq =>
    hne (congrArg NodeId.index (Option.some.inj heq)).symm
  rw [Arena.bulk_of_record hr, Arena.bulk_of_record hr', Arena.offspring_of_record hr,
    Arena.offspring_of_record hr', hkind, hslots]
  exact ⟨rfl, rfl⟩

/-- Away from the site of a change nodes weigh what they weighed: so do their children, and neither what they
cost alone nor who their children are has changed. -/
theorem Confined.weight_eq (h : t.Confined (some (t.handle k)) t') (hf : Arena.Forest t.records)
    (hf' : Arena.Forest t'.records) (hv : t.Visible) (hv' : t'.Visible) (hi : i < t.size)
    (hsite : ¬Arena.Below t.records i k) : t'.weight i = t.weight i := by
  revert hsite
  refine hf.induct (motive := fun i => ¬Arena.Below t.records i k → t'.weight i = t.weight i) ?_ hi
  intro i hi ih hsite
  have hself := hf.below_self hi
  obtain ⟨hbulk, hoffspring⟩ := h.keeps hi fun heq => hsite (heq ▸ hself)
  rw [Tree.weight_eq hf hv hi, Tree.weight_eq hf' hv' (Nat.lt_of_lt_of_le hi h.size), hbulk, hoffspring]
  refine congrArg (fun ns => _ + total ns) (List.map_congr_left fun c hc => ?_)
  obtain ⟨l, hl, rfl⟩ := hf.mem_offspring_iff.1 hc
  exact ih c l hl rfl fun hbelow => hsite ((hself.up hl).trans hbelow)

/-- **The same change at a node and at all nodes above it.**  On the way up each node has one child that the
change is felt at; the others have nothing in common with it below them. -/
theorem Confined.weight_above {lost gained : Nat} {chain : List Nat} (h : t.Confined (some (t.handle k)) t')
    (hf : Arena.Forest t.records) (hf' : Arena.Forest t'.records) (hv : t.Visible) (hv' : t'.Visible)
    (hchain : Arena.Chain t.records j chain) (hbelow : Arena.Below t.records j k)
    (hchange : t'.weight j + lost = t.weight j + gained) (hi : i ∈ chain) :
    t'.weight i + lost = t.weight i + gained := by
  induction hchain with
  | root _ _ =>
    obtain rfl := List.mem_singleton.1 hi
    exact hchange
  | @up j l chain hl hchain ih =>
    rcases List.mem_cons.1 hi with rfl | hi
    · exact hchange
    · have hlt : l.parent < t.size := hf.parent_lt hl
      have hup : Arena.Below t.records l.parent k := ((hf.below_self hlt).up hl).trans hbelow
      refine ih hup ?_ hi
      have hne : l.parent ≠ k := fun heq => Arena.not_below_parent hl (heq ▸ hbelow)
      obtain ⟨hbulk, hoffspring⟩ := h.keeps hlt hne
      have hmem : j ∈ Arena.offspring t.records l.parent := hf.mem_offspring_iff.2 ⟨l, hl, rfl⟩
      have hexchange : total ((Arena.offspring t.records l.parent).map t'.weight) + t.weight j =
          total ((Arena.offspring t.records l.parent).map t.weight) + t'.weight j := by
        refine total_map_exchange hf.offspring_nodup hmem fun d hd hdj => ?_
        obtain ⟨m, hm, hparent⟩ := hf.mem_offspring_iff.1 hd
        exact h.weight_eq hf hf' hv hv' (hf.offspring_lt hd)
          (Arena.not_below_both hl hm hparent.symm (Ne.symm hdj) hbelow)
      rw [Tree.weight_eq hf hv hlt, Tree.weight_eq hf' hv' (Nat.lt_of_lt_of_le hlt h.size), hbulk, hoffspring]
      omega

/-- **What a node and those above it weigh more and less, the children come and gone account for**; the
children that are gone are weighed before, and those that came afterwards.  All other nodes weigh what they
weighed, the children among them. -/
structure Balanced (k : Nat) (out inn : List Nat) (t t' : Tree) : Prop where
  above : ∀ i, Arena.Below t.records i k →
    t'.weight i + total (out.map t.weight) = t.weight i + total (inn.map t'.weight)
  beside : ∀ i < t.size, ¬Arena.Below t.records i k → t'.weight i = t.weight i
  apart : ∀ i ∈ out ++ inn, ¬Arena.Below t.records i k

/-- **A change at one node is balanced** if it costs alone what it did, and its children are those that it had,
but for some come and some gone. -/
theorem Confined.balanced (h : t.Confined (some (t.handle k)) t') (hf : Arena.Forest t.records)
    (hf' : Arena.Forest t'.records) (hv : t.Visible) (hv' : t'.Visible) (hk : k < t.size)
    (hbulk : Arena.bulk t'.records k = Arena.bulk t.records k)
    (hperm : (Arena.offspring t'.records k ++ out).Perm (Arena.offspring t.records k ++ inn))
    (hout : ∀ c ∈ out, c ∈ Arena.offspring t.records k) : t.Balanced k out inn t' := by
  have hkept : ∀ c ∈ Arena.offspring t.records k, t'.weight c = t.weight c := fun c hc =>
    h.weight_eq hf hf' hv hv' (hf.offspring_lt hc) (hf.not_below_of_offspring hc)
  have htotal := total_perm (hperm.map t'.weight)
  rw [List.map_append, List.map_append, total_append, total_append, List.map_congr_left hkept,
    List.map_congr_left fun c hc => hkept c (hout c hc)] at htotal
  refine ⟨fun i ⟨chain, hchain, hi⟩ => ?_, fun i hi => h.weight_eq hf hf' hv hv' hi, fun i hi hbelow => ?_⟩
  · refine h.weight_above hf hf' hv hv' hchain (hf.below_self hk) ?_ hi
    rw [Tree.weight_eq hf hv hk, Tree.weight_eq hf' hv' (Nat.lt_of_lt_of_le hk h.size), hbulk]
    omega
  · -- the way up from the node is the same in both trees, and has no child of the node on it
    obtain ⟨chain, hchain, hmem⟩ := hbelow
    have hold : i ∉ Arena.offspring t.records k := fun hi => hf.not_below_of_offspring hi ⟨chain, hchain, hmem⟩
    have hnew : i ∉ Arena.offspring t'.records k := fun hi =>
      hf'.not_below_of_offspring hi ⟨chain, h.chain rfl hchain, hmem⟩
    rcases List.mem_append.1 hi with hi | hi
    · exact hold (hout i hi)
    · rcases List.mem_append.1 (hperm.mem_iff.2 (List.mem_append_right _ hi)) with hi | hi
      · exact hnew hi
      · exact hold (hout i hi)

end Tree

/-! ## Splices trade -/

/-- **A splice trades**: what is there afterwards and what goes out is what was there and what comes in. -/
theorem Splice.perm_apply {x : Splice} {cs : List Nat} (hx : x.Applies cs) :
    (x.apply cs ++ x.removed.toList).Perm (cs ++ x.added.toList) := by
  cases x with
  | replace old new =>
    obtain rfl : cs = old.toList := hx
    exact List.perm_append_comm
  | insert i c =>
    rw [removed, Option.toList_none, List.append_nil]
    exact (List.perm_insertIdx c cs hx).trans (List.perm_append_singleton c cs).symm
  | remove i c =>
    obtain ⟨hi, rfl⟩ := List.getElem?_eq_some_iff.1 hx
    rw [added, Option.toList_none, List.append_nil]
    exact (List.perm_append_singleton _ _).trans (List.getElem_cons_eraseIdx_perm hi)
  | exchange i old new =>
    obtain ⟨hi, rfl⟩ := List.getElem?_eq_some_iff.1 hx
    have hset : (cs.set i new).Perm (new :: cs.eraseIdx i) := List.set_perm_cons_eraseIdx hi new
    have hold : (new :: cs.eraseIdx i ++ [cs[i]]).Perm (new :: cs) :=
      ((List.perm_append_singleton _ _).trans (List.getElem_cons_eraseIdx_perm hi)).cons new
    exact (hset.append_right _).trans (hold.trans (List.perm_append_singleton new cs).symm)

/-- The children in all slots are those in one slot and those in the others. -/
theorem Slot.perm_members {slots : List (Slot Nat)} {s : Nat} {content : Slot Nat} (hs : slots[s]? = some content) :
    (slots.flatMap members).Perm (content.members ++ (slots.eraseIdx s).flatMap members) := by
  obtain ⟨hlt, rfl⟩ := List.getElem?_eq_some_iff.1 hs
  exact ((List.getElem_cons_eraseIdx_perm hlt).flatMap_right members).symm

/-- What a row yields, with its first element apart. -/
theorem filterMap_cons_toList {α β : Type} (f : α → Option β) (x : α) (xs : List α) :
    (x :: xs).filterMap f = (f x).toList ++ xs.filterMap f := by
  rw [List.filterMap_cons]
  cases f x <;> rfl

namespace Arena

variable {a : Arena} {n i : Nat} {p : Property} {x : Splice}

/-- A splice makes no node cost more alone. -/
theorem bulk_rewire : (a.rewire n p x).bulk i = a.bulk i := by
  rw [bulk, bulk, getElem?_rewire]
  rcases a[i]? with _ | r
  · rfl
  · change r.kind.footprint (if i = n then _ else _) = r.kind.footprint r.slots
    split
    · exact r.kind.footprint_modify fun content form => Slot.footprint_withMembers content _ form
    · rfl

/-- The slots of the node are those that it had, with another content in one of them. -/
theorem exists_slots_rewire {r : Record} (hr : a[n]? = some r) : ∃ r', (a.rewire n p x)[n]? = some r' ∧
    r'.slots = r.slots.modify p.slot fun content => content.withMembers (x.apply content.members) := by
  rw [getElem?_rewire, hr]
  exact ⟨_, rfl, if_pos rfl⟩

/-- **A splice trades children of its node.** -/
theorem Forest.offspring_rewire (h : a.Forest) (hx : a.Admits n p x) :
    ((a.rewire n p x).offspring n ++ x.removed.toList).Perm (a.offspring n ++ x.added.toList) := by
  obtain ⟨ty, hty⟩ := hx.exists_childType
  obtain ⟨content, -, hs, -, -⟩ := h.exists_slotAt hx.owner hty
  obtain ⟨r, hr, hslot⟩ := Option.bind_eq_some_iff.1 hs
  obtain ⟨r', hr', hslots⟩ := exists_slots_rewire (p := p) (x := x) hr
  have hslot' : r'.slots[p.slot]? = some (content.withMembers (x.apply content.members)) := by
    rw [hslots, List.getElem?_modify_eq, hslot]
    rfl
  have hmembers := membersAt_rewire h hx
  rw [membersAt_of_slot hs, membersAt_of_content hr' hslot'] at hmembers
  have hold := Slot.perm_members hslot
  have hnew := Slot.perm_members hslot'
  rw [hmembers, hslots, List.eraseIdx_modify_of_eq, ← hslots] at hnew
  have htrade : (x.apply content.members ++ x.removed.toList).Perm (content.members ++ x.added.toList) :=
    Splice.perm_apply (membersAt_of_slot hs ▸ hx.applies)
  rw [offspring_of_record hr, offspring_of_record hr']
  refine List.perm_iff_count.2 fun c => ?_
  have := hold.count_eq c
  have := hnew.count_eq c
  have := htrade.count_eq c
  simp only [List.count_append] at *
  omega

end Arena

/-! ## Trades -/

namespace Tree

variable {t t' : Tree} {n m : NodeId} {p : Property} {k : Kind} {xs : List Splice} {out inn ns : List NodeId}

/-- **Children come and go at a node**: those that go were there before, and those that come were in the tree, or
they are new and have no children.  Beside that the node costs what it did, and the others hold what they
held. -/
structure Trades (n : NodeId) (out inn : List NodeId) (t t' : Tree) : Prop where
  site : n ∈ t.nodes
  confined : t.Confined (some n) t'
  bulk : Arena.bulk t'.records n.index = Arena.bulk t.records n.index
  perm : (Arena.offspring t'.records n.index ++ out.map NodeId.index).Perm
    (Arena.offspring t.records n.index ++ inn.map NodeId.index)
  gone : ∀ c ∈ out, c.tree = t.id ∧ c.index ∈ Arena.offspring t.records n.index
  come : ∀ c ∈ inn, c ∈ t.nodes ∨ c ∈ t'.nodes ∧ Arena.offspring t'.records c.index = []

theorem Trades.gone_mem (hf : Arena.Forest t.records) (h : t.Trades n out inn t') : ∀ c ∈ out, c ∈ t.nodes :=
  fun c hc => Tree.mem_nodes.2 ⟨(h.gone c hc).1, hf.offspring_lt (h.gone c hc).2⟩

theorem Trades.come_mem (h : t.Trades n out inn t') : ∀ c ∈ inn, c ∈ t'.nodes := fun c hc =>
  (h.come c hc).elim h.confined.keeps_nodes And.left

/-- Nothing comes and nothing goes. -/
theorem Trades.refl (hn : n ∈ t.nodes) : t.Trades n [] [] t where
  site := hn
  confined := .refl _ t
  bulk := rfl
  perm := .refl _
  gone := nofun
  come := nofun

/-- **A trade is balanced.** -/
theorem Trades.balanced (h : t.Trades n out inn t') (hf : Arena.Forest t.records) (hf' : Arena.Forest t'.records)
    (hv : t.Visible) (hv' : t'.Visible) :
    t.Balanced n.index (out.map NodeId.index) (inn.map NodeId.index) t' := by
  obtain ⟨htree, hlt⟩ := mem_nodes.1 h.site
  have hconfined : t.Confined (some (t.handle n.index)) t' := (handle_index htree).symm ▸ h.confined
  exact hconfined.balanced hf hf' hv hv' hlt h.bulk h.perm (List.forall_mem_map.2 fun c hc => (h.gone c hc).2)

/-- The ancestors of a node are the nodes that it stands below. -/
theorem mem_ancestors_iff (h : t.ancestors n = .ok ns) :
    m ∈ ns ↔ m ∈ t.nodes ∧ Arena.Below t.records m.index n.index := by
  obtain ⟨-, chain, hchain, rfl⟩ := ancestors_eq_ok.1 h
  constructor
  · intro hm
    obtain ⟨i, hi, rfl⟩ := List.mem_map.1 hm
    exact ⟨Tree.mem_nodes.2 ⟨rfl, hchain.lt_size hi⟩, chain, hchain, hi⟩
  · rintro ⟨hm, chain', hchain', hmem⟩
    rw [hchain.unique hchain']
    exact (mem_map_handle (Tree.mem_nodes.1 hm).1).2 hmem

/-! ### Rows of splices -/

theorem Splices.bulk_eq {n i : Nat} (h : Splices n p t xs t') :
    Arena.bulk t'.records i = Arena.bulk t.records i := by
  induction h with
  | nil _ => rfl
  | cons _ _ ih => rw [ih, splice_records, Arena.bulk_rewire]

/-- A row of splices trades what its splices trade. -/
theorem Splices.offspring_perm {n : Nat} (hf : Arena.Forest t.records) (h : Splices n p t xs t') :
    (Arena.offspring t'.records n ++ xs.filterMap Splice.removed).Perm
      (Arena.offspring t.records n ++ xs.filterMap Splice.added) := by
  induction h with
  | nil _ => exact .refl _
  | @cons t t' x xs hx _ ih =>
    have hrest := ih (hx.forest hf)
    have hfirst := hf.offspring_rewire hx.admits
    rw [splice_records] at hrest
    refine List.perm_iff_count.2 fun c => ?_
    have := hrest.count_eq c
    have := hfirst.count_eq c
    rw [filterMap_cons_toList, filterMap_cons_toList]
    simp only [List.count_append] at *
    omega

theorem Splices.trades (hf : Arena.Forest t.records) (hn : n ∈ t.nodes) (h : Splices n.index p t xs t')
    (hgone : ∀ c ∈ xs.filterMap Splice.removed, c ∈ Arena.membersAt t.records n.index p.slot)
    (hout : out = (xs.filterMap Splice.removed).map t.handle)
    (hinn : inn = (xs.filterMap Splice.added).map t.handle) : t.Trades n out inn t' where
  site := hn
  confined := handle_index (mem_nodes.1 hn).1 ▸ h.confined hf
  bulk := h.bulk_eq
  perm := by
    have hindex : ∀ cs : List Nat, (cs.map t.handle).map NodeId.index = cs := fun cs => by
      rw [List.map_map]
      exact List.map_id cs
    rw [hout, hinn, hindex, hindex]
    exact h.offspring_perm hf
  gone c hc := by
    obtain ⟨d, hd, rfl⟩ := List.mem_map.1 (hout ▸ hc)
    exact ⟨rfl, Arena.mem_offspring.2 ⟨_, hgone d hd⟩⟩
  come c hc := by
    obtain ⟨d, hd, rfl⟩ := List.mem_map.1 (hinn ▸ hc)
    refine .inl (mem_nodes.2 ⟨rfl, ?_⟩)
    rcases List.mem_append.1 ((h.offspring_perm hf).mem_iff.2 (List.mem_append_right _ hd)) with hd | hd
    · have hlt := (h.forest hf).offspring_lt hd
      rwa [h.sameBeside.size_eq] at hlt
    · exact hf.lt_size_of_mem (hgone d hd)

/-- One splice trades the child that goes out and the one that comes in. -/
theorem Allows.trades {x : Splice} (hf : Arena.Forest t.records) (hn : n ∈ t.nodes) (hx : t.Allows n.index p x)
    (hout : out = x.removed.toList.map t.handle) (hinn : inn = x.added.toList.map t.handle) :
    t.Trades n out inn (t.splice n.index p x) := by
  have hsingle : ∀ f : Splice → Option Nat, [x].filterMap f = (f x).toList := fun f => by
    rw [filterMap_cons_toList, List.filterMap_nil, List.append_nil]
  refine (Splices.single hx).trades hf hn (fun c hc => ?_) (by rw [hsingle, hout]) (by rw [hsingle, hinn])
  rw [hsingle, Option.mem_toList] at hc
  exact hx.admits.removed_mem hc

/-- A placeholder comes to exist, and nothing goes. -/
theorem Lacks.trades (hf : Arena.Forest t.records) (hn : n ∈ t.nodes) (h : t.Lacks n.index p k) :
    t.Trades n [] [t.handle t.size] (t.materialized n.index p k) where
  site := hn
  confined := handle_index (mem_nodes.1 hn).1 ▸ h.confined hf
  bulk := by
    rw [materialized_records, Arena.bulk_rewire, Arena.bulk, created, Arena.getElem?_push_old (mem_nodes.1 hn).2]
    rfl
  perm := by
    have hperm := (created_forest hf).offspring_rewire (h.admits hf)
    rw [← materialized_records] at hperm
    have hold : Arena.offspring (t.created k).records n.index = Arena.offspring t.records n.index := by
      rw [Arena.offspring, created, Arena.getElem?_push_old (mem_nodes.1 hn).2]
      rfl
    rwa [hold] at hperm
  gone := nofun
  come c hc := by
    obtain rfl := List.mem_singleton.1 hc
    refine .inr ⟨mem_nodes.2 ⟨materialized_id.symm, by rw [materialized_size]; exact Nat.lt_succ_self _⟩, ?_⟩
    refine List.eq_nil_iff_forall_not_mem.2 fun d hd => ?_
    obtain ⟨s, hs⟩ := Arena.mem_offspring.1 hd
    have hne : t.size ≠ n.index := (Nat.ne_of_lt (mem_nodes.1 hn).2).symm
    have hfresh : Arena.membersAt (t.created k).records t.size s = [] := Arena.membersAt_push_fresh (Nat.le_refl _)
    change d ∈ Arena.membersAt (t.materialized n.index p k).records t.size s at hs
    rw [materialized_records, Arena.membersAt_rewire_of_ne fun h => hne h.1, hfresh] at hs
    cases hs

end Tree

namespace Sequence

open TreeM

variable {t t' : Tree} {s : Sequence} {c : NodeId} {index : Nat} {items : List Nat}

theorem added_insertions {ds : List Nat} : (insertions index ds).filterMap Splice.added = ds := by
  induction ds generalizing index with
  | nil => rfl
  | cons d ds ih => rw [insertions, filterMap_cons_toList, ih]; rfl

theorem removed_insertions {ds : List Nat} : (insertions index ds).filterMap Splice.removed = [] := by
  induction ds generalizing index with
  | nil => rfl
  | cons d ds ih => rw [insertions, filterMap_cons_toList, ih]; rfl

/-- **Every edit of a list trades** the nodes that it answers for its newcomers. -/
theorem apply_trades (hf : Arena.Forest t.records) (ho : s.Open t) (e : ListEdit) :
    (s.apply e).Atomic t fun out t' => t.Trades s.node out e.newcomers t' := by
  have hinsert : ∀ index cs, (s.insertAll index cs).Atomic t fun _ t' => t.Trades s.node [] cs t' := fun index cs =>
    (insertAll_settles hf ho).atomic.mono fun _ _ ⟨ds, hds, hsplices⟩ =>
      hsplices.trades hf ho.mem_nodes (by rw [removed_insertions]; exact nofun) (by rw [removed_insertions]; rfl)
        (by rw [added_insertions, hds])
  cases e with
  | push c => exact .bind_pure (.look_bind fun items _ => hinsert items.length [c])
  | insert index c => exact .bind_pure (hinsert index [c])
  | extend cs => exact .bind_pure (.look_bind fun items _ => hinsert items.length cs)
  | set index c =>
    refine .bind_pure ((set_settles hf ho).atomic.mono fun ret t' ⟨old, hret, hctree, hallows, ht'⟩ => ?_)
    rw [ht', hret]
    refine hallows.trades hf ho.mem_nodes rfl ?_
    rw [ListEdit.newcomers, ← Tree.handle_index hctree]
    rfl
  | remove index =>
    refine .bind_pure ((remove_settles hf ho).atomic.mono fun ret t' ⟨old, hret, hallows, ht'⟩ => ?_)
    rw [ht', hret]
    exact hallows.trades hf ho.mem_nodes rfl rfl
  | clear =>
    refine (clear_settles hf ho).atomic.mono fun ret t' ⟨ds, hitems, hret, hsplices⟩ => ?_
    have hremoved : (ds.map (Splice.remove 0 ·)).filterMap Splice.removed = ds := by
      rw [List.filterMap_map]
      exact List.filterMap_some
    have hadded : (ds.map (Splice.remove 0 ·)).filterMap Splice.added = [] := by
      rw [List.filterMap_map]
      exact List.filterMap_none ds
    refine hsplices.trades hf ho.mem_nodes (fun c hc => ?_) (by rw [hremoved, hret]) (by rw [hadded]; rfl)
    rw [hremoved] at hc
    rwa [Arena.membersAt_of_slot (items_eq_ok.1 hitems).2]

end Sequence

/-! ## The structural edits -/

namespace Edit

open TreeM

variable {t t' : Tree} {n : NodeId} {e : Edit} {reply : Reply} {out inn : List NodeId}

/-- **The structural edits at a node**: a child is set or cleared, a child of the node is detached, a list is
edited, or a child that is not there is read. -/
inductive Structural (t : Tree) (n : NodeId) : Edit → Prop
  | setChild (p : Property) (c : NodeId) : Structural t n (.setChild n p c)
  | clearChild (p : Property) : Structural t n (.clearChild n p)
  | detach {c : NodeId} : t.parent c = .ok (some n) → Structural t n (.detach c)
  | list (p : Property) (e : ListEdit) : Structural t n (.list n p e)
  | child {p : Property} : t.peekChild n p = .ok none → Structural t n (.child n p)

/-- **What a structural edit exchanges**: the nodes that it takes away from the node and those that it brings in.
What a child that is set displaces is the child that was there, what a list loses is the answer, and a child that
is read is brought in if there was none. -/
inductive Exchanges (t : Tree) (n : NodeId) : Edit → Reply → (out inn : List NodeId) → Prop
  | setChild {p : Property} {c : NodeId} {old : Option NodeId} :
    t.peekChild n p = .ok old → Exchanges t n (.setChild n p c) .done old.toList [c]
  | clearChild {p : Property} {old : Option NodeId} : Exchanges t n (.clearChild n p) (.node? old) old.toList []
  | detach {c : NodeId} : t.parent c = .ok (some n) → Exchanges t n (.detach c) .done [c] []
  | list {p : Property} {e : ListEdit} {out : List NodeId} : Exchanges t n (.list n p e) (.nodes out) out e.newcomers
  | child {p : Property} {made : Option NodeId} :
    t.peekChild n p = .ok none → Exchanges t n (.child n p) (.node? made) [] made.toList

/-- Where a child is set, it can be seen what was there. -/
theorem exists_peekChild_of_setChild {p : Property} {c : NodeId} (h : n.setChild p c t = .ok () t') :
    ∃ old, t.peekChild n p = .ok old := by
  obtain ⟨_, hp, hrun⟩ := exists_of_look_bind_ok h
  obtain ⟨ty, hty, hrun⟩ := exists_of_look_bind_ok hrun
  obtain ⟨_, -, hrun⟩ := exists_of_look_bind_ok hrun
  obtain ⟨_, -, hrun⟩ := exists_of_look_bind_ok hrun
  obtain ⟨old, hold, -⟩ := exists_of_look_bind_ok hrun
  exact ⟨_, bind_eq_ok.2 ⟨(), hp, bind_eq_ok.2 ⟨ty, hty, bind_eq_ok.2 ⟨old, hold, rfl⟩⟩⟩⟩

/-- **Every structural edit that succeeds exchanges some nodes.** -/
theorem Structural.exchanges (h : Structural t n e) (hrun : e.run t = .ok reply t') :
    ∃ out inn, Exchanges t n e reply out inn := by
  cases h with
  | setChild p c =>
    obtain ⟨_, _, hset, hreply⟩ := exists_of_bind_ok hrun
    cases hreply
    obtain ⟨old, hpeek⟩ := exists_peekChild_of_setChild hset
    exact ⟨_, _, .setChild hpeek⟩
  | clearChild p =>
    obtain ⟨ret, _, -, hreply⟩ := exists_of_bind_ok hrun
    cases hreply
    exact ⟨_, _, .clearChild⟩
  | detach hparent =>
    obtain ⟨_, _, -, hreply⟩ := exists_of_bind_ok hrun
    cases hreply
    exact ⟨_, _, .detach hparent⟩
  | list p e =>
    obtain ⟨q, -, hrun⟩ := exists_of_look_bind_ok hrun
    obtain ⟨ret, _, -, hreply⟩ := exists_of_bind_ok hrun
    cases hreply
    exact ⟨_, _, .list⟩
  | child hpeek =>
    obtain ⟨ret, _, -, hreply⟩ := exists_of_bind_ok hrun
    cases hreply
    exact ⟨_, _, .child hpeek⟩

/-- **Each structural edit is a trade** of the nodes that it exchanges. -/
theorem Exchanges.trades (h : Exchanges t n e reply out inn) (hf : Arena.Forest t.records)
    (hrun : e.run t = .ok reply t') : t.Trades n out inn t' := by
  cases h with
  | @setChild p c old hpeek =>
    obtain ⟨_, _, hset, hreply⟩ := exists_of_bind_ok hrun
    cases hreply
    obtain ⟨hn, hc, old, rfl, -, hx, rfl⟩ := Tree.setChild_replaces hf hpeek hset
    refine hx.trades hf (Tree.mem_nodes.2 ⟨hn, hx.modifiable.lt_size⟩) (by cases old <;> rfl) ?_
    exact congrArg (fun c => [c]) (Tree.handle_index hc).symm
  | @clearChild p old =>
    obtain ⟨ret, _, hclear, hreply⟩ := exists_of_bind_ok hrun
    cases hreply
    obtain ⟨hn, hoffers, hc⟩ := (NodeId.clearChild_settles hf).atomic.of_ok_eq hclear
    have hmem := Tree.mem_nodes.2 ⟨hn, hoffers.lt_size⟩
    rcases hc with ⟨rfl, -, rfl⟩ | ⟨c, rfl, hx, rfl⟩
    · exact .refl hmem
    · exact hx.trades hf hmem rfl rfl
  | @detach c hparent =>
    obtain ⟨_, _, hdetach, hreply⟩ := exists_of_bind_ok hrun
    cases hreply
    obtain ⟨-, l, hl, rfl⟩ := Tree.parent_eq_some.1 hparent
    obtain ⟨hc, ⟨hroot, -⟩ | ⟨l', x, hl', hremoved, hadded, hx, rfl⟩⟩ :=
      (NodeId.detach_settles hf).atomic.of_ok_eq hdetach
    · cases hroot.symm.trans hl
    · obtain rfl := Option.some.inj (hl'.symm.trans hl)
      refine hx.trades hf (Tree.mem_nodes.2 ⟨rfl, hf.parent_lt hl⟩) ?_ (by rw [hadded]; rfl)
      rw [hremoved]
      exact congrArg (fun c => [c]) (Tree.handle_index hc).symm
  | list =>
    obtain ⟨q, hq, hrun⟩ := exists_of_look_bind_ok hrun
    obtain ⟨ret, _, happly, hreply⟩ := exists_of_bind_ok hrun
    cases hreply
    obtain ⟨ho, rfl, -⟩ := Sequence.sequence_eq_ok.1 hq
    exact (Sequence.apply_trades hf ho _).of_ok_eq happly
  | @child p made hpeek =>
    obtain ⟨ret, _, hread, hreply⟩ := exists_of_bind_ok hrun
    cases hreply
    obtain ⟨hn, hoffers, -⟩ := Tree.peekChild_ok hpeek
    have hmem := Tree.mem_nodes.2 ⟨hn, hoffers.lt_size⟩
    obtain ⟨-, ⟨hret, rfl⟩ | ⟨k, hk, rfl, rfl⟩⟩ := (NodeId.child_atomic hf).of_ok_eq hread
    · obtain rfl := Except.ok.inj (hpeek.symm.trans hret)
      exact .refl hmem
    · exact hk.trades hf hmem

end Edit

end SyntaxForest
