import SyntaxForest.Proofs.Edit.Confined
import SyntaxForest.Proofs.Session.Matching
import SyntaxForest.Proofs.Session.Mirrors
import SyntaxForest.Proofs.Subtree.Replanting

/-!
# Proofs/Session/Locality — edits are local

What a node looks like from outside is its image: kinds, ranges, scalars and children, down to the leaves.
An edit changes what one node holds, so it can be seen from that node and from the nodes above it, and from
nowhere else.  The children of the node are nowhere else: the one that is attached and the one that is
displaced come out as they went in.

* `Tree.Confined.snapshot_eq` — away from the site of a change **nodes keep their images**.
* `Session.snapshot_after` — **every command is local**, whether it succeeds or fails.
-/

namespace SyntaxForest

namespace Tree

variable {t t' : Tree} {site : Option NodeId} {n m : NodeId} {i : Nat} {s s' : Subtree} {T : Typing}

/-- The node has one image in both trees. -/
def SameImage (t t' : Tree) (m : NodeId) : Prop :=
  ∃ image, t.snapshot m = .ok image ∧ t'.snapshot m = .ok image

/-- **Away from the site of a change nodes keep their rows.**  The induction is on the subtree: where the
site is not below a node, it is below none of its children. -/
theorem Confined.rowFrom_eq (h : t.Confined site t') (hf : Arena.Forest t.records)
    (hs : t.Shows i s) (hs' : t'.Shows i s')
    (hsite : ∀ j, site = some (t.handle j) → ¬Arena.Below t.records i j) :
    s'.rowFrom = s.rowFrom := by
  induction hs generalizing s' with
  | @node i r pairs hr _ hpairs hbelow ih =>
    have hself := hf.below_self (Arena.lt_size_of_record hr)
    obtain ⟨r₀, hr₀, hkind, hrange, hslots⟩ := h.records hr fun heq => hsite i heq hself
    cases hs' with
    | @node _ r' pairs' hr' _ hpairs' hbelow' =>
      obtain rfl : r₀ = r' := Option.some.inj (hr₀.symm.trans hr')
      have hkeys : pairs'.map (Slot.map Prod.fst) = pairs.map (Slot.map Prod.fst) :=
        hpairs'.symm.trans (hslots.trans hpairs)
      have hrows : pairs'.map (Slot.map fun x => x.2.rowFrom) =
          pairs.map (Slot.map fun x => x.2.rowFrom) := by
        refine Slot.map_map_eq_of_keys hkeys fun slot' hslot' x' hx' slot hslot x hx hxx => ?_
        refine ih slot hslot x hx (hxx ▸ hbelow' slot' hslot' x' hx') fun j hj hxj => ?_
        have hmem : x.1 ∈ r.slots.flatMap Slot.members := by
          rw [hpairs, Slot.flatMap_members_map]
          exact List.mem_map_of_mem (List.mem_flatMap.2 ⟨slot, hslot, hx⟩)
        obtain ⟨p, hp⟩ := (Arena.mem_record_iff hr).1 hmem
        obtain ⟨q, -, hl⟩ := hf.filed hp
        exact hsite j hj ((hself.up hl).trans hxj)
      refine Subtree.rowFrom_node_eq hkind hrange ?_
      simpa only [List.map_map, Function.comp_def, Slot.map_map] using hrows

/-- **Away from the site of a change nodes keep their images.** -/
theorem Confined.snapshot_eq (h : t.Confined site t') (hf : Arena.Forest t.records)
    (hf' : Arena.Forest t'.records) (hm : m ∈ t.nodes)
    (hsite : ∀ j, site = some (t.handle j) → ¬Arena.Below t.records m.index j) :
    t.SameImage t' m := by
  exact snapshot_eq_of_rows hf hf' h.id hm (h.keeps_nodes hm) fun s s' hs hs' =>
    h.rowFrom_eq hf hs hs' hsite

/-- What does not stand above the site of a change keeps its image. -/
theorem Confined.snapshot_eq_of_not_mem (h : t.Confined site t') (ht : t.Sound T)
    (ht' : t'.Sound T) (hm : m ∈ t.nodes)
    (hsite : ∀ n ns, site = some n → t.ancestors n = .ok ns → m ∉ ns) : t.SameImage t' m := by
  refine h.snapshot_eq ht.forest ht'.forest hm fun j hj ⟨chain, hc, hmem⟩ => ?_
  refine hsite (t.handle j) _ hj (ancestors_eq_ok.2 ⟨rfl, chain, hc, rfl⟩) ?_
  exact (mem_map_handle (mem_nodes.1 hm).1).2 hmem

/-- **The children of the site keep their images**, those that it had before and those that it has
afterwards. -/
theorem Confined.snapshot_eq_of_parent (h : t.Confined (some n) t') (ht : t.Sound T)
    (ht' : t'.Sound T) (hm : m ∈ t.nodes)
    (hparent : t.parent m = .ok (some n) ∨ t'.parent m = .ok (some n)) : t.SameImage t' m := by
  refine h.snapshot_eq ht.forest ht'.forest hm fun j hj ⟨chain, hc, hmem⟩ => ?_
  obtain rfl := Option.some.inj hj
  rw [mem_nodes] at hm
  -- no node stands above its parent, and the way up from the site is the same in both trees
  have hnone : ∀ {u : Tree}, u.id = t.id → m.index < u.size →
      u.parent m = .ok (some (t.handle j)) → ¬Arena.Chain u.records j chain := by
    intro u hid hlt hp hchain
    rw [← handle_index (hm.1.trans hid.symm), parent_handle hlt] at hp
    obtain ⟨l, hl, hlj⟩ := Option.map_eq_some_iff.1 (Except.ok.inj hp)
    obtain rfl : l.parent = j := congrArg NodeId.index hlj
    exact hchain.not_mem_parent hl hmem
  rcases hparent with hp | hp
  · exact hnone rfl hm.2 hp hc
  · exact hnone h.id (Nat.lt_of_lt_of_le hm.2 h.size) hp (h.chain rfl hc)

end Tree

/-- **The node of a tree that a command is about**, if it is about one of them. -/
def Command.subject (i : Nat) (t : Tree) : Command → Option NodeId
  | .edit number e => if number = i then e.subject t else none
  | _ => none

namespace Session

variable {s s' : Session} {i : Nat} {t : Tree}

/-- **What is added to a session adds to its trees**, and is not counted. -/
theorem Additions.extends (h : s.Additions s') (ht : s.trees[i]? = some t) :
    ∃ t', s'.trees[i]? = some t' ∧ t.Extends t' ∧ t'.stamp = t.stamp := by
  induction h with
  | refl => exact ⟨t, ht, .refl t, rfl⟩
  | tail _ hadds ih =>
    obtain ⟨u, hu, hextends, hstamp⟩ := ih
    cases hadds with
    | keep _ | locate _ => exact ⟨u, hu, hextends, hstamp⟩
    | plant hv _ _ =>
      obtain ⟨u', hu', hextends', hstamp'⟩ :=
        exists_setIfInBounds (P := fun u u' => u.Extends u' ∧ u'.stamp = u.stamp) hv
          ⟨Tree.extends_planted, Tree.planted_stamp⟩ hu ⟨.refl u, rfl⟩
      exact ⟨u', hu', hextends.trans hextends', hstamp'.trans hstamp⟩

/-- **A command is confined to its subject** in every tree, whether it succeeds or fails. -/
theorem after_confined (h : s.Sound .declared) (ht : s.trees[i]? = some t) (c : Command) :
    ∃ t', (after c s).trees[i]? = some t' ∧ t.Confined (c.subject i t) t' := by
  obtain ⟨e, rfl, ht'⟩ | ⟨number, e, hi, rfl, ht'⟩ | ⟨-, hadds⟩ := after_cases h ht c
  · rw [Command.subject, if_pos rfl]
    exact ⟨_, ht', Edit.run_confined (h.trees ht) e⟩
  · rw [Command.subject, if_neg hi]
    exact ⟨t, ht', .refl none t⟩
  · obtain ⟨t', ht', hextends, -⟩ := hadds.extends ht
    exact ⟨t', ht', hextends.confined⟩

/-- **Edits are local.**  Whatever a command does, every node that was there keeps its image, but for the
node that the command is about and the nodes above it; and so do the children of that node, those that come
in and those that go out. -/
theorem snapshot_after (h : Reachable s) (ht : s.trees[i]? = some t) (c : Command) :
    ∃ t', (after c s).trees[i]? = some t' ∧
      (∀ m ∈ t.nodes, (∀ n ns, c.subject i t = some n → t.ancestors n = .ok ns → m ∉ ns) →
        t.SameImage t' m) ∧
      ∀ m ∈ t.nodes, ∀ n, c.subject i t = some n →
        t.parent m = .ok (some n) ∨ t'.parent m = .ok (some n) → t.SameImage t' m := by
  obtain ⟨t', ht', hconfined⟩ := after_confined h.sound ht c
  have hsound := h.sound.trees ht
  have hsound' := (Reachable.step c h).sound.trees ht'
  refine ⟨t', ht', fun m hm hsite => ?_, fun m hm n hn hparent => ?_⟩
  · exact hconfined.snapshot_eq_of_not_mem hsound hsound' hm hsite
  · exact (hn ▸ hconfined).snapshot_eq_of_parent hsound hsound' hm hparent

/-- A session of one tree with a prefix expression and an array access, of which the operand and the array
were read. -/
def twoPlaceholders : Session := played [⟨.current, {}⟩]
  [.edit 0 (.create .prefixExpression), .edit 0 (.child ⟨0, 0⟩ .prefixOperand),
    .edit 0 (.create .arrayAccess), .edit 0 (.child ⟨0, 2⟩ .arrayAccessArray)]

/-- The tree of that session. -/
def accessBeside : Tree where
  id := 0
  config := ⟨.current, {}⟩
  records := #[⟨.prefixExpression, none, {}, none,
    [.scalar (.prefixOp .increment), .child (some 1)]⟩,
    ⟨.simpleName, none, {}, some ⟨0, .prefixOperand⟩, [.scalar (.symbol "MISSING")]⟩,
    ⟨.arrayAccess, none, {}, none, [.child (some 3), .list []]⟩,
    ⟨.simpleName, none, {}, some ⟨2, .arrayAccessArray⟩, [.scalar (.symbol "MISSING")]⟩]
  stamp := 0
  observer := none
  journal := #[]

/-- The same tree after the prefix expression has taken the place of the array. -/
def accessAround : Tree :=
  accessBeside.splice 2 .arrayAccessArray (.replace (some 3) (some 0))

/-- The prefix expression takes the place of the placeholder in the array access: it is seen there, and both
of them keep their images, as the operand does. -/
theorem snapshot_after_twoPlaceholders : ∃ s t t', Reachable s ∧ s.trees[0]? = some t ∧
    (after (.edit 0 (.setChild ⟨0, 2⟩ .arrayAccessArray ⟨0, 0⟩)) s).trees[0]? = some t' ∧
    t.parent ⟨0, 3⟩ = .ok (some ⟨0, 2⟩) ∧ t'.parent ⟨0, 0⟩ = .ok (some ⟨0, 2⟩) ∧
    t.SameImage t' ⟨0, 0⟩ ∧ t.SameImage t' ⟨0, 1⟩ ∧ t.SameImage t' ⟨0, 3⟩ ∧
    ¬t.SameImage t' ⟨0, 2⟩ := by
  have hs : Reachable twoPlaceholders := .played _ _
  have ht : twoPlaceholders.trees[0]? = some accessBeside := by decide +kernel
  obtain ⟨t', ht', hapart, hchild⟩ := snapshot_after hs ht
    (.edit 0 (.setChild ⟨0, 2⟩ .arrayAccessArray ⟨0, 0⟩))
  have haround : (after (.edit 0 (.setChild ⟨0, 2⟩ .arrayAccessArray ⟨0, 0⟩))
      twoPlaceholders).trees[0]? = some accessAround := by decide +kernel
  obtain rfl := Option.some.inj (haround.symm.trans ht')
  have hold : accessBeside.parent ⟨0, 3⟩ = .ok (some ⟨0, 2⟩) := rfl
  have hnew : accessAround.parent ⟨0, 0⟩ = .ok (some ⟨0, 2⟩) := rfl
  refine ⟨_, _, _, hs, ht, haround, hold, hnew, ?_, ?_, ?_, ?_⟩
  · exact hchild ⟨0, 0⟩ (by decide) ⟨0, 2⟩ rfl (.inr hnew)
  · refine hapart ⟨0, 1⟩ (by decide) fun n ns hn hns => ?_
    obtain rfl := Option.some.inj hn
    have hroot : accessBeside.ancestors ⟨0, 2⟩ = .ok [⟨0, 2⟩] := rfl
    obtain rfl := Except.ok.inj (hroot.symm.trans hns)
    decide
  · exact hchild ⟨0, 3⟩ (by decide) ⟨0, 2⟩ rfl (.inl hold)
  · rintro ⟨image, himage, himage'⟩
    exact absurd (himage.trans himage'.symm) (by decide +kernel)

end Session

end SyntaxForest
