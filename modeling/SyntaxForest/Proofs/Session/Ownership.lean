import SyntaxForest.Proofs.Session.Run

/-!
# Proofs/Session/Ownership — who owns a node, in every reachable session

The slots of a tree and the locations of its nodes are two copies of one fact.  `Tree.Owned` spells
out what their agreement comes to: a node is stored where its location says and nowhere else, and
the way up from every node ends at a root.

* `Session.trees_owned` — **every tree of a reachable session is so**, whatever calls led there
  and whichever of them failed.
-/

namespace SyntaxForest

namespace Tree

variable {t : Tree}

/-- **Each node has at most one owner**, and slots, locations and ways up agree about it. -/
structure Owned (t : Tree) : Prop where
  /-- a node is stored in a slot exactly if it is located at the property that owns the slot -/
  stored_iff : ∀ n s c, c ∈ Arena.membersAt t.records n s ↔
    ∃ p, Arena.storageAt t.records n s = some p ∧ Arena.locationAt t.records c = some ⟨n, p⟩
  /-- every location is that of a slot -/
  located : ∀ c l, Arena.locationAt t.records c = some l →
    Arena.storageAt t.records l.parent l.property.slot = some l.property
  /-- over all slots and all positions in lists, no node is stored twice -/
  once : (Arena.stored t.records).Nodup
  /-- what is stored is a node of the tree -/
  allocated : ∀ c ∈ Arena.stored t.records, c < t.size
  /-- the parents of a node lead to a root, in no more steps than there are nodes -/
  rooted : ∀ n : NodeId, n.tree = t.id → n.index < t.size →
    ∃ ns root, t.ancestors n = .ok (ns ++ [root]) ∧ ns.length < t.size ∧ t.parent root = .ok none
  /-- no node stands above its own parent -/
  acyclic : ∀ n parent ns, t.parent n = .ok (some parent) → t.ancestors parent = .ok ns → n ∉ ns

/-- A chain ends at a node without parent. -/
theorem exists_root {i : Nat} {chain : List Nat} (h : Arena.Chain t.records i chain) :
    ∃ above root, chain = above ++ [root] ∧ t.parent (t.handle root) = .ok none := by
  induction h with
  | @root i hi hl =>
    obtain ⟨r, hr⟩ := Arena.exists_record hi
    refine ⟨[], i, rfl, bind_eq_ok.2 ⟨r, look_eq_ok.2 ⟨rfl, hr⟩, ?_⟩⟩
    rw [← Arena.locationAt_of_record hr, hl]
    rfl
  | @up i l chain hl _ ih =>
    obtain ⟨above, root, rfl, hroot⟩ := ih
    exact ⟨i :: above, root, rfl, hroot⟩

/-- **A forest has owners.** -/
theorem owned_of_forest (hf : Arena.Forest t.records) : t.Owned where
  stored_iff _ _ _ := hf.mem_iff
  located _ _ hl := (hf.held hl).1
  once := hf.stored_nodup
  allocated c hc := by
    obtain ⟨i, s, hc⟩ := Arena.mem_stored_iff.1 hc
    exact hf.lt_size_of_mem hc
  rooted n hn hlt := by
    obtain ⟨chain, hchain⟩ := hf.rooted hlt
    obtain ⟨above, root, rfl, hroot⟩ := exists_root hchain
    refine ⟨above.map t.handle, t.handle root,
      ancestors_eq_ok.2 ⟨hn, _, hchain, by rw [List.map_append]; rfl⟩, ?_, hroot⟩
    have := hchain.length_le
    rw [List.length_append, List.length_singleton] at this
    rw [List.length_map]
    exact this
  acyclic n parent ns hp hns := by
    obtain ⟨hn, l, hl, rfl⟩ := parent_eq_some.1 hp
    obtain ⟨-, chain, hchain, rfl⟩ := ancestors_eq_ok.1 hns
    rw [mem_map_handle hn]
    exact hchain.not_mem_parent hl

end Tree

namespace Session

/-- **In every reachable session, every tree has its nodes owned.** -/
theorem trees_owned {s : Session} {t : Tree} (h : Reachable s) (ht : t ∈ s.trees) : t.Owned :=
  Tree.owned_of_forest (h.tree_sound ht).forest

/-- The commands that read a placeholder in a legacy tree, exchange it through the list behind the
view, and copy the whole. -/
def exchangePlaceholder : List Command :=
  [.edit 0 (.create .arrayAccess), .edit 0 (.child ⟨0, 0⟩ .arrayAccessIndex),
    .edit 0 (.create .numberLiteral), .edit 0 (.list ⟨0, 0⟩ .arrayAccessIndexes (.set 0 ⟨0, 2⟩)),
    .edit 0 (.copySubtree ⟨0, 0⟩)]

theorem trees_owned_exchangePlaceholder : ∃ s t, Reachable s ∧ t ∈ s.trees ∧
    Arena.membersAt t.records 0 1 = [2] ∧ t.size = 5 ∧ t.Owned := by
  have hs : Reachable (Session.played [⟨.legacy, {}⟩] exchangePlaceholder) := .played _ _
  have ht := @Array.getElem_mem _ (Session.played [⟨.legacy, {}⟩] exchangePlaceholder).trees 0
    (by decide +kernel)
  exact ⟨_, _, hs, ht, by decide +kernel, by decide +kernel, trees_owned hs ht⟩

end Session

end SyntaxForest
