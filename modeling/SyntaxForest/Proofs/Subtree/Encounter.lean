import SyntaxForest.Proofs.Subtree.Row
import SyntaxForest.Proofs.Subtree.Walk

/-!
# Proofs/Subtree/Encounter — the nodes that every walk meets

There are walks that read the slots of a shape only, as a visitor and a cursor do, and walks that read all
slots, as an image and an outline do.  Where nothing stands in a slot that the shape does not read, they meet
the same nodes in the same order.  That order is `Subtree.encounters`: a node first, then what hangs below
its children, one level deeper.

* `Tree.Shows.entries_steps` — **a walk enters these nodes**, at these levels.
* `Subtree.map_rowFrom` — **an image is of these nodes**, with their ranges and scalars.
* `Tree.Shows.has` — which the tree has so.
* `Tree.Shows.exists_named` — **an image names the children that the tree has**, in the slots of the same
  properties.
-/

namespace SyntaxForest

/-- The scalar in a slot does not depend on what children are. -/
@[simp] theorem Slot.scalar?_map {α β : Type} (f : α → β) (s : Slot α) :
    (s.map f).scalar? = s.scalar? := by
  cases s <;> rfl

/-- A node as it is met: at what level below the start, and with what scalars, slot by slot. -/
structure Encounter where
  level : Nat
  head : Head
  scalars : List (Option Scalar)

/-- Where the node is met. -/
def Encounter.place (e : Encounter) : NodeId × Nat := (e.head.node, e.level)

namespace Subtree

/-- **The nodes of a subtree as they are met**, the first of them at the level. -/
def encounters (s : Subtree) : (level : Nat) → List Encounter :=
  s.fold fun h ss level =>
    ⟨level, h, ss.map Slot.scalar?⟩ :: (ss.flatMap Slot.members).flatMap (· (level + 1))

theorem encounters_node (h : Head) (ss : List (Slot Subtree)) (level : Nat) :
    (node h ss).encounters level = ⟨level, h, ss.map Slot.scalar?⟩ ::
      (ss.flatMap Slot.members).flatMap fun c => c.encounters (level + 1) := by
  unfold encounters
  rw [fold_node, Slot.flatMap_members_map, List.flatMap_map, List.map_map]
  simp [Function.comp_def]

/-- The nodes of a subtree: a node first, then those below its children in order. -/
def nodes (s : Subtree) : List NodeId := s.heads.map Head.node

theorem nodes_node (h : Head) (ss : List (Slot Subtree)) :
    (node h ss).nodes = h.node :: (ss.flatMap Slot.members).flatMap nodes := by
  rw [nodes, heads_node, List.map_cons, List.map_flatten, List.map_map, List.flatMap_def]
  rfl

/-- They are met in this order. -/
theorem map_node_encounters (s : Subtree) (level : Nat) :
    (s.encounters level).map (fun e => e.head.node) = s.nodes := by
  induction s using Subtree.induct generalizing level with
  | node h ss ih =>
    rw [encounters_node, List.map_cons, List.map_flatMap, nodes_node]
    refine congrArg (_ :: ·) (List.flatMap_congr fun c hc => ?_)
    obtain ⟨slot, hslot, hc⟩ := List.mem_flatMap.1 hc
    exact ih slot hslot c hc (level + 1)

end Subtree

/-! ## Walks -/

namespace WalkEvent

/-- **The nodes that a walk enters**, each at the number of nodes that it has entered and not left. -/
def entries : (level : Nat) → List WalkEvent → List (NodeId × Nat)
  | _, [] => []
  | level, enter n :: es => (n, level) :: entries (level + 1) es
  | level, leave _ :: es => entries (level - 1) es

theorem map_fst_entries (es : List WalkEvent) (level : Nat) :
    (entries level es).map Prod.fst = es.filterMap entered? := by
  induction es generalizing level with
  | nil => rfl
  | cons e es ih =>
    cases e with
    | enter n => exact congrArg (n :: ·) (ih (level + 1))
    | leave n => exact ih (level - 1)

end WalkEvent

open WalkEvent

/-- The rest of a walk is at the level at which the steps of a row began. -/
theorem entries_flatMap {α : Type} {f : α → List WalkEvent} {g : α → List (NodeId × Nat)} {cs : List α}
    (level : Nat) (h : ∀ c ∈ cs, ∀ rest, entries level (f c ++ rest) = g c ++ entries level rest)
    (rest : List WalkEvent) :
    entries level (cs.flatMap f ++ rest) = cs.flatMap g ++ entries level rest := by
  induction cs with
  | nil => rfl
  | cons c cs ih =>
    obtain ⟨hc, hcs⟩ := List.forall_mem_cons.1 h
    rw [List.flatMap_cons, List.append_assoc, hc, ih hcs, List.flatMap_cons, List.append_assoc]

namespace Tree

variable {t : Tree} {i : Nat} {s : Subtree}

/-- **A walk enters the nodes that are met**, and at the levels at which they are. -/
theorem Shows.entries_steps (hv : t.Visible) (hs : t.Shows i s) (level : Nat) (rest : List WalkEvent) :
    entries level (s.steps t.shape (fun _ => false) ++ rest) =
      (s.encounters level).map Encounter.place ++ entries level rest := by
  induction hs generalizing level rest with
  | @node i r pairs hr hfits hslots hx ih =>
    have hchildren := (Shows.node hr hfits hslots hx).liveChildren_eq hv
    rw [Subtree.children, Subtree.slots, Slot.flatMap_members_map] at hchildren
    have hbody := entries_flatMap (f := Subtree.steps t.shape fun _ => false)
      (g := fun c => (c.encounters (level + 1)).map Encounter.place) (level + 1)
      (fun c hc rest => by
        obtain ⟨x, hx, rfl⟩ := List.mem_map.1 hc
        obtain ⟨slot, hslot, hx⟩ := List.mem_flatMap.1 hx
        exact ih slot hslot x hx (level + 1) rest)
      (.leave (t.handle i) :: rest)
    rw [Subtree.steps_eq, Subtree.body, if_neg Bool.false_ne_true, hchildren,
      Subtree.encounters_node, Slot.flatMap_members_map, List.cons_append, List.append_assoc, entries,
      List.map_cons, List.map_flatMap (f := Encounter.place), List.cons_append]
    exact congrArg (_ :: ·) hbody

theorem Shows.entries_walk (hv : t.Visible) (hs : t.Shows i s) :
    entries 0 (s.steps t.shape fun _ => false) = (s.encounters 0).map Encounter.place := by
  simpa [entries] using hs.entries_steps hv 0 []

/-- …so that it enters the nodes of the subtree. -/
theorem Shows.entered_eq (hv : t.Visible) (hs : t.Shows i s) :
    (s.steps t.shape fun _ => false).filterMap entered? = s.nodes := by
  rw [← map_fst_entries _ 0, hs.entries_walk hv, List.map_map, ← s.map_node_encounters 0]
  rfl

end Tree

/-! ## Images -/

/-- What an image has of a node itself. -/
def ImageNode.own (node : ImageNode) : Kind × Option Span × List (Option Scalar) :=
  (node.kind, node.range, node.slots.map Slot.scalar?)

/-- What an image is to have of a node that is met. -/
def Encounter.own (e : Encounter) : Kind × Option Span × List (Option Scalar) :=
  (e.head.kind, e.head.range, e.scalars)

namespace Image

/-- What the nodes of some blocks have, block by block. -/
theorem Abut.map_eq {β : Type} {f : ImageNode → β} {g : Subtree → List β} {start : Nat}
    {blocks : List (Nat × Subtree)} {row : List ImageNode} (h : Abut start blocks row)
    (hblocks : ∀ x ∈ blocks, ∀ start, (x.2.rowFrom start).map f = g x.2) :
    row.map f = (blocks.map Prod.snd).flatMap g := by
  induction h with
  | nil start => rfl
  | @cons start s _ _ _ ih =>
    obtain ⟨hs, hblocks⟩ := List.forall_mem_cons.1 hblocks
    rw [List.map_append, hs start, ih hblocks, List.map_cons, List.flatMap_cons]

end Image

/-- **An image has the nodes that are met**: their kinds, their ranges and their scalars. -/
theorem Subtree.map_rowFrom (s : Subtree) (start level : Nat) :
    (s.rowFrom start).map ImageNode.own = (s.encounters level).map Encounter.own := by
  induction s using Subtree.induct generalizing start level with
  | node h ss ih =>
    obtain ⟨pairs, rfl, hfst, habut⟩ := Image.laySlots_abut ss (start + 1)
    have hrow := habut.map_eq (f := ImageNode.own)
      (g := fun c => (c.encounters (level + 1)).map Encounter.own) fun x hx next => by
        obtain ⟨s, hs, hc⟩ := Slot.mem_members_of_mem hx
        exact ih s hs x.2 hc next (level + 1)
    rw [rowFrom_node, hfst, List.map_cons, hrow, encounters_node, Slot.flatMap_members_map, List.map_cons,
      List.map_flatMap (f := Encounter.own)]
    simp only [ImageNode.own, Encounter.own, List.map_map, Function.comp_def, Slot.scalar?_map]

/-! ## Nodes of the tree -/

namespace Tree

variable {t : Tree} {i : Nat} {s : Subtree}

/-- The tree has a node as it is met. -/
def Has (t : Tree) (e : Encounter) : Prop := ∃ r, t.look e.head.node = .ok r ∧
  e.head = ⟨e.head.node, r.kind, r.range, r.flags⟩ ∧ e.scalars = r.slots.map Slot.scalar?

/-- **What is met is a node of the tree**, as the tree has it. -/
theorem Shows.has (hs : t.Shows i s) {level : Nat} : ∀ e ∈ s.encounters level, t.Has e := by
  induction hs generalizing level with
  | @node i r pairs hr hfits hslots hx ih =>
    rw [Subtree.encounters_node, Slot.flatMap_members_map]
    refine List.forall_mem_cons.2 ⟨⟨r, look_eq_ok.2 ⟨rfl, hr⟩, rfl, ?_⟩, fun e he => ?_⟩
    · rw [hslots]
      simp [Function.comp_def]
    · obtain ⟨c, hc, he⟩ := List.mem_flatMap.1 he
      obtain ⟨x, hx, rfl⟩ := List.mem_map.1 hc
      obtain ⟨slot, hslot, hx⟩ := List.mem_flatMap.1 hx
      exact ih slot hslot x hx e he

/-- The nodes of the subtree are nodes of the tree. -/
theorem Shows.mem_nodes (hs : t.Shows i s) : ∀ m ∈ s.nodes, m ∈ t.nodes := by
  rw [← s.map_node_encounters 0]
  refine List.forall_mem_map.2 fun e he => ?_
  obtain ⟨r, hr, -⟩ := hs.has e he
  obtain ⟨htree, hr⟩ := look_eq_ok.1 hr
  exact Tree.mem_nodes.2 ⟨htree, Arena.lt_size_of_record hr⟩

end Tree

/-! ## Children of images -/

namespace Image

variable {start : Nat} {blocks : List (Nat × Subtree)} {row : List ImageNode}

/-- What a row of blocks names is named in one of them. -/
theorem Abut.exists_edges (h : Abut start blocks row) {e : Nat × Location} (he : e ∈ edgesFrom start row) :
    ∃ x ∈ blocks, e ∈ edgesFrom x.1 (x.2.rowFrom x.1) := by
  induction h with
  | nil start => cases he
  | @cons start s _ _ _ ih =>
    rw [edgesFrom_append] at he
    rcases List.mem_append.1 he with he | he
    · exact ⟨_, List.mem_cons_self, he⟩
    · obtain ⟨x, hx, he⟩ := ih he
      exact ⟨x, List.mem_cons_of_mem _ hx, he⟩

/-- Where the nodes of some blocks stand in a row, those of each stand in its place. -/
theorem Abut.nodes_prefix (h : Abut start blocks row) {ns : List NodeId}
    (hns : (blocks.map Prod.snd).flatMap Subtree.nodes <+: ns.drop start) :
    ∀ x ∈ blocks, x.2.nodes <+: ns.drop x.1 := by
  induction h with
  | nil start => exact fun _ hx => by cases hx
  | @cons start s blocks _ _ ih =>
    rw [List.map_cons, List.flatMap_cons] at hns
    refine List.forall_mem_cons.2 ⟨(List.prefix_append _ _).trans hns, ih ?_⟩
    obtain ⟨rest, hrest⟩ := hns
    have hlength : (s.rowFrom start).length = s.nodes.length := by
      rw [← s.map_node_encounters 0, List.length_map, ← List.length_map ImageNode.own,
        s.map_rowFrom start 0, List.length_map]
    refine ⟨rest, ?_⟩
    rw [← List.drop_drop, ← hrest, List.append_assoc, hlength, List.drop_left]

end Image

namespace Tree

variable {t : Tree} {i start : Nat} {s : Subtree} {row : List ImageNode} {ns : List NodeId}

/-- The child at the head of a block in a row, which stands in the tree at the index. -/
theorem Shows.exists_head {d : Nat} (hs : t.Shows d s) (hrow : s.rowFrom start <+: row.drop start)
    (hns : s.nodes <+: ns.drop start) : ns[start]? = some (t.handle d) ∧
      ∃ node, row[start]? = some node ∧ Arena.kindAt t.records d = some node.kind := by
  have hkind := hs.kindAt
  have hnode := hs.node_eq
  obtain ⟨h, ss⟩ := s
  obtain ⟨pairs, rest, -, hfirst, -, -⟩ := Subtree.exists_abut hrow
  rw [Subtree.nodes_node] at hns
  obtain ⟨below, hdrop, -⟩ := List.cons_prefix_iff.1 hns
  refine ⟨?_, _, hfirst, hkind⟩
  have hget : (ns.drop start)[0]? = some h.node := by rw [hdrop]; rfl
  rw [List.getElem?_drop] at hget
  exact hget.trans (congrArg some hnode)

/-- **What an image names stands in the tree**, at the place in the walk that has its position, in the slot
of the same property, and is of the same kind. -/
theorem Shows.exists_named (hf : Arena.Forest t.records) (hs : t.Shows i s)
    (hrow : s.rowFrom start <+: row.drop start) (hns : s.nodes <+: ns.drop start) :
    ∀ e ∈ Image.edgesFrom start (s.rowFrom start), ∃ d l node, ns[e.1]? = some (t.handle d) ∧
      Arena.locationAt t.records d = some l ∧ l.property = e.2.property ∧
      row[e.1]? = some node ∧ Arena.kindAt t.records d = some node.kind := by
  induction s using Subtree.induct generalizing i start with
  | node h ss ih =>
    obtain ⟨blocks, rfl, hfst, habut⟩ := Image.laySlots_abut ss (start + 1)
    -- every block is of a child that stands in the slot in the tree
    have hshown : ∀ {j slot x}, blocks[j]? = some slot → x ∈ slot.members →
        ∃ d ∈ Arena.membersAt t.records i j, t.Shows d x.2 := fun {j slot x} hslot hx => by
      have hcontent : (blocks.map (Slot.map Prod.snd))[j]? = some (slot.map Prod.snd) := by
        rw [List.getElem?_map, hslot]
        rfl
      exact hs.exists_member hcontent (Slot.members_map Prod.snd slot ▸ List.mem_map_of_mem hx)
    rw [Subtree.rowFrom_node, hfst] at hrow ⊢
    rw [Subtree.nodes_node, Slot.flatMap_members_map] at hns
    obtain ⟨_, hdrop, hrest⟩ := List.cons_prefix_iff.1 hrow
    obtain ⟨_, hdrop', hrest'⟩ := List.cons_prefix_iff.1 hns
    have hrows : ∀ x ∈ blocks.flatMap Slot.members, x.2.rowFrom x.1 <+: row.drop x.1 :=
      habut.prefix_drop (by rwa [← List.tail_drop, hdrop])
    have hnodes : ∀ x ∈ blocks.flatMap Slot.members, x.2.nodes <+: ns.drop x.1 :=
      habut.nodes_prefix (by rwa [← List.tail_drop, hdrop'])
    intro e he
    rw [Image.edgesFrom_cons] at he
    rcases List.mem_append.1 he with he | he
    · -- the node itself names the child
      obtain ⟨content, hzip, hc, -⟩ := ImageNode.mem_edges.1 he
      obtain ⟨j, hj⟩ := List.mem_iff_getElem?.1 hzip
      obtain ⟨hcontent, hp⟩ := List.getElem?_zip_eq_some.1 hj
      obtain ⟨slot, hslot, rfl⟩ := Option.map_eq_some_iff.1 (List.getElem?_map ▸ hcontent)
      obtain ⟨x, hx, hxe⟩ := List.mem_map.1 (Slot.members_map Prod.fst slot ▸ hc)
      obtain ⟨d, hd, hchild⟩ := hshown hslot hx
      have hmem := List.mem_flatMap.2 ⟨slot, List.mem_of_getElem? hslot, hx⟩
      obtain ⟨hn, node, hnode, hk⟩ := hchild.exists_head (hrows x hmem) (hnodes x hmem)
      obtain ⟨p, hstorage, hl⟩ := hf.filed hd
      rw [Arena.storageAt, hs.kindAt] at hstorage
      exact ⟨d, _, node, hxe ▸ hn, hl, Option.some.inj (hstorage.symm.trans hp), hxe ▸ hnode, hk⟩
    · -- a node further down does
      obtain ⟨x, hmem, he⟩ := habut.exists_edges he
      obtain ⟨slot, hslot, hx⟩ := List.mem_flatMap.1 hmem
      obtain ⟨j, hj⟩ := List.mem_iff_getElem?.1 hslot
      obtain ⟨d, -, hchild⟩ := hshown hj hx
      obtain ⟨content, hcontent, hc⟩ := Slot.mem_members_of_mem hmem
      exact ih content hcontent x.2 hc hchild (hrows x hmem) (hnodes x hmem) e he

end Tree

end SyntaxForest
