import SyntaxForest.Proofs.Subtree.Reading
import SyntaxForest.Subtree.Image
import Mathlib.Data.List.Perm.Basic

/-!
# Proofs/Subtree/Row — every node of an image but the first is named once

A row of image nodes names children by position.  `Image.edgesFrom` lists all these names, each with
the place where the child is filed.  `Image.Laid` says of a row that starts at a given position that
the names, together with the roots of its blocks, are all of its positions, each once; that children
come after their parents; and that they are of kinds that are admitted.

* `Image.Laid.append`, `Image.Laid.cons` — blocks side by side, and a node before its children.
* `Image.laySlots_abut` — **the layout puts one block after the other** (`Image.Abut`).
* `Subtree.Sound.laid` — **the row of a sound subtree is laid out so**.
* `Tree.snapshot_sound` — the image of a node of a typed arena is sound.
-/

namespace SyntaxForest

/-- The children that an image node names, each with the place where it is filed. -/
def ImageNode.edges (node : ImageNode) (position : Nat) : List (Nat × Location) :=
  (node.slots.zip node.kind.storage).flatMap fun (s, p) => s.members.map (·, ⟨position, p⟩)

namespace ImageNode

variable {node : ImageNode} {position : Nat} {e : Nat × Location}

theorem mem_edges : e ∈ node.edges position ↔
    ∃ s, (s, e.2.property) ∈ node.slots.zip node.kind.storage ∧ e.1 ∈ s.members ∧
      e.2.parent = position := by
  obtain ⟨c, parent, q⟩ := e
  simp only [edges, List.mem_flatMap, List.mem_map, Prod.mk.injEq, Location.mk.injEq, Prod.exists]
  constructor
  · rintro ⟨s, p, hsp, d, hd, rfl, rfl, rfl⟩
    exact ⟨s, hsp, hd, rfl⟩
  · rintro ⟨s, hsp, hd, rfl⟩
    exact ⟨s, q, hsp, c, hd, rfl, rfl, rfl⟩

/-- A node with the slots of its kind names exactly the members of its slots. -/
theorem map_fst_edges (h : node.kind.fits node.slots = true) :
    (node.edges position).map Prod.fst = node.slots.flatMap Slot.members := by
  have hlen : node.slots.length ≤ node.kind.storage.length := by
    simp only [Kind.fits, Bool.and_eq_true, beq_iff_eq] at h
    exact Nat.le_of_eq h.1
  calc (node.edges position).map Prod.fst
      = (node.slots.zip node.kind.storage).flatMap fun x => x.1.members := by
        simp [edges, List.map_flatMap, Function.comp_def]
    _ = ((node.slots.zip node.kind.storage).map Prod.fst).flatMap Slot.members := by
        rw [List.flatMap_map]
    _ = node.slots.flatMap Slot.members := by rw [List.map_fst_zip hlen]

end ImageNode

namespace Image

variable {T : Typing} {start : Nat} {roots roots' : List (Nat × Kind)} {row row' : List ImageNode}
  {node : ImageNode}

/-- The children that a row names, each with the place where it is filed. -/
def edgesFrom (start : Nat) (row : List ImageNode) : List (Nat × Location) :=
  (row.zipIdx start).flatMap fun (node, position) => node.edges position

theorem edgesFrom_cons :
    edgesFrom start (node :: row) = node.edges start ++ edgesFrom (start + 1) row := by
  rw [edgesFrom, List.zipIdx_cons, List.flatMap_cons, edgesFrom]

theorem edgesFrom_append :
    edgesFrom start (row ++ row') = edgesFrom start row ++ edgesFrom (start + row.length) row' := by
  rw [edgesFrom, List.zipIdx_append, List.flatMap_append, edgesFrom, edgesFrom]

/-- A child that a row names, by the node and the slot that name it. -/
theorem mem_edgesFrom {c : Nat} {l : Location} : (c, l) ∈ edgesFrom 0 row ↔
    ∃ (node : ImageNode) (s : Nat) (content : Slot Nat), row[l.parent]? = some node ∧
      node.slots[s]? = some content ∧ node.kind.storage[s]? = some l.property ∧
        c ∈ content.members := by
  rw [edgesFrom, List.mem_flatMap]
  constructor
  · rintro ⟨⟨node, i⟩, hnode, he⟩
    obtain ⟨content, hzip, hc, rfl⟩ := ImageNode.mem_edges.1 he
    obtain ⟨s, hs⟩ := List.mem_iff_getElem?.1 hzip
    obtain ⟨hs, hp⟩ := List.getElem?_zip_eq_some.1 hs
    exact ⟨node, s, content, List.mem_zipIdx_iff_getElem?.1 hnode, hs, hp, hc⟩
  · rintro ⟨node, s, content, hnode, hs, hp, hc⟩
    have hzip : (content, l.property) ∈ node.slots.zip node.kind.storage :=
      List.mem_of_getElem? (List.getElem?_zip_eq_some.2 ⟨hs, hp⟩)
    exact ⟨(node, l.parent), List.mem_zipIdx_iff_getElem?.2 hnode,
      ImageNode.mem_edges.2 ⟨content, hzip, hc, rfl⟩⟩

/-- There is a node of the kind at the position. -/
def HasKind (start : Nat) (row : List ImageNode) (position : Nat) (k : Kind) : Prop :=
  ∃ node, (node, position) ∈ row.zipIdx start ∧ node.kind = k

/-- **A row of blocks**, with the position and the kind of the root of each. -/
structure Laid (T : Typing) (start : Nat) (roots : List (Nat × Kind)) (row : List ImageNode) :
    Prop where
  fits : ∀ node ∈ row, node.kind.fits node.slots = true
  /-- roots and children are all positions, each once -/
  filed : (roots.map Prod.fst ++ (edgesFrom start row).map Prod.fst).Perm
    (List.range' start row.length)
  /-- children come after their parents -/
  ordered : ∀ e ∈ edgesFrom start row, e.2.parent < e.1
  typed : ∀ e ∈ edgesFrom start row, ∃ k, HasKind start row e.1 k ∧ T.admits e.2.property k
  kinds : ∀ x ∈ roots, HasKind start row x.1 x.2

theorem HasKind.append_left {position : Nat} {k : Kind} (h : HasKind start row position k) :
    HasKind start (row ++ row') position k := by
  obtain ⟨node, hmem, hk⟩ := h
  exact ⟨node, by rw [List.zipIdx_append]; exact List.mem_append_left _ hmem, hk⟩

theorem HasKind.append_right {position : Nat} {k : Kind}
    (h : HasKind (start + row.length) row' position k) :
    HasKind start (row ++ row') position k := by
  obtain ⟨node, hmem, hk⟩ := h
  exact ⟨node, by rw [List.zipIdx_append]; exact List.mem_append_right _ hmem, hk⟩

namespace Laid

theorem nil : Laid T start [] [] where
  fits _ h := by cases h
  filed := .refl _
  ordered _ h := by cases h
  typed _ h := by cases h
  kinds _ h := by cases h

/-- **Blocks side by side.** -/
theorem append (h : Laid T start roots row) (h' : Laid T (start + row.length) roots' row') :
    Laid T start (roots ++ roots') (row ++ row') where
  fits node hnode := (List.mem_append.1 hnode).elim (h.fits node) (h'.fits node)
  filed := by
    have hswap : ((roots ++ roots').map Prod.fst ++
        (edgesFrom start (row ++ row')).map Prod.fst).Perm
        ((roots.map Prod.fst ++ (edgesFrom start row).map Prod.fst) ++
          (roots'.map Prod.fst ++ (edgesFrom (start + row.length) row').map Prod.fst)) := by
      rw [edgesFrom_append, List.map_append, List.map_append, List.append_assoc, List.append_assoc]
      refine List.Perm.append_left _ ?_
      rw [← List.append_assoc, ← List.append_assoc]
      exact List.Perm.append_right _ List.perm_append_comm
    refine hswap.trans ?_
    rw [List.length_append, ← List.range'_append_1]
    exact h.filed.append h'.filed
  ordered e he := by
    rw [edgesFrom_append] at he
    exact (List.mem_append.1 he).elim (h.ordered e) (h'.ordered e)
  typed e he := by
    rw [edgesFrom_append] at he
    rcases List.mem_append.1 he with he | he
    · obtain ⟨k, hk, hadmits⟩ := h.typed e he
      exact ⟨k, hk.append_left, hadmits⟩
    · obtain ⟨k, hk, hadmits⟩ := h'.typed e he
      exact ⟨k, hk.append_right, hadmits⟩
  kinds x hx := by
    rcases List.mem_append.1 hx with hx | hx
    · exact (h.kinds x hx).append_left
    · exact (h'.kinds x hx).append_right

/-- **A node before the blocks of its children.** -/
theorem cons (h : Laid T (start + 1) roots row) (hfits : node.kind.fits node.slots = true)
    (hroots : roots.map Prod.fst = node.slots.flatMap Slot.members)
    (htyped : ∀ e ∈ node.edges start, ∃ k, (e.1, k) ∈ roots ∧ T.admits e.2.property k) :
    Laid T start [(start, node.kind)] (node :: row) where
  fits := List.forall_mem_cons.2 ⟨hfits, h.fits⟩
  filed := by
    rw [edgesFrom_cons, List.map_append, ImageNode.map_fst_edges hfits, ← hroots, List.length_cons,
      List.range'_succ]
    exact h.filed.cons start
  ordered e he := by
    rw [edgesFrom_cons] at he
    rcases List.mem_append.1 he with he | he
    · have hmem : e.1 ∈ roots.map Prod.fst := by
        rw [hroots, ← ImageNode.map_fst_edges hfits]
        exact List.mem_map_of_mem he
      have := List.mem_range'_1.1 (h.filed.subset (List.mem_append_left _ hmem))
      obtain ⟨_, -, -, rfl⟩ := ImageNode.mem_edges.1 he
      omega
    · exact h.ordered e he
  typed e he := by
    rw [edgesFrom_cons] at he
    have hcons : ∀ {position k}, HasKind (start + 1) row position k →
        HasKind start (node :: row) position k := fun {_ _} ⟨x, hx, hk⟩ =>
      ⟨x, by rw [List.zipIdx_cons]; exact List.mem_cons_of_mem _ hx, hk⟩
    rcases List.mem_append.1 he with he | he
    · obtain ⟨k, hk, hadmits⟩ := htyped e he
      exact ⟨k, hcons (h.kinds _ hk), hadmits⟩
    · obtain ⟨k, hk, hadmits⟩ := h.typed e he
      exact ⟨k, hcons hk, hadmits⟩
  kinds x hx := by
    obtain rfl := List.mem_singleton.1 hx
    exact ⟨node, by simp [List.zipIdx_cons], rfl⟩

/-- No child is named twice. -/
theorem names_nodup (h : Laid T start roots row) : ((edgesFrom start row).map Prod.fst).Nodup :=
  (List.nodup_append.1 (h.filed.nodup_iff.2 List.nodup_range')).2.1

/-- …and so no slot names a child twice. -/
theorem members_nodup (h : Laid T start roots row) (hnode : node ∈ row) {content : Slot Nat}
    (hs : content ∈ node.slots) : content.members.Nodup := by
  obtain ⟨i, hi⟩ := List.mem_iff_getElem?.1 hnode
  have hrow : (node, start + i) ∈ row.zipIdx start := by
    rw [List.mem_iff_getElem?]
    exact ⟨i, by simp [List.getElem?_zipIdx, hi]⟩
  have hnames := h.names_nodup
  rw [edgesFrom, List.map_flatMap] at hnames
  have hedges := (List.nodup_flatMap.1 hnames).1 _ hrow
  rw [ImageNode.map_fst_edges (h.fits node hnode)] at hedges
  exact (List.nodup_flatMap.1 hedges).1 content hs

end Laid

/-! ## The layout -/

/-- **Blocks that abut**: subtrees beside the positions at which their rows start, each where the one
before it ends, and the row of them all. -/
inductive Abut : Nat → List (Nat × Subtree) → List ImageNode → Prop
  | nil (start : Nat) : Abut start [] []
  | cons {start : Nat} {s : Subtree} {blocks : List (Nat × Subtree)} {row : List ImageNode} :
    Abut (start + (s.rowFrom start).length) blocks row →
    Abut start ((start, s) :: blocks) (s.rowFrom start ++ row)

variable {blocks blocks' : List (Nat × Subtree)}

theorem Abut.single (start : Nat) (s : Subtree) : Abut start [(start, s)] (s.rowFrom start) := by
  simpa using Abut.cons (.nil (start + (s.rowFrom start).length))

theorem Abut.append (h : Abut start blocks row) (h' : Abut (start + row.length) blocks' row') :
    Abut start (blocks ++ blocks') (row ++ row') := by
  induction h with
  | nil start => exact h'
  | cons _ ih =>
    rw [List.append_assoc]
    rw [List.length_append, ← Nat.add_assoc] at h'
    exact .cons (ih h')

theorem layBlocks_abut (cs : List Subtree) (next : Nat) :
    ∃ pairs : List (Nat × Subtree), pairs.map Prod.snd = cs ∧
      (layBlocks (cs.map Subtree.rowFrom) next).1 = pairs.map Prod.fst ∧
      Abut next pairs (layBlocks (cs.map Subtree.rowFrom) next).2 := by
  induction cs generalizing next with
  | nil => exact ⟨[], rfl, rfl, .nil next⟩
  | cons c cs ih =>
    obtain ⟨pairs, hsnd, hfst, habut⟩ := ih (next + (c.rowFrom next).length)
    refine ⟨(next, c) :: pairs, by rw [List.map_cons, hsnd], ?_, .cons habut⟩
    rw [List.map_cons, List.map_cons, layBlocks, hfst]

theorem laySlot_abut (s : Slot Subtree) (next : Nat) :
    ∃ pairs : Slot (Nat × Subtree), pairs.map Prod.snd = s ∧
      (laySlot (s.map Subtree.rowFrom) next).1 = pairs.map Prod.fst ∧
      Abut next pairs.members (laySlot (s.map Subtree.rowFrom) next).2 := by
  rcases s with v | (_ | c) | cs
  · exact ⟨.scalar v, rfl, rfl, .nil next⟩
  · exact ⟨.child none, rfl, rfl, .nil next⟩
  · exact ⟨.child (some (next, c)), rfl, rfl, .single next c⟩
  · obtain ⟨pairs, hsnd, hfst, habut⟩ := layBlocks_abut cs next
    exact ⟨.list pairs, congrArg Slot.list hsnd, congrArg Slot.list hfst, habut⟩

/-- **The children of a node are laid out side by side**, slot by slot. -/
theorem laySlots_abut (ss : List (Slot Subtree)) (next : Nat) :
    ∃ pairs : List (Slot (Nat × Subtree)), pairs.map (Slot.map Prod.snd) = ss ∧
      (laySlots (ss.map (Slot.map Subtree.rowFrom)) next).1 = pairs.map (Slot.map Prod.fst) ∧
      Abut next (pairs.flatMap Slot.members)
        (laySlots (ss.map (Slot.map Subtree.rowFrom)) next).2 := by
  induction ss generalizing next with
  | nil => exact ⟨[], rfl, rfl, .nil next⟩
  | cons s ss ih =>
    obtain ⟨pair, hsnd, hfst, habut⟩ := laySlot_abut s next
    obtain ⟨pairs, hsnds, hfsts, habuts⟩ :=
      ih (next + (laySlot (s.map Subtree.rowFrom) next).2.length)
    refine ⟨pair :: pairs, by rw [List.map_cons, hsnd, hsnds], ?_, habut.append habuts⟩
    rw [List.map_cons, List.map_cons, laySlots, hfst, hfsts]

/-- Subtrees beside the positions at which their rows start, as the roots of a row. -/
def rootsOf (pairs : List (Nat × Subtree)) : List (Nat × Kind) :=
  pairs.map fun x => (x.1, x.2.head.kind)

theorem map_fst_rootsOf (pairs : List (Nat × Subtree)) :
    (rootsOf pairs).map Prod.fst = pairs.map Prod.fst := by
  simp [rootsOf]

/-- The subtree is laid out as one block wherever its row starts. -/
def Lays (T : Typing) (s : Subtree) : Prop :=
  ∀ start, Laid T start [(start, s.head.kind)] (s.rowFrom start)

/-- Blocks that abut are laid out side by side. -/
theorem Abut.laid (h : Abut start blocks row) (hblocks : ∀ x ∈ blocks, Lays T x.2) :
    Laid T start (rootsOf blocks) row := by
  induction h with
  | nil start => exact .nil
  | @cons start s _ _ _ ih =>
    obtain ⟨hs, hblocks⟩ := List.forall_mem_cons.1 hblocks
    exact (hs start).append (ih hblocks)

theorem Abut.length_eq (h : Abut start blocks row)
    (hblocks : ∀ x ∈ blocks, ∀ start, (x.2.rowFrom start).length = x.2.size) :
    row.length = total ((blocks.map Prod.snd).map Subtree.size) := by
  induction h with
  | nil start => rfl
  | @cons start s _ _ _ ih =>
    obtain ⟨hs, hblocks⟩ := List.forall_mem_cons.1 hblocks
    rw [List.length_append, hs start, ih hblocks]
    rfl

/-- The nodes of a row of blocks are those of the blocks. -/
theorem Abut.forall_mem {P : ImageNode → Prop} (h : Abut start blocks row)
    (hblocks : ∀ x ∈ blocks, ∀ start, ∀ node ∈ x.2.rowFrom start, P node) :
    ∀ node ∈ row, P node := by
  induction h with
  | nil start => exact fun _ hnode => by cases hnode
  | @cons start s _ _ _ ih =>
    obtain ⟨hs, hblocks⟩ := List.forall_mem_cons.1 hblocks
    exact List.forall_mem_append.2 ⟨hs start, ih hblocks⟩

/-- A part of a row that consists of blocks has each of them in its place. -/
theorem Abut.prefix_drop (h : Abut start blocks row) {whole : List ImageNode}
    (hrow : row <+: whole.drop start) : ∀ x ∈ blocks, x.2.rowFrom x.1 <+: whole.drop x.1 := by
  induction h with
  | nil start => exact fun _ hx => by cases hx
  | @cons start s _ row _ ih =>
    refine List.forall_mem_cons.2 ⟨(List.prefix_append _ row).trans hrow, ih ?_⟩
    obtain ⟨rest, hrest⟩ := hrow
    refine ⟨rest, ?_⟩
    rw [← List.drop_drop, ← hrest, List.append_assoc, List.drop_left]

end Image

/-- The children that the layout places are those of the node. -/
theorem Slot.mem_members_of_mem {pairs : List (Slot (Nat × Subtree))} {x : Nat × Subtree}
    (hx : x ∈ pairs.flatMap members) :
    ∃ s ∈ pairs.map (map Prod.snd), x.2 ∈ s.members := by
  obtain ⟨slot, hslot, hx⟩ := List.mem_flatMap.1 hx
  refine ⟨_, List.mem_map_of_mem hslot, ?_⟩
  rw [members_map]
  exact List.mem_map_of_mem hx

/-- **The block of a node in a row**: the node comes first, and the blocks of its children follow side by side. -/
theorem Subtree.exists_abut {h : Head} {ss : List (Slot Subtree)} {start : Nat}
    {row : List ImageNode} (hrow : (node h ss).rowFrom start <+: row.drop start) :
    ∃ (pairs : List (Slot (Nat × Subtree))) (rest : List ImageNode), pairs.map (Slot.map Prod.snd) = ss ∧
      row[start]? = some ⟨h.kind, h.range, pairs.map (Slot.map Prod.fst)⟩ ∧
      Image.Abut (start + 1) (pairs.flatMap Slot.members) rest ∧ rest <+: row.drop (start + 1) := by
  obtain ⟨pairs, rfl, hfst, habut⟩ := Image.laySlots_abut ss (start + 1)
  rw [rowFrom_node, hfst] at hrow
  obtain ⟨rest, hdrop, hrest⟩ := List.cons_prefix_iff.1 hrow
  refine ⟨pairs, _, rfl, ?_, habut, ?_⟩
  · have := congrArg (·[0]?) hdrop
    simpa [List.getElem?_drop] using this
  · rw [← List.tail_drop, hdrop]
    exact hrest

/-- …and the node names its children by the positions at which the row has their blocks. -/
theorem Subtree.exists_blocks {h : Head} {ss : List (Slot Subtree)} {start : Nat}
    {row : List ImageNode} (hrow : (node h ss).rowFrom start <+: row.drop start) :
    ∃ pairs : List (Slot (Nat × Subtree)), pairs.map (Slot.map Prod.snd) = ss ∧
      row[start]? = some ⟨h.kind, h.range, pairs.map (Slot.map Prod.fst)⟩ ∧
      ∀ slot ∈ pairs, ∀ x ∈ slot.members, x.2.rowFrom x.1 <+: row.drop x.1 := by
  obtain ⟨pairs, rest, hpairs, hnode, habut, hrest⟩ := exists_abut hrow
  exact ⟨pairs, hpairs, hnode, fun slot hslot x hx =>
    habut.prefix_drop hrest x (List.mem_flatMap.2 ⟨slot, hslot, hx⟩)⟩

/-- The row of a subtree has an entry for each node. -/
theorem Subtree.length_rowFrom (s : Subtree) (start : Nat) :
    (s.rowFrom start).length = s.size := by
  induction s using Subtree.induct generalizing start with
  | node h ss ih =>
    obtain ⟨pairs, rfl, -, habut⟩ := Image.laySlots_abut ss (start + 1)
    have hlength := habut.length_eq fun x hx next => by
      obtain ⟨s, hs, hc⟩ := Slot.mem_members_of_mem hx
      exact ih s hs x.2 hc next
    rw [rowFrom_node, List.length_cons, hlength, size_node, Slot.flatMap_members_map, Nat.add_comm]

theorem Subtree.size_image (s : Subtree) : s.image.size = s.size := s.length_rowFrom 0

/-- **The row of a sound subtree is one block**, wherever it starts. -/
theorem Subtree.Sound.laid {T : Typing} {s : Subtree} (h : s.Sound T) : Image.Lays T s := by
  induction h with
  | @node h ss hfits htyped _ ih =>
    intro start
    obtain ⟨pairs, rfl, hfst, habut⟩ := Image.laySlots_abut ss (start + 1)
    have hlaid := habut.laid fun x hx => by
      obtain ⟨s, hs, hc⟩ := Slot.mem_members_of_mem hx
      exact ih s hs x.2 hc
    rw [rowFrom_node, hfst]
    change Image.Laid T start
      [(start, (⟨h.kind, h.range, pairs.map (Slot.map Prod.fst)⟩ : ImageNode).kind)] _
    refine hlaid.cons ?_ ?_ ?_
    · rw [Kind.fits_map_slots] at hfits ⊢
      exact hfits
    · rw [Image.map_fst_rootsOf, Slot.flatMap_members_map]
    · intro e he
      obtain ⟨s, hsp, hc, -⟩ := ImageNode.mem_edges.1 he
      obtain ⟨pair, hpair, rfl⟩ := mem_map_zip.1 hsp
      rw [Slot.members_map, List.mem_map] at hc
      obtain ⟨x, hx, hxe⟩ := hc
      refine ⟨x.2.head.kind, ?_, ?_⟩
      · rw [← hxe]
        exact List.mem_map_of_mem (List.mem_flatMap.2 ⟨pair, (List.of_mem_zip hpair).1, hx⟩)
      · refine htyped (pair.map Prod.snd) e.2.property (mem_map_zip.2 ⟨pair, hpair, rfl⟩) x.2 ?_
        rw [Slot.members_map]
        exact List.mem_map_of_mem hx

/-- **An image as it is taken of a tree**: one block, from position 0 on. -/
def Image.Sound (T : Typing) (i : Image) : Prop := ∃ k, Laid T 0 [(0, k)] i.nodes

/-- The image of a node is sound. -/
theorem Tree.snapshot_sound {T : Typing} {t : Tree} {n : NodeId} {i : Image}
    (ht : Arena.Typed T t.records) (h : t.snapshot n = .ok i) : i.Sound T := by
  obtain ⟨s, hs, h⟩ := bind_eq_ok.1 h
  cases h
  obtain ⟨-, -, hs⟩ := bind_eq_ok.1 hs
  exact ⟨_, ((unfold_shows hs).sound ht).laid 0⟩

end SyntaxForest
