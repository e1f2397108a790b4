import SyntaxForest.Proofs.Subtree.Children
import SyntaxForest.Proofs.Subtree.Row

/-!
# Proofs/Subtree/Preorder — the row of an image can be read back by its positions alone

An image is a row of nodes that name their children by position.  `Image.Reads` follows these names, knowing
nothing of the subtree that the row was laid out for: a position comes first, then all that is read from the
positions that its node names.  In the row of a subtree **every reading is a block of positions that follow each
other**, so a node has below it exactly the nodes that stand behind it, up to some position.

* `Image.Reads.unique`, `Image.Reads.exists_block` — there is one reading, and it holds those below it as blocks.
* `Subtree.reads_rowFrom` — **the row of a subtree is read position by position**.
* `Subtree.Sound.preordered` — **the image of a sound subtree is a preorder row** (`Image.Preordered`).
-/

namespace SyntaxForest

/-- The positions that an image node names, slot by slot, lists element by element. -/
def ImageNode.names (node : ImageNode) : List Nat := node.slots.flatMap Slot.members

namespace Image

/-- The positions that the nodes of an image name, node by node. -/
def names (i : Image) : List Nat := i.nodes.flatMap ImageNode.names

/-! ## Reading by position -/

/-- **What is read from a position on**: the position itself, then what is read from each position that its node
names, in order. -/
inductive Reads (row : List ImageNode) : Nat → List Nat → Prop
  | node {position : Nat} {node : ImageNode} {blocks : List (Nat × List Nat)} :
    row[position]? = some node → node.names = blocks.map Prod.fst → (∀ b ∈ blocks, Reads row b.1 b.2) →
    Reads row position (position :: blocks.flatMap Prod.snd)

section Reads

variable {row : List ImageNode} {position : Nat} {block block' : List Nat}

/-- **There is one reading** from a position on. -/
theorem Reads.unique (h : Reads row position block) (h' : Reads row position block') : block = block' := by
  induction h generalizing block' with
  | @node position node blocks hnode hnames _ ih =>
    cases h' with
    | @node _ node' blocks' hnode' hnames' hblocks' =>
      obtain rfl : node = node' := Option.some.inj (hnode.symm.trans hnode')
      have hsame : blocks.map Prod.snd = blocks'.map Prod.snd :=
        map_eq_map_of_keys (hnames.symm.trans hnames') fun b hb b' hb' hbb' =>
          ih b hb (hbb' ▸ hblocks' b' hb')
      rw [List.flatMap_def, List.flatMap_def, hsame]

theorem Reads.exists_tail (h : Reads row position block) : ∃ rest, block = position :: rest := by
  cases h
  exact ⟨_, rfl⟩

/-- A reading holds what is read from each of its positions as a block. -/
theorem Reads.exists_block (h : Reads row position block) {q : Nat} (hq : q ∈ block) :
    ∃ inner, Reads row q inner ∧ inner <:+: block := by
  induction h with
  | @node position node blocks hnode hnames hblocks ih =>
    rcases List.mem_cons.1 hq with rfl | hq
    · exact ⟨_, .node hnode hnames hblocks, List.infix_rfl⟩
    · obtain ⟨b, hb, hq⟩ := List.mem_flatMap.1 hq
      obtain ⟨inner, hinner, hpart⟩ := ih b hb hq
      have hb : b.2 <:+: blocks.flatMap Prod.snd := List.infix_of_mem_flatten (List.mem_map_of_mem hb)
      exact ⟨inner, hinner, (hpart.trans hb).trans (List.suffix_cons _ _).isInfix⟩

end Reads

/-- What stands together in a range is a range. -/
theorem eq_range'_of_part {start length q : Nat} {rest : List Nat}
    (h : q :: rest <:+: List.range' start length) : q :: rest = List.range' q (rest.length + 1) := by
  obtain ⟨before, behind, h⟩ := h
  obtain ⟨k, -, hfront, -⟩ := List.range'_eq_append_iff.1 h.symm
  obtain ⟨j, -, -, hblock⟩ := List.range'_eq_append_iff.1 hfront.symm
  have hlength : k - j = rest.length + 1 := by
    rw [← List.length_range' (s := start + j * 1) (n := k - j), ← hblock, List.length_cons]
  rw [hlength] at hblock
  have hq : q = start + j * 1 := (List.cons.inj (hblock.trans List.range'_succ)).1
  rw [hblock, hq]

/-- Blocks that abut are, all together, the positions of their row. -/
theorem Abut.flatMap_range' {start : Nat} {blocks : List (Nat × Subtree)} {row : List ImageNode}
    (h : Abut start blocks row) :
    (blocks.flatMap fun x => List.range' x.1 x.2.size) = List.range' start row.length := by
  induction h with
  | nil start => rfl
  | @cons start s blocks row _ ih =>
    rw [List.flatMap_cons, ih, Subtree.length_rowFrom, List.length_append, Subtree.length_rowFrom,
      List.range'_append_1]

/-! ## Preorder rows -/

/-- **An image in preorder.** -/
structure Preordered (i : Image) : Prop where
  nonempty : i.nodes ≠ []
  /-- every node has the slots of its kind, each of the form that is declared -/
  fits : ∀ node ∈ i.nodes, List.Forall₂ (fun p slot => slot.fits p.form = true) node.kind.storage node.slots
  /-- what a node names stands behind it -/
  behind : ∀ {position : Nat} {node : ImageNode}, i.nodes[position]? = some node →
    ∀ c ∈ node.names, position < c ∧ c < i.size
  /-- the positions from 1 on are named, each once -/
  once : i.names.Perm (List.range' 1 (i.size - 1))
  /-- what is read from a position on is a block that starts there -/
  blocks : ∀ position < i.size, ∃ length, ∀ block, Reads i.nodes position block ↔
    block = List.range' position length

end Image

open Image

namespace Subtree

/-- **The row of a subtree is read position by position.** -/
theorem reads_rowFrom {s : Subtree} {start : Nat} {row : List ImageNode}
    (hrow : s.rowFrom start <+: row.drop start) : Reads row start (List.range' start s.size) := by
  induction s using Subtree.induct generalizing start with
  | node h ss ih =>
    obtain ⟨pairs, rest, rfl, hnode, habut, hrest⟩ := exists_abut hrow
    let blocks := (pairs.flatMap Slot.members).map fun x => (x.1, List.range' x.1 x.2.size)
    have hnames : (⟨h.kind, h.range, pairs.map (Slot.map Prod.fst)⟩ : ImageNode).names =
        blocks.map Prod.fst := by
      rw [ImageNode.names, Slot.flatMap_members_map, List.map_map]
      rfl
    have hblocks : ∀ b ∈ blocks, Reads row b.1 b.2 := by
      refine List.forall_mem_map.2 fun x hx => ?_
      obtain ⟨slot, hslot, hmem⟩ := Slot.mem_members_of_mem hx
      exact ih slot hslot x.2 hmem (habut.prefix_drop hrest x hx)
    have hbelow : blocks.flatMap Prod.snd = List.range' (start + 1) rest.length := by
      rw [List.flatMap_map]
      exact habut.flatMap_range'
    have hsize : (node h (pairs.map (Slot.map Prod.snd))).size = rest.length + 1 := by
      rw [size_node, habut.length_eq fun x _ => x.2.length_rowFrom, Slot.flatMap_members_map, Nat.add_comm]
    rw [hsize, List.range'_succ, ← hbelow]
    exact .node hnode hnames hblocks

end Subtree

namespace Image

variable {row : List ImageNode} {i : Image} {T : Typing}

/-- The children that are filed are those that the nodes name, node by node. -/
theorem map_fst_edgesFrom (hfits : ∀ node ∈ row, node.kind.fits node.slots = true) (start : Nat) :
    (edgesFrom start row).map Prod.fst = row.flatMap ImageNode.names := by
  induction row generalizing start with
  | nil => rfl
  | cons node row ih =>
    obtain ⟨hnode, hrow⟩ := List.forall_mem_cons.1 hfits
    rw [edgesFrom_cons, List.map_append, ImageNode.map_fst_edges hnode, ih hrow, List.flatMap_cons,
      ImageNode.names]

/-- The positions from 1 on are named, each once. -/
theorem Sound.names_perm (h : i.Sound T) : i.names.Perm (List.range' 1 (i.size - 1)) := by
  obtain ⟨k, hlaid⟩ := h
  have hfiled : (0 :: i.names).Perm (List.range' 0 i.size) := by
    rw [names, ← map_fst_edgesFrom hlaid.fits 0]
    exact hlaid.filed
  have hpos : 0 < i.size := by simpa using hfiled.subset List.mem_cons_self
  rw [← Nat.sub_add_cancel hpos, List.range'_succ] at hfiled
  exact hfiled.cons_inv

/-- What a node names stands behind it. -/
theorem Sound.lt_of_mem_names (h : i.Sound T) {position : Nat} {node : ImageNode}
    (hnode : i.nodes[position]? = some node) {c : Nat} (hc : c ∈ node.names) : position < c ∧ c < i.size := by
  have hmem := List.mem_of_getElem? hnode
  have hrange := List.mem_range'_1.1 (h.names_perm.subset (List.mem_flatMap.2 ⟨node, hmem, hc⟩))
  obtain ⟨k, hlaid⟩ := h
  have hedges : (node.edges position).map Prod.fst = node.names := ImageNode.map_fst_edges (hlaid.fits node hmem)
  rw [← hedges] at hc
  obtain ⟨e, he, rfl⟩ := List.mem_map.1 hc
  obtain ⟨-, -, -, hparent⟩ := ImageNode.mem_edges.1 he
  have hordered := hlaid.ordered e (List.mem_flatMap.2 ⟨(node, position), List.mem_zipIdx_iff_getElem?.2 hnode, he⟩)
  omega

end Image

/-- **The image of a sound subtree is in preorder.**  What is read from its root is all of its positions, and every
other reading is a block of this one. -/
theorem Subtree.Sound.preordered {T : Typing} {s : Subtree} (h : s.Sound T) : s.image.Preordered := by
  have hi : s.image.Sound T := ⟨_, h.laid 0⟩
  have hwhole : Reads s.image.nodes 0 (List.range' 0 s.image.size) := by
    rw [s.size_image]
    exact reads_rowFrom (List.prefix_refl _)
  refine ⟨?_, ?_, hi.lt_of_mem_names, hi.names_perm, fun position hposition => ?_⟩
  · have hpos : 0 < s.image.size := s.size_image.symm ▸ s.size_pos
    exact List.ne_nil_of_length_pos hpos
  · obtain ⟨k, hlaid⟩ := hi
    exact fun node hnode => Kind.forall₂_of_fits (hlaid.fits node hnode)
  · have hmem : position ∈ List.range' 0 s.image.size := List.mem_range'_1.2 ⟨Nat.zero_le _, by omega⟩
    obtain ⟨block, hreads, hpart⟩ := hwhole.exists_block hmem
    obtain ⟨rest, rfl⟩ := hreads.exists_tail
    rw [eq_range'_of_part hpart] at hreads
    exact ⟨_, fun block => ⟨fun h => h.unique hreads, fun h => h ▸ hreads⟩⟩

end SyntaxForest
