import SyntaxForest.Proofs.Edit.Stamp
import SyntaxForest.Proofs.Edit.Visible
import SyntaxForest.Proofs.Subtree.Children
import SyntaxForest.Proofs.Subtree.Cursor

/-!
# Proofs/Subtree/Replanting — a planted image gives itself back

An image names children by their positions in the row, and planting moves every position by the old
size of the arena.  To read the planted root is to undo both: where the block of a subtree sits in the
row, the arena shows a subtree with the same row.

* `Tree.Extends.shows` — what is added to an arena changes no subtree.
* `Tree.Shows.rowFrom_eq` — **planting keeps the row of every block**.
* `Image.checkPlantable_iff` — only annotations can keep an image out, and only in the legacy shape.
* `Tree.grafted` — all that a graft does (`Tree.Grafted`).
-/

namespace SyntaxForest

/-! ## Two readings of one row of slots -/

section Keys

variable {α β κ δ : Type} {a : α → κ} {b : β → κ} {f : α → δ} {g : β → δ}

/-- Slots that agree in the keys of their children agree in what the keys determine. -/
theorem Slot.map_eq_map_of_keys {x : Slot α} {y : Slot β} (h : x.map a = y.map b)
    (hfg : ∀ c ∈ x.members, ∀ d ∈ y.members, a c = b d → f c = g d) : x.map f = y.map g := by
  cases x with
  | scalar v =>
    cases y with
    | scalar w => exact congrArg scalar (scalar.inj h)
    | child _ | list _ => cases h
  | child c =>
    cases y with
    | child d =>
      have hcd : c.map a = d.map b := child.inj h
      rcases c with _ | c
      · obtain rfl := Option.map_eq_none_iff.1 hcd.symm
        rfl
      · obtain ⟨d, rfl, hd⟩ := Option.map_eq_some_iff.1 hcd.symm
        exact congrArg (fun e => child (some e))
          (hfg c (List.mem_singleton_self c) d (List.mem_singleton_self d) hd.symm)
    | scalar _ | list _ => cases h
  | list cs =>
    cases y with
    | list ds => exact congrArg list (SyntaxForest.map_eq_map_of_keys (list.inj h) hfg)
    | scalar _ | child _ => cases h

/-- …and so do rows of slots. -/
theorem Slot.map_map_eq_of_keys {xs : List (Slot α)} {ys : List (Slot β)}
    (h : xs.map (map a) = ys.map (map b))
    (hfg : ∀ x ∈ xs, ∀ c ∈ x.members, ∀ y ∈ ys, ∀ d ∈ y.members, a c = b d → f c = g d) :
    xs.map (map f) = ys.map (map g) :=
  SyntaxForest.map_eq_map_of_keys h fun x hx y hy hxy =>
    map_eq_map_of_keys hxy fun c hc d hd => hfg x hx c hc y hy d hd

end Keys

/-! ## Nodes with the same rows -/

/-- Nodes of one kind and range have the same rows if their children do. -/
theorem Subtree.rowFrom_node_eq {h h' : Head} {ss ss' : List (Slot Subtree)} (hkind : h'.kind = h.kind)
    (hrange : h'.range = h.range) (hrows : ss'.map (Slot.map rowFrom) = ss.map (Slot.map rowFrom)) :
    (node h' ss').rowFrom = (node h ss).rowFrom := by
  funext start
  rw [rowFrom_node, rowFrom_node, hkind, hrange, hrows]

/-- A node that has the same rows in two trees has the same image. -/
theorem Tree.snapshot_eq_of_rows {t t' : Tree} {m : NodeId} (hf : Arena.Forest t.records)
    (hf' : Arena.Forest t'.records) (hid : t'.id = t.id) (hm : m ∈ t.nodes) (hm' : m ∈ t'.nodes)
    (hrows : ∀ s s', t.Shows m.index s → t'.Shows m.index s' → s'.rowFrom = s.rowFrom) :
    ∃ image, t.snapshot m = .ok image ∧ t'.snapshot m = .ok image := by
  rw [mem_nodes] at hm hm'
  obtain ⟨s, hs, -, hown⟩ := exists_subtree hf hm.1 hm.2
  obtain ⟨s', hs', -, hown'⟩ := exists_subtree hf' hm'.1 hm'.2
  have himage : s'.image = s.image := by
    rw [Subtree.image, Subtree.image, hrows s s' hs hs', hs.node_eq, hs'.node_eq, handle, handle, hid]
  exact ⟨s.image, bind_eq_ok.2 ⟨s, hown, rfl⟩, bind_eq_ok.2 ⟨s', hown', congrArg _ himage⟩⟩

/-! ## Reading what is there -/

namespace Tree

section Shows

variable {t t' : Tree} {i : Nat} {s s' : Subtree}

/-- A node has one subtree. -/
theorem Shows.unique (h : t.Shows i s) (h' : t.Shows i s') : s = s' := by
  induction h generalizing s' with
  | @node i r pairs hr _ hpairs _ ih =>
    cases h' with
    | @node _ r' pairs' hr' _ hpairs' hbelow' =>
      obtain rfl := Option.some.inj (hr.symm.trans hr')
      rw [Slot.map_map_eq_of_keys (hpairs.symm.trans hpairs') fun slot hslot x hx slot' hslot' x' hx' hxx =>
        ih slot hslot x hx (hxx ▸ hbelow' slot' hslot' x' hx')]

/-- **What is added to an arena changes no subtree.** -/
theorem Extends.shows (h : t.Extends t') (hs : t.Shows i s) : t'.Shows i s := by
  induction hs with
  | @node i r pairs hr hfits hslots _ ih =>
    have hr' : t'.records[i]? = some r := (h.old i (Arena.lt_size_of_record hr)).trans hr
    have hshows := Shows.node hr' hfits hslots ih
    rwa [handle, h.id] at hshows

end Shows

/-! ## Reading a planted row -/

/-- **Planting keeps the row of every block**: what the arena shows where a block of the row has come
to lie has the row of the block. -/
theorem Shows.rowFrom_eq {u : Tree} {a : Arena} {flags : Flags} {row : List ImageNode}
    (hu : u.records = Arena.plant a flags row) {s s' : Subtree} {start : Nat}
    (hrow : s.rowFrom start <+: row.drop start) (hs' : u.Shows (a.size + start) s') :
    s'.rowFrom = s.rowFrom := by
  induction s using Subtree.induct generalizing start s' with
  | node h ss ih =>
    obtain ⟨pairs, rfl, hnode, hblocks⟩ := Subtree.exists_blocks hrow
    cases hs' with
    | @node _ r pairs' hr hfits hslots hx =>
      obtain ⟨node, hnode', hr'⟩ := Arena.exists_node_of_plant (hu ▸ hr)
      rw [hnode] at hnode'
      cases hnode'
      have hkeys : pairs'.map (Slot.map Prod.fst) =
          pairs.map (Slot.map fun x => a.size + x.1) := by
        rw [← hslots, hr']
        simp [Image.recordAt, Function.comp_def]
      have hsame : pairs'.map (Slot.map fun x => x.2.rowFrom) =
          pairs.map (Slot.map fun x => x.2.rowFrom) := by
        refine Slot.map_map_eq_of_keys hkeys fun slot' hslot' x' hx' slot hslot x hmem hxx => ?_
        refine ih _ (List.mem_map_of_mem hslot) x.2 ?_ (hblocks slot hslot x hmem)
          (hxx ▸ hx slot' hslot' x' hx')
        rw [Slot.members_map]
        exact List.mem_map_of_mem hmem
      have hrows : (pairs'.map (Slot.map Prod.snd)).map (Slot.map Subtree.rowFrom) =
          (pairs.map (Slot.map Prod.snd)).map (Slot.map Subtree.rowFrom) := by
        simpa [Function.comp_def] using hsame
      funext next
      rw [Subtree.rowFrom_node, Subtree.rowFrom_node, hrows, hr']
      rfl

end Tree

/-! ## Which images may be planted -/

/-- A stored property beside the content of its slot. -/
theorem Kind.mem_zip_storage {α : Type} {k : Kind} {slots : List (Slot α)} {content : Slot α} {p : Property} :
    (content, p) ∈ slots.zip k.storage ↔ p ∈ k.storage ∧ slots[p.slot]? = some content := by
  constructor
  · intro h
    obtain ⟨s, hs⟩ := List.mem_iff_getElem?.1 h
    obtain ⟨hs, hp⟩ := List.getElem?_zip_eq_some.1 hs
    obtain ⟨rfl, -⟩ := storage_slot hp
    exact ⟨List.mem_of_getElem? hp, hs⟩
  · rintro ⟨hp, hs⟩
    exact List.mem_of_getElem? (List.getElem?_zip_eq_some.2 ⟨hs, (storage_of_mem hp).1⟩)

/-- The node has something in the slot of a property that the shape does not read. -/
def ImageNode.Exceeds (node : ImageNode) (shape : Shape) (p : Property) : Prop :=
  p ∈ node.kind.storage ∧ ∃ content, node.slots[p.slot]? = some content ∧
    content.isPopulated = true ∧ node.kind.slotIsLive shape p.slot = false

/-- **The shape reads all that a node has, or the check names a property that it does not read.** -/
theorem ImageNode.checkPlantable_cases (node : ImageNode) (shape : Shape) :
    (node.checkPlantable shape = .ok () ∧ ∀ p, ¬node.Exceeds shape p) ∨ ∃ p, node.Exceeds shape p ∧
      node.checkPlantable shape = .error (.refused (.unsupported node.kind p (.notInShape shape))) := by
  rcases @forM_cases _ _ (node.slots.zip node.kind.storage) fun entry =>
      unlessRefused (!entry.1.isPopulated || node.kind.slotIsLive shape entry.2.slot)
        (.unsupported node.kind entry.2 (.notInShape shape)) with hall | ⟨⟨content, p⟩, hmem, e, he, herror⟩
  · refine .inl ⟨hall, ?_⟩
    rintro p ⟨hp, content, hslot, hpopulated, hlive⟩
    have hentry := forM_eq_ok.1 hall _ (Kind.mem_zip_storage.2 ⟨hp, hslot⟩)
    rw [unlessRefused_eq_ok, hpopulated, hlive] at hentry
    cases hentry
  · obtain ⟨hp, hslot⟩ := Kind.mem_zip_storage.1 hmem
    rcases hpopulated : content.isPopulated <;> rcases hlive : node.kind.slotIsLive shape p.slot <;>
      simp only [hpopulated, hlive] at he <;> cases he
    exact .inr ⟨p, ⟨hp, content, hslot, hpopulated, hlive⟩, herror⟩

namespace Image

variable {i : Image} {T : Typing} {shape : Shape}

/-- A qualified type of the image has annotations. -/
def IsAnnotated (i : Image) : Prop :=
  ∃ node ∈ i.nodes, node.kind = .qualifiedType ∧ ∃ items,
    node.slots[Property.qualifiedTypeAnnotations.slot]? = some (.list items) ∧ items ≠ []

/-- **Only annotations can keep an image out**, and only in the legacy shape. -/
theorem checkPlantable_iff (hi : i.Sound T) :
    i.checkPlantable shape = .ok () ↔ ¬(shape = .legacy ∧ i.IsAnnotated) := by
  rw [checkPlantable_eq_ok hi]
  constructor
  · rintro h ⟨rfl, node, hnode, hkind, items, hs, hitems⟩
    have hlive := h node hnode _ _ hs hitems
    exact ((Kind.slotIsLive_iff _ _ _).1 hlive).2 ⟨rfl, hkind, rfl⟩
  · intro h node hnode s content hs hmembers
    obtain ⟨k, hlaid⟩ := hi
    obtain ⟨p, hp, hfits⟩ := Kind.exists_storage_of_fits (hlaid.fits node hnode) hs
    refine (Kind.slotIsLive_iff _ _ _).2 ⟨(List.getElem?_eq_some_iff.1 hp).1, ?_⟩
    rintro ⟨rfl, hkind, rfl⟩
    rw [hkind] at hp
    cases hp
    cases content with
    | list items => exact h ⟨rfl, node, hnode, hkind, items, hs, hmembers⟩
    | scalar _ | child _ => cases hfits

/-- The image has a node of the kind that exceeds the shape at the property. -/
def Exceeds (i : Image) (shape : Shape) (k : Kind) (p : Property) : Prop :=
  ∃ node ∈ i.nodes, node.kind = k ∧ node.Exceeds shape p

/-- …and the check of the image names the first that does. -/
theorem checkPlantable_cases (i : Image) (shape : Shape) :
    (i.checkPlantable shape = .ok () ∧ ∀ k p, ¬i.Exceeds shape k p) ∨ ∃ k p, i.Exceeds shape k p ∧
      i.checkPlantable shape = .error (.refused (.unsupported k p (.notInShape shape))) := by
  rcases @forM_cases _ _ i.nodes (·.checkPlantable shape) with hall | ⟨node, hnode, e, he, herror⟩
  · refine .inl ⟨hall, ?_⟩
    rintro k p ⟨node, hnode, rfl, hexceeds⟩
    rcases node.checkPlantable_cases shape with ⟨-, hnone⟩ | ⟨q, -, he⟩
    · exact hnone p hexceeds
    · cases he.symm.trans (forM_eq_ok.1 hall node hnode)
  · rcases node.checkPlantable_cases shape with ⟨hok, -⟩ | ⟨p, hexceeds, he'⟩
    · cases hok.symm.trans he
    · cases he'.symm.trans he
      exact .inr ⟨node.kind, p, ⟨node, hnode, rfl, hexceeds⟩, herror⟩

/-- No child of the image is its root. -/
theorem root_not_named {k : Kind} {row : List ImageNode} (h : Laid T 0 [(0, k)] row) :
    0 ∉ (edgesFrom 0 row).map Prod.fst :=
  (List.nodup_cons.1 (h.filed.nodup_iff.2 List.nodup_range')).1

end Image

/-! ## What a graft does -/

namespace Tree

variable {t t' : Tree} {i : Image} {T : Typing} {s : Subtree}

/-- **All that a graft does**: the image comes to exist at the end of the arena, beside what was
there. -/
structure Grafted (t : Tree) (i : Image) (root : NodeId) (t' : Tree) : Prop extends
    t.Extends t' where
  /-- there is one new node for each node of the image -/
  grown : t'.size = t.size + i.size
  /-- the root is the first of them -/
  root_eq : root = t.handle t.size
  parent : t'.parent root = .ok none
  flags : ∀ j, t.size ≤ j → j < t'.size → t'.flags (t'.handle j) = .ok t.config.defaultFlags
  stamp : t'.stamp = t.stamp
  /-- the image of the root is the one that was planted, but for its source -/
  image : t'.snapshot root = .ok { i with source := root }

/-- The root of a planted image has no parent. -/
theorem planted_parent (hi : i.Sound T) (hroot : t.size < (t.planted i).size) :
    (t.planted i).parent (t.handle t.size) = .ok none := by
  obtain ⟨k, hlaid⟩ := hi
  have hl : Arena.locationAt (t.planted i).records t.size = none := by
    rw [planted_records]
    exact Arena.plant_root (Image.root_not_named hlaid)
  rw [← planted_handle (i := i), parent_handle hroot, hl]
  rfl

/-- New nodes carry the marks of the tree. -/
theorem planted_flags {j : Nat} (hle : t.size ≤ j) (hj : j < (t.planted i).size) :
    (t.planted i).flags ((t.planted i).handle j) = .ok t.config.defaultFlags := by
  obtain ⟨d, rfl⟩ := Nat.exists_eq_add_of_le hle
  obtain ⟨r, hr⟩ := Arena.exists_record hj
  have hlook : (t.planted i).look ((t.planted i).handle (t.size + d)) = .ok r :=
    look_eq_ok.2 ⟨rfl, hr⟩
  rw [planted_records] at hr
  obtain ⟨node, -, hr'⟩ := Arena.exists_node_of_plant hr
  exact bind_eq_ok.2 ⟨r, hlook, by rw [hr']; rfl⟩

/-- **A planted image gives itself back.** -/
theorem planted_snapshot (hf : Arena.Forest (t.planted s.image).records)
    (hroot : t.size < (t.planted s.image).size) :
    (t.planted s.image).snapshot (t.handle t.size) =
      .ok { s.image with source := t.handle t.size } := by
  obtain ⟨s', hshows, -, hs'⟩ :=
    exists_subtree hf (n := t.handle t.size) planted_id.symm hroot
  have hwhole : s.rowFrom 0 <+: s.image.nodes.drop 0 := List.prefix_refl _
  have hrow : s'.rowFrom = s.rowFrom := Shows.rowFrom_eq planted_records hwhole hshows
  refine bind_eq_ok.2 ⟨s', hs', ?_⟩
  rw [Subtree.image, hrow, hshows.node_eq, planted_handle]
  rfl

/-- **A planted image is grafted.** -/
theorem grafted (h : t.Sound T) (hi : s.image.Sound T)
    (hcheck : s.image.checkPlantable t.shape = .ok ()) :
    t.Grafted s.image (t.handle t.size) (t.planted s.image) := by
  have hsound : (t.planted s.image).Sound T := (Step.plant _ hi hcheck).sound h
  have hroot : t.size < (t.planted s.image).size := by
    rw [size_planted]
    exact Nat.lt_add_of_pos_right (List.length_pos_iff.2 (Image.nodes_ne_nil hi))
  exact {
    toExtends := extends_planted
    grown := size_planted
    root_eq := rfl
    parent := planted_parent hi hroot
    flags := fun j => planted_flags
    stamp := planted_stamp
    image := planted_snapshot hsound.forest hroot }

end Tree

end SyntaxForest
