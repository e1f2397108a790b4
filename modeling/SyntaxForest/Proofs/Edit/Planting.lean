import SyntaxForest.Edit.Graft
import SyntaxForest.Proofs.Edit.Atomic
import SyntaxForest.Proofs.Subtree.Row

/-!
# Proofs/Edit/Planting — an image becomes a tree of its own

Planting appends the records of an image and then files its children one by one.  `Arena.plant` is
the arena that this leaves.  A sound image names each of its nodes but the first once, so the order
of the filing does not matter and each child has one location in the end.

* `Arena.plant_filed`, `Arena.plant_root` — where the new nodes are attached.
* `Arena.Forest.plant`, `Arena.Typed.plant` — **planting a sound image keeps the forest**.
* `Image.graft_atomic` — a graft plants the image or changes nothing.
-/

namespace SyntaxForest

/-! ## Filing children -/

namespace Arena

variable {a : Arena} {es : List (Nat × Location)} {i s c : Nat} {l : Location} {r : Record}

/-- The arena with children filed, one after the other. -/
def file (a : Arena) (es : List (Nat × Location)) : Arena :=
  es.foldl (fun a e => a.place e.1 (some e.2)) a

theorem file_cons {e : Nat × Location} : a.file (e :: es) = (a.place e.1 (some e.2)).file es := rfl

@[simp] theorem size_file : (a.file es).size = a.size := by
  induction es generalizing a with
  | nil => rfl
  | cons e es ih => rw [file_cons, ih, size_place]

/-- Filing changes locations only. -/
theorem getElem?_file (h : (a.file es)[i]? = some r) :
    ∃ r', a[i]? = some r' ∧ r = { r' with location := r.location } := by
  induction es generalizing a with
  | nil => exact ⟨r, h, rfl⟩
  | cons e es ih =>
    obtain ⟨r', hr', hr⟩ := ih h
    rw [getElem?_place] at hr'
    split at hr'
    · obtain ⟨r'', hr'', rfl⟩ := Option.map_eq_some_iff.1 hr'
      exact ⟨r'', hr'', hr⟩
    · exact ⟨r', hr', hr⟩

/-- A node that is not filed stays as it is. -/
theorem getElem?_file_of_not_mem (hc : c ∉ es.map Prod.fst) : (a.file es)[c]? = a[c]? := by
  induction es generalizing a with
  | nil => rfl
  | cons e es ih =>
    obtain ⟨hne, hc⟩ := not_or.1 (mt List.mem_cons.2 hc)
    rw [file_cons, ih hc, getElem?_place, if_neg (Ne.symm hne)]

/-- A node that is filed once is where it was filed. -/
theorem locationAt_file (hes : (es.map Prod.fst).Nodup) (hc : c < a.size) (hmem : (c, l) ∈ es) :
    (a.file es).locationAt c = some l := by
  induction es generalizing a with
  | nil => cases hmem
  | cons e es ih =>
    obtain ⟨hnot, hes⟩ := List.nodup_cons.1 hes
    rcases List.mem_cons.1 hmem with rfl | hmem
    · obtain ⟨r, hr⟩ := exists_record hc
      rw [locationAt, file_cons, getElem?_file_of_not_mem hnot, getElem?_place, if_pos rfl, hr]
      rfl
    · exact ih hes (by simpa using hc) hmem

/-! ## The planted arena -/

/-- Where a child of an image is filed once the row has been planted from `base` on. -/
def shift (base : Nat) (e : Nat × Location) : Nat × Location :=
  (base + e.1, ⟨base + e.2.parent, e.2.property⟩)

/-- The arena with a row planted at its end. -/
def plant (a : Arena) (flags : Flags) (row : List ImageNode) : Arena :=
  file (a ++ (row.map (Image.recordAt a.size flags)).toArray)
    ((Image.edgesFrom 0 row).map (shift a.size))

variable {flags : Flags} {row : List ImageNode} {k : Kind} {node : ImageNode}

theorem map_fst_shift (base : Nat) : (es.map (shift base)).map Prod.fst =
    (es.map Prod.fst).map (base + ·) := by
  simp [shift, Function.comp_def]

theorem size_plant : (a.plant flags row).size = a.size + row.length := by
  rw [plant, size_file, Array.size_append]
  simp

/-- What was there stays as it is. -/
theorem getElem?_plant_old (hi : i < a.size) : (a.plant flags row)[i]? = a[i]? := by
  rw [plant, getElem?_file_of_not_mem, Array.getElem?_append, if_pos hi]
  rw [map_fst_shift, List.mem_map]
  rintro ⟨c, -, rfl⟩
  omega

/-- A new record is that of an image node, apart from its location. -/
theorem exists_node_of_plant (h : (a.plant flags row)[a.size + i]? = some r) :
    ∃ node, row[i]? = some node ∧
      r = { Image.recordAt a.size flags node with location := r.location } := by
  obtain ⟨r', hr', hr⟩ := getElem?_file h
  rw [Array.getElem?_append, if_neg (by omega), Nat.add_sub_cancel_left, List.getElem?_toArray,
    List.getElem?_map] at hr'
  obtain ⟨node, hnode, rfl⟩ := Option.map_eq_some_iff.1 hr'
  exact ⟨node, hnode, hr⟩

variable (a flags) in
theorem exists_plant_of_node (h : row[i]? = some node) :
    ∃ r, (a.plant flags row)[a.size + i]? = some r ∧
      r = { Image.recordAt a.size flags node with location := r.location } := by
  obtain ⟨r, hr⟩ := exists_record (a := a.plant flags row) (i := a.size + i) (by
    rw [size_plant]
    have := (List.getElem?_eq_some_iff.1 h).1
    omega)
  obtain ⟨node', hnode', hr'⟩ := exists_node_of_plant hr
  rw [h] at hnode'
  cases hnode'
  exact ⟨r, hr, hr'⟩

theorem kindAt_plant (h : Image.HasKind 0 row i k) :
    (a.plant flags row).kindAt (a.size + i) = some k := by
  obtain ⟨node, hmem, rfl⟩ := h
  obtain ⟨r, hr, hr'⟩ := exists_plant_of_node a flags (List.mem_zipIdx_iff_getElem?.1 hmem)
  rw [kindAt_of_record hr, hr']
  rfl

/-- The slots of a new record are owned as those of its image node. -/
theorem storageAt_plant (h : row[i]? = some node) :
    (a.plant flags row).storageAt (a.size + i) s = node.kind.storage[s]? := by
  rw [storageAt, kindAt_plant ⟨node, List.mem_zipIdx_iff_getElem?.2 h, rfl⟩]
  rfl

/-- **A new record names the children of its image node**, each moved with the row. -/
theorem membersAt_plant : (a.plant flags row).membersAt (a.size + i) s =
    (((row[i]?).bind (·.slots[s]?)).elim [] Slot.members).map (a.size + ·) := by
  rcases hr : (a.plant flags row)[a.size + i]? with _ | r
  · have hi : row.length ≤ i := by
      have := Array.getElem?_eq_none_iff.1 hr
      rw [size_plant] at this
      omega
    rw [membersAt, slotAt, hr, List.getElem?_eq_none hi]
    rfl
  · obtain ⟨node, hnode, hr'⟩ := exists_node_of_plant hr
    rw [membersAt_of_record hr, hr', hnode, Option.bind_some]
    simp only [Image.recordAt, List.getElem?_map]
    rcases node.slots[s]? with _ | content
    · rfl
    · exact Slot.members_map _ content

theorem mem_plant : c ∈ (a.plant flags row).membersAt (a.size + i) s ↔
    ∃ node content d, row[i]? = some node ∧ node.slots[s]? = some content ∧ d ∈ content.members ∧
      c = a.size + d := by
  rw [membersAt_plant, List.mem_map]
  constructor
  · rintro ⟨d, hd, rfl⟩
    rcases hnode : row[i]? with _ | node <;> rw [hnode] at hd
    · cases hd
    · rw [Option.bind_some] at hd
      rcases hs : node.slots[s]? with _ | content <;> rw [hs] at hd
      · cases hd
      · exact ⟨node, content, d, rfl, hs, hd, rfl⟩
  · rintro ⟨node, content, d, hnode, hs, hd, rfl⟩
    exact ⟨d, by rw [hnode, Option.bind_some, hs]; exact hd, rfl⟩

section Laid

variable {T : Typing} {roots : List (Nat × Kind)} (h : Image.Laid T 0 roots row)

include h

theorem lt_length_of_mem_edges {e : Nat × Location} (he : e ∈ Image.edgesFrom 0 row) :
    e.1 < row.length := by
  have hmem := h.filed.subset (List.mem_append_right _ (List.mem_map_of_mem he))
  rw [List.mem_range'_1] at hmem
  omega

/-- **A new child is filed where its image names it.** -/
theorem plant_filed (he : (c, l) ∈ Image.edgesFrom 0 row) :
    (a.plant flags row).locationAt (a.size + c) = some (shift a.size (c, l)).2 := by
  refine locationAt_file ?_ ?_ (List.mem_map_of_mem he)
  · rw [map_fst_shift]
    exact h.names_nodup.map fun _ _ => Nat.add_left_cancel
  · have : c < row.length := lt_length_of_mem_edges h he
    simpa using this

omit h in
/-- …and a new node that its image does not name is a root. -/
theorem plant_root (hc : c ∉ (Image.edgesFrom 0 row).map Prod.fst) :
    (a.plant flags row).locationAt (a.size + c) = none := by
  rw [locationAt, plant, getElem?_file_of_not_mem, Array.getElem?_append, if_neg (by omega),
    List.getElem?_toArray, List.getElem?_map]
  · rcases row[a.size + c - a.size]? with _ | node <;> rfl
  · rw [map_fst_shift, List.mem_map]
    rintro ⟨d, hd, hcd⟩
    exact hc (Nat.add_left_cancel hcd ▸ hd)

/-- The locations of new nodes come from the image. -/
theorem exists_edge_of_plant (hl : (a.plant flags row).locationAt (a.size + c) = some l) :
    ∃ l', (c, l') ∈ Image.edgesFrom 0 row ∧ l = (shift a.size (c, l')).2 := by
  by_cases hc : c ∈ (Image.edgesFrom 0 row).map Prod.fst
  · obtain ⟨⟨c, l'⟩, he, rfl⟩ := List.mem_map.1 hc
    rw [plant_filed h he] at hl
    exact ⟨l', he, (Option.some.inj hl).symm⟩
  · rw [plant_root hc] at hl
    cases hl

/-- No slot of a new record names a child twice. -/
theorem plant_nodup : ((a.plant flags row).membersAt (a.size + i) s).Nodup := by
  rw [membersAt_plant]
  refine List.Nodup.map (fun _ _ => Nat.add_left_cancel) ?_
  rcases hnode : row[i]? with _ | node
  · exact List.nodup_nil
  · rw [Option.bind_some]
    rcases hs : node.slots[s]? with _ | content
    · exact List.nodup_nil
    · exact h.members_nodup (List.mem_of_getElem? hnode) (List.mem_of_getElem? hs)

/-- **The way up from a new node ends**, since parents come before their children. -/
theorem plant_rooted (hi : i < row.length) :
    ∃ chain, (a.plant flags row).Chain (a.size + i) chain := by
  induction i using Nat.strongRecOn with
  | _ i ih =>
    rcases hl : locationAt (a.plant flags row) (a.size + i) with _ | l
    · exact ⟨_, .root (by rw [size_plant]; omega) hl⟩
    · obtain ⟨l', he, rfl⟩ := exists_edge_of_plant h hl
      have hlt : l'.parent < i := h.ordered _ he
      obtain ⟨chain, hc⟩ := ih l'.parent hlt (Nat.lt_trans hlt hi)
      exact ⟨_, .up hl hc⟩

end Laid

/-- **Planting a sound image keeps the forest.** -/
theorem Forest.plant {T : Typing} {roots : List (Nat × Kind)} (h : a.Forest)
    (hi : Image.Laid T 0 roots row) : (a.plant flags row).Forest := by
  refine h.extend (by rw [size_plant]; omega) (fun i hi => getElem?_plant_old hi) ?_ ?_ ?_ ?_ ?_
  · intro i r hle hr
    obtain ⟨j, rfl⟩ := Nat.exists_eq_add_of_le hle
    obtain ⟨node, hnode, hr'⟩ := exists_node_of_plant hr
    rw [hr']
    exact (Kind.fits_map_slots _).trans (hi.fits node (List.mem_of_getElem? hnode))
  · intro i s c hle hc
    obtain ⟨j, rfl⟩ := Nat.exists_eq_add_of_le hle
    obtain ⟨node, content, d, hnode, hs, hd, rfl⟩ := mem_plant.1 hc
    obtain ⟨p, hp, -⟩ :=
      Kind.exists_storage_of_fits (hi.fits node (List.mem_of_getElem? hnode)) hs
    have he : (d, (⟨j, p⟩ : Location)) ∈ Image.edgesFrom 0 row :=
      Image.mem_edgesFrom.2 ⟨node, s, content, hnode, hs, hp, hd⟩
    exact ⟨p, (storageAt_plant hnode).trans hp, plant_filed hi he⟩
  · intro c l hle hl
    obtain ⟨d, rfl⟩ := Nat.exists_eq_add_of_le hle
    obtain ⟨l', he, rfl⟩ := exists_edge_of_plant hi hl
    obtain ⟨node, s, content, hnode, hs, hp, hd⟩ := Image.mem_edgesFrom.1 he
    obtain ⟨rfl, hk⟩ := Kind.storage_slot hp
    exact ⟨(storageAt_plant hnode).trans hp, mem_plant.2 ⟨node, content, d, hnode, hs, hd, rfl⟩⟩
  · intro i hle s
    obtain ⟨j, rfl⟩ := Nat.exists_eq_add_of_le hle
    exact plant_nodup hi
  · intro i hle hb
    obtain ⟨j, rfl⟩ := Nat.exists_eq_add_of_le hle
    rw [size_plant] at hb
    exact plant_rooted hi (Nat.lt_of_add_lt_add_left hb)

/-- …and keeps children of kinds that are admitted. -/
theorem Typed.plant {T : Typing} {roots : List (Nat × Kind)} (h : a.Forest) (ht : a.Typed T)
    (hi : Image.Laid T 0 roots row) : (a.plant flags row).Typed T := by
  refine ht.extend (fun i hi => getElem?_plant_old hi) h fun {i s c p} hle hc hp => ?_
  obtain ⟨j, rfl⟩ := Nat.exists_eq_add_of_le hle
  obtain ⟨node, content, d, hnode, hs, hd, rfl⟩ := mem_plant.1 hc
  rw [storageAt_plant hnode] at hp
  have he : (d, (⟨j, p⟩ : Location)) ∈ Image.edgesFrom 0 row :=
    Image.mem_edgesFrom.2 ⟨node, s, content, hnode, hs, hp, hd⟩
  obtain ⟨k, hk, hadmits⟩ := hi.typed _ he
  exact ⟨k, kindAt_plant hk, hadmits⟩

end Arena

/-! ## The run of a graft -/

namespace TreeM

variable {t : Tree} {flags : Flags} {row : List ImageNode}

/-- A row of rows is gone through row by row. -/
theorem forM_flatMap {α β : Type} {xs : List α} {f : α → List β} {g : β → TreeM Unit} :
    (xs.flatMap f).forM g = xs.forM fun x => (f x).forM g := by
  simp only [List.forM_eq_forM]
  induction xs with
  | nil => rfl
  | cons x xs ih => rw [List.flatMap_cons, List.forM_append, List.forM_cons, ih]

/-- The records of a row are appended in its order. -/
theorem forM_append_run (base : Nat) :
    (row.forM fun node => discard (append (Image.recordAt base flags node))) t =
      .ok () { t with records := t.records ++ (row.map (Image.recordAt base flags)).toArray } := by
  induction row generalizing t with
  | nil => simp [pure, EStateM.pure]
  | cons node row ih =>
    rw [List.forM_eq_forM] at ih ⊢
    rw [List.forM_cons]
    have hstep : discard (append (Image.recordAt base flags node)) t =
        .ok () { t with records := t.records.push (Image.recordAt base flags node) } := rfl
    simp only [bind, EStateM.bind, hstep, ih]
    simp

/-- Links, one after the other, file the children. -/
theorem forM_link_run {es : List (Nat × Location)}
    (hes : ∀ e ∈ es, e.1 < t.records.size ∧ e.2.property.primary = e.2.property) :
    (es.forM fun e => link e.1 e.2.parent e.2.property) t =
      .ok () { t with records := Arena.file t.records es } := by
  induction es generalizing t with
  | nil => rfl
  | cons e es ih =>
    obtain ⟨⟨hlt, hp⟩, hes⟩ := List.forall_mem_cons.1 hes
    rw [List.forM_eq_forM] at ih ⊢
    rw [List.forM_cons, link_bind hlt, hp, ih (by simpa using hes)]
    rfl

end TreeM

namespace Image

open TreeM

/-- The children of a node are filed in the order in which it names them. -/
theorem fileChildren_eq (base position : Nat) (node : ImageNode) :
    fileChildren base (base + position) node =
      ((node.edges position).map (Arena.shift base)).forM fun e =>
        link e.1 e.2.parent e.2.property := by
  rw [ImageNode.edges, List.map_flatMap, forM_flatMap, fileChildren]
  simp only [List.forM_eq_forM, List.map_map, List.forM_map]
  rfl

/-- …and those of a row node by node. -/
theorem forM_fileChildren_eq (base : Nat) (row : List ImageNode) :
    (row.zipIdx.forM fun (node, position) => fileChildren base (base + position) node) =
      ((edgesFrom 0 row).map (Arena.shift base)).forM fun e =>
        link e.1 e.2.parent e.2.property := by
  rw [edgesFrom, List.map_flatMap, forM_flatMap]
  simp only [fileChildren_eq]

end Image

/-- The tree with an image planted into it. -/
def Tree.planted (t : Tree) (i : Image) : Tree :=
  { t.tell .pre (.clone i.source none) with
    records := Arena.plant t.records t.config.defaultFlags i.nodes }.tell .post
      (.clone i.source (some (t.handle t.size)))

section Planted

variable {t : Tree} {i : Image}

@[simp] theorem Tree.planted_records :
    (t.planted i).records = Arena.plant t.records t.config.defaultFlags i.nodes := by
  simp [planted]

/-- There is one new node for each node of the image. -/
theorem Tree.size_planted : (t.planted i).size = t.size + i.size := by
  rw [size, planted_records, Arena.size_plant]
  rfl

@[simp] theorem Tree.planted_id : (t.planted i).id = t.id := by simp [planted]

@[simp] theorem Tree.planted_config : (t.planted i).config = t.config := by simp [planted]

@[simp] theorem Tree.planted_stamp : (t.planted i).stamp = t.stamp := by simp [planted]

@[simp] theorem Tree.planted_handle : (t.planted i).handle = t.handle := by
  funext j
  simp [handle]

end Planted

namespace Image

open TreeM

variable {T : Typing} {t : Tree} {i : Image}

theorem nodes_ne_nil (h : i.Sound T) : i.nodes ≠ [] := by
  obtain ⟨k, hi⟩ := h
  intro hnil
  have := hi.filed.length_eq
  rw [hnil] at this
  simp at this

/-- Planting cannot fail. -/
theorem plant_run (h : i.Sound T) : i.plant t = .ok (t.handle t.size)
    { t with records := Arena.plant t.records t.config.defaultFlags i.nodes } := by
  obtain ⟨k, hi⟩ := h
  let planted : Tree := { t with
    records := t.records ++ (i.nodes.map (recordAt t.size t.config.defaultFlags)).toArray }
  have hlinks : ∀ e ∈ (edgesFrom 0 i.nodes).map (Arena.shift t.size),
      e.1 < planted.records.size ∧ e.2.property.primary = e.2.property := by
    intro e he
    obtain ⟨⟨c, l⟩, hcl, rfl⟩ := List.mem_map.1 he
    have hlt := Arena.lt_length_of_mem_edges hi hcl
    obtain ⟨node, s, content, -, -, hp, -⟩ := mem_edgesFrom.1 hcl
    refine ⟨?_, Kind.primary_of_storage hp⟩
    simpa [planted, Arena.shift, Tree.size] using hlt
  have hplant : i.plant = do
      let t ← get
      i.nodes.forM fun node => discard (append (recordAt t.size t.config.defaultFlags node))
      ((edgesFrom 0 i.nodes).map (Arena.shift t.size)).forM fun e =>
        link e.1 e.2.parent e.2.property
      return t.handle t.size := by
    simp only [plant, ← forM_fileChildren_eq]
  rw [hplant]
  change (bind (m := TreeM) _ fun _ => bind _ fun _ => Pure.pure (t.handle t.size)) t = _
  rw [bind_of_ok (forM_append_run t.size), bind_of_ok (forM_link_run hlinks)]
  rfl

/-- An image that passes the check is planted. -/
theorem graft_run (h : i.Sound T) (hcheck : i.checkPlantable t.shape = .ok ()) :
    i.graft t = .ok (t.handle t.size) (t.planted i) := by
  rw [graft, look_bind_run hcheck, if_neg (by simpa using nodes_ne_nil h)]
  change (tell .pre (.clone i.source none) >>= fun _ => _) t = _
  rw [tell_bind, bind_of_ok (plant_run h), tell_bind]
  simp [Tree.planted, Tree.handle, Tree.size, Pure.pure, EStateM.pure]

/-- **A graft plants a sound image or changes nothing.** -/
theorem graft_atomic (h : i.Sound T) : i.graft.Atomic t fun copy t' =>
    i.checkPlantable t.shape = .ok () ∧ copy = t.handle t.size ∧ t' = t.planted i := by
  rcases hcheck : i.checkPlantable t.shape with e | ⟨⟩
  · refine .look_bind fun _ hok => ?_
    rw [hcheck] at hok
    cases hok
  · exact .of_ok (graft_run h hcheck) ⟨rfl, rfl, rfl⟩

end Image

end SyntaxForest
