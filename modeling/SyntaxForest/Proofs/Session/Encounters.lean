import SyntaxForest.Proofs.Session.Walks
import SyntaxForest.Proofs.Subtree.Completion
import SyntaxForest.Proofs.Subtree.Outline

/-!
# Proofs/Session/Encounters — all walks see the same nodes

A cursor goes by the slots that the shape of the tree reads, an image and an outline by all slots of a node.
In a reachable session this comes to the same, for a slot that the shape does not read is empty.

* `Session.populated_slot_live` — **what is not read is empty**.
* `Session.walks_agree` — **image, walk and outline are of the same nodes** in the same order.
-/

namespace SyntaxForest

namespace Tree

variable {t : Tree} {e : Encounter}

/-- **The image has the node as the tree has it**: its kind, its range, and its scalars slot by slot. -/
def Depicts (t : Tree) (node : ImageNode) (n : NodeId) : Prop :=
  ∃ r, t.look n = .ok r ∧ node.kind = r.kind ∧ node.range = r.range ∧
    node.slots.map Slot.scalar? = r.slots.map Slot.scalar?

/-- **The line shows the node as the tree has it**, at the level. -/
def Prints (t : Tree) (line : String) (place : NodeId × Nat) : Prop :=
  ∃ r, t.look place.1 = .ok r ∧ line =
    Outline.margin (2 * place.2) ++ Outline.kindLine r.kind r.range (r.slots.map Slot.scalar?)

/-- An image has the node that is met if it has the same of it. -/
theorem Has.depicts_iff (h : t.Has e) (node : ImageNode) :
    t.Depicts node e.head.node ↔ node.own = e.own := by
  obtain ⟨r, hr, hhead, hscalars⟩ := h
  rw [ImageNode.own, Encounter.own, hhead, hscalars, Prod.mk.injEq, Prod.mk.injEq]
  constructor
  · rintro ⟨r', hr', hown⟩
    obtain rfl := Except.ok.inj (hr.symm.trans hr')
    exact hown
  · exact fun hown => ⟨r, hr, hown⟩

theorem Has.prints (h : t.Has e) : t.Prints e.line e.place := by
  obtain ⟨r, hr, hhead, hscalars⟩ := h
  refine ⟨r, hr, ?_⟩
  rw [Encounter.line, hhead, hscalars]
  rfl

end Tree

namespace Session

variable {s : Session} {t : Tree} {n : NodeId}

/-- **A slot that holds something is one that the shape reads.** -/
theorem populated_slot_live (h : Reachable s) (ht : t ∈ s.trees) {r : Record} (hr : t.look n = .ok r)
    {slot : Nat} {content : Slot Nat} (hslot : r.slots[slot]? = some content)
    (hpopulated : content.isPopulated = true) : r.kind.slotIsLive t.shape slot = true := by
  obtain ⟨i, hi⟩ := Array.mem_iff_getElem?.1 ht
  obtain ⟨-, hr⟩ := Tree.look_eq_ok.1 hr
  obtain ⟨c, hc⟩ := List.exists_mem_of_ne_nil content.members
    (by simpa [Slot.isPopulated] using hpopulated)
  obtain ⟨k, hk, hlive⟩ := h.visible hi n.index slot c
    (by rwa [Arena.membersAt_of_record hr, hslot, Option.elim_some])
  obtain rfl : r.kind = k := Option.some.inj ((Arena.kindAt_of_record hr).symm.trans hk)
  exact hlive

/-- **All walks see the same nodes.**  What a slot holds, the shape reads; so of every node the image has as
many nodes as a walk enters, each with the kind, the range and the scalars of the one that is entered at the
same place in the order.  And the lines of the outline that name a kind are the lines of these nodes, in this
order again; each stands as far in as nodes around it are entered and not left. -/
theorem walks_agree (h : Reachable s) (ht : t ∈ s.trees) :
    (∀ n r, t.look n = .ok r → ∀ (slot : Nat) content, r.slots[slot]? = some content →
      content.isPopulated = true → r.kind.slotIsLive t.shape slot = true) ∧
    ∀ n ∈ t.nodes, ∃ (image : Image) (steps : List WalkEvent) (lines : List String),
      t.snapshot n = .ok image ∧ t.preorder n {} = .ok (steps, true) ∧
      t.outline n = .ok (String.join (lines.map (· ++ "\n"))) ∧ (∀ l ∈ lines, Text.Unbroken l) ∧
      image.size = (steps.filterMap WalkEvent.entered?).length ∧
      List.Forall₂ t.Depicts image.nodes (steps.filterMap WalkEvent.entered?) ∧
      List.Forall₂ t.Prints (lines.filter Outline.namesKind) (WalkEvent.entries 0 steps) := by
  obtain ⟨i, hi⟩ := Array.mem_iff_getElem?.1 ht
  have hv := h.visible hi
  have hf := (h.tree_sound ht).forest
  refine ⟨fun n r hr slot content => populated_slot_live h ht hr, fun n hn => ?_⟩
  obtain ⟨hn, hlt⟩ := Tree.mem_nodes.1 hn
  obtain ⟨v, hshows, hsubtree, hown⟩ := Tree.exists_subtree hf hn hlt
  have hentries := hshows.entries_steps hv 0 []
  rw [List.append_nil, WalkEvent.entries, List.append_nil] at hentries
  refine ⟨v.image, v.steps t.shape fun _ => false, v.outline 0, bind_eq_ok.2 ⟨v, hown, rfl⟩,
    Tree.preorder_eq_ok hf hn hshows, bind_eq_ok.2 ⟨v, hsubtree, rfl⟩, v.unbroken_of_mem_outline 0,
    ?_, ?_, ?_⟩
  · rw [← WalkEvent.map_fst_entries _ 0, hentries, Image.size, Subtree.image, List.length_map,
      List.length_map, ← List.length_map (f := Encounter.own), ← v.map_rowFrom 0, List.length_map]
  · rw [← WalkEvent.map_fst_entries _ 0, hentries, List.map_map, List.forall₂_map_right_iff]
    exact (forall₂_iff_map_eq fun node _ e he => (hshows.has e he).depicts_iff node).2 (v.map_rowFrom 0 0)
  · rw [hentries, hshows.filter_outline 0, List.forall₂_map_left_iff, List.forall₂_map_right_iff,
      List.forall₂_same]
    exact fun e he => (hshows.has e he).prints

/-- A session of one tree of the legacy shape, with an array access in a qualified type.  The index was read,
and has got a name with a line break in it. -/
def brokenName : Session := played [⟨.legacy, {}⟩]
  [.edit 0 (.create .arrayAccess), .edit 0 (.create .qualifiedType),
    .edit 0 (.setRange ⟨0, 0⟩ ⟨3, 8, by decide⟩), .edit 0 (.child ⟨0, 0⟩ .arrayAccessIndex),
    .edit 0 (.setScalar ⟨0, 2⟩ .simpleNameIdentifier (.symbol "a\nB")),
    .edit 0 (.list ⟨0, 1⟩ .qualifiedTypeElements (.push ⟨0, 0⟩))]

/-- The three nodes are met in the order in which they hang, not the one in which they were created.  The
annotations are shown with the legacy tree as well, as a list without elements. -/
theorem walks_agree_brokenName : ∃ s t, ∃ (image : Image) (steps : List WalkEvent) (lines : List String),
    Reachable s ∧ t ∈ s.trees ∧ t.shape = .legacy ∧ t.snapshot ⟨0, 1⟩ = .ok image ∧
    t.preorder ⟨0, 1⟩ {} = .ok (steps, true) ∧ image.size = 3 ∧
    WalkEvent.entries 0 steps = [(⟨0, 1⟩, 0), (⟨0, 0⟩, 1), (⟨0, 2⟩, 2)] ∧
    String.join (lines.map (· ++ "\n")) = "QualifiedType\n  elements\n    ArrayAccess@3..8\n" ++
      "      array <unset>\n      indexes\n        SimpleName identifier=\"a\\nB\"\n" ++
      "  annotations []\n  name <unset>\n" ∧
    List.Forall₂ t.Depicts image.nodes [⟨0, 1⟩, ⟨0, 0⟩, ⟨0, 2⟩] ∧
    List.Forall₂ t.Prints (lines.filter Outline.namesKind) (WalkEvent.entries 0 steps) := by
  have hs : Reachable brokenName := .played _ _
  have ht := @Array.getElem_mem _ brokenName.trees 0 (by decide +kernel)
  obtain ⟨image, steps, lines, himage, hsteps, hlines, -, hsize, hdepicts, hprints⟩ :=
    (walks_agree hs ht).2 ⟨0, 1⟩ (by decide +kernel)
  have hwalk : Except.ok (steps, true) = .ok ([.enter ⟨0, 1⟩, .enter ⟨0, 0⟩, .enter ⟨0, 2⟩,
      .leave ⟨0, 2⟩, .leave ⟨0, 0⟩, .leave ⟨0, 1⟩], true) := hsteps.symm.trans (by decide +kernel)
  obtain ⟨rfl, -⟩ := Prod.mk.inj (Except.ok.inj hwalk)
  exact ⟨_, _, image, _, lines, hs, ht, by decide +kernel, himage, hsteps, hsize, rfl,
    Except.ok.inj (hlines.symm.trans (by decide +kernel)), hdepicts, hprints⟩

end Session

end SyntaxForest
