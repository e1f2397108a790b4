import SyntaxForest.Proofs.Edit.Inverse
import SyntaxForest.Proofs.Subtree.Replanting
import Mathlib.Logic.Equiv.Basic

/-!
# Proofs/Subtree/Renumbering — arenas that differ in the numbering of their nodes

Nodes are numbered in the order in which they come to exist, and nothing else depends on it.  So where two
runs make the same nodes in a different order, their arenas are the same up to a permutation of indices
(`Arena.Renumbered`), and images cannot tell them apart: an image numbers its nodes anew.

* `Arena.Renumbered.of_slots` — that the slots correspond is enough, in forests.
* `Tree.Renumbered.snapshot_eq` — **a node that keeps its number keeps its image**.
-/

namespace SyntaxForest

/-- The location with the parent renumbered. -/
def Location.renumber (σ : Equiv.Perm Nat) (l : Location) : Location := ⟨σ l.parent, l.property⟩

namespace Slot

variable {α : Type} {content : Slot α}

theorem map_eq_self {f : α → α} (h : ∀ c ∈ content.members, f c = c) : content.map f = content := by
  have hid : content.map f = content.map id :=
    map_eq_map_of_keys (a := id) (b := id) rfl fun c hc d _ (hcd : c = d) => hcd ▸ h c hc
  rw [hid, map_id]

theorem map_withMembers {f : Nat → Nat} (content : Slot Nat) (cs : List Nat) :
    (content.withMembers cs).map f = (content.map f).withMembers (cs.map f) := by
  cases content with
  | child c => rw [withMembers, map, map, withMembers, List.head?_map]
  | scalar _ | list _ => rfl

end Slot

/-- **The same arena with its nodes renumbered.** -/
structure Arena.Renumbered (σ : Equiv.Perm Nat) (a b : Arena) : Prop where
  nodes : ∀ i : Nat, b[σ i]?.map Record.self = a[i]?.map Record.self
  slots : ∀ i s, b.slotAt (σ i) s = (a.slotAt i s).map (Slot.map σ)
  locations : ∀ i, b.locationAt (σ i) = (a.locationAt i).map (Location.renumber σ)

namespace Arena

variable {σ : Equiv.Perm Nat} {a b : Arena} {i : Nat} {l : Location}

/-- A node is located by the slot that names it, whatever its number. -/
theorem Forest.locationAt_renumber (ha : a.Forest) (hb : b.Forest)
    (hnodes : ∀ i : Nat, b[σ i]?.map Record.self = a[i]?.map Record.self)
    (hslots : ∀ i s, b.slotAt (σ i) s = (a.slotAt i s).map (Slot.map σ)) (hl : a.locationAt i = some l) :
    b.locationAt (σ i) = some (l.renumber σ) := by
  obtain ⟨hstorage, hmem⟩ := ha.held hl
  have hmem' : σ i ∈ b.membersAt (σ l.parent) l.property.slot := by
    rw [membersAt, hslots]
    rcases hs : a.slotAt l.parent l.property.slot with _ | content
    · rw [membersAt, hs] at hmem
      cases hmem
    · rw [membersAt_of_slot hs] at hmem
      rw [Option.map_some, Option.elim_some, Slot.members_map]
      exact List.mem_map_of_mem hmem
  have hkind : b.kindAt (σ l.parent) = a.kindAt l.parent := by
    have hkind := congrArg (Option.map Prod.fst) (hnodes l.parent)
    rwa [Option.map_map, Option.map_map] at hkind
  obtain ⟨q, hq, hl'⟩ := hb.filed hmem'
  rw [storageAt, hkind, ← storageAt, hstorage] at hq
  obtain rfl := Option.some.inj hq
  exact hl'

/-- **Renumbered slots settle the locations**, as slots settle locations. -/
theorem Renumbered.of_slots (ha : a.Forest) (hb : b.Forest)
    (hnodes : ∀ i : Nat, b[σ i]?.map Record.self = a[i]?.map Record.self)
    (hslots : ∀ i s, b.slotAt (σ i) s = (a.slotAt i s).map (Slot.map σ)) : a.Renumbered σ b where
  nodes := hnodes
  slots := hslots
  locations i := by
    rcases hl : a.locationAt i with _ | l
    · rcases hl' : b.locationAt (σ i) with _ | l
      · rfl
      -- what is located in the one is located in the other, the numbers led back
      · have hback := hb.locationAt_renumber (σ := σ.symm) ha
          (fun i => by rw [← hnodes, Equiv.apply_symm_apply])
          (fun i s => by
            have hslot := hslots (σ.symm i) s
            rw [Equiv.apply_symm_apply] at hslot
            rw [hslot]
            rcases a.slotAt (σ.symm i) s with _ | content
            · rfl
            · refine congrArg some (Eq.symm ?_)
              rw [Slot.map_map]
              exact Slot.map_eq_self fun c _ => σ.symm_apply_apply c) hl'
        rw [Equiv.symm_apply_apply, hl] at hback
        cases hback
    · exact ha.locationAt_renumber hb hnodes hslots hl

/-- Where no node of the arena is renumbered, no slot of it is changed, -/
theorem Forest.map_slotAt (h : a.Forest) (hσ : ∀ c < a.size, σ c = c) (i s : Nat) :
    (a.slotAt i s).map (Slot.map σ) = a.slotAt i s := by
  rcases hs : a.slotAt i s with _ | content
  · rfl
  · refine congrArg some (Slot.map_eq_self fun c hc => hσ c (h.lt_size_of_mem (i := i) (s := s) ?_))
    rwa [membersAt_of_slot hs]

/-- …and of one that comes to hold a new node, nothing else is. -/
theorem Forest.map_slotAt_withMembers (h : a.Forest) (hσ : ∀ c < a.size, σ c = c) (i s c : Nat) :
    ((a.slotAt i s).map fun content => content.withMembers [c]).map (Slot.map σ) =
      (a.slotAt i s).map fun content => content.withMembers [σ c] := by
  have hfixed := h.map_slotAt hσ i s
  rcases hs : a.slotAt i s with _ | content <;> rw [hs] at hfixed
  · rfl
  · refine congrArg some ?_
    rw [Slot.map_withMembers, Option.some.inj hfixed]
    rfl

end Arena

namespace Tree

variable {σ : Equiv.Perm Nat} {t t' : Tree} {i : Nat} {s s' : Subtree} {m : NodeId}

/-- **The same tree with its nodes renumbered**, announcements apart. -/
structure Renumbered (σ : Equiv.Perm Nat) (t t' : Tree) : Prop where
  id : t'.id = t.id
  config : t'.config = t.config
  stamp : t'.stamp = t.stamp
  size : t'.size = t.size
  records : Arena.Renumbered σ t.records t'.records

theorem Renumbered.refl : t.Renumbered (.refl Nat) t where
  id := rfl
  config := rfl
  stamp := rfl
  size := rfl
  records :=
    { nodes := fun _ => rfl
      slots := fun i s => by
        change Arena.slotAt t.records i s = _
        rcases Arena.slotAt t.records i s with _ | content
        · rfl
        · exact congrArg some (content.map_id).symm
      locations := fun i => by
        change Arena.locationAt t.records i = _
        rcases Arena.locationAt t.records i with _ | l <;> rfl }

/-- **Renumbered nodes have the same rows.**  The induction is on the subtree: the slots name the same
children, renumbered. -/
theorem Renumbered.rowFrom_eq (h : t.Renumbered σ t') (hs : t.Shows i s) (hs' : t'.Shows (σ i) s') :
    s'.rowFrom = s.rowFrom := by
  induction hs generalizing s' with
  | @node i r pairs hr _ hpairs _ ih =>
    cases hs' with
    | @node _ r' pairs' hr' _ hpairs' hbelow' =>
      have hself := h.records.nodes i
      rw [hr, hr'] at hself
      obtain ⟨hkind, hrange, -⟩ : r'.kind = r.kind ∧ r'.range = r.range ∧ r'.flags = r.flags := by
        simpa [Record.self] using hself
      have hslots : r'.slots = r.slots.map (Slot.map σ) := List.ext_getElem? fun j => by
        rw [← Arena.slotAt_of_record hr', h.records.slots, Arena.slotAt_of_record hr, List.getElem?_map]
      have hkeys : pairs'.map (Slot.map Prod.fst) = pairs.map (Slot.map fun x => σ x.1) := by
        rw [← hpairs', hslots, hpairs, List.map_map]
        exact List.map_congr_left fun x _ => Slot.map_map σ Prod.fst x
      have hrows : pairs'.map (Slot.map fun x => x.2.rowFrom) = pairs.map (Slot.map fun x => x.2.rowFrom) :=
        Slot.map_map_eq_of_keys hkeys fun slot' hslot' x' hx' slot hslot x hx hxx =>
          ih slot hslot x hx (hxx ▸ hbelow' slot' hslot' x' hx')
      refine Subtree.rowFrom_node_eq hkind hrange ?_
      simpa only [List.map_map, Function.comp_def, Slot.map_map] using hrows

/-- **A node that keeps its number keeps its image.** -/
theorem Renumbered.snapshot_eq (h : t.Renumbered σ t') (hf : Arena.Forest t.records)
    (hf' : Arena.Forest t'.records) (hm : m ∈ t.nodes) (hfix : σ m.index = m.index) :
    ∃ image, t.snapshot m = .ok image ∧ t'.snapshot m = .ok image := by
  obtain ⟨htree, hlt⟩ := mem_nodes.1 hm
  have hm' : m ∈ t'.nodes := mem_nodes.2 ⟨htree.trans h.id.symm, h.size.symm ▸ hlt⟩
  exact snapshot_eq_of_rows hf hf' h.id hm hm' fun s s' hs hs' => h.rowFrom_eq hs (hfix.symm ▸ hs')

end Tree

end SyntaxForest
