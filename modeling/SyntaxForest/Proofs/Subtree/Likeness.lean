import SyntaxForest.Proofs.Subtree.Bare
import SyntaxForest.Proofs.Subtree.Completion

/-!
# Proofs/Subtree/Likeness — subtrees that are alike match in every way

What a copy keeps is the plain tree of a node: kinds, scalars and children, gaps and all.  **Where two
sides have one plain tree, a comparison has nothing to tell them apart by**, whatever the shapes in which
they are read: it meets the same gaps on both sides, and no test of scalars is made of two that differ.

* `Subtree.plain_eq_of_rowFrom` — a row determines the plain tree of each of its blocks.
* `Comparison.matches_of_alike` — **alike sides match** under every test that equal scalars pass.
-/

namespace SyntaxForest

/-! ## Plain trees -/

/-- A subtree without handles, ranges and marks.  Nothing stands in for what is absent. -/
def Subtree.plain (s : Subtree) : Plain := s.fold fun h slots => .node h.kind slots

theorem Subtree.plain_node (h : Head) (ss : List (Slot Subtree)) :
    (node h ss).plain = .node h.kind (ss.map (Slot.map plain)) := by
  unfold plain
  rw [fold_node]

/-- **A row determines the plain tree of each of its blocks.** -/
theorem Subtree.plain_eq_of_rowFrom {s s' : Subtree} {row : List ImageNode} {start : Nat}
    (h : s.rowFrom start <+: row.drop start) (h' : s'.rowFrom start <+: row.drop start) :
    s.plain = s'.plain := by
  have hplain : ∀ s : Subtree, s.bare.plain = s.plain := fold_bare fun _ _ => rfl
  rw [← hplain s, bare_eq_of_rowFrom h h', hplain]

/-- Subtrees of one plain tree agree in their kinds and slot by slot. -/
theorem Subtree.slots_of_plain_eq {s s' : Subtree} (h : s.plain = s'.plain) :
    s.head.kind = s'.head.kind ∧ ∀ j : Nat,
      s.slots[j]?.map (Slot.map plain) = s'.slots[j]?.map (Slot.map plain) := by
  obtain ⟨⟨_, _⟩, ⟨_, _⟩⟩ := s, s'
  rw [plain_node, plain_node] at h
  obtain ⟨hkind, hslots⟩ := Plain.node.inj h
  refine ⟨hkind, fun j => ?_⟩
  rw [← List.getElem?_map, ← List.getElem?_map]
  exact congrArg (·[j]?) hslots

/-! ## Sides that are alike -/

namespace Slot

variable {α β : Type}

/-- The child in a slot for single children. -/
def child? : Slot α → Option α
  | child c => c
  | _ => none

/-- The elements in a slot for lists. -/
def elements : Slot α → List α
  | list cs => cs
  | _ => []

theorem bind_scalar?_map (f : α → β) (s : Option (Slot α)) :
    (s.map (map f)).bind scalar? = s.bind scalar? := by
  rcases s with _ | _ | _ | _ <;> rfl

theorem bind_child?_map (f : α → β) (s : Option (Slot α)) :
    (s.map (map f)).bind child? = (s.bind child?).map f := by
  rcases s with _ | _ | _ | _ <;> rfl

theorem elim_elements_map (f : α → β) (s : Option (Slot α)) :
    (s.map (map f)).elim [] elements = (s.elim [] elements).map f := by
  rcases s with _ | _ | _ | _ <;> rfl

end Slot

namespace Face

variable {l r : Face} {p : Property}

theorem child_real (s : Subtree) (p : Property) : (real s).child p =
    ((s.slots[p.slot]?.bind Slot.child?).map real).or (p.placeholder.map fresh) := by
  rw [child]
  rcases s.slots[p.slot]? with _ | _ | (_ | c) | cs <;> rfl

theorem items_real (s : Subtree) (slot : Nat) :
    (real s).items slot = s.slots[slot]?.elim [] Slot.elements := by
  rw [items]
  rcases s.slots[slot]? with _ | _ | _ | cs <;> rfl

/-- Two sides of which nothing but handles, ranges and marks can differ. -/
inductive Alike : Face → Face → Prop
  | real {s s' : Subtree} : s.plain = s'.plain → Alike (real s) (real s')
  | fresh (k : Kind) : Alike (fresh k) (fresh k)

theorem Alike.kind_eq (h : Alike l r) : l.kind = r.kind := by
  cases h with
  | real h => exact (Subtree.slots_of_plain_eq h).1
  | fresh k => rfl

theorem Alike.scalar_eq (h : Alike l r) (ty : ScalarType) : l.scalar p ty = r.scalar p ty := by
  cases h with
  | real h =>
    have hread := congrArg (Option.bind · Slot.scalar?) ((Subtree.slots_of_plain_eq h).2 p.slot)
    simp only [Slot.bind_scalar?_map] at hread
    exact congrArg (Option.getD · ty.default) hread
  | fresh k => rfl

/-- What stands in on one side stands in on the other. -/
theorem Alike.placeholder (p : Property) :
    Option.Rel Alike (p.placeholder.map .fresh) (p.placeholder.map .fresh) := by
  rcases p.placeholder with _ | k
  · exact .none
  · exact .some (.fresh k)

theorem Alike.child (h : Alike l r) (p : Property) :
    Option.Rel Alike (l.child p) (r.child p) := by
  cases h with
  | @real s s' h =>
    have hread := congrArg (Option.bind · Slot.child?) ((Subtree.slots_of_plain_eq h).2 p.slot)
    simp only [Slot.bind_child?_map] at hread
    rw [child_real, child_real]
    rcases hc : s.slots[p.slot]?.bind Slot.child? with _ | c <;>
      rcases hc' : s'.slots[p.slot]?.bind Slot.child? with _ | c' <;> rw [hc, hc'] at hread
    · exact placeholder p
    · cases hread
    · cases hread
    · exact .some (.real (Option.some.inj hread))
  | fresh k =>
    rw [Face.child]
    split
    · exact placeholder p
    · exact .none

theorem Alike.items (h : Alike l r) (slot : Nat) :
    List.Forall₂ (fun a b => a.plain = b.plain) (l.items slot) (r.items slot) := by
  rw [forall₂_iff_map_eq fun a _ b _ => Iff.rfl]
  cases h with
  | real h =>
    have hread := congrArg (Option.elim · [] Slot.elements) ((Subtree.slots_of_plain_eq h).2 slot)
    simpa only [items_real, Slot.elim_elements_map] using hread
  | fresh k => rfl

end Face

namespace Comparison

variable {c : Comparison Id} {l r : Face}

/-- **Alike sides match**, whatever the shapes, under every test that equal scalars pass.  The induction
is on what hangs below the left side; no list is beside one of another length. -/
theorem matches_of_alike (hc : ∀ p v, (c.sameScalar p v v).run = true) (h : l.Alike r) :
    c.Matches l r := by
  induction hn : l.weight using Nat.strongRecOn generalizing l r with
  | ind n ih =>
    subst hn
    refine matches_iff.2 ⟨h.kind_eq, fun p _ => ?_⟩
    rcases hform : p.form with ty | ty | ty
    · rw [matchesAt_scalar hform, h.scalar_eq]
      exact hc p _
    · rw [matchesAt_child hform]
      have hchild := h.child p
      rcases ha : l.child p with _ | a <;> rcases hb : r.child p with _ | b <;>
        rw [ha, hb] at hchild
      · exact .none
      · cases hchild
      · cases hchild
      · cases hchild with
        | some hab => exact .some (ih _ (Face.weight_child ha) hab rfl)
    · rw [matchesAt_list hform]
      have hitems := (List.forall₂_and_left _ _).2 ⟨fun a (ha : a ∈ l.items p.slot) => ha,
        h.items p.slot⟩
      refine .inl (hitems.imp fun a b ⟨ha, hab⟩ => ?_)
      exact ih _ (Nat.lt_of_add_right_lt (Face.weight_item ha)) (.real hab) rfl

end Comparison

end SyntaxForest
