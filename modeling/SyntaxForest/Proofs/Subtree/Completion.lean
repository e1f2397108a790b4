import SyntaxForest.Proofs.Subtree.Reading
import SyntaxForest.Proofs.Subtree.Verdict

/-!
# Proofs/Subtree/Completion — matching is equality of completed trees

A comparison makes nothing: it meets nodes, placeholders and gaps, in any mixture.  The **completion** of
a node makes everything that its shape would ever make below it, and forgets handles, ranges and marks.
What is left is a `Plain` tree, and plain trees are compared by equality.

Both sides meet in the middle at `Face.slotAt`, which is all that a comparison looks at in one property of
one side: the comparison goes down the slots of two faces, and the completion of a face is put together
from the completions of its slots (`Face.completion_eq`).

* `Kind.completion_eq` — a fresh node is completed by fresh nodes.
* `Comparison.structural_matches_iff` — **two sides of one shape match exactly when their completions are
  equal**.
-/

namespace SyntaxForest

/-- A tree of kinds, scalars and children, and of nothing else. -/
inductive Plain where
  | node (kind : Kind) (slots : List (Slot Plain))

/-! ## What stands in -/

/-- The kind that stands in for the only element of an empty list, where the shape reads the list as a
single child. -/
def Property.solePlaceholder? (shape : Shape) (p : Property) : Option Kind :=
  match p.owner.liveProperty? shape p.slot with
  | some q => if q.isSoleElementView then q.placeholder else none
  | none => none

/-- A slot with what stands in for the child, or for the only element, that it lacks. -/
def Property.complete (shape : Shape) (standIn : Kind → Plain) (p : Property) :
    Slot Plain → Slot Plain
  | .child none => .child (p.placeholder.map standIn)
  | .list [] => .list ((p.solePlaceholder? shape).toList.map standIn)
  | slot => slot

/-- A fresh node, completed down to a depth. -/
def Kind.completionTo (shape : Shape) : (depth : Nat) → Kind → Plain
  | 0, k => .node k k.freshSlots
  | depth + 1, k =>
    .node k (k.storage.map fun p => p.complete shape (completionTo shape depth) (.fresh p.form))

/-- **The completion of a fresh node.**  Placeholders of placeholders end at the rank of the kind. -/
def Kind.completion (shape : Shape) (k : Kind) : Plain := completionTo shape k.rank k

/-- A fresh node is completed by fresh nodes, however deep. -/
theorem Kind.completion_eq (shape : Shape) (k : Kind) : k.completion shape =
    .node k (k.storage.map fun p => p.complete shape (completion shape) (.fresh p.form)) := by
  cases shape <;> cases k <;> rfl

/-- **The completion of a subtree**: every gap in it is filled with what stands in for a child there. -/
def Subtree.completion (shape : Shape) (s : Subtree) : Plain :=
  s.fold fun h slots => .node h.kind <|
    List.zipWith (fun p => p.complete shape (Kind.completion shape)) h.kind.storage slots

theorem Subtree.completion_node (shape : Shape) (h : Head) (ss : List (Slot Subtree)) :
    (node h ss).completion shape = .node h.kind (List.zipWith
      (fun p => p.complete shape (Kind.completion shape)) h.kind.storage
      (ss.map (Slot.map (completion shape)))) := by
  unfold completion
  rw [fold_node]

/-- The completion of a node of a tree, in the shape of the tree. -/
def Tree.completion (t : Tree) (n : NodeId) : Except Failure Plain := do
  return (← t.subtree n).completion t.shape

namespace Face

variable {T : Typing} {f : Face} {p : Property} {shape : Shape}

/-! ## The slots of a side -/

/-- The completion of a side. -/
def completion (shape : Shape) : Face → Plain
  | real s => s.completion shape
  | fresh k => k.completion shape

/-- The elements of a list slot, or what stands in for the only one. -/
def elements (shape : Shape) (f : Face) (slot : Nat) : List Face :=
  match f.items slot with
  | [] => (f.kind.soleFace? shape slot).toList
  | ss => ss.map real

/-- All that a comparison looks at in a property of a side. -/
def slotAt (shape : Shape) (f : Face) (p : Property) : Slot Face :=
  match p.form with
  | .scalar ty => .scalar (f.scalar p ty)
  | .child _ => .child (f.child p)
  | .list _ => .list (f.elements shape p.slot)

theorem soleFace?_eq (shape : Shape) (p : Property) :
    p.owner.soleFace? shape p.slot = (p.solePlaceholder? shape).map fresh := by
  unfold Kind.soleFace? Property.solePlaceholder?
  rcases p.owner.liveProperty? shape p.slot with _ | q
  · rfl
  · cases hq : q.isSoleElementView <;> simp [hq]

/-- A slot of a node that is there, completed. -/
theorem map_slotAt_real {h : Head} {ss : List (Slot Subtree)} {slot : Slot Subtree}
    (hk : p.owner = h.kind) (hs : ss[p.slot]? = some slot) (hfits : slot.fits p.form = true) :
    ((real (.node h ss)).slotAt shape p).map (completion shape) =
      p.complete shape (Kind.completion shape) (slot.map (Subtree.completion shape)) := by
  have hslot : (Subtree.node h ss).slots[p.slot]? = some slot := hs
  have hkind : (real (.node h ss)).kind = p.owner := hk.symm
  have hfresh : completion shape ∘ fresh = Kind.completion shape := rfl
  have hreal : completion shape ∘ real = Subtree.completion shape := rfl
  unfold slotAt
  rcases slot with v | (_ | c) | (_ | ⟨s, cs⟩) <;> rcases hform : p.form with ty | ty | ty <;>
    rw [hform] at hfits <;> try cases hfits
  · simp [scalar, hslot, Slot.map, Slot.scalar?, Property.complete]
  · simp [child, hslot, Slot.map, Property.complete, hfresh]
  · simp [child, hslot, Slot.map, Property.complete, completion]
  · cases hsole : p.solePlaceholder? shape <;>
      simp [elements, items, hslot, hkind, soleFace?_eq, hsole, Slot.map, Property.complete,
        completion]
  · simp [elements, items, hslot, Slot.map, Property.complete, completion, hreal]

/-- A slot of a fresh node, completed. -/
theorem map_slotAt_fresh : ((fresh p.owner).slotAt shape p).map (completion shape) =
    p.complete shape (Kind.completion shape) (.fresh p.form) := by
  have hfresh : completion shape ∘ fresh = Kind.completion shape := rfl
  unfold slotAt
  rcases p.form with ty | ty | ty
  · rfl
  · simp [child, Slot.map, Slot.fresh, Property.complete, hfresh]
  · cases hsole : p.solePlaceholder? shape <;>
      simp [elements, items, kind, soleFace?_eq, hsole, Slot.fresh, Slot.map, Property.complete,
        completion]

/-- What is there on a side is sound. -/
def Sound (T : Typing) : Face → Prop
  | real s => s.Sound T
  | fresh _ => True

/-- **The completion of a side is made of all that a comparison looks at.** -/
theorem completion_eq (hf : f.Sound T) : f.completion shape =
    .node f.kind (f.kind.storage.map fun p => (f.slotAt shape p).map (completion shape)) := by
  rcases f with s | k
  · cases hf with
    | @node h ss hfits _ _ =>
      have hkind : (real (.node h ss)).kind = h.kind := rfl
      refine (Subtree.completion_node shape h ss).trans (congrArg _ (List.ext_getElem? fun i => ?_))
      rw [hkind, List.getElem?_zipWith, List.getElem?_map, List.getElem?_map]
      rcases hp : h.kind.storage[i]? with _ | p
      · rfl
      · obtain ⟨hslot, howner⟩ := Kind.storage_slot hp
        obtain ⟨slot, hs, hform⟩ := Kind.exists_slot_of_fits hfits hp
        rw [hs]
        exact congrArg some (map_slotAt_real howner (hslot ▸ hs) hform).symm
  · refine (Kind.completion_eq shape k).trans (congrArg _ (List.map_congr_left fun p hp => ?_))
    obtain ⟨-, rfl⟩ := Kind.storage_of_mem hp
    exact map_slotAt_fresh.symm

/-! ## What hangs below a sound side -/

theorem Sound.child {c : Face} (hf : f.Sound T) (h : f.child p = some c) : c.Sound T := by
  rcases f with s | k
  · simp only [Face.child] at h
    split at h
    · next d hd =>
      cases h
      cases hf with
      | node _ _ hbelow => exact hbelow _ (List.mem_of_getElem? hd) d (List.mem_singleton_self d)
    · obtain ⟨k, -, rfl⟩ := Option.map_eq_some_iff.1 h
      trivial
  · simp only [Face.child] at h
    split at h
    · obtain ⟨k', -, rfl⟩ := Option.map_eq_some_iff.1 h
      trivial
    · cases h

theorem Sound.items {slot : Nat} {s : Subtree} (hf : f.Sound T) (h : s ∈ f.items slot) :
    (real s).Sound T := by
  rcases f with u | k
  · simp only [Face.items] at h
    split at h
    · next cs hcs =>
      cases hf with
      | node _ _ hbelow => exact hbelow _ (List.mem_of_getElem? hcs) s h
    · cases h
  · cases h

theorem Sound.sole {k : Kind} {slot : Nat} (h : k.soleFace? shape slot = some f) : f.Sound T := by
  unfold Kind.soleFace? at h
  split at h
  · split at h
    · obtain ⟨k', -, rfl⟩ := Option.map_eq_some_iff.1 h
      trivial
    · cases h
  · cases h

theorem weight_le_weightAll {s : Subtree} {ss : List Subtree} (h : s ∈ ss) :
    (real s).weight ≤ weightAll ss := by
  induction ss with
  | nil => cases h
  | cons u us ih =>
    rw [weightAll_cons]
    rcases List.mem_cons.1 h with rfl | h
    · omega
    · have := ih h
      omega

/-- An element of a list is lighter than its node, by more than any placeholder weighs. -/
theorem weight_item {slot : Nat} {s : Subtree} (h : s ∈ f.items slot) :
    (real s).weight + 3 < f.weight := by
  have hle := weight_le_weightAll h
  have hlt := weight_items f slot
  rcases f with u | k
  · simp only [weight, weightAll] at hle hlt ⊢
    omega
  · cases h

end Face

/-! ## Matching -/

/-- Rows are related element by element as their values are equal. -/
theorem forall₂_iff_map_eq {α β γ : Type} {R : α → β → Prop} {f : α → γ} {g : β → γ} {as : List α}
    {bs : List β} (h : ∀ a ∈ as, ∀ b ∈ bs, R a b ↔ f a = g b) :
    List.Forall₂ R as bs ↔ as.map f = bs.map g := by
  induction as generalizing bs with
  | nil => simp [List.forall₂_nil_left_iff, eq_comm]
  | cons a as ih =>
    cases bs with
    | nil => simp
    | cons b bs =>
      rw [List.forall₂_cons, List.map_cons, List.map_cons, List.cons.injEq,
        h a List.mem_cons_self b List.mem_cons_self,
        ih fun a ha b hb => h a (List.mem_cons_of_mem _ ha) b (List.mem_cons_of_mem _ hb)]

namespace Comparison

variable {T : Typing} {l r : Face} {p : Property} {shape : Shape}

/-- The comparison by equality of scalars, of two sides of one shape. -/
def structural (shape : Shape) : Comparison Id := ⟨shape, shape, fun _ a b => pure (a == b)⟩

/-- Whether two sides match can be told by their completions. -/
def Told (shape : Shape) (l r : Face) : Prop :=
  (structural shape).Matches l r ↔ l.completion shape = r.completion shape

/-- Children match as their completions are equal, if that holds of each pair of them. -/
theorem told_children (h : ∀ a b, l.child p = some a → r.child p = some b → Told shape a b) :
    Option.Rel (structural shape).Matches (l.child p) (r.child p) ↔
      (l.child p).map (Face.completion shape) = (r.child p).map (Face.completion shape) := by
  rcases hl : l.child p with _ | a <;> rcases hr : r.child p with _ | b
  · simp
  · simp
  · simp
  · simpa [Told] using h a b hl hr

/-- …and so do lists.  An empty list beside a single element is what the rule about it makes of it: the
completions have one element each, or one of them has none. -/
theorem told_lists {ty : ChildType} (hp : p.form = .list ty) (hkind : l.kind = r.kind)
    (hitems : ∀ a ∈ l.items p.slot, ∀ b ∈ r.items p.slot, Told shape (.real a) (.real b))
    (hleft : ∀ b f, r.items p.slot = [b] → l.kind.soleFace? shape p.slot = some f →
      Told shape f (.real b))
    (hright : ∀ a f, l.items p.slot = [a] → r.kind.soleFace? shape p.slot = some f →
      Told shape (.real a) f) :
    (structural shape).MatchesAt l r p ↔
      (l.elements shape p.slot).map (Face.completion shape) =
        (r.elements shape p.slot).map (Face.completion shape) := by
  rw [matchesAt_list hp, Face.elements, Face.elements, hkind]
  rw [hkind] at hleft
  generalize l.items p.slot = as at *
  generalize r.items p.slot = bs at *
  rcases as with _ | ⟨a, as⟩ <;> rcases bs with _ | ⟨b, bs⟩
  · simp
  · rcases hf : r.kind.soleFace? shape p.slot with _ | f <;> rcases bs with _ | ⟨b', bs⟩ <;>
      simp [structural, hf]
    exact hleft b f rfl hf
  · rcases hf : r.kind.soleFace? shape p.slot with _ | f <;> rcases as with _ | ⟨a', as⟩ <;>
      simp [structural, hf]
    exact hright a f rfl hf
  · rw [forall₂_iff_map_eq hitems]
    simp [Function.comp_def]

/-- **Two sides of one shape match exactly when their completions are equal.**  The induction is on what
hangs below the two sides together: what stands in for the element of an empty list is lighter than the
node on the other side, for that node has an element. -/
theorem structural_matches_iff (hl : l.Sound T) (hr : r.Sound T) :
    (structural shape).Matches l r ↔ l.completion shape = r.completion shape := by
  induction hn : l.weight + r.weight using Nat.strongRecOn generalizing l r with
  | ind n ih =>
    subst hn
    rw [matches_iff, Face.completion_eq hl, Face.completion_eq hr, Plain.node.injEq]
    refine and_congr_right fun hkind => ?_
    rw [← hkind, List.map_inj_left]
    refine forall₂_congr fun p _ => ?_
    unfold Face.slotAt
    rcases hform : p.form with ty | ty | ty
    · rw [matchesAt_scalar hform]
      simp [structural, Slot.map]
    · rw [matchesAt_child hform, told_children]
      · simp [Slot.map]
      · intro a b ha hb
        have := Face.weight_child ha
        have := Face.weight_child hb
        exact ih _ (by omega) (hl.child ha) (hr.child hb) rfl
    · rw [told_lists hform hkind]
      · simp [Slot.map]
      · intro a ha b hb
        have := Face.weight_item ha
        have := Face.weight_item hb
        exact ih _ (by omega) (hl.items ha) (hr.items hb) rfl
      · intro b f hb hf
        have := Face.weight_items_cons hb
        have := Kind.soleFace?_weight hf
        have := l.weight_pos
        exact ih _ (by omega) (.sole hf) (hr.items (hb ▸ List.mem_singleton_self b)) rfl
      · intro a f ha hf
        have := Face.weight_items_cons ha
        have := Kind.soleFace?_weight hf
        have := r.weight_pos
        exact ih _ (by omega) (hl.items (ha ▸ List.mem_singleton_self a)) (.sole hf) rfl

end Comparison

end SyntaxForest
