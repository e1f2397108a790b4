import SyntaxForest.Grammar.Shape

/-!
# Store/Slot — what a slot of a node holds

A slot holds a scalar, at most one child, or a list of children.  What a child *is* differs from place
to place: a position in the arena, a handle, a position in an image, or a whole subtree.  `Slot` is
therefore a functor in it, and `Slot.members` reads off the children in order.

* `Slot.members_map` — reading the members commutes with mapping.
* `Slot.fresh_fits` — the slots of a fresh node have the forms its kind declares.
-/

namespace SyntaxForest

/-- The content of a slot, with children of type `α`. -/
inductive Slot (α : Type) where
  | scalar (value : Scalar)
  | child (item : Option α)
  | list (items : List α)
  deriving DecidableEq, Repr

namespace Slot

variable {α β γ : Type}

/-- Replaces every child. -/
def map (f : α → β) : Slot α → Slot β
  | scalar v => scalar v
  | child c => child (c.map f)
  | list cs => list (cs.map f)

/-- The children in a slot, in order. -/
def members : Slot α → List α
  | scalar _ => []
  | child c => c.toList
  | list cs => cs

/-- Whether the slot holds some child. -/
def isPopulated (s : Slot α) : Bool := !s.members.isEmpty

/-- The scalar in the slot. -/
def scalar? : Slot α → Option Scalar
  | scalar v => some v
  | _ => none

/-- Replaces every child by a computation that may fail, in order. -/
def mapM {ε : Type} (f : α → Except ε β) : Slot α → Except ε (Slot β)
  | scalar v => .ok (scalar v)
  | child none => .ok (child none)
  | child (some c) => return child (some (← f c))
  | list cs => return list (← cs.mapM f)

/-- Whether the slot is of the form declared. -/
def fits : Slot α → Form → Bool
  | scalar _, .scalar _ => true
  | child _, .child _ => true
  | list _, .list _ => true
  | _, _ => false

/-- What a slot of the given form holds in a fresh node. -/
def fresh : Form → Slot α
  | .scalar ty => scalar ty.default
  | .child _ => child none
  | .list _ => list []

@[simp] theorem members_map (f : α → β) (s : Slot α) : (s.map f).members = s.members.map f := by
  rcases s with _ | (_ | _) | _ <;> rfl

theorem flatMap_members_map (f : α → β) (ss : List (Slot α)) :
    (ss.map (map f)).flatMap members = (ss.flatMap members).map f := by
  rw [List.flatMap_map, List.map_flatMap]
  simp

@[simp] theorem map_map (g : β → γ) (f : α → β) (s : Slot α) : (s.map f).map g = s.map (g ∘ f) := by
  cases s <;> simp [map]

@[simp] theorem map_id (s : Slot α) : s.map id = s := by
  cases s <;> simp [map]

@[simp] theorem fits_map (f : α → β) (s : Slot α) (form : Form) :
    (s.map f).fits form = s.fits form := by
  cases s <;> cases form <;> rfl

@[simp] theorem fresh_fits (form : Form) : (fresh form : Slot α).fits form = true := by
  cases form <;> rfl

@[simp] theorem members_fresh (form : Form) : (fresh form : Slot α).members = [] := by
  cases form <;> rfl

end Slot

/-- Whether a row of slots has the forms that the kind declares, one slot for each stored property. -/
def Kind.fits {α : Type} (k : Kind) (slots : List (Slot α)) : Bool :=
  slots.length == k.storage.length && (slots.zip k.storage).all fun (s, p) => s.fits p.form

/-- The slots of a fresh node: scalars at their defaults, nothing else. -/
def Kind.freshSlots {α : Type} (k : Kind) : List (Slot α) := k.storage.map fun p => Slot.fresh p.form

theorem Kind.fits_freshSlots {α : Type} (k : Kind) :
    k.fits (k.freshSlots : List (Slot α)) = true := by
  cases k <;> rfl

end SyntaxForest
