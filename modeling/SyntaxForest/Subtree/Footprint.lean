import SyntaxForest.Subtree.Basic

/-!
# Subtree/Footprint — how much room nodes take, in bytes

The figures are for comparing nodes with each other: a node costs a header, a word for each of its
fields, and the texts it holds.  The text of an identifier that nobody has set costs nothing.

* `Subtree.footprint_node` — a subtree costs what its node costs and what its children cost.
-/

namespace SyntaxForest

namespace Footprint

/-- The header of an object. -/
def header : Nat := 12

/-- A node without properties. -/
def bareNode : Nat := header + 28

/-- A text of so many characters: the text object and the array of its characters. -/
def text (length : Nat) : Nat := (header + 16) + (header + 2 * length)

end Footprint

/-- A node of the kind, without the texts it holds. -/
def Kind.bareFootprint (k : Kind) : Nat :=
  Footprint.bareNode +
    match k with
    | .simpleName => 8
    | .numberLiteral => 4
    | .operator => 4
    | .primitiveType => 4
    | .simpleType => 4
    | .qualifiedType => 12
    | .arrayAccess => 8
    | .castExpression => 8
    | .conditionalExpression => 12
    | .prefixExpression => 8
    | .postfixExpression => 8
    | .pattern => 8

/-- What a scalar of the given type costs beyond its field. -/
def Scalar.footprint (v : Scalar) (ty : ScalarType) : Nat :=
  match v with
  | .symbol text =>
    if ty = .identifier ∧ text = ScalarType.missingName then 0 else Footprint.text text.length
  | _ => 0

/-- What the content of a slot costs by itself; children are not counted. -/
def Slot.footprint {α : Type} (s : Slot α) (form : Form) : Nat :=
  match s, form with
  | .scalar v, .scalar ty => v.footprint ty
  | _, _ => 0

/-- A node of the kind with the texts in its slots. -/
def Kind.footprint {α : Type} (k : Kind) (slots : List (Slot α)) : Nat :=
  k.bareFootprint + total ((slots.zip k.storage).map fun (s, p) => s.footprint p.form)

/-- The footprint of one node with everything below it, given those of its children. -/
def Subtree.footprintNode (shape : Shape) (h : Head) (slots : List (Slot Nat)) : Nat :=
  h.kind.footprint slots + total ((h.kind.liveOnly shape slots).flatMap Slot.members)

/-- The footprint of a subtree.  Unset slots cost nothing. -/
def Subtree.footprint (shape : Shape) (s : Subtree) : Nat := s.fold (footprintNode shape)

theorem Subtree.footprint_node (shape : Shape) (h : Head) (ss : List (Slot Subtree)) :
    (Subtree.node h ss).footprint shape =
      footprintNode shape h (ss.map (Slot.map (footprint shape))) :=
  fold_node _ h ss

/-- What a node costs alone. -/
def Tree.footprint (t : Tree) (n : NodeId) : Except Failure Nat := do
  let r ← t.look n
  return r.kind.footprint r.slots

/-- What a node costs with everything below it. -/
def Tree.subtreeFootprint (t : Tree) (n : NodeId) : Except Failure Nat := do
  return (← t.subtree n).footprint t.shape

end SyntaxForest
