import SyntaxForest.Edit.Reflection

/-!
# Typed/Handle — handles that know their kind

A `Typed k` is a handle of a node that was found to be of kind `k`.  `Typed.cast?` makes one by looking,
`Typed.create` by making the node.  What a typed handle can do with a property of its kind is one of a
few things, given here once for all: a **required** child is always there when it is read, a text or a
word is read out of a scalar.

* `Typed.cast?_eq_some` — casting looks at the kind and changes nothing about the handle.
-/

namespace SyntaxForest

/-- A handle of a node of kind `k`. -/
structure Typed (k : Kind) where
  node : NodeId
  deriving DecidableEq, Repr

namespace Typed

open TreeM

variable {k : Kind} {α : Type}

/-- The node as one of kind `k`, if it is one. -/
def cast? (k : Kind) (t : Tree) (n : NodeId) : Except Failure (Option (Typed k)) := do
  return if (← t.kind n) = k then some ⟨n⟩ else none

/-- The node as one of kind `k`; any other node is a failure. -/
def cast (k : Kind) (t : Tree) (n : NodeId) : Except Failure (Typed k) := do
  match ← cast? k t n with
  | some typed => return typed
  | none => .error .otherKind

/-- Creates a detached node of kind `k`. -/
def create (k : Kind) : TreeM (Typed k) := do
  return ⟨← TreeM.create k⟩

/-- The child that a mandatory property holds, or its placeholder. -/
def required (n : Typed k) (p : Property) : TreeM NodeId := do
  match ← n.node.child p with
  | some c => return c
  | none => throw (.broken (.wrongSlot n.node.index p.slot))

/-- The scalar of a property, as what the projection takes it for. -/
def project (n : Typed k) (p : Property) (f : Scalar → Option α) (t : Tree) : Except Failure α := do
  match f (← t.scalar n.node p) with
  | some a => return a
  | none =>
    let ty ← p.scalarType
    refuse (.scalarMismatch p ty)

/-- Creates a node of kind `k` and gives it a scalar.  The node stays even if the scalar is refused. -/
def createWith (k : Kind) (p : Property) (v : Scalar) : TreeM (Typed k) := do
  let n ← create k
  n.node.setScalar p v
  return n

theorem cast?_eq_some {t : Tree} {n : NodeId} {x : Typed k} :
    cast? k t n = .ok (some x) ↔ t.kind n = .ok k ∧ x = ⟨n⟩ := by
  unfold cast?
  rcases t.kind n with e | k'
  · simp [bind, Except.bind]
  · by_cases h : k' = k
    · simp [bind, Except.bind, pure, Except.pure, h, eq_comm]
    · simp [bind, Except.bind, pure, Except.pure, h]

end Typed

/-! ## Nodes by their syntactic class -/

/-- An expression. -/
inductive Expression where
  | name (node : Typed .simpleName)
  | number (node : Typed .numberLiteral)
  | arrayAccess (node : Typed .arrayAccess)
  | cast (node : Typed .castExpression)
  | conditional (node : Typed .conditionalExpression)
  | prefixed (node : Typed .prefixExpression)
  | postfixed (node : Typed .postfixExpression)
  deriving DecidableEq, Repr

namespace Expression

/-- The node as an expression, if it is one. -/
def cast? (t : Tree) (n : NodeId) : Except Failure (Option Expression) := do
  return match ← t.kind n with
    | .simpleName => some (name ⟨n⟩)
    | .numberLiteral => some (number ⟨n⟩)
    | .arrayAccess => some (arrayAccess ⟨n⟩)
    | .castExpression => some (cast ⟨n⟩)
    | .conditionalExpression => some (conditional ⟨n⟩)
    | .prefixExpression => some (prefixed ⟨n⟩)
    | .postfixExpression => some (postfixed ⟨n⟩)
    | _ => none

/-- The handle without its class. -/
def node : Expression → NodeId
  | name n => n.node
  | number n => n.node
  | arrayAccess n => n.node
  | cast n => n.node
  | conditional n => n.node
  | prefixed n => n.node
  | postfixed n => n.node

/-- The name of the class of expression. -/
def label : Expression → String
  | name _ => "Name"
  | number _ => "Number"
  | arrayAccess _ => "ArrayAccess"
  | cast _ => "Cast"
  | conditional _ => "Conditional"
  | prefixed _ => "Prefix"
  | postfixed _ => "Postfix"

end Expression

/-- A type. -/
inductive TypeNode where
  | primitive (node : Typed .primitiveType)
  | simple (node : Typed .simpleType)
  | qualified (node : Typed .qualifiedType)
  deriving DecidableEq, Repr

namespace TypeNode

/-- The node as a type, if it is one. -/
def cast? (t : Tree) (n : NodeId) : Except Failure (Option TypeNode) := do
  return match ← t.kind n with
    | .primitiveType => some (primitive ⟨n⟩)
    | .simpleType => some (simple ⟨n⟩)
    | .qualifiedType => some (qualified ⟨n⟩)
    | _ => none

/-- The handle without its class. -/
def node : TypeNode → NodeId
  | primitive n => n.node
  | simple n => n.node
  | qualified n => n.node

/-- The name of the class of type. -/
def label : TypeNode → String
  | primitive _ => "Primitive"
  | simple _ => "Simple"
  | qualified _ => "Qualified"

end TypeNode

end SyntaxForest
