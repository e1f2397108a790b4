import SyntaxForest.Grammar.Kind
import SyntaxForest.Grammar.Scalar

/-!
# Grammar/Property — the structural properties

Each kind declares properties.  A property is one value of the type `Property`, so two properties are
the same exactly when they are equal; what it declares is its `Descriptor`.

A **sole-element view** is a property of its own that reads a list slot as a single child: it shares
the slot of the list property that owns the store (`Property.primary`) and may declare a narrower type
than it.

* `Property.primary_slot`, `Property.primary_owner` — a property and its primary share slot and owner.
* `Property.rank_placeholder` — placeholders of placeholders come to an end.
-/

namespace SyntaxForest

/-- The shape of what a property holds, with its declared type. -/
inductive Form where
  | scalar (ty : ScalarType)
  | child (ty : ChildType)
  | list (ty : ChildType)
  deriving DecidableEq, Repr

namespace Form

/-- The declared type of a form that holds nodes. -/
def childType? : Form → Option ChildType
  | scalar _ => none
  | child ty | list ty => some ty

/-- The name of a form. -/
def label : Form → String
  | scalar _ => "Scalar"
  | child _ => "Child"
  | list _ => "List"

/-- The name of the declared type. -/
def typeLabel : Form → String
  | scalar ty => ty.label
  | child ty | list ty => ty.label

end Form

/-- Whether a property always holds something when it is read. -/
inductive Cardinality where
  | mandatory
  | optional
  deriving DecidableEq, Repr

/-- The name of a cardinality. -/
def Cardinality.label : Cardinality → String
  | mandatory => "Mandatory"
  | optional => "Optional"

/-- What a property declares. -/
structure Descriptor where
  /-- the kind whose nodes have the property -/
  owner : Kind
  name : String
  /-- the position of the store in the nodes of the owner -/
  slot : Nat
  form : Form
  cardinality : Cardinality
  /-- the kind that stands in for an unset mandatory child -/
  placeholder : Option Kind
  /-- whether a list slot is read as a single child -/
  isSoleElementView : Bool
  deriving DecidableEq, Repr

namespace Descriptor

/-- A scalar is mandatory: a fresh node holds the default. -/
def scalar (owner : Kind) (name : String) (slot : Nat) (ty : ScalarType) : Descriptor :=
  ⟨owner, name, slot, .scalar ty, .mandatory, none, false⟩

/-- A mandatory child; the placeholder comes to exist when an unset slot is first read. -/
def child (owner : Kind) (name : String) (slot : Nat) (ty : ChildType) (placeholder : Kind) :
    Descriptor :=
  ⟨owner, name, slot, .child ty, .mandatory, some placeholder, false⟩

/-- A child that may be absent. -/
def optionalChild (owner : Kind) (name : String) (slot : Nat) (ty : ChildType) : Descriptor :=
  ⟨owner, name, slot, .child ty, .optional, none, false⟩

/-- A sequence of children. -/
def list (owner : Kind) (name : String) (slot : Nat) (ty : ChildType) : Descriptor :=
  ⟨owner, name, slot, .list ty, .optional, none, false⟩

/-- A mandatory child kept as the only element of the list in the slot. -/
def soleElement (owner : Kind) (name : String) (slot : Nat) (ty : ChildType) (placeholder : Kind) :
    Descriptor :=
  ⟨owner, name, slot, .child ty, .mandatory, some placeholder, true⟩

end Descriptor

/-- The properties of all kinds. -/
inductive Property where
  | simpleNameIdentifier
  | numberLiteralToken
  | operatorToken
  | primitiveTypeCode
  | simpleTypeName
  | qualifiedTypeElements
  | qualifiedTypeAnnotations
  | qualifiedTypeName
  | qualifiedTypeQualifier
  | arrayAccessArray
  | arrayAccessIndexes
  | arrayAccessIndex
  | castTypes
  | castType
  | castExpression
  | conditionElements
  | thenElements
  | elseElements
  | conditionExpression
  | thenExpression
  | elseExpression
  | prefixOperator
  | prefixOperand
  | postfixOperand
  | postfixOperator
  | patternElements
  | patternBinding
  deriving DecidableEq, Repr

namespace Property

/-- Every property. -/
def all : List Property :=
  [simpleNameIdentifier, numberLiteralToken, operatorToken, primitiveTypeCode, simpleTypeName,
    qualifiedTypeElements, qualifiedTypeAnnotations, qualifiedTypeName, qualifiedTypeQualifier,
    arrayAccessArray, arrayAccessIndexes, arrayAccessIndex, castTypes, castType, castExpression,
    conditionElements, thenElements, elseElements, conditionExpression, thenExpression,
    elseExpression, prefixOperator, prefixOperand, postfixOperand, postfixOperator,
    patternElements, patternBinding]

/-- What each property declares. -/
def descriptor : Property → Descriptor
  | simpleNameIdentifier => .scalar .simpleName "identifier" 0 .identifier
  | numberLiteralToken => .scalar .numberLiteral "token" 0 .number
  | operatorToken => .scalar .operator "operator" 0 .operatorToken
  | primitiveTypeCode => .scalar .primitiveType "code" 0 .primitiveType
  | simpleTypeName => .child .simpleType "name" 0 .name .simpleName
  | qualifiedTypeElements => .list .qualifiedType "elements" 0 .any
  | qualifiedTypeAnnotations => .list .qualifiedType "annotations" 1 .name
  | qualifiedTypeName => .child .qualifiedType "name" 2 .name .simpleName
  | qualifiedTypeQualifier => .soleElement .qualifiedType "qualifier" 0 .type .simpleType
  | arrayAccessArray => .child .arrayAccess "array" 0 .expression .simpleName
  | arrayAccessIndexes => .list .arrayAccess "indexes" 1 .expression
  | arrayAccessIndex => .soleElement .arrayAccess "index" 1 .expression .simpleName
  | castTypes => .list .castExpression "types" 0 .type
  | castType => .soleElement .castExpression "type" 0 .type .primitiveType
  | castExpression => .child .castExpression "expression" 1 .expression .simpleName
  | conditionElements => .list .conditionalExpression "conditionElements" 0 .expression
  | thenElements => .list .conditionalExpression "thenElements" 1 .expression
  | elseElements => .list .conditionalExpression "elseElements" 2 .expression
  | conditionExpression =>
    .soleElement .conditionalExpression "expression" 0 .expression .simpleName
  | thenExpression =>
    .soleElement .conditionalExpression "thenExpression" 1 .expression .simpleName
  | elseExpression =>
    .soleElement .conditionalExpression "elseExpression" 2 .expression .simpleName
  | prefixOperator => .scalar .prefixExpression "operator" 0 .prefixOperator
  | prefixOperand => .child .prefixExpression "operand" 1 .expression .simpleName
  | postfixOperand => .child .postfixExpression "operand" 0 .expression .simpleName
  | postfixOperator => .scalar .postfixExpression "operator" 1 .postfixOperator
  | patternElements => .list .pattern "elements" 0 .any
  | patternBinding => .optionalChild .pattern "binding" 1 .name

/-- The kind whose nodes have the property. -/
abbrev owner (p : Property) : Kind := p.descriptor.owner

/-- The name of the property within its kind. -/
abbrev name (p : Property) : String := p.descriptor.name

/-- The position of the store of the property in a node. -/
abbrev slot (p : Property) : Nat := p.descriptor.slot

/-- What the property holds. -/
abbrev form (p : Property) : Form := p.descriptor.form

/-- Whether a read always finds something. -/
abbrev cardinality (p : Property) : Cardinality := p.descriptor.cardinality

/-- The kind that stands in for the child while it is unset. -/
abbrev placeholder (p : Property) : Option Kind := p.descriptor.placeholder

/-- Whether the property reads a list slot as a single child. -/
abbrev isSoleElementView (p : Property) : Bool := p.descriptor.isSoleElementView

/-- Whether the property may not be cleared. -/
def isMandatory (p : Property) : Bool := p.cardinality = .mandatory

/-- Whether assigning through the property could make a node its own ancestor, so that the ancestors
have to be looked at. -/
def cycleRisk (p : Property) : Bool := p.form.childType?.any ChildType.admitsBranches

/-- Kind and name, which tell a property from every other. -/
def qualifiedName (p : Property) : String := p.owner.name ++ "." ++ p.name

/-- The property with a given qualified name. -/
def ofQualifiedName? (text : String) : Option Property := all.find? (·.qualifiedName == text)

/-- The property that owns the store: the list behind a sole-element view, and any other property
itself.  Nodes are filed under it. -/
def primary : Property → Property
  | qualifiedTypeQualifier => qualifiedTypeElements
  | arrayAccessIndex => arrayAccessIndexes
  | castType => castTypes
  | conditionExpression => conditionElements
  | thenExpression => thenElements
  | elseExpression => elseElements
  | p => p

theorem mem_all (p : Property) : p ∈ all := by cases p <;> decide

@[simp] theorem primary_slot (p : Property) : p.primary.slot = p.slot := by cases p <;> rfl

@[simp] theorem primary_owner (p : Property) : p.primary.owner = p.owner := by cases p <;> rfl

@[simp] theorem primary_primary (p : Property) : p.primary.primary = p.primary := by
  cases p <;> rfl

/-- A placeholder is of the type its property declares. -/
theorem placeholder_conformsTo {p : Property} {k : Kind} {ty : ChildType}
    (h : p.placeholder = some k) (hty : p.form.childType? = some ty) : k.conformsTo ty = true := by
  cases p <;> cases h <;> cases hty <;> rfl

end Property

/-- How deep placeholders can stand in for placeholders below a fresh node of the kind. -/
def Kind.rank : Kind → Nat
  | simpleName | numberLiteral | operator | primitiveType => 0
  | qualifiedType => 2
  | _ => 1

theorem Kind.rank_le (k : Kind) : k.rank ≤ 2 := by cases k <;> decide

/-- **Placeholders come to an end**: the placeholder of a property ranks below the property's owner. -/
theorem Property.rank_placeholder {p : Property} {k : Kind} (h : p.placeholder = some k) :
    k.rank < p.owner.rank := by
  cases p <;> cases h <;> decide

end SyntaxForest
