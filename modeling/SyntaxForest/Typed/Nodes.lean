import SyntaxForest.Typed.Handle

/-!
# Typed/Nodes — the properties of each kind by name

One name for each property of each kind, on the typed handle of the kind.  A child is read and set, a
list is opened as a `Sequence` to be read or edited, a text or a word is read and set.

The children named here as `Typed` are of a type that admits one kind only.
-/

namespace SyntaxForest

open TreeM

/-! ## Leaves -/

/-- An identifier. -/
abbrev SimpleName := Typed .simpleName

namespace SimpleName

/-- A name with the given identifier. -/
def create (identifier : String) : TreeM SimpleName :=
  Typed.createWith _ .simpleNameIdentifier (.symbol identifier)

/-- The identifier. -/
def identifier (n : SimpleName) (t : Tree) : Except Failure String :=
  n.project .simpleNameIdentifier Scalar.text? t

/-- Replaces the identifier. -/
def setIdentifier (n : SimpleName) (identifier : String) : TreeM Unit :=
  n.node.setScalar .simpleNameIdentifier (.symbol identifier)

end SimpleName

/-- A number as it is written. -/
abbrev NumberLiteral := Typed .numberLiteral

namespace NumberLiteral

/-- A number written as given. -/
def create (token : String) : TreeM NumberLiteral :=
  Typed.createWith _ .numberLiteralToken (.symbol token)

/-- How the number is written. -/
def token (n : NumberLiteral) (t : Tree) : Except Failure String :=
  n.project .numberLiteralToken Scalar.text? t

/-- Replaces how the number is written. -/
def setToken (n : NumberLiteral) (token : String) : TreeM Unit :=
  n.node.setScalar .numberLiteralToken (.symbol token)

end NumberLiteral

/-- An operator as it is written. -/
abbrev Operator := Typed .operator

namespace Operator

/-- How the operator is written. -/
def token (n : Operator) (t : Tree) : Except Failure String :=
  n.project .operatorToken Scalar.text? t

/-- Replaces how the operator is written. -/
def setToken (n : Operator) (token : String) : TreeM Unit :=
  n.node.setScalar .operatorToken (.symbol token)

end Operator

/-! ## Types -/

/-- A primitive type. -/
abbrev PrimitiveType := Typed .primitiveType

namespace PrimitiveType

/-- A node for the given primitive type. -/
def create (code : PrimitiveCode) : TreeM PrimitiveType :=
  Typed.createWith _ .primitiveTypeCode (.primitive code)

/-- Which primitive type it is. -/
def code (n : PrimitiveType) (t : Tree) : Except Failure PrimitiveCode :=
  n.project .primitiveTypeCode Scalar.primitive? t

/-- Replaces the primitive type. -/
def setCode (n : PrimitiveType) (code : PrimitiveCode) : TreeM Unit :=
  n.node.setScalar .primitiveTypeCode (.primitive code)

end PrimitiveType

/-- A type given by a name. -/
abbrev SimpleType := Typed .simpleType

namespace SimpleType

/-- The name. -/
def name (n : SimpleType) : TreeM SimpleName := do
  return ⟨← n.required .simpleTypeName⟩

/-- Replaces the name. -/
def setName (n : SimpleType) (name : SimpleName) : TreeM Unit :=
  n.node.setChild .simpleTypeName name.node

end SimpleType

/-- A type given by a name within something else. -/
abbrev QualifiedType := Typed .qualifiedType

namespace QualifiedType

/-- The only one of the elements, in the legacy shape. -/
def qualifier (n : QualifiedType) : TreeM NodeId := n.required .qualifiedTypeQualifier

/-- Replaces the only element. -/
def setQualifier (n : QualifiedType) (c : NodeId) : TreeM Unit :=
  n.node.setChild .qualifiedTypeQualifier c

/-- What the name is within. -/
def elements (n : QualifiedType) (t : Tree) : Except Failure Sequence :=
  t.sequence n.node .qualifiedTypeElements

/-- The annotations; the legacy shape has none. -/
def annotations (n : QualifiedType) (t : Tree) : Except Failure Sequence :=
  t.sequence n.node .qualifiedTypeAnnotations

/-- The name. -/
def name (n : QualifiedType) : TreeM SimpleName := do
  return ⟨← n.required .qualifiedTypeName⟩

/-- Replaces the name. -/
def setName (n : QualifiedType) (name : SimpleName) : TreeM Unit :=
  n.node.setChild .qualifiedTypeName name.node

end QualifiedType

/-! ## Expressions -/

/-- An access to elements of an array. -/
abbrev ArrayAccess := Typed .arrayAccess

namespace ArrayAccess

/-- The array. -/
def array (n : ArrayAccess) : TreeM NodeId := n.required .arrayAccessArray

/-- Replaces the array. -/
def setArray (n : ArrayAccess) (c : NodeId) : TreeM Unit := n.node.setChild .arrayAccessArray c

/-- The only one of the indexes. -/
def index (n : ArrayAccess) : TreeM NodeId := n.required .arrayAccessIndex

/-- Replaces the only index. -/
def setIndex (n : ArrayAccess) (c : NodeId) : TreeM Unit := n.node.setChild .arrayAccessIndex c

/-- The indexes. -/
def indexes (n : ArrayAccess) (t : Tree) : Except Failure Sequence :=
  t.sequence n.node .arrayAccessIndexes

end ArrayAccess

/-- A conversion of an expression to a type. -/
abbrev CastExpression := Typed .castExpression

namespace CastExpression

/-- The only one of the types. -/
def type (n : CastExpression) : TreeM NodeId := n.required .castType

/-- Replaces the only type. -/
def setType (n : CastExpression) (c : NodeId) : TreeM Unit := n.node.setChild .castType c

/-- The types. -/
def types (n : CastExpression) (t : Tree) : Except Failure Sequence := t.sequence n.node .castTypes

/-- What is converted. -/
def expression (n : CastExpression) : TreeM NodeId := n.required .castExpression

/-- Replaces what is converted. -/
def setExpression (n : CastExpression) (c : NodeId) : TreeM Unit :=
  n.node.setChild .castExpression c

end CastExpression

/-- A choice between two expressions. -/
abbrev ConditionalExpression := Typed .conditionalExpression

namespace ConditionalExpression

/-- The only element of the condition. -/
def expression (n : ConditionalExpression) : TreeM NodeId := n.required .conditionExpression

/-- Replaces the only element of the condition. -/
def setExpression (n : ConditionalExpression) (c : NodeId) : TreeM Unit :=
  n.node.setChild .conditionExpression c

/-- The only element of the first choice. -/
def thenExpression (n : ConditionalExpression) : TreeM NodeId := n.required .thenExpression

/-- Replaces the only element of the first choice. -/
def setThenExpression (n : ConditionalExpression) (c : NodeId) : TreeM Unit :=
  n.node.setChild .thenExpression c

/-- The only element of the second choice. -/
def elseExpression (n : ConditionalExpression) : TreeM NodeId := n.required .elseExpression

/-- Replaces the only element of the second choice. -/
def setElseExpression (n : ConditionalExpression) (c : NodeId) : TreeM Unit :=
  n.node.setChild .elseExpression c

/-- The elements of the condition. -/
def conditionElements (n : ConditionalExpression) (t : Tree) : Except Failure Sequence :=
  t.sequence n.node .conditionElements

/-- The elements of the first choice. -/
def thenElements (n : ConditionalExpression) (t : Tree) : Except Failure Sequence :=
  t.sequence n.node .thenElements

/-- The elements of the second choice. -/
def elseElements (n : ConditionalExpression) (t : Tree) : Except Failure Sequence :=
  t.sequence n.node .elseElements

end ConditionalExpression

/-- An operator before its operand. -/
abbrev PrefixExpression := Typed .prefixExpression

namespace PrefixExpression

/-- The operator. -/
def operator (n : PrefixExpression) (t : Tree) : Except Failure PrefixOp :=
  n.project .prefixOperator Scalar.prefixOp? t

/-- Replaces the operator. -/
def setOperator (n : PrefixExpression) (op : PrefixOp) : TreeM Unit :=
  n.node.setScalar .prefixOperator (.prefixOp op)

/-- The operand. -/
def operand (n : PrefixExpression) : TreeM NodeId := n.required .prefixOperand

/-- Replaces the operand. -/
def setOperand (n : PrefixExpression) (c : NodeId) : TreeM Unit :=
  n.node.setChild .prefixOperand c

end PrefixExpression

/-- An operator after its operand. -/
abbrev PostfixExpression := Typed .postfixExpression

namespace PostfixExpression

/-- The operator. -/
def operator (n : PostfixExpression) (t : Tree) : Except Failure PostfixOp :=
  n.project .postfixOperator Scalar.postfixOp? t

/-- Replaces the operator. -/
def setOperator (n : PostfixExpression) (op : PostfixOp) : TreeM Unit :=
  n.node.setScalar .postfixOperator (.postfixOp op)

/-- The operand. -/
def operand (n : PostfixExpression) : TreeM NodeId := n.required .postfixOperand

/-- Replaces the operand. -/
def setOperand (n : PostfixExpression) (c : NodeId) : TreeM Unit :=
  n.node.setChild .postfixOperand c

end PostfixExpression

/-! ## Patterns -/

/-- A pattern, which may bind a name. -/
abbrev Pattern := Typed .pattern

namespace Pattern

/-- The elements. -/
def elements (n : Pattern) (t : Tree) : Except Failure Sequence := t.sequence n.node .patternElements

/-- The name that is bound. -/
def binding (n : Pattern) (t : Tree) : Except Failure (Option SimpleName) := do
  return (← t.peekChild n.node .patternBinding).map (⟨·⟩)

/-- Replaces the name that is bound. -/
def setBinding (n : Pattern) (binding : SimpleName) : TreeM Unit :=
  n.node.setChild .patternBinding binding.node

/-- Binds no name any more, and returns the one that was bound. -/
def clearBinding (n : Pattern) : TreeM (Option SimpleName) := do
  return (← n.node.clearChild .patternBinding).map (⟨·⟩)

end Pattern

end SyntaxForest
