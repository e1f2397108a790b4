/-!
# Grammar/Scalar — the values that are not nodes

A scalar is a text or one word of three closed vocabularies.  Each `ScalarType` has a default value
of its own (`ScalarType.default`), so a fresh node never holds an absent scalar.

* `PrefixOp.ofToken?_token` and its companions — the spelling of an operator or primitive type reads
  back as it.
* `ScalarType.default_conformsTo` — every default conforms to its type.
-/

namespace SyntaxForest

/-- Operators written before their operand. -/
inductive PrefixOp where
  | increment
  | decrement
  | plus
  | minus
  | complement
  | not
  deriving DecidableEq, Repr, Inhabited

namespace PrefixOp

/-- Every operator written before its operand; the first is the default. -/
def all : List PrefixOp := [increment, decrement, plus, minus, complement, not]

/-- The spelling of the operator. -/
def token : PrefixOp → String
  | increment => "++"
  | decrement => "--"
  | plus => "+"
  | minus => "-"
  | complement => "~"
  | not => "!"

/-- The name of the operator. -/
def label : PrefixOp → String
  | increment => "Increment"
  | decrement => "Decrement"
  | plus => "Plus"
  | minus => "Minus"
  | complement => "Complement"
  | not => "Not"

/-- The operator with a given spelling. -/
def ofToken? (token : String) : Option PrefixOp := all.find? (·.token == token)

@[simp] theorem ofToken?_token (op : PrefixOp) : ofToken? op.token = some op := by
  cases op <;> rfl

end PrefixOp

/-- Operators written after their operand. -/
inductive PostfixOp where
  | increment
  | decrement
  deriving DecidableEq, Repr, Inhabited

namespace PostfixOp

/-- Every operator written after its operand; the first is the default. -/
def all : List PostfixOp := [increment, decrement]

/-- The spelling of the operator. -/
def token : PostfixOp → String
  | increment => "++"
  | decrement => "--"

/-- The name of the operator. -/
def label : PostfixOp → String
  | increment => "Increment"
  | decrement => "Decrement"

/-- The operator with a given spelling. -/
def ofToken? (token : String) : Option PostfixOp := all.find? (·.token == token)

@[simp] theorem ofToken?_token (op : PostfixOp) : ofToken? op.token = some op := by
  cases op <;> rfl

end PostfixOp

/-- The primitive types. -/
inductive PrimitiveCode where
  | byte
  | short
  | char
  | int
  | long
  | float
  | double
  | boolean
  | void
  deriving DecidableEq, Repr

namespace PrimitiveCode

/-- `int` is what a primitive type says until it is told otherwise. -/
instance : Inhabited PrimitiveCode := ⟨int⟩

/-- Every primitive type. -/
def all : List PrimitiveCode := [byte, short, char, int, long, float, double, boolean, void]

/-- The spelling of the primitive type. -/
def token : PrimitiveCode → String
  | byte => "byte"
  | short => "short"
  | char => "char"
  | int => "int"
  | long => "long"
  | float => "float"
  | double => "double"
  | boolean => "boolean"
  | void => "void"

/-- The name of the primitive type. -/
def label : PrimitiveCode → String
  | byte => "Byte"
  | short => "Short"
  | char => "Char"
  | int => "Int"
  | long => "Long"
  | float => "Float"
  | double => "Double"
  | boolean => "Boolean"
  | void => "Void"

/-- The primitive type with a given spelling. -/
def ofToken? (token : String) : Option PrimitiveCode := all.find? (·.token == token)

@[simp] theorem ofToken?_token (code : PrimitiveCode) : ofToken? code.token = some code := by
  cases code <;> rfl

end PrimitiveCode

/-- A value of a property that holds no node. -/
inductive Scalar where
  | symbol (text : String)
  | prefixOp (op : PrefixOp)
  | postfixOp (op : PostfixOp)
  | primitive (code : PrimitiveCode)
  deriving DecidableEq, Repr

/-- What a scalar property declares to hold. -/
inductive ScalarType where
  | identifier
  | number
  | operatorToken
  | prefixOperator
  | postfixOperator
  | primitiveType
  deriving DecidableEq, Repr

namespace ScalarType

/-- The name of a scalar type. -/
def label : ScalarType → String
  | identifier => "Identifier"
  | number => "Number"
  | operatorToken => "OperatorToken"
  | prefixOperator => "PrefixOperator"
  | postfixOperator => "PostfixOperator"
  | primitiveType => "PrimitiveType"

/-- The text of an identifier that nobody has set. -/
def missingName : String := "MISSING"

/-- The value of a scalar property of a fresh node. -/
def default : ScalarType → Scalar
  | identifier => .symbol missingName
  | number => .symbol "0"
  | operatorToken => .symbol ""
  | prefixOperator => .prefixOp .increment
  | postfixOperator => .postfixOp .increment
  | primitiveType => .primitive .int

/-- Whether the empty text is refused.  An operator token may be empty: that is its default. -/
def requiresText : ScalarType → Bool
  | identifier | number => true
  | _ => false

end ScalarType

namespace Scalar

/-- Whether the value is one that the type declares. -/
def conformsTo : Scalar → ScalarType → Bool
  | symbol _, .identifier | symbol _, .number | symbol _, .operatorToken => true
  | prefixOp _, .prefixOperator => true
  | postfixOp _, .postfixOperator => true
  | primitive _, .primitiveType => true
  | _, _ => false

/-- The text of a symbol. -/
def text? : Scalar → Option String
  | symbol text => some text
  | _ => none

/-- The operator held, if it is one written before its operand. -/
def prefixOp? : Scalar → Option PrefixOp
  | prefixOp op => some op
  | _ => none

/-- The operator held, if it is one written after its operand. -/
def postfixOp? : Scalar → Option PostfixOp
  | postfixOp op => some op
  | _ => none

/-- The primitive type held. -/
def primitive? : Scalar → Option PrimitiveCode
  | primitive code => some code
  | _ => none

/-- Whether the value is a symbol without text. -/
def isEmptyText : Scalar → Bool
  | symbol text => text.isEmpty
  | _ => false

end Scalar

theorem ScalarType.default_conformsTo (ty : ScalarType) : ty.default.conformsTo ty = true := by
  cases ty <;> rfl

/-- A default is never an empty text where text is required. -/
theorem ScalarType.default_isEmptyText (ty : ScalarType) (h : ty.requiresText = true) :
    ty.default.isEmptyText = false := by
  cases ty <;> first | rfl | cases h

end SyntaxForest
