/-!
# Grammar/Kind — the kinds of node and the types a child may be declared with

A `Kind` is the tag of a node and never changes.  A `ChildType` is what a slot that holds nodes
declares; `Kind.conformsTo` says which kinds it admits.

* `Kind.ofTag?_tag` — the tags are the positions in `Kind.all`.
* `ChildType.not_admitsBranches` — a type that admits no branching kind admits leaves only, which is
  why no cycle can be closed under it.
-/

namespace SyntaxForest

/-- The kinds of node of the grammar. -/
inductive Kind where
  | simpleName
  | numberLiteral
  | operator
  | primitiveType
  | simpleType
  | qualifiedType
  | arrayAccess
  | castExpression
  | conditionalExpression
  | prefixExpression
  | postfixExpression
  | pattern
  deriving DecidableEq, Repr, Inhabited

namespace Kind

/-- Every kind, in the order of the tags. -/
def all : List Kind :=
  [simpleName, numberLiteral, operator, primitiveType, simpleType, qualifiedType, arrayAccess,
    castExpression, conditionalExpression, prefixExpression, postfixExpression, pattern]

/-- The tag of a kind: a stable small number, by which kinds are also ordered. -/
def tag : Kind → Nat
  | simpleName => 0
  | numberLiteral => 1
  | operator => 2
  | primitiveType => 3
  | simpleType => 4
  | qualifiedType => 5
  | arrayAccess => 6
  | castExpression => 7
  | conditionalExpression => 8
  | prefixExpression => 9
  | postfixExpression => 10
  | pattern => 11

/-- The kind with a given tag. -/
def ofTag? (tag : Nat) : Option Kind := all[tag]?

/-- The name of a kind, as texts and descriptors show it. -/
def name : Kind → String
  | simpleName => "SimpleName"
  | numberLiteral => "NumberLiteral"
  | operator => "Operator"
  | primitiveType => "PrimitiveType"
  | simpleType => "SimpleType"
  | qualifiedType => "QualifiedType"
  | arrayAccess => "ArrayAccess"
  | castExpression => "CastExpression"
  | conditionalExpression => "ConditionalExpression"
  | prefixExpression => "PrefixExpression"
  | postfixExpression => "PostfixExpression"
  | pattern => "Pattern"

/-- The kind with a given name. -/
def ofName? (name : String) : Option Kind := all.find? (·.name == name)

/-- Kinds are ordered by tag. -/
instance : Ord Kind := ⟨fun a b => compare a.tag b.tag⟩

theorem mem_all (k : Kind) : k ∈ all := by cases k <;> decide

theorem all_nodup : all.Nodup := by decide

@[simp] theorem ofTag?_tag (k : Kind) : ofTag? k.tag = some k := by cases k <;> rfl

theorem tag_of_ofTag? {n : Nat} {k : Kind} (h : ofTag? n = some k) : k.tag = n := by
  rcases Nat.lt_or_ge n 12 with hn | hn
  · have : ∀ m : Fin 12, ∀ k : Kind, ofTag? m = some k → k.tag = m := by
      intro m k
      revert m
      cases k <;> decide
    exact this ⟨n, hn⟩ k h
  · rw [ofTag?, List.getElem?_eq_none hn] at h
    cases h

end Kind

/-- The declared type of a slot that holds nodes. -/
inductive ChildType where
  | any
  | expression
  | type
  | name
  | operator
  deriving DecidableEq, Repr

namespace ChildType

/-- Every child type, from the widest on. -/
def all : List ChildType := [any, expression, type, name, operator]

/-- The name of a child type. -/
def label : ChildType → String
  | any => "Any"
  | expression => "Expression"
  | type => "Type"
  | name => "Name"
  | operator => "Operator"

/-- The child type with a given name. -/
def ofLabel? (label : String) : Option ChildType := all.find? (·.label == label)

/-- Whether some kind admitted here can have children itself.  Only then can an assignment close a
cycle. -/
def admitsBranches : ChildType → Bool
  | any | expression | type => true
  | name | operator => false

end ChildType

/-- Whether a node of this kind may stand where the given type is declared. -/
def Kind.conformsTo (k : Kind) : ChildType → Bool
  | .any => true
  | .expression =>
    match k with
    | .simpleName | .numberLiteral | .arrayAccess | .castExpression | .conditionalExpression
    | .prefixExpression | .postfixExpression => true
    | _ => false
  | .type =>
    match k with
    | .primitiveType | .simpleType | .qualifiedType => true
    | _ => false
  | .name => k = .simpleName
  | .operator => k = .operator

/-- The child types a kind conforms to, in the order of `ChildType.all`. -/
def Kind.childTypes (k : Kind) : List ChildType := ChildType.all.filter k.conformsTo

/-- A type without branches admits names and operators only. -/
theorem ChildType.not_admitsBranches {ty : ChildType} {k : Kind} (h : ty.admitsBranches = false)
    (hk : k.conformsTo ty = true) : k = .simpleName ∨ k = .operator := by
  cases ty <;> simp_all [admitsBranches, Kind.conformsTo]

end SyntaxForest
