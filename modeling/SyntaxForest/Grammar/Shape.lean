import SyntaxForest.Grammar.Property

/-!
# Grammar/Shape — the two shapes of the grammar

The **legacy** shape reads some list slots as single children, the **current** one reads them as lists.
The stores are the same in both: `Kind.storage` names the property that owns each slot, in the order of
the grammar, and `Kind.properties` names the properties a shape offers.  A slot is *live* in a shape
when some property on offer reads it.

* `Kind.storage_slot` — the slot of a stored property is its position.
* `Property.storage_primary` — `Property.primary` is the stored property of the slot.
* `Kind.slotIsLive_iff` — only the annotations of a qualified type are dead, and only in the legacy shape.
-/

namespace SyntaxForest

/-- The two ways to read the grammar. -/
inductive Shape where
  | legacy
  | current
  deriving DecidableEq, Repr, Inhabited

namespace Shape

/-- The name of a shape. -/
def label : Shape → String
  | legacy => "Legacy"
  | current => "Current"

/-- The shape with a given name. -/
def ofLabel? (label : String) : Option Shape := [legacy, current].find? (·.label == label)

end Shape

namespace Kind

/-- The property that owns each slot of a node of the kind, by slot. -/
def storage : Kind → List Property
  | simpleName => [.simpleNameIdentifier]
  | numberLiteral => [.numberLiteralToken]
  | operator => [.operatorToken]
  | primitiveType => [.primitiveTypeCode]
  | simpleType => [.simpleTypeName]
  | qualifiedType => [.qualifiedTypeElements, .qualifiedTypeAnnotations, .qualifiedTypeName]
  | arrayAccess => [.arrayAccessArray, .arrayAccessIndexes]
  | castExpression => [.castTypes, .castExpression]
  | conditionalExpression => [.conditionElements, .thenElements, .elseElements]
  | prefixExpression => [.prefixOperator, .prefixOperand]
  | postfixExpression => [.postfixOperand, .postfixOperator]
  | pattern => [.patternElements, .patternBinding]

/-- The properties that the kind offers in a shape, in the order of the grammar. -/
def properties (shape : Shape) (k : Kind) : List Property :=
  match shape, k with
  | .legacy, qualifiedType => [.qualifiedTypeQualifier, .qualifiedTypeName]
  | .legacy, arrayAccess => [.arrayAccessArray, .arrayAccessIndex]
  | .legacy, castExpression => [.castType, .castExpression]
  | .legacy, conditionalExpression => [.conditionExpression, .thenExpression, .elseExpression]
  | _, k => k.storage

/-- The property on offer with a given name. -/
def propertyNamed? (shape : Shape) (k : Kind) (name : String) : Option Property :=
  (k.properties shape).find? (·.name == name)

/-- Whether some property on offer reads the slot. -/
def slotIsLive (shape : Shape) (k : Kind) (slot : Nat) : Bool :=
  (k.properties shape).any (·.slot == slot)

/-- The property through which a shape reads the slot; a dead slot is named by its owner. -/
def liveProperty? (shape : Shape) (k : Kind) (slot : Nat) : Option Property :=
  (k.properties shape).find? (·.slot == slot) <|> k.storage[slot]?

/-- The items of a node's slots that a shape offers, in slot order. -/
def liveOnly {α : Type} (shape : Shape) (k : Kind) (slots : List α) : List α :=
  slots.zipIdx.filterMap fun (item, slot) => if k.slotIsLive shape slot then some item else none

theorem storage_slot {k : Kind} {i : Nat} {p : Property} (h : k.storage[i]? = some p) :
    p.slot = i ∧ p.owner = k := by
  rcases i with _ | _ | _ | i <;> cases k <;> simp_all [storage] <;> subst h <;> exact ⟨rfl, rfl⟩

theorem slotIsLive_iff (shape : Shape) (k : Kind) (slot : Nat) :
    k.slotIsLive shape slot = true ↔
      slot < k.storage.length ∧ ¬(shape = .legacy ∧ k = .qualifiedType ∧ slot = 1) := by
  rcases slot with _ | _ | _ | slot <;> cases shape <;> cases k <;>
    simp [slotIsLive, properties, storage, Property.slot, Property.descriptor, Descriptor.scalar,
      Descriptor.child, Descriptor.optionalChild, Descriptor.list, Descriptor.soleElement]

end Kind

/-- The primary property of a slot is the stored one. -/
theorem Property.storage_primary (p : Property) : p.owner.storage[p.slot]? = some p.primary := by
  cases p <;> rfl

end SyntaxForest
