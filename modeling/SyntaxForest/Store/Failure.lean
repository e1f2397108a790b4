import SyntaxForest.Grammar.Shape
import SyntaxForest.Store.Notice

/-!
# Store/Failure — why a call does not answer

A call fails in one of three ways.

* It is **refused**: the request does not fit the grammar or the state (`Refusal`).  That is an answer
  like any other, and its wording is `Refusal.message`.
* It was **not meaningful**: a reader was given a node of another tree, a span ends before it starts, a
  word is none of its vocabulary, a node is not of the kind a typed handle asks for.
* The store is **broken** (`Breach`): an index leads nowhere or a slot is not of its declared form.
  Nothing that is built by this library reaches such a state; the cases say where one would show.
-/

namespace SyntaxForest

/-- What a property was asked for. -/
inductive Access where
  | scalar
  | singleChild
  | list
  deriving DecidableEq, Repr

/-- The name of an access. -/
def Access.label : Access → String
  | scalar => "scalar"
  | singleChild => "single-child"
  | list => "list"

/-- Why a property cannot be used in a call. -/
inductive Unsupported where
  /-- the shape of the tree does not read the slot -/
  | notInShape (shape : Shape)
  /-- a list of two or more elements has no sole element -/
  | multipleElements (count : Nat)
  /-- a list is edited, not assigned -/
  | listAssignment
  deriving DecidableEq, Repr

/-- The reason in words. -/
def Unsupported.message : Unsupported → String
  | notInShape shape => s!"not part of the {shape.label} shape"
  | multipleElements count => s!"the underlying list holds {count} elements"
  | listAssignment => "lists are edited in place, not assigned"

/-- Why a request is refused. -/
inductive Refusal where
  | alreadyParented
  | foreignTree
  | cycle
  | typeMismatch (expected : ChildType) (found : Kind)
  | scalarMismatch (property : Property) (expected : ScalarType)
  | emptyValue (property : Property)
  | protectedNode
  | duplicateInBatch
  | mandatoryProperty (property : Property)
  | indexOutOfBounds (index length : Nat)
  | notAProperty (kind : Kind) (property : Property)
  | wrongForm (property : Property) (expected : Access)
  | unsupported (kind : Kind) (property : Property) (reason : Unsupported)
  /-- the tree has changed since the index over it was built -/
  | stale (built current : Nat)
  deriving DecidableEq, Repr

namespace Refusal

/-- What is wrong with an argument; `none` for the refusals that are not about an argument. -/
def fault? : Refusal → Option String
  | alreadyParented => some "node already has a parent"
  | foreignTree => some "node belongs to a different tree"
  | cycle => some "assignment would make a node its own ancestor"
  | typeMismatch expected found =>
    some s!"{found.name} is not a valid {expected.label} child"
  | scalarMismatch property expected => some s!"`{property.name}` holds {expected.label} values"
  | emptyValue property => some s!"`{property.name}` requires a non-empty value"
  | protectedNode => some "node is protected"
  | duplicateInBatch => some "the same node appears more than once in one insertion"
  | mandatoryProperty property => some s!"`{property.name}` is mandatory and cannot be cleared"
  | indexOutOfBounds index length =>
    some s!"index {index} is out of bounds for a list of length {length}"
  | notAProperty kind property => some s!"`{property.name}` is not a property of {kind.name}"
  | wrongForm property expected => some s!"`{property.name}` is not a {expected.label} property"
  | unsupported _ _ _ | stale _ _ => none

/-- The refusal in words. -/
def message (r : Refusal) : String :=
  match r, r.fault? with
  | unsupported kind property reason, _ =>
    s!"`{kind.name}.{property.name}` is unsupported: {reason.message}"
  | stale built current, _ =>
    s!"index was built at stamp {built} but the tree is at stamp {current}"
  | _, some fault => s!"invalid argument: {fault}"
  | _, none => ""

end Refusal

/-- Where a broken store would show. -/
inductive Breach where
  /-- an index outside the arena -/
  | missingRecord (index : Nat)
  /-- a slot that is absent or not of its declared form -/
  | wrongSlot (index slot : Nat)
  /-- a node that is not in the list of its parent -/
  | lostElement (index : Nat)
  /-- a chain of parents or children longer than the arena -/
  | endless
  /-- an image without nodes -/
  | emptyImage
  /-- a number that names no tree, image or index of the session -/
  | unknownNumber (number : Nat)
  deriving DecidableEq, Repr

/-- The breach in words. -/
def Breach.message : Breach → String
  | missingRecord index => s!"no record at index {index}"
  | wrongSlot index slot => s!"slot {slot} of the record at index {index} is not of its declared form"
  | lostElement index => s!"the node at index {index} is missing from its parent list"
  | endless => "a chain of nodes does not end"
  | emptyImage => "an image holds no node"
  | unknownNumber number => s!"nothing is numbered {number}"

/-- Why a call does not answer. -/
inductive Failure where
  | refused (refusal : Refusal)
  /-- a reader was given a node of another tree -/
  | foreignRead (node : NodeId)
  /-- a span ends before it starts -/
  | invertedSpan
  /-- a word is none of its vocabulary -/
  | unknownToken
  /-- the node is not of the kind that a typed handle asks for -/
  | otherKind
  | broken (breach : Breach)
  deriving DecidableEq, Repr

/-- The failure in words. -/
def Failure.message : Failure → String
  | refused refusal => refusal.message
  | foreignRead node => s!"{node.text} belongs to another tree"
  | invertedSpan => "assertion failed: start.raw <= end.raw"
  | unknownToken => "no such token"
  | otherKind => "the node is of another kind"
  | broken breach => breach.message

/-- Fails with a refusal. -/
def refuse {α : Type} (r : Refusal) : Except Failure α := .error (.refused r)

/-- Fails with a breach. -/
def breach {α : Type} (b : Breach) : Except Failure α := .error (.broken b)

/-- Goes on only if the condition holds. -/
def unlessRefused (ok : Bool) (r : Refusal) : Except Failure Unit :=
  if ok then .ok () else refuse r

/-! ## What success says -/

variable {α β : Type} {ε : Type}

/-- A sequence of two steps succeeds exactly when both do. -/
theorem bind_eq_ok {x : Except ε α} {f : α → Except ε β} {b : β} :
    (x >>= f) = .ok b ↔ ∃ a, x = .ok a ∧ f a = .ok b := by
  cases x <;> simp [bind, Except.bind]

@[simp] theorem refuse_ne_ok {r : Refusal} {a : α} : (refuse r : Except Failure α) ≠ .ok a := by
  simp [refuse]

@[simp] theorem breach_ne_ok {b : Breach} {a : α} : (breach b : Except Failure α) ≠ .ok a := by
  simp [breach]

@[simp] theorem unlessRefused_eq_ok {ok : Bool} {r : Refusal} {u : Unit} :
    unlessRefused ok r = .ok u ↔ ok = true := by
  cases ok <;> simp [unlessRefused, refuse]

end SyntaxForest
