import SyntaxForest.Edit.Scalar
import SyntaxForest.Edit.Sequence

/-!
# Edit/Blueprint — building subtrees from a description

A `Blueprint` describes a node to be made with all that hangs below it; parts of it may be nodes that
are there already.  A parent is made before its children, each part is attached once it is built, and
marks come last, so a protected node can still be filled.  What has been built stays if a later part
fails.

* `NodeId.chain` — a chain of nodes of one kind, each below the one before.
-/

namespace SyntaxForest

/-- A scalar as it is written. -/
inductive ScalarWord where
  | symbol (text : String)
  | prefixOp (token : String)
  | postfixOp (token : String)
  | primitive (token : String)
  deriving DecidableEq, Repr

/-- The scalar that is written, if its word is one of the vocabulary. -/
def ScalarWord.read : ScalarWord → Except Failure Scalar
  | symbol text => .ok (.symbol text)
  | prefixOp token => word Scalar.prefixOp (PrefixOp.ofToken? token)
  | postfixOp token => word Scalar.postfixOp (PostfixOp.ofToken? token)
  | primitive token => word Scalar.primitive (PrimitiveCode.ofToken? token)
where
  /-- A word of a vocabulary as a scalar. -/
  word {α : Type} (f : α → Scalar) : Option α → Except Failure Scalar
    | some a => .ok (f a)
    | none => .error .unknownToken

/-- The span with the given bounds; bounds in the wrong order are a failure. -/
def Span.ofBounds (start stop : Nat) : Except Failure Span :=
  match ofBounds? start stop with
  | some span => .ok span
  | none => .error .invertedSpan

mutual

/-- A description of a node and what hangs below it. -/
inductive Blueprint where
  | existing (node : NodeId)
  | fresh (kind : Kind) (bounds : Option (Nat × Nat)) (parts : List Part) (flags : Option Flags)

/-- A description of what a property is to hold. -/
inductive Part where
  | scalar (property : Property) (word : ScalarWord)
  | child (property : Property) (content : Blueprint)
  | list (property : Property) (content : List Blueprint)

end

open TreeM

mutual

/-- Builds what is described and returns its root. -/
def Blueprint.build : Blueprint → TreeM NodeId
  | .existing n => return n
  | .fresh kind bounds parts flags => do
    let n ← create kind
    if let some (start, stop) := bounds then
      n.setRange (← look fun _ => Span.ofBounds start stop)
    Part.buildAll n parts
    if let some flags := flags then
      n.setFlags flags
    return n

/-- Builds each of a row of descriptions. -/
def Blueprint.buildAll : List Blueprint → TreeM (List NodeId)
  | [] => return []
  | b :: bs => do
    let n ← b.build
    return n :: (← Blueprint.buildAll bs)

/-- Builds what a property is to hold and puts it there. -/
def Part.build (n : NodeId) : Part → TreeM Unit
  | .scalar p word => do n.setScalar p (← look fun _ => word.read)
  | .child p content => do n.setChild p (← content.build)
  | .list p content => do
    let cs ← Blueprint.buildAll content
    (← look (·.sequence n p)).extend cs

/-- Builds what each of a row of properties is to hold. -/
def Part.buildAll (n : NodeId) : List Part → TreeM Unit
  | [] => return
  | part :: parts => do
    part.build n
    Part.buildAll n parts

end

namespace NodeId

/-- Attaches `c` under a property: as the last element of a list, or as the only child. -/
def attach (n : NodeId) (p : Property) (c : NodeId) : TreeM Unit := do
  match p.form with
  | .list _ => (← look (·.sequence n p)).push c
  | _ => n.setChild p c

/-- Makes so many nodes of the property's kind, each below the one before, the first below `n`; returns
the last. -/
def chain (n : NodeId) (p : Property) : (count : Nat) → TreeM NodeId
  | 0 => return n
  | count + 1 => do
    let c ← create p.owner
    n.attach p c
    c.chain p count

end NodeId

/-- Makes a chain of the given depth from a new root, and returns both its ends. -/
def Property.chain (p : Property) (depth : Nat) : TreeM (NodeId × NodeId) := do
  let first ← create p.owner
  return (first, ← first.chain p (depth - 1))

end SyntaxForest
