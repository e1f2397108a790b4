import SyntaxForest.Edit.Scalar
import SyntaxForest.Edit.Sequence

/-!
# Edit/Reflection — any property by the same two calls

`NodeId.value` reads and `NodeId.setValue` writes whatever a property holds.  Reading a single child
makes placeholders as `NodeId.child` does; lists can be read but not assigned.

* `Tree.peekValue` — the reading that makes nothing.
-/

namespace SyntaxForest

/-- What a property holds, seen from outside: a scalar, at most one child, or a list of children. -/
abbrev Value := Slot NodeId

/-- What a property holds, without making a placeholder. -/
def Tree.peekValue (t : Tree) (n : NodeId) (p : Property) : Except Failure Value :=
  match p.form with
  | .scalar _ => do return .scalar (← t.scalar n p)
  | .child _ => do return .child (← t.peekChild n p)
  | .list _ => do return .list (← t.elements (← t.sequence n p))

namespace NodeId

open TreeM

/-- What a property holds. -/
def value (n : NodeId) (p : Property) : TreeM Value :=
  match p.form with
  | .scalar _ => do return .scalar (← look (·.scalar n p))
  | .child _ => do return .child (← n.child p)
  | .list _ => do
    let s ← look (·.sequence n p)
    return .list (← look (·.elements s))

/-- Replaces what a scalar or single-child property holds. -/
def setValue (n : NodeId) (p : Property) (v : Value) : TreeM Unit := do
  look (·.checkProperty n p)
  match p.form, v with
  | .list _, _ => look fun _ => refuse (.unsupported p.owner p .listAssignment)
  | .scalar _, .scalar v => n.setScalar p v
  | .child _, .child (some c) => n.setChild p c
  | .child _, .child none => discard (n.clearChild p)
  | .scalar _, _ => look fun _ => refuse (.wrongForm p .scalar)
  | .child _, _ => look fun _ => refuse (.wrongForm p .singleChild)

/-- What each property on offer of a node holds, in the order of the grammar.  A property that cannot
be read leaves its failure and does not stop the others. -/
def values (n : NodeId) : TreeM (List (Property × Except Failure Value)) := do
  let kind ← look (·.kind n)
  let shape := (← get).shape
  (kind.properties shape).mapM fun p t =>
    match n.value p t with
    | .ok v t => .ok (p, .ok v) t
    | .error e t => .ok (p, .error e) t

end NodeId

end SyntaxForest
