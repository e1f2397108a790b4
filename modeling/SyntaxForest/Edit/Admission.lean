import SyntaxForest.Store.Reading

/-!
# Edit/Admission — what an edit asks before it changes anything

The questions are asked in a fixed order, and the first "no" is the answer: whose node it is, whether
the property is one of its kind, whether the shape of the tree reads the slot; then the form of the
property, whether the node may change, and whether the child may come under it.

* `Tree.checkProperty_eq_ok` — exactly when a property may be used on a node.
* `Tree.checkAttachable` — the questions about a child, in order: its tree, its kind, its protection,
  its parent, and whether it is an ancestor of its parent to be.
-/

namespace SyntaxForest

/-- The type of child that a single-child property declares. -/
def Property.childType (p : Property) : Except Failure ChildType :=
  match p.form with
  | .child ty => .ok ty
  | _ => refuse (.wrongForm p .singleChild)

/-- The type of element that a list property declares. -/
def Property.elementType (p : Property) : Except Failure ChildType :=
  match p.form with
  | .list ty => .ok ty
  | _ => refuse (.wrongForm p .list)

/-- The type of scalar that a scalar property declares. -/
def Property.scalarType (p : Property) : Except Failure ScalarType :=
  match p.form with
  | .scalar ty => .ok ty
  | _ => refuse (.wrongForm p .scalar)

namespace Tree

/-- The property must be one of the node's kind, and its slot one that the shape of the tree reads. -/
def checkProperty (t : Tree) (n : NodeId) (p : Property) : Except Failure Unit := do
  t.own n
  let r ← t.record n.index
  unlessRefused (p.owner = r.kind) (.notAProperty r.kind p)
  unlessRefused (r.kind.slotIsLive t.shape p.slot) (.unsupported r.kind p (.notInShape t.shape))

/-- The node must not be protected. -/
def checkModifiable (t : Tree) (n : NodeId) : Except Failure Unit := do
  unlessRefused (!(← t.look n).flags.protect) .protectedNode

/-- The child must be a free node of this tree, of the declared type and not protected, and no ancestor
of the node it comes under. -/
def checkAttachable (t : Tree) (n : NodeId) (p : Property) (ty : ChildType) (c : NodeId) :
    Except Failure Unit := do
  t.own c
  let r ← t.record c.index
  unlessRefused (r.kind.conformsTo ty) (.typeMismatch ty r.kind)
  unlessRefused (!r.flags.protect) .protectedNode
  unlessRefused r.location.isNone .alreadyParented
  if p.cycleRisk then
    unlessRefused (!(← t.ancestors n).contains c) .cycle

/-- The child that a single-child property holds at present. -/
def currentChild (t : Tree) (n : NodeId) (p : Property) : Except Failure (Option Nat) := do
  let r ← t.look n
  match r.slots[p.slot]?, p.isSoleElementView with
  | some (.child c), false => return c
  | some (.list []), true => return none
  | some (.list [c]), true => return some c
  | some (.list cs), true => refuse (.unsupported r.kind p (.multipleElements cs.length))
  | _, _ => breach (.wrongSlot n.index p.slot)

/-- The elements that a list slot holds at present. -/
def currentItems (t : Tree) (n : NodeId) (slot : Nat) : Except Failure (List Nat) := do
  match (← t.look n).slots[slot]? with
  | some (.list cs) => return cs
  | _ => breach (.wrongSlot n.index slot)

theorem checkProperty_eq_ok {t : Tree} {n : NodeId} {p : Property} :
    t.checkProperty n p = .ok () ↔
      n.tree = t.id ∧ ∃ r, t.records[n.index]? = some r ∧ p.owner = r.kind ∧
        r.kind.slotIsLive t.shape p.slot = true := by
  unfold checkProperty
  simp only [bind_eq_ok, own_eq_ok, record_eq_ok, unlessRefused_eq_ok, decide_eq_true_eq]
  constructor
  · rintro ⟨⟨⟩, ho, r, hr, ⟨⟩, hk, hl⟩
    exact ⟨ho, r, hr, hk, hl⟩
  · rintro ⟨ho, r, hr, hk, hl⟩
    exact ⟨(), ho, r, hr, (), hk, hl⟩

end Tree

end SyntaxForest
