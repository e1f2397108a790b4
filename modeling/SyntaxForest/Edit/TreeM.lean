import SyntaxForest.Store.Reading

/-!
# Edit/TreeM — changes of one tree

A `TreeM` runs on a tree and ends in a value or a failure, with a tree in either case: what an action
has done before it fails stays done.  That a refused edit leaves its tree alone is therefore a fact
about the edits, not about the type.

The writes below are the only ones: a record is amended, a slot is overwritten, a fresh record is
appended, the stamp goes up, the observer is told or replaced.

* `TreeM.look_run_ok`, `TreeM.look_run_error` — looking leaves the tree as it is.
* `TreeM.amend_run` — a write to a record that is there, as one step.
-/

namespace SyntaxForest

/-- A change of a tree that may fail on the way. -/
abbrev TreeM (α : Type) := EStateM Failure Tree α

namespace TreeM

variable {α : Type}

/-- Reads something off the tree. -/
def look (f : Tree → Except Failure α) : TreeM α := fun t =>
  match f t with
  | .ok a => .ok a t
  | .error e => .error e t

/-- Tells the observer. -/
def tell (phase : Phase) (event : Event) : TreeM Unit := fun t => .ok () (t.tell phase event)

/-- Replaces the observer, and answers whether there was one. -/
def observe (observer : Option Observer) : TreeM Bool := fun t =>
  .ok t.observer.isSome { t with observer }

/-- Counts one change. -/
def touch : TreeM Unit := fun t => .ok () { t with stamp := t.stamp + 1 }

/-- Changes the record at an index. -/
def amend (index : Nat) (f : Record → Record) : TreeM Unit := fun t =>
  if index < t.records.size then .ok () { t with records := t.records.modify index f }
  else .error (.broken (.missingRecord index)) t

/-- Appends a record and returns its handle. -/
def append (r : Record) : TreeM NodeId := fun t =>
  .ok (t.handle t.size) { t with records := t.records.push r }

/-- Creates a detached node: every scalar at its default, every child unset, every list empty. -/
def create (kind : Kind) : TreeM NodeId := fun t =>
  append (.fresh kind t.config.defaultFlags) t

/-- Overwrites a slot. -/
def writeSlot (index slot : Nat) (content : Slot Nat) : TreeM Unit := do
  let r ← look (·.record index)
  if slot < r.slots.length then
    amend index fun r => { r with slots := r.slots.set slot content }
  else
    throw (.broken (.wrongSlot index slot))

/-- Forgets where a node is attached. -/
def unlink (index : Nat) : TreeM Unit := amend index fun r => { r with location := none }

/-- Files a node under the property that owns the slot of its new parent. -/
def link (index parent : Nat) (p : Property) : TreeM Unit :=
  amend index fun r => { r with location := some ⟨parent, p.primary⟩ }

theorem look_run_ok {f : Tree → Except Failure α} {t : Tree} {a : α} (h : f t = .ok a) :
    look f t = .ok a t := by
  simp [look, h]

theorem look_run_error {f : Tree → Except Failure α} {t : Tree} {e : Failure}
    (h : f t = .error e) : look f t = .error e t := by
  simp [look, h]

theorem amend_run {index : Nat} {f : Record → Record} {t : Tree} (h : index < t.records.size) :
    amend index f t = .ok () { t with records := t.records.modify index f } := by
  simp [amend, h]

end TreeM

end SyntaxForest
