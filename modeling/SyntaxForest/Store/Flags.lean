/-!
# Store/Flags — what is marked on a node

Four independent marks.  Sets of marks have union, difference and inclusion; `Flags.text` lists the
marks present in a fixed order.

* `Flags.contains_antisymm` — sets that contain each other are equal.
* `Flags.ofNames?_names` — a set is read back from its names.
-/

namespace SyntaxForest

/-- A set of marks on a node. -/
structure Flags where
  /-- the node stands for text that is not well formed -/
  malformed : Bool := false
  /-- the node was there from the start -/
  initial : Bool := false
  /-- the node may not be changed or moved -/
  protect : Bool := false
  /-- the node was recovered from damaged text -/
  recovered : Bool := false
  deriving DecidableEq, Repr, Inhabited

namespace Flags

/-- No mark. -/
def empty : Flags := {}

/-- The single marks, in the order in which they are shown. -/
def named : List (String × Flags) :=
  [("MALFORMED", { malformed := true }), ("ORIGINAL", { initial := true }),
    ("PROTECT", { protect := true }), ("RECOVERED", { recovered := true })]

/-- The marks of either set. -/
def union (a b : Flags) : Flags :=
  ⟨a.malformed || b.malformed, a.initial || b.initial, a.protect || b.protect,
    a.recovered || b.recovered⟩

/-- The marks of the first set that the second lacks. -/
def difference (a b : Flags) : Flags :=
  ⟨a.malformed && !b.malformed, a.initial && !b.initial, a.protect && !b.protect,
    a.recovered && !b.recovered⟩

/-- Whether the first set has every mark of the second. -/
def contains (a b : Flags) : Bool := a.union b = a

/-- Whether no mark is set. -/
def isEmpty (a : Flags) : Bool := a = empty

/-- The union of the marks with the given names; `none` if a name is unknown. -/
def ofNames? (names : List String) : Option Flags :=
  names.foldlM (fun flags name => (named.lookup name).map flags.union) empty

/-- The names of the marks present. -/
def names (a : Flags) : List String :=
  (named.filter fun (_, mark) => a.contains mark).map Prod.fst

/-- The marks present, between braces. -/
def text (a : Flags) : String := "\x7b" ++ ", ".intercalate a.names ++ "\x7d"

theorem contains_refl (a : Flags) : a.contains a = true := by
  simp [contains, union]

theorem union_comm (a b : Flags) : a.union b = b.union a := by
  simp [union, Bool.or_comm]

theorem contains_iff {a b : Flags} : a.contains b = true ↔ a.union b = a := by
  simp [contains]

theorem contains_antisymm {a b : Flags} (h : a.contains b = true) (h' : b.contains a = true) :
    a = b := by
  rw [contains_iff] at h h'
  rw [← h, union_comm, h']

theorem ofNames?_names (a : Flags) : ofNames? a.names = some a := by
  rcases a with ⟨_ | _, _ | _, _ | _, _ | _⟩ <;> decide

end Flags

end SyntaxForest
