import SyntaxForest.Edit.Graft
import SyntaxForest.Subtree.Locator
import SyntaxForest.Typed.Handle

/-!
# Session/Basic — several trees side by side

A `Session` holds trees, numbered in the order in which they were made, and the images and locators taken of
them, numbered in the order in which they were taken.  A session changes by actions on one of its trees at a
time (`Session.act`).  The number of a tree says where the session has it; the nodes name it by its id.
-/

namespace SyntaxForest

/-- Trees, with the images and locators taken of them. -/
structure Session where
  trees : Array Tree
  images : Array Image
  locators : Array Locator
  deriving DecidableEq, Repr

/-- A change of a session that may fail on the way. -/
abbrev SessionM (α : Type) := EStateM Failure Session α

namespace Session

/-- Fresh trees, numbered from 0 in the order in which they were made. -/
def start (configs : List Config) : Session :=
  ⟨(configs.zipIdx.map fun (config, number) => Tree.start (Tree.idOf number) config).toArray, #[], #[]⟩

/-- What a number stands for. -/
def numbered {α : Type} (items : Array α) (number : Nat) : Except Failure α :=
  match items[number]? with
  | some item => .ok item
  | none => breach (.unknownNumber number)

/-- The tree with a number. -/
def tree (s : Session) (number : Nat) : Except Failure Tree := numbered s.trees number

/-- The image with a number. -/
def image (s : Session) (number : Nat) : Except Failure Image := numbered s.images number

/-- The locator with a number. -/
def locator (s : Session) (number : Nat) : Except Failure Locator := numbered s.locators number

/-- A node as one of kind `k`, by the word of the first tree with the id that it names. -/
def typed (s : Session) (k : Kind) (n : NodeId) : Except Failure (Typed k) := do
  Typed.cast k (← s.tree n.tree) n

variable {α : Type}

/-- Reads something off the session. -/
def look (f : Session → Except Failure α) : SessionM α := fun s =>
  match f s with
  | .ok a => .ok a s
  | .error e => .error e s

/-- Runs an action on the tree with a number. -/
def act (number : Nat) (a : TreeM α) : SessionM α := fun s =>
  match s.tree number with
  | .error e => .error e s
  | .ok t =>
    match a t with
    | .ok x t => .ok x { s with trees := s.trees.setIfInBounds number t }
    | .error e t => .error e { s with trees := s.trees.setIfInBounds number t }

end Session

end SyntaxForest
