import SyntaxForest.Subtree.Basic

/-!
# Subtree/Comparison — whether two subtrees say the same

Two subtrees match when their kinds agree, their scalars pass a test, and their children match in
order.  Nothing is made for the sake of a comparison: what an unset mandatory child *would* become is
stood for by a `Face.fresh` node, and an empty list that one side's shape reads as a single child
stands for its placeholder when the other side holds one element.

The test of scalars runs in a monad of the caller's choice, from left to right, and **the first "no"
ends the comparison**.

* `Face.weight_child`, `Face.weight_items` — going down makes a side lighter, so a comparison ends.
* `Tree.compare` — the comparison of two nodes; `Tree.agree` — with equality of scalars.
-/

namespace SyntaxForest

/-- One side of a comparison: a node that is there, or a placeholder that might be. -/
inductive Face where
  | real (tree : Subtree)
  | fresh (kind : Kind)

namespace Face

/-- The kind of the node on this side. -/
def kind : Face → Kind
  | real s => s.head.kind
  | fresh k => k

/-- The scalar of a property of the declared type. -/
def scalar (f : Face) (p : Property) (ty : ScalarType) : Scalar :=
  match f with
  | real s => (s.slots[p.slot]?.bind Slot.scalar?).getD ty.default
  | fresh _ => ty.default

/-- The child of a property: the one that is there, or else the placeholder of the property. -/
def child (f : Face) (p : Property) : Option Face :=
  match f with
  | real s =>
    match s.slots[p.slot]? with
    | some (.child (some c)) => some (.real c)
    | _ => p.placeholder.map .fresh
  | fresh k => if p.owner = k then p.placeholder.map .fresh else none

/-- The elements of a list slot. -/
def items (f : Face) (slot : Nat) : List Subtree :=
  match f with
  | real s =>
    match s.slots[slot]? with
    | some (.list cs) => cs
    | _ => []
  | fresh _ => []

/-- How much there is below a side: the nodes that are there, and the placeholders that could be. -/
def weight : Face → Nat
  | real s => 4 * s.size
  | fresh k => 1 + k.rank

theorem weight_pos (f : Face) : 0 < f.weight := by
  rcases f with s | k
  · have := s.size_pos
    simp only [weight]
    omega
  · simp only [weight]
    omega

theorem weight_fresh_le (k : Kind) : (fresh k).weight ≤ 3 := by
  have := k.rank_le
  simp only [weight]
  omega

/-- **Going to a child makes a side lighter.** -/
theorem weight_child {f c : Face} {p : Property} (h : f.child p = some c) :
    c.weight < f.weight := by
  rcases f with s | k
  · simp only [child] at h
    split at h
    · next d hd =>
      cases h
      have := Subtree.total_size_lt (List.mem_of_getElem? hd)
      simp only [Slot.members, Option.toList_some, List.map_cons, List.map_nil, total_cons,
        total_nil] at this
      simp only [weight]
      omega
    · obtain ⟨k, -, rfl⟩ := Option.map_eq_some_iff.1 h
      have := weight_fresh_le k
      have := s.size_pos
      simp only [weight] at *
      omega
  · simp only [child] at h
    split at h
    · next ho =>
      obtain ⟨k', hk, rfl⟩ := Option.map_eq_some_iff.1 h
      have := Property.rank_placeholder hk
      simp only [weight]
      rw [ho] at this
      omega
    · cases h

/-- What a row of subtrees weighs. -/
def weightAll (ss : List Subtree) : Nat := 4 * total (ss.map Subtree.size)

theorem weightAll_cons (s : Subtree) (ss : List Subtree) :
    weightAll (s :: ss) = (real s).weight + weightAll ss := by
  simp only [weightAll, weight, List.map_cons, total_cons]
  omega

/-- **Going to a list makes a side lighter**, by more than any placeholder weighs if the side is
there. -/
theorem weight_items (f : Face) (slot : Nat) : weightAll (f.items slot) < f.weight := by
  rcases f with s | k
  · simp only [items]
    split
    · next cs hcs =>
      have := Subtree.total_size_lt (List.mem_of_getElem? hcs)
      simp only [Slot.members] at this
      simp only [weightAll, weight]
      omega
    · exact weight_pos _
  · exact weight_pos _

/-- An element of a list is lighter than its node, by more than any placeholder weighs. -/
theorem weight_items_cons {f : Face} {slot : Nat} {s : Subtree} {ss : List Subtree}
    (h : f.items slot = s :: ss) : (real s).weight + 3 < f.weight := by
  rcases f with u | k
  · have hlt := weight_items (real u) slot
    rw [h, weightAll_cons] at hlt
    simp only [weight, weightAll] at hlt ⊢
    omega
  · cases h

end Face

/-- How a comparison is made: the shape of each side, and the test that two scalars of a property have
to pass. -/
structure Comparison (m : Type → Type) where
  leftShape : Shape
  rightShape : Shape
  sameScalar : Property → Scalar → Scalar → m Bool

/-- What an empty list slot stands for where the shape reads it as a single child. -/
def Kind.soleFace? (shape : Shape) (k : Kind) (slot : Nat) : Option Face :=
  match k.liveProperty? shape slot with
  | some p => if p.isSoleElementView then p.placeholder.map .fresh else none
  | none => none

theorem Kind.soleFace?_weight {shape : Shape} {k : Kind} {slot : Nat} {f : Face}
    (h : k.soleFace? shape slot = some f) : f.weight ≤ 3 := by
  unfold soleFace? at h
  split at h
  · split at h
    · obtain ⟨k', -, rfl⟩ := Option.map_eq_some_iff.1 h
      exact Face.weight_fresh_le k'
    · cases h
  · cases h

namespace Comparison

variable {m : Type → Type} [Monad m] (c : Comparison m)

-- The equations named in the matches below are used in the proofs that the comparison ends.
set_option linter.unusedVariables false in
mutual

/-- Whether two sides match: first their kinds, then their slots. -/
def run (l r : Face) : m Bool :=
  if l.kind = r.kind then runSlots l r l.kind.storage else return false
  termination_by (l.weight + r.weight, 1, 0)

/-- Whether two sides agree on a row of properties, from left to right. -/
def runSlots (l r : Face) : List Property → m Bool
  | [] => return true
  | p :: ps => do
    if ← runSlot l r p then runSlots l r ps else return false
  termination_by ps => (l.weight + r.weight, 0, 2 * ps.length)

/-- Whether two sides agree on one property. -/
def runSlot (l r : Face) (p : Property) : m Bool :=
  match p.form with
  | .scalar ty => c.sameScalar p (l.scalar p ty) (r.scalar p ty)
  | .child _ =>
    match hl : l.child p, hr : r.child p with
    | none, none => return true
    | some a, some b => run a b
    | _, _ => return false
  | .list _ =>
    match hl : l.items p.slot, hr : r.items p.slot with
    | [], [b] =>
      match hf : l.kind.soleFace? c.leftShape p.slot with
      | some f => run f (.real b)
      | none => return false
    | [a], [] =>
      match hf : l.kind.soleFace? c.rightShape p.slot with
      | some f => run (.real a) f
      | none => return false
    | as, bs => if as.length = bs.length then runPairs as bs else return false
  termination_by (l.weight + r.weight, 0, 1)
  decreasing_by
    · have := Face.weight_child hl
      have := Face.weight_child hr
      exact Prod.Lex.left _ _ (by omega)
    · have := Face.weight_items_cons hr
      have := Kind.soleFace?_weight hf
      have := l.weight_pos
      exact Prod.Lex.left _ _ (by omega)
    · have := Face.weight_items_cons hl
      have := Kind.soleFace?_weight hf
      have := r.weight_pos
      exact Prod.Lex.left _ _ (by omega)
    · have := Face.weight_items l p.slot
      have := Face.weight_items r p.slot
      rw [hl] at *
      rw [hr] at *
      exact Prod.Lex.left _ _ (by omega)

/-- Whether the elements of two lists of one length match pair by pair. -/
def runPairs : (as bs : List Subtree) → m Bool
  | a :: as, b :: bs => do
    if ← run (.real a) (.real b) then runPairs as bs else return false
  | _, _ => return true
  termination_by as bs => (Face.weightAll as + Face.weightAll bs, 2, 0)
  decreasing_by
    · rw [Face.weightAll_cons, Face.weightAll_cons]
      rcases Nat.eq_zero_or_pos (Face.weightAll as + Face.weightAll bs) with h | h
      · have e : (Face.real a).weight + Face.weightAll as + ((Face.real b).weight + Face.weightAll bs) =
            (Face.real a).weight + (Face.real b).weight := by omega
        rw [e]
        exact Prod.Lex.right _ (Prod.Lex.left _ _ (by omega))
      · exact Prod.Lex.left _ _ (by omega)
    · have := (Face.real a).weight_pos
      rw [Face.weightAll_cons, Face.weightAll_cons]
      exact Prod.Lex.left _ _ (by omega)

end

end Comparison

/-! ## Comparing nodes of trees -/

namespace Tree

variable {m : Type → Type} [Monad m]

/-- The comparison of two nodes under a test of scalars.  The nodes may be of different trees. -/
def compare (t : Tree) (n : NodeId) (u : Tree) (k : NodeId)
    (sameScalar : Property → Scalar → Scalar → m Bool) : Except Failure (m Bool) := do
  let l ← t.subtree n
  let r ← u.subtree k
  return Comparison.run ⟨t.shape, u.shape, sameScalar⟩ (.real l) (.real r)

/-- Whether two nodes are structurally equal: kinds, scalars and children in order, whatever the handles,
ranges and marks. -/
def agree (t : Tree) (n : NodeId) (u : Tree) (k : NodeId) : Except Failure Bool := do
  let verdict : Id Bool ← t.compare n u k fun _ a b => pure (a == b)
  return verdict.run

end Tree

/-- One test of two scalars. -/
structure ScalarTest where
  property : Property
  left : Scalar
  right : Scalar
  deriving DecidableEq, Repr

/-- Compares two nodes by equality of scalars, except that the ignored properties always pass, and
takes down every test that is made. -/
def Tree.compareIgnoring (t : Tree) (n : NodeId) (u : Tree) (k : NodeId) (ignored : List Property) :
    Except Failure (Bool × List ScalarTest) := do
  let verdict : StateM (Array ScalarTest) Bool ← t.compare n u k fun p a b => do
    modify (·.push ⟨p, a, b⟩)
    return ignored.contains p || a == b
  let (same, tests) := verdict.run #[]
  return (same, tests.toList)

end SyntaxForest
