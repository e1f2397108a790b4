import SyntaxForest.Proofs.Subtree.Completion

/-!
# Proofs/Subtree/Flip — a comparison from the other side

A comparison is written from one side: where two lists differ in length, it asks the left shape what an
empty left list stands for, and the right shape about an empty right one.  **Made from the other side it
is the same computation** (`Comparison.flip_run`), whatever the shapes and whatever monad the test runs in:
it makes the same tests in the same order.

The recursion of the comparison is not on either side alone, so the induction is on what both weigh.
-/

namespace SyntaxForest

namespace Comparison

variable {m : Type → Type} [Monad m] (c : Comparison m) {l r : Face} {p : Property}

/-- The comparison that has its sides exchanged. -/
def flip : Comparison m where
  leftShape := c.rightShape
  rightShape := c.leftShape
  sameScalar p a b := c.sameScalar p b a

/-! ## One property

Each rule takes for granted that the sides further down have been exchanged. -/

theorem flip_runChildren {a b : Option Face}
    (h : ∀ x ∈ a, ∀ y ∈ b, c.flip.run y x = c.run x y) :
    c.flip.runChildren b a = c.runChildren a b := by
  rcases a with _ | x <;> rcases b with _ | y
  · rfl
  · rfl
  · rfl
  · exact h x rfl y rfl

theorem flip_runPairs {as bs : List Subtree}
    (h : ∀ a ∈ as, ∀ b ∈ bs, c.flip.run (.real b) (.real a) = c.run (.real a) (.real b)) :
    c.flip.runPairs bs as = c.runPairs as bs := by
  induction as generalizing bs with
  | nil => cases bs <;> simp [runPairs]
  | cons a as ih =>
    rcases bs with _ | ⟨b, bs⟩
    · simp [runPairs]
    · rw [runPairs, runPairs, h a List.mem_cons_self b List.mem_cons_self]
      rw [ih fun x hx y hy => h x (List.mem_cons_of_mem _ hx) y (List.mem_cons_of_mem _ hy)]

/-- The shape that is asked about an empty list goes over to the other side with the list. -/
theorem flip_runLists {k : Kind} {slot : Nat} {as bs : List Subtree}
    (hpairs : ∀ a ∈ as, ∀ b ∈ bs, c.flip.run (.real b) (.real a) = c.run (.real a) (.real b))
    (hleft : ∀ b ∈ bs, ∀ f ∈ k.soleFace? c.leftShape slot,
      c.flip.run (.real b) f = c.run f (.real b))
    (hright : ∀ a ∈ as, ∀ f ∈ k.soleFace? c.rightShape slot,
      c.flip.run f (.real a) = c.run (.real a) f) :
    c.flip.runLists k slot bs as = c.runLists k slot as bs := by
  have hshapes : c.flip.leftShape = c.rightShape ∧ c.flip.rightShape = c.leftShape := ⟨rfl, rfl⟩
  have hlong : (if bs.length = as.length then c.flip.runPairs bs as else return false) =
      if as.length = bs.length then c.runPairs as bs else return false := by
    rw [flip_runPairs c hpairs]
    simp only [eq_comm]
  rcases as with _ | ⟨a, _ | ⟨a', as⟩⟩ <;> rcases bs with _ | ⟨b, _ | ⟨b', bs⟩⟩
  case nil.cons.nil =>
    simp only [runLists, hshapes]
    rcases hf : k.soleFace? c.leftShape slot with _ | f
    · rfl
    · exact hleft b List.mem_cons_self f hf
  case cons.nil.nil =>
    simp only [runLists, hshapes]
    rcases hf : k.soleFace? c.rightShape slot with _ | f
    · rfl
    · exact hright a List.mem_cons_self f hf
  all_goals exact hlong

theorem flip_runSlot (hkind : l.kind = r.kind)
    (h : ∀ a b : Face, a.weight + b.weight < l.weight + r.weight → c.flip.run b a = c.run a b) :
    c.flip.runSlot r l p = c.runSlot l r p := by
  rcases hp : p.form with ty | ty | ty
  · rw [runSlot_scalar _ hp, runSlot_scalar _ hp]
    rfl
  · rw [runSlot_child _ hp, runSlot_child _ hp]
    refine flip_runChildren c fun a ha b hb => h a b ?_
    exact Nat.add_lt_add (Face.weight_child ha) (Face.weight_child hb)
  · rw [runSlot_list _ hp, runSlot_list _ hp, ← hkind]
    refine flip_runLists c (fun a ha b hb => h _ _ ?_) (fun b hb f hf => h _ _ ?_)
      fun a ha f hf => h _ _ ?_
    · have := Face.weight_item ha
      have := Face.weight_item hb
      omega
    · have := Face.weight_item hb
      have := Kind.soleFace?_weight hf
      omega
    · have := Face.weight_item ha
      have := Kind.soleFace?_weight hf
      omega

theorem flip_runSlots {ps : List Property}
    (h : ∀ p ∈ ps, c.flip.runSlot r l p = c.runSlot l r p) :
    c.flip.runSlots r l ps = c.runSlots l r ps := by
  induction ps with
  | nil => rw [runSlots, runSlots]
  | cons p ps ih =>
    rw [runSlots, runSlots, h p List.mem_cons_self]
    rw [ih fun q hq => h q (List.mem_cons_of_mem _ hq)]

/-! ## The whole comparison -/

/-- **A comparison is the same computation from the other side.** -/
theorem flip_run (l r : Face) : c.flip.run r l = c.run l r := by
  -- every step goes to two sides that weigh less together, but one of them may weigh more
  induction hw : l.weight + r.weight using Nat.strongRecOn generalizing l r with
  | ind w ih =>
    rw [run, run]
    by_cases hkind : l.kind = r.kind
    · rw [if_pos hkind, if_pos hkind.symm, hkind]
      exact flip_runSlots c fun p _ => flip_runSlot c hkind fun a b h => ih _ (hw ▸ h) a b rfl
    · rw [if_neg hkind, if_neg (Ne.symm hkind)]

end Comparison

end SyntaxForest
