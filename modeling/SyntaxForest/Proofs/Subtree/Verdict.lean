import Mathlib.Data.List.Forall2
import SyntaxForest.Subtree.Comparison

/-!
# Proofs/Subtree/Verdict — when a comparison says yes

A comparison whose test keeps no state has a verdict for every pair of sides (`Comparison.Matches`), and
its order is of no account: **two sides match when their kinds agree and they match at every property**
(`Comparison.matches_iff`).  There is one rule for each form of a property.

* `Comparison.matchesAt_scalar` — scalars have to pass the test.
* `Comparison.matchesAt_child` — children have to match, or to be absent on both sides.
* `Comparison.matchesAt_list` — lists have to match element by element, unless one of them is empty and
  the other holds a single element: then the shape of the empty side is asked what it stands for.
-/

namespace SyntaxForest

namespace Comparison

/-! ## The rules, one for each form -/

section Rules

variable {m : Type → Type} [Monad m] (c : Comparison m) {l r : Face} {p : Property}

theorem runSlot_scalar {ty : ScalarType} (hp : p.form = .scalar ty) :
    c.runSlot l r p = c.sameScalar p (l.scalar p ty) (r.scalar p ty) := by
  rw [runSlot]
  simp only [hp]

/-- Whether two children that may be absent match. -/
def runChildren : Option Face → Option Face → m Bool
  | none, none => return true
  | some a, some b => c.run a b
  | _, _ => return false

theorem runSlot_child {ty : ChildType} (hp : p.form = .child ty) :
    c.runSlot l r p = c.runChildren (l.child p) (r.child p) := by
  rw [runSlot]
  simp only [hp]
  split <;> simp_all [runChildren]

/-- Whether two lists match, where an empty one beside a single element stands for what the shape of its
own side reads. -/
def runLists (k : Kind) (slot : Nat) : (as bs : List Subtree) → m Bool
  | [], [b] =>
    match k.soleFace? c.leftShape slot with
    | some f => c.run f (.real b)
    | none => return false
  | [a], [] =>
    match k.soleFace? c.rightShape slot with
    | some f => c.run (.real a) f
    | none => return false
  | as, bs => if as.length = bs.length then c.runPairs as bs else return false

theorem runSlot_list {ty : ChildType} (hp : p.form = .list ty) :
    c.runSlot l r p = c.runLists l.kind p.slot (l.items p.slot) (r.items p.slot) := by
  rw [runSlot]
  simp only [hp]
  split
  · next b hl hr =>
    rw [hl, hr, runLists]
    split <;> simp_all
  · next a hl hr =>
    rw [hl, hr, runLists]
    split <;> simp_all
  · rw [runLists] <;> assumption

end Rules

/-! ## Verdicts without a state -/

section Verdict

variable (c : Comparison Id) {l r : Face} {p : Property}

/-- The two sides match. -/
def Matches (l r : Face) : Prop := (c.run l r).run = true

/-- The two sides match as far as one property goes. -/
def MatchesAt (l r : Face) (p : Property) : Prop := (c.runSlot l r p).run = true

variable {c}

theorem runSlots_eq_true {ps : List Property} :
    (c.runSlots l r ps).run = true ↔ ∀ p ∈ ps, c.MatchesAt l r p := by
  induction ps with
  | nil => simp [runSlots]
  | cons p ps ih =>
    rw [runSlots, Id.run_bind, List.forall_mem_cons, ← ih, MatchesAt]
    cases (c.runSlot l r p).run <;> simp

theorem matches_iff :
    c.Matches l r ↔ l.kind = r.kind ∧ ∀ p ∈ l.kind.storage, c.MatchesAt l r p := by
  rw [Matches, run, ← runSlots_eq_true]
  split <;> simp_all

theorem matchesAt_scalar {ty : ScalarType} (hp : p.form = .scalar ty) :
    c.MatchesAt l r p ↔ (c.sameScalar p (l.scalar p ty) (r.scalar p ty)).run = true := by
  rw [MatchesAt, runSlot_scalar c hp]

theorem matchesAt_child {ty : ChildType} (hp : p.form = .child ty) :
    c.MatchesAt l r p ↔ Option.Rel c.Matches (l.child p) (r.child p) := by
  rw [MatchesAt, runSlot_child c hp]
  rcases l.child p with _ | a <;> rcases r.child p with _ | b <;>
    simp [runChildren, Matches, Option.rel_some_some]

theorem runPairs_eq_true {as bs : List Subtree} (h : as.length = bs.length) :
    (c.runPairs as bs).run = true ↔
      List.Forall₂ (fun a b => c.Matches (.real a) (.real b)) as bs := by
  induction as generalizing bs with
  | nil =>
    obtain rfl := List.length_eq_zero_iff.1 h.symm
    simp [runPairs]
  | cons a as ih =>
    obtain ⟨b, bs, rfl⟩ := List.exists_cons_of_length_eq_add_one h.symm
    rw [runPairs, Id.run_bind, List.forall₂_cons, ← ih (Nat.succ.inj h), Matches]
    cases (c.run (.real a) (.real b)).run <;> simp

theorem matchesAt_list {ty : ChildType} (hp : p.form = .list ty) :
    c.MatchesAt l r p ↔
      List.Forall₂ (fun a b => c.Matches (.real a) (.real b)) (l.items p.slot) (r.items p.slot) ∨
      (l.items p.slot = [] ∧ ∃ b, r.items p.slot = [b] ∧
        ∃ f, l.kind.soleFace? c.leftShape p.slot = some f ∧ c.Matches f (.real b)) ∨
      (r.items p.slot = [] ∧ ∃ a, l.items p.slot = [a] ∧
        ∃ f, l.kind.soleFace? c.rightShape p.slot = some f ∧ c.Matches (.real a) f) := by
  rw [MatchesAt, runSlot_list c hp]
  generalize l.items p.slot = as
  generalize r.items p.slot = bs
  rw [runLists.eq_def]
  split
  · next b => cases l.kind.soleFace? c.leftShape p.slot <;> simp [Matches]
  · next a => cases l.kind.soleFace? c.rightShape p.slot <;> simp [Matches]
  · next _ _ h h' =>
    have hleft : ¬(as = [] ∧ ∃ b, bs = [b] ∧
        ∃ f, l.kind.soleFace? c.leftShape p.slot = some f ∧ c.Matches f (.real b)) := by
      rintro ⟨rfl, b, rfl, -⟩
      exact h b rfl rfl
    have hright : ¬(bs = [] ∧ ∃ a, as = [a] ∧
        ∃ f, l.kind.soleFace? c.rightShape p.slot = some f ∧ c.Matches (.real a) f) := by
      rintro ⟨rfl, a, rfl, -⟩
      exact h' a rfl rfl
    rw [or_iff_left hright, or_iff_left hleft]
    split
    · next hlen => exact runPairs_eq_true hlen
    · next hlen => exact iff_of_false nofun fun hp => hlen hp.length_eq

end Verdict

end Comparison
end SyntaxForest
