import SyntaxForest.Proofs.Subtree.Completion

/-!
# Proofs/Subtree/Trial — a comparison is a row of tests

Tests of scalars are made here and there in a comparison, between kinds that are compared, lists that are
measured and placeholders that stand in.  None of this depends on how a test comes out, but that the first "no"
ends it all.  So there is a row of tests and a verdict, found without making any test: **a comparison makes these
tests one after the other, up to the first "no", and comes to the verdict if there is none**, in whatever monad
they run.

* `Trial.Scripted` — a computation that is such a row, and the rules for these.
* `Comparison.scripted_run` — **every comparison is**.
-/

namespace SyntaxForest

/-! ## Tests in a row -/

namespace ScalarTest

variable {m : Type → Type} [Monad m] {same : Property → Scalar → Scalar → m Bool}

/-- Makes tests one after the other, up to the first that says no; if none does, the verdict is what is given. -/
def askAll (same : Property → Scalar → Scalar → m Bool) : List ScalarTest → (verdict : Bool) → m Bool
  | [], verdict => return verdict
  | x :: xs, verdict => do
    if ← same x.property x.left x.right then askAll same xs verdict else return false

variable [LawfulMonad m]

/-- After tests of which all say yes, others may be made. -/
theorem askAll_append (xs ys : List ScalarTest) (verdict : Bool) :
    askAll same (xs ++ ys) verdict =
      (do if ← askAll same xs true then askAll same ys verdict else return false) := by
  induction xs with
  | nil => simp [askAll]
  | cons x xs ih =>
    rw [List.cons_append, askAll, askAll, bind_assoc, ih]
    refine bind_congr fun answer => ?_
    cases answer <;> simp

/-- After a verdict of no, nothing is asked. -/
theorem askAll_false (xs : List ScalarTest) (y : m Bool) :
    (do if ← askAll same xs false then y else return false) = askAll same xs false := by
  induction xs with
  | nil => simp [askAll]
  | cons x xs ih =>
    rw [askAll, bind_assoc]
    refine bind_congr fun answer => ?_
    cases answer
    · simp
    · exact ih

/-- To answer what was answered is to do nothing more. -/
theorem bind_answer (x : m Bool) : (do if ← x then return true else return false) = x := by
  have hanswer : ∀ answer : Bool, (if answer then pure true else pure false) = (pure answer : m Bool) := by
    intro answer
    cases answer <;> rfl
  simp only [hanswer, bind_pure]

end ScalarTest

/-- What is done with a test of scalars, in whatever monad this runs. -/
abbrev Trial := ∀ (m : Type → Type) [Monad m], (Property → Scalar → Scalar → m Bool) → m Bool

namespace Trial

variable {x y : Trial}

/-- **All that is done is to make some tests in a row**, the same ones whatever the test. -/
def Scripted (x : Trial) : Prop :=
  ∃ (tests : List ScalarTest) (verdict : Bool), ∀ (m : Type → Type) [Monad m] [LawfulMonad m]
    (same : Property → Scalar → Scalar → m Bool), x m same = ScalarTest.askAll same tests verdict

theorem scripted_pure (verdict : Bool) : Scripted fun _ _ _ => pure verdict :=
  ⟨[], verdict, fun _ _ _ _ => rfl⟩

theorem scripted_test (p : Property) (a b : Scalar) : Scripted fun _ _ same => same p a b :=
  ⟨[⟨p, a, b⟩], true, fun _ _ _ same => (ScalarTest.bind_answer (same p a b)).symm⟩

/-- What follows is done only if the answer is yes. -/
theorem Scripted.and (hx : Scripted x) (hy : Scripted y) :
    Scripted fun m _ same => do if ← x m same then y m same else return false := by
  obtain ⟨xs, verdict, hx⟩ := hx
  cases verdict
  · refine ⟨xs, false, fun m _ _ same => ?_⟩
    simp only [hx]
    exact ScalarTest.askAll_false xs _
  · obtain ⟨ys, verdict, hy⟩ := hy
    refine ⟨xs ++ ys, verdict, fun m _ _ same => ?_⟩
    simp only [hx, hy]
    exact (ScalarTest.askAll_append xs ys verdict).symm

end Trial

namespace Comparison

open Trial

variable {left right : Shape} {l r : Face} {p : Property}

/-- The comparison of two sides. -/
def trial (left right : Shape) (l r : Face) : Trial := fun _ _ same => run ⟨left, right, same⟩ l r

/-! ## One property

Each rule takes for granted that the comparisons further down are rows of tests. -/

theorem scripted_runChildren {a b : Option Face}
    (h : ∀ x ∈ a, ∀ y ∈ b, (trial left right x y).Scripted) :
    Scripted fun _ _ same => runChildren ⟨left, right, same⟩ a b := by
  rcases a with _ | x <;> rcases b with _ | y
  · exact scripted_pure true
  · exact scripted_pure false
  · exact scripted_pure false
  · exact h x rfl y rfl

theorem scripted_runPairs {as bs : List Subtree}
    (h : ∀ a ∈ as, ∀ b ∈ bs, (trial left right (.real a) (.real b)).Scripted) :
    Scripted fun _ _ same => runPairs ⟨left, right, same⟩ as bs := by
  induction as generalizing bs with
  | nil =>
    simp only [runPairs]
    exact scripted_pure true
  | cons a as ih =>
    rcases bs with _ | ⟨b, bs⟩
    · simp only [runPairs]
      exact scripted_pure true
    · simp only [runPairs]
      exact (h a List.mem_cons_self b List.mem_cons_self).and
        (ih fun x hx y hy => h x (List.mem_cons_of_mem _ hx) y (List.mem_cons_of_mem _ hy))

theorem scripted_runLists {k : Kind} {slot : Nat} {as bs : List Subtree}
    (hpairs : ∀ a ∈ as, ∀ b ∈ bs, (trial left right (.real a) (.real b)).Scripted)
    (hleft : ∀ b ∈ bs, ∀ f ∈ k.soleFace? left slot, (trial left right f (.real b)).Scripted)
    (hright : ∀ a ∈ as, ∀ f ∈ k.soleFace? right slot, (trial left right (.real a) f).Scripted) :
    Scripted fun _ _ same => runLists ⟨left, right, same⟩ k slot as bs := by
  have hlong : Scripted fun _ _ same =>
      if as.length = bs.length then runPairs ⟨left, right, same⟩ as bs else return false := by
    by_cases hlength : as.length = bs.length
    · simp only [hlength, if_true]
      exact scripted_runPairs hpairs
    · simp only [hlength, if_false]
      exact scripted_pure false
  rcases as with _ | ⟨a, _ | ⟨a', as⟩⟩ <;> rcases bs with _ | ⟨b, _ | ⟨b', bs⟩⟩
  case nil.cons.nil =>
    simp only [runLists]
    rcases hf : k.soleFace? left slot with _ | f
    · exact scripted_pure false
    · exact hleft b List.mem_cons_self f hf
  case cons.nil.nil =>
    simp only [runLists]
    rcases hf : k.soleFace? right slot with _ | f
    · exact scripted_pure false
    · exact hright a List.mem_cons_self f hf
  all_goals exact hlong

theorem scripted_runSlot
    (h : ∀ a b : Face, a.weight + b.weight < l.weight + r.weight → (trial left right a b).Scripted) :
    Scripted fun _ _ same => runSlot ⟨left, right, same⟩ l r p := by
  rcases hp : p.form with ty | ty | ty
  · simp only [runSlot_scalar _ hp]
    exact scripted_test p _ _
  · simp only [runSlot_child _ hp]
    refine scripted_runChildren fun a ha b hb => h a b ?_
    exact Nat.add_lt_add (Face.weight_child ha) (Face.weight_child hb)
  · simp only [runSlot_list _ hp]
    refine scripted_runLists (fun a ha b hb => h _ _ ?_) (fun b hb f hf => h _ _ ?_)
      fun a ha f hf => h _ _ ?_
    · have := Face.weight_item ha
      have := Face.weight_item hb
      omega
    · have := Face.weight_item hb
      have := Kind.soleFace?_weight hf
      omega
    · have := Face.weight_item ha
      have := Kind.soleFace?_weight hf
      omega

theorem scripted_runSlots {ps : List Property}
    (h : ∀ p ∈ ps, Scripted fun _ _ same => runSlot ⟨left, right, same⟩ l r p) :
    Scripted fun _ _ same => runSlots ⟨left, right, same⟩ l r ps := by
  induction ps with
  | nil =>
    simp only [runSlots]
    exact scripted_pure true
  | cons p ps ih =>
    simp only [runSlots]
    exact (h p List.mem_cons_self).and (ih fun q hq => h q (List.mem_cons_of_mem _ hq))

/-! ## The whole comparison -/

section Run

variable {m : Type → Type} [Monad m] (c : Comparison m) {k : Kind}

/-- Sides of one kind are compared slot by slot. -/
theorem run_of_kind (hl : l.kind = k) (hr : r.kind = k) : c.run l r = c.runSlots l r k.storage := by
  rw [run, hl, hr, if_pos rfl]

/-- Names are compared by their identifiers, and nothing else. -/
theorem run_simpleName [LawfulMonad m] (hl : l.kind = .simpleName) (hr : r.kind = .simpleName) :
    c.run l r = c.sameScalar .simpleNameIdentifier (l.scalar .simpleNameIdentifier .identifier)
      (r.scalar .simpleNameIdentifier .identifier) := by
  rw [run_of_kind c hl hr]
  simp only [Kind.storage, runSlots, runSlot_scalar (p := .simpleNameIdentifier) c rfl, ScalarTest.bind_answer]

end Run

/-- **A comparison is a row of tests.** -/
theorem scripted_run (left right : Shape) (l r : Face) : (trial left right l r).Scripted := by
  -- as when the sides are exchanged, the induction is on what both weigh together
  induction hw : l.weight + r.weight using Nat.strongRecOn generalizing l r with
  | ind w ih =>
    unfold trial
    by_cases hkind : l.kind = r.kind
    · simp only [run_of_kind _ hkind rfl]
      exact scripted_runSlots fun p _ => scripted_runSlot fun a b h => ih _ (hw ▸ h) a b rfl
    · simp only [run, hkind, if_false]
      exact scripted_pure false

end Comparison

/-! ## What a test lets through -/

namespace ScalarTest

variable {accepts : Property → Scalar → Scalar → Bool}

/-- The outcome of one test. -/
def passes (accepts : Property → Scalar → Scalar → Bool) (x : ScalarTest) : Bool :=
  accepts x.property x.left x.right

/-- Tests up to the first that does not pass, and this one; all of them if all pass. -/
def upToNo (accepts : Property → Scalar → Scalar → Bool) (tests : List ScalarTest) : List ScalarTest :=
  tests.takeWhile (passes accepts) ++ (tests.dropWhile (passes accepts)).take 1

/-- Takes down a test, and makes it. -/
def noting (accepts : Property → Scalar → Scalar → Bool) (p : Property) (a b : Scalar) :
    StateM (Array ScalarTest) Bool := fun log => (accepts p a b, log.push ⟨p, a, b⟩)

theorem upToNo_cons (x : ScalarTest) (xs : List ScalarTest) :
    upToNo accepts (x :: xs) = x :: if passes accepts x then upToNo accepts xs else [] := by
  rw [upToNo, List.takeWhile_cons, List.dropWhile_cons]
  cases passes accepts x <;> rfl

theorem upToNo_of_all {tests : List ScalarTest} (h : tests.all (passes accepts) = true) :
    upToNo accepts tests = tests := by
  induction tests with
  | nil => rfl
  | cons x tests ih =>
    obtain ⟨hx, htests⟩ := Bool.and_eq_true_iff.1 (List.all_cons.symm.trans h)
    rw [upToNo_cons, if_pos hx, ih htests]

/-- **The verdict stands if all tests pass**, and those up to the first "no" are made. -/
theorem askAll_noting (tests : List ScalarTest) (verdict : Bool) (log : Array ScalarTest) :
    askAll (noting accepts) tests verdict log =
      (verdict && tests.all (passes accepts), log ++ (upToNo accepts tests).toArray) := by
  induction tests generalizing log with
  | nil => rw [List.all_nil, Bool.and_true]; rfl
  | cons x tests ih =>
    have hfirst : askAll (noting accepts) (x :: tests) verdict log =
        (if passes accepts x then askAll (noting accepts) tests verdict else pure false) (log.push x) := rfl
    rw [hfirst, upToNo_cons, List.all_cons]
    cases passes accepts x
    · change (false, log.push x) = _
      simp
    · rw [if_pos rfl, ih]
      simp

/-- …and nothing else comes of it if they are not taken down. -/
theorem askAll_pure (tests : List ScalarTest) (verdict : Bool) :
    askAll (fun p a b => (pure (accepts p a b) : Id Bool)) tests verdict =
      (verdict && tests.all (passes accepts)) := by
  induction tests with
  | nil => rw [List.all_nil, Bool.and_true]; rfl
  | cons x tests ih =>
    rw [askAll, pure_bind, List.all_cons, ih, passes]
    cases accepts x.property x.left x.right
    · exact (Bool.and_false verdict).symm
    · rfl

end ScalarTest

end SyntaxForest
