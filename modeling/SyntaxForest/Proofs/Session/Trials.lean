import SyntaxForest.Proofs.Session.Copies
import SyntaxForest.Proofs.Subtree.Trial

/-!
# Proofs/Session/Trials — a test of scalars only filters

What two nodes have in common besides scalars is decided without any test.  A test may therefore be exchanged for
another one without a thought for where and when it is asked: the tests are the same, up to the first "no".

* `Tree.exists_askAll` — a comparison of two nodes that can be read is a row of tests.
* `Session.tests_filtered` — **what a test decides about a comparison**.
-/

namespace SyntaxForest

namespace Tree

variable {t u : Tree} {n k : NodeId} {T : Typing}

/-- Compares two nodes under a test of scalars that keeps no state, and takes down every test that is made. -/
def compareNoting (t : Tree) (n : NodeId) (u : Tree) (k : NodeId)
    (accepts : Property → Scalar → Scalar → Bool) : Except Failure (Bool × List ScalarTest) := do
  let r := (← t.compare n u k (ScalarTest.noting accepts)).run #[]
  return (r.1, r.2.toList)

/-- Equality but for some properties is such a test. -/
theorem compareIgnoring_eq (ignored : List Property) : t.compareIgnoring n u k ignored =
    t.compareNoting n u k fun p a b => ignored.contains p || a == b := rfl

/-- **A comparison is a row of tests**, with a verdict for when they all pass. -/
theorem exists_askAll (ht : t.Sound T) (hu : u.Sound T) (hn : n ∈ t.nodes) (hk : k ∈ u.nodes) :
    ∃ tests verdict, ∀ (m : Type → Type) [Monad m] [LawfulMonad m] (same : Property → Scalar → Scalar → m Bool),
      t.compare n u k same = .ok (ScalarTest.askAll same tests verdict) := by
  rw [mem_nodes] at hn hk
  obtain ⟨a, -, ha, -⟩ := exists_subtree ht.forest hn.1 hn.2
  obtain ⟨b, -, hb, -⟩ := exists_subtree hu.forest hk.1 hk.2
  obtain ⟨tests, verdict, htrial⟩ := Comparison.scripted_run t.shape u.shape (.real a) (.real b)
  refine ⟨tests, verdict, fun m _ _ same => ?_⟩
  rw [← htrial]
  exact bind_eq_ok.2 ⟨a, ha, bind_eq_ok.2 ⟨b, hb, rfl⟩⟩

end Tree

namespace Session

variable {s : Session} {t u : Tree} {n m : NodeId}

/-- **A test of scalars only filters.**  For any two nodes there are a row of tests, those that are made if every
test passes, and a verdict, to which the comparison then comes.  Under another test those are made of the row up to
the first that does not pass, and this one, and nothing else; and the nodes match if that is the verdict and all
the tests pass.  So no match is lost by a test that lets more pass, and structural equality is the case of equal
scalars. -/
theorem tests_filtered (h : Reachable s) (ht : t ∈ s.trees) (hu : u ∈ s.trees) (hn : n ∈ t.nodes)
    (hm : m ∈ u.nodes) : ∃ tests verdict,
      t.compareNoting n u m (fun _ _ _ => true) = .ok (verdict, tests) ∧
      (∀ accepts, t.compareNoting n u m accepts =
          .ok (verdict && tests.all (ScalarTest.passes accepts), ScalarTest.upToNo accepts tests) ∧
        t.agreeBy n u m accepts = .ok (verdict && tests.all (ScalarTest.passes accepts))) ∧
      (∀ strict loose : Property → Scalar → Scalar → Bool, (∀ p a b, strict p a b = true → loose p a b = true) →
        t.agreeBy n u m strict = .ok true → t.agreeBy n u m loose = .ok true) ∧
      t.agree n u m = .ok (verdict && tests.all fun x => x.left == x.right) := by
  obtain ⟨tests, verdict, hcompare⟩ := Tree.exists_askAll (h.tree_sound ht) (h.tree_sound hu) hn hm
  have hnoting : ∀ accepts, t.compareNoting n u m accepts =
      .ok (verdict && tests.all (ScalarTest.passes accepts), ScalarTest.upToNo accepts tests) := fun accepts => by
    refine bind_eq_ok.2 ⟨_, hcompare _ _, ?_⟩
    rw [StateT.run, ScalarTest.askAll_noting, Array.empty_append]
    rfl
  have hagreeBy : ∀ accepts, t.agreeBy n u m accepts =
      .ok (verdict && tests.all (ScalarTest.passes accepts)) := fun accepts =>
    bind_eq_ok.2 ⟨_, hcompare _ _, congrArg Except.ok (ScalarTest.askAll_pure tests verdict)⟩
  refine ⟨tests, verdict, ?_, fun accepts => ⟨hnoting accepts, hagreeBy accepts⟩,
    fun strict loose hloose hstrict => ?_, hagreeBy fun _ a b => a == b⟩
  · have hall : tests.all (ScalarTest.passes fun _ _ _ => true) = true := List.all_eq_true.2 fun _ _ => rfl
    rw [hnoting, hall, Bool.and_true, ScalarTest.upToNo_of_all hall]
  · rw [hagreeBy, Except.ok.injEq, Bool.and_eq_true, List.all_eq_true] at hstrict ⊢
    exact ⟨hstrict.1, fun x hx => hloose _ _ _ (hstrict.2 x hx)⟩

/-- Two trees, one of each shape, and in each an array access of a name.  The one in the current tree has an index;
in the legacy tree, where there would be one if it were read, there is none. -/
def unreadIndex : Session := played [⟨.legacy, {}⟩, ⟨.current, {}⟩]
  [.edit 0 (.create .arrayAccess), .edit 0 (.child ⟨0, 0⟩ .arrayAccessArray),
    .edit 0 (.setScalar ⟨0, 1⟩ .simpleNameIdentifier (.symbol "a")),
    .edit 1 (.create .arrayAccess), .edit 1 (.child ⟨1, 0⟩ .arrayAccessArray),
    .edit 1 (.setScalar ⟨1, 1⟩ .simpleNameIdentifier (.symbol "b")), .edit 1 (.create .simpleName),
    .edit 1 (.list ⟨1, 0⟩ .arrayAccessIndexes (.push ⟨1, 2⟩))]

/-- The legacy tree of that session. -/
def legacyAccess : Tree where
  id := 0
  config := ⟨.legacy, {}⟩
  records := #[⟨.arrayAccess, none, {}, none, [.child (some 1), .list []]⟩,
    ⟨.simpleName, none, {}, some ⟨0, .arrayAccessArray⟩, [.scalar (.symbol "a")]⟩]
  stamp := 1
  observer := none
  journal := #[]

/-- The current tree. -/
def currentAccess : Tree where
  id := 1
  config := ⟨.current, {}⟩
  records := #[⟨.arrayAccess, none, {}, none, [.child (some 1), .list [2]]⟩,
    ⟨.simpleName, none, {}, some ⟨0, .arrayAccessArray⟩, [.scalar (.symbol "b")]⟩,
    ⟨.simpleName, none, {}, some ⟨0, .arrayAccessIndexes⟩, [.scalar (.symbol "MISSING")]⟩]
  stamp := 2
  observer := none
  journal := #[]

/-- The two tests of that comparison: of the names, and of the index beside the placeholder that stands for it. -/
def accessTests : List ScalarTest :=
  [⟨.simpleNameIdentifier, .symbol "a", .symbol "b"⟩,
    ⟨.simpleNameIdentifier, .symbol "MISSING", .symbol "MISSING"⟩]

/-- They are what the comparison consists of, whatever the test does. -/
theorem compare_access {m : Type → Type} [Monad m] [LawfulMonad m] (same : Property → Scalar → Scalar → m Bool) :
    legacyAccess.compare ⟨0, 0⟩ currentAccess ⟨1, 0⟩ same = .ok (ScalarTest.askAll same accessTests true) := by
  have hleft : legacyAccess.subtree ⟨0, 0⟩ = .ok (.node ⟨⟨0, 0⟩, .arrayAccess, none, {}⟩
    [.child (some (.node ⟨⟨0, 1⟩, .simpleName, none, {}⟩ [.scalar (.symbol "a")])), .list []]) := rfl
  have hright : currentAccess.subtree ⟨1, 0⟩ = .ok (.node ⟨⟨1, 0⟩, .arrayAccess, none, {}⟩
    [.child (some (.node ⟨⟨1, 1⟩, .simpleName, none, {}⟩ [.scalar (.symbol "b")])),
      .list [.node ⟨⟨1, 2⟩, .simpleName, none, {}⟩ [.scalar (.symbol "MISSING")]]]) := rfl
  refine bind_eq_ok.2 ⟨_, hleft, bind_eq_ok.2 ⟨_, hright, congrArg Except.ok ?_⟩⟩
  rw [Comparison.run_of_kind _ (k := .arrayAccess) rfl rfl]
  simp only [Kind.storage, Comparison.runSlots]
  rw [Comparison.runSlot_child _ rfl, Comparison.runSlot_list _ rfl]
  -- the index is compared with what the legacy side reads where it has none
  change (do
    if ← Comparison.run ⟨.legacy, .current, same⟩ _ _ then
      (do if ← Comparison.run ⟨.legacy, .current, same⟩ (.fresh .simpleName) _ then _ else _)
    else _) = _
  rw [Comparison.run_simpleName _ rfl rfl, Comparison.run_simpleName _ rfl rfl]
  rfl

/-- Under equality of scalars the second test is not made.  It is made where identifiers pass, whatever they are. -/
theorem tests_filtered_unreadIndex : ∃ s t u, Reachable s ∧ t ∈ s.trees ∧ u ∈ s.trees ∧
    t.shape = .legacy ∧ u.shape = .current ∧
    t.compareNoting ⟨0, 0⟩ u ⟨1, 0⟩ (fun _ _ _ => true) = .ok (true, accessTests) ∧
    t.compareNoting ⟨0, 0⟩ u ⟨1, 0⟩ (fun _ a b => a == b) = .ok (false, accessTests.take 1) ∧
    t.agree ⟨0, 0⟩ u ⟨1, 0⟩ = .ok false ∧
    t.compareIgnoring ⟨0, 0⟩ u ⟨1, 0⟩ [.simpleNameIdentifier] = .ok (true, accessTests) := by
  have hs : Reachable unreadIndex := .played _ _
  have ht : legacyAccess ∈ unreadIndex.trees := Array.mem_of_getElem? (i := 0) (by decide +kernel)
  have hu : currentAccess ∈ unreadIndex.trees := Array.mem_of_getElem? (i := 1) (by decide +kernel)
  obtain ⟨tests, verdict, hall, htests, -, hagree⟩ :=
    tests_filtered hs ht hu (n := ⟨0, 0⟩) (m := ⟨1, 0⟩) (by decide) (by decide)
  have hmade : legacyAccess.compareNoting ⟨0, 0⟩ currentAccess ⟨1, 0⟩ (fun _ _ _ => true) =
    .ok (true, accessTests) := bind_eq_ok.2 ⟨_, compare_access _, rfl⟩
  obtain ⟨rfl, rfl⟩ := Prod.mk.inj (Except.ok.inj (hall.symm.trans hmade))
  have hignoring := (htests fun p a b => [Property.simpleNameIdentifier].contains p || a == b).1
  rw [← Tree.compareIgnoring_eq] at hignoring
  exact ⟨_, _, _, hs, ht, hu, rfl, rfl, hall, (htests fun _ a b => a == b).1.trans (by decide),
    hagree.trans (by decide), hignoring.trans (by decide)⟩

end Session

end SyntaxForest
