import SyntaxForest.Proofs.Edit.Batch
import SyntaxForest.Proofs.Session.Run

/-!
# Proofs/Session/Batches — batches in every reachable session

A list takes a batch as it would take the nodes of it, pushed one after the other; but it takes all of
them or none.

* `Session.batch_by_pushes` — **in a reachable session a batch comes in exactly as its nodes would, pushed
  one by one**.
-/

namespace SyntaxForest

namespace Session

variable {s : Session} {t : Tree} {n : NodeId} {p : Property} {q : Sequence}

/-- **A batch comes in exactly as its nodes would, pushed one by one** (`Tree.Batches`): in the same cases
and with the same tree, announcements and stamp included.  The list then has its old elements and the
batch after them; a single node that is inserted at an index parts the elements there.  A batch that does
not come in changes nothing. -/
theorem batch_by_pushes (h : Reachable s) (ht : t ∈ s.trees) (hq : t.sequence n p = .ok q) :
    ∃ items, t.elements q = .ok items ∧ t.Batches q items := by
  have hf := (h.tree_sound ht).forest
  obtain ⟨ho, rfl, rfl⟩ := Sequence.sequence_eq_ok.1 hq
  obtain ⟨items, hitems⟩ := ho.exists_items hf
  exact ⟨_, Sequence.elements_eq_ok.2 ⟨items, hitems, rfl⟩, ho.batches hf hitems⟩

/-- The commands that make a pattern of one name and two names beside it, and let someone listen. -/
def gatherNames : List Command :=
  [.edit 0 (.create .pattern), .edit 0 (.create .simpleName), .edit 0 (.create .simpleName),
    .edit 0 (.create .simpleName), .edit 0 (.list ⟨0, 0⟩ .patternElements (.push ⟨0, 1⟩)),
    .edit 0 (.observe (some ⟨false, true⟩))]

/-- The tree that these commands make. -/
def gatheredNames : Tree where
  id := 0
  config := ⟨.current, {}⟩
  records := #[⟨.pattern, none, {}, none, [.list [1], .child none]⟩,
    ⟨.simpleName, none, {}, some ⟨0, .patternElements⟩, [.scalar (.symbol "MISSING")]⟩,
    .fresh .simpleName {}, .fresh .simpleName {}]
  stamp := 1
  observer := some ⟨false, true⟩
  journal := #[]

/-- The tree with the two names in the pattern as well. -/
def filledPattern : Tree where
  id := 0
  config := ⟨.current, {}⟩
  records := #[⟨.pattern, none, {}, none, [.list [1, 2, 3], .child none]⟩,
    ⟨.simpleName, none, {}, some ⟨0, .patternElements⟩, [.scalar (.symbol "MISSING")]⟩,
    ⟨.simpleName, none, {}, some ⟨0, .patternElements⟩, [.scalar (.symbol "MISSING")]⟩,
    ⟨.simpleName, none, {}, some ⟨0, .patternElements⟩, [.scalar (.symbol "MISSING")]⟩]
  stamp := 3
  observer := some ⟨false, true⟩
  journal := #[⟨.post, .addChild ⟨0, 0⟩ .patternElements 1 ⟨0, 2⟩⟩,
    ⟨.post, .addChild ⟨0, 0⟩ .patternElements 2 ⟨0, 3⟩⟩]

/-- The two names come in together as they would one by one, each of them announced.  With the name that
is there already neither comes in, though the first could be pushed. -/
theorem batch_by_pushes_gatheredNames : ∃ s t q, Reachable s ∧ t ∈ s.trees ∧
    t.sequence ⟨0, 0⟩ .patternElements = .ok q ∧
    q.extend [⟨0, 2⟩, ⟨0, 3⟩] t = .ok () filledPattern ∧
    q.pushEach [⟨0, 2⟩, ⟨0, 3⟩] t = .ok () filledPattern ∧
    filledPattern.elements q = .ok [⟨0, 1⟩, ⟨0, 2⟩, ⟨0, 3⟩] ∧
    (∃ u, q.push ⟨0, 2⟩ t = .ok () u) ∧
    q.extend [⟨0, 2⟩, ⟨0, 1⟩] t = .error (.refused .alreadyParented) t := by
  have hs : Reachable (played [⟨.current, {}⟩] gatherNames) := .played _ _
  have ht : gatheredNames ∈ (played [⟨.current, {}⟩] gatherNames).trees :=
    Array.mem_of_getElem? (i := 0) rfl
  have hq : gatheredNames.sequence ⟨0, 0⟩ .patternElements = .ok ⟨⟨0, 0⟩, .patternElements, .any⟩ := rfl
  obtain ⟨_, hitems, hbatches⟩ := batch_by_pushes hs ht hq
  cases hitems
  have hextend : Sequence.extend ⟨⟨0, 0⟩, .patternElements, .any⟩ [⟨0, 2⟩, ⟨0, 3⟩] gatheredNames =
    .ok () filledPattern := rfl
  have hrefused : Sequence.extend ⟨⟨0, 0⟩, .patternElements, .any⟩ [⟨0, 2⟩, ⟨0, 1⟩] gatheredNames =
    .error (.refused .alreadyParented) gatheredNames := rfl
  have hpushes := (hbatches.extend_iff [⟨0, 2⟩, ⟨0, 3⟩] (List.cons_ne_nil _ _) filledPattern).1 hextend
  obtain ⟨_, u, hpush, -⟩ := exists_of_bind_ok hpushes
  exact ⟨_, _, _, hs, ht, hq, hextend, hpushes, hbatches.elements_extend [⟨0, 2⟩, ⟨0, 3⟩] _ hextend,
    ⟨u, hpush⟩, hrefused⟩

end Session

end SyntaxForest
