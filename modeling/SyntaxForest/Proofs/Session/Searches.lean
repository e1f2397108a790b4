import SyntaxForest.Proofs.Session.Walks
import SyntaxForest.Proofs.Subtree.Search

/-!
# Proofs/Session/Searches — a locator finds the right node

Ranges are set freely.  They may be unknown, empty, or overlap, and that of a child need not lie inside that of
its parent.  A locator goes by how far a node is below the root, and by the order of a walk among those that
are equally far.

* `Session.locator_finds` — **so it finds the innermost node around a span, and the outermost one inside it**.
-/

namespace SyntaxForest

namespace Session

variable {s : Session} {i : Nat} {t : Tree} {r : NodeId}

/-- **A locator that still holds finds the right nodes.**  It lists the nodes that a walk enters, each one
whose range is known at the level at which it is entered.  What it answers for a span is, of the nodes under
its root whose ranges contain the span, the last of those that are furthest from the root; and of those whose
ranges lie inside the span, the first of those that are nearest to it.  There is no answer only if there is no
such node.  So no node under the one answer contains the span as well, and no node over the other, up to the
root, lies inside it. -/
theorem locator_finds (h : Reachable s) (ht : s.trees[i]? = some t) (hr : r ∈ t.nodes) :
    ∃ l, t.locator r = .ok l ∧ ∀ (cs : List Command) (t' : Tree), (s.later cs).trees[i]? = some t' →
      l.check t' = .ok () → ∃ steps, t'.preorder r {} = .ok (steps, true) ∧
        l.entries = (WalkEvent.entries 0 steps).filterMap t'.listed? ∧
        ∀ span, ∃ inner outer, l.covering t' span = .ok inner ∧ l.covered t' span = .ok outer ∧
          t'.Innermost r (fun range => range.contains span) (steps.filterMap WalkEvent.entered?) inner ∧
          t'.Outermost r (fun range => span.contains range) (steps.filterMap WalkEvent.entered?) outer ∧
          (∀ m, inner = some m → ∀ d n, ¬t'.Fits m (fun range => range.contains span) (d + 1) n) ∧
          ∀ m, outer = some m → ∀ d e n, t'.Under n (d + 1) m →
            ¬t'.Fits r (fun range => span.contains range) e n := by
  have hsound := h.sound.trees ht
  obtain ⟨hown, hlt⟩ := Tree.mem_nodes.1 hr
  obtain ⟨_, -, hl⟩ := Tree.exists_locator hsound.forest hown hlt
  refine ⟨_, hl, fun cs t' ht' hcheck => ?_⟩
  obtain ⟨hid, hstamp⟩ := Locator.check_eq_ok.1 hcheck
  have hreaches := h.reaches ht ht'
  have hf := (hreaches.sound hsound).forest
  have hown' : r.tree = t'.id := hown.trans hid.symm
  have hlt' : r.index < t'.size := Nat.lt_of_lt_of_le hlt (hreaches.settled hsound hstamp).size
  have hv := (h.later cs).visible ht'
  -- the locator is the one that would be built anew
  obtain ⟨v, hshows, hl'⟩ := Tree.exists_locator hf hown' hlt'
  rw [hreaches.locator_eq hsound hstamp hown hlt, hl] at hl'
  rw [Except.ok.inj hl'] at hcheck ⊢
  refine ⟨_, Tree.preorder_eq_ok hf hown' hshows, hshows.entries_eq_walk hv, fun span => ?_⟩
  have hinner := (hshows.lists hf hv fun range => range.contains span).innermost
  have houter := (hshows.lists hf hv fun range => span.contains range).outermost
  rw [Tree.handle_index hown'] at hinner houter
  refine ⟨_, _, bind_eq_ok.2 ⟨(), hcheck, rfl⟩, bind_eq_ok.2 ⟨(), hcheck, rfl⟩, hinner, houter, ?_, ?_⟩
  · intro m heq d n
    rw [heq] at hinner
    exact hinner.not_fits_under
  · intro m heq d e n hunder
    rw [heq] at houter
    exact houter.not_fits_over hf (Tree.mem_nodes.2 ⟨hown', hlt'⟩) hunder

/-- A session of one tree of the current shape, with a conditional without a range.  Its condition is an array
access without one, whose index has a range that overlaps those of the two branches. -/
def overlappingRanges : Session := played [⟨.current, {}⟩]
  [.edit 0 (.create .conditionalExpression), .edit 0 (.create .arrayAccess), .edit 0 (.create .simpleName),
    .edit 0 (.create .simpleName), .edit 0 (.create .simpleName),
    .edit 0 (.setRange ⟨0, 2⟩ ⟨2, 6, by decide⟩), .edit 0 (.setRange ⟨0, 3⟩ ⟨4, 9, by decide⟩),
    .edit 0 (.setRange ⟨0, 4⟩ ⟨5, 9, by decide⟩),
    .edit 0 (.list ⟨0, 1⟩ .arrayAccessIndexes (.push ⟨0, 2⟩)),
    .edit 0 (.list ⟨0, 0⟩ .conditionElements (.push ⟨0, 1⟩)),
    .edit 0 (.list ⟨0, 0⟩ .elseElements (.push ⟨0, 3⟩)),
    .edit 0 (.list ⟨0, 0⟩ .thenElements (.push ⟨0, 4⟩))]

/-- A call that the stamp passes over: the array comes to be a placeholder. -/
def readArray : List Command := [.edit 0 (.child ⟨0, 1⟩ .arrayAccessArray)]

/-- Of the two branches the one around a span is the last, and the one inside it the first; the index goes
before both where it is around a span as well, for it is further in. -/
theorem locator_finds_overlappingRanges : ∃ s t t' l, Reachable s ∧ s.trees[0]? = some t ∧
    (s.later readArray).trees[0]? = some t' ∧ t.size = 5 ∧ t'.size = 6 ∧ t.locator ⟨0, 0⟩ = .ok l ∧
    l.covering t' ⟨5, 6, by decide⟩ = .ok (some ⟨0, 2⟩) ∧
    l.covering t' ⟨5, 9, by decide⟩ = .ok (some ⟨0, 3⟩) ∧
    l.covered t' ⟨2, 9, by decide⟩ = .ok (some ⟨0, 4⟩) ∧
    t'.Innermost ⟨0, 0⟩ (fun range => range.contains ⟨5, 9, by decide⟩)
      [⟨0, 0⟩, ⟨0, 1⟩, ⟨0, 5⟩, ⟨0, 2⟩, ⟨0, 4⟩, ⟨0, 3⟩] (some ⟨0, 3⟩) ∧
    t'.Outermost ⟨0, 0⟩ (fun range => Span.contains ⟨2, 9, by decide⟩ range)
      [⟨0, 0⟩, ⟨0, 1⟩, ⟨0, 5⟩, ⟨0, 2⟩, ⟨0, 4⟩, ⟨0, 3⟩] (some ⟨0, 4⟩) := by
  have hs : Reachable overlappingRanges := .played _ _
  have ht : overlappingRanges.trees[0]? = some _ := Array.getElem?_eq_getElem (by decide +kernel)
  have ht' : (overlappingRanges.later readArray).trees[0]? = some _ :=
    Array.getElem?_eq_getElem (by decide +kernel)
  obtain ⟨l, hl, hlater⟩ := locator_finds hs ht (r := ⟨0, 0⟩) (by decide +kernel)
  have hentries : Except.ok l = .ok ⟨0, 7, [⟨⟨2, 6, by decide⟩, ⟨0, 2⟩, 2⟩, ⟨⟨5, 9, by decide⟩, ⟨0, 4⟩, 1⟩,
      ⟨⟨4, 9, by decide⟩, ⟨0, 3⟩, 1⟩]⟩ := hl.symm.trans (by decide +kernel)
  obtain rfl := Except.ok.inj hentries
  obtain ⟨steps, hwalk, -, hfinds⟩ := hlater readArray _ ht' (by decide +kernel)
  have hsteps : Except.ok (steps, true) = .ok ([.enter ⟨0, 0⟩, .enter ⟨0, 1⟩, .enter ⟨0, 5⟩,
      .leave ⟨0, 5⟩, .enter ⟨0, 2⟩, .leave ⟨0, 2⟩, .leave ⟨0, 1⟩, .enter ⟨0, 4⟩, .leave ⟨0, 4⟩,
      .enter ⟨0, 3⟩, .leave ⟨0, 3⟩, .leave ⟨0, 0⟩], true) := hwalk.symm.trans (by decide +kernel)
  obtain ⟨rfl, -⟩ := Prod.mk.inj (Except.ok.inj hsteps)
  obtain ⟨inner, _, hcovering, -, hinner, -⟩ := hfinds ⟨5, 9, by decide⟩
  obtain ⟨_, outer, -, hcovered, -, houter, -⟩ := hfinds ⟨2, 9, by decide⟩
  have hlast : Except.ok inner = .ok (some ⟨0, 3⟩) := hcovering.symm.trans (by decide +kernel)
  have hfirst : Except.ok outer = .ok (some ⟨0, 4⟩) := hcovered.symm.trans (by decide +kernel)
  obtain rfl := Except.ok.inj hlast
  obtain rfl := Except.ok.inj hfirst
  exact ⟨_, _, _, _, hs, ht, ht', by decide +kernel, by decide +kernel, hl, by decide +kernel, hcovering,
    hcovered, hinner, houter⟩

end Session

end SyntaxForest
