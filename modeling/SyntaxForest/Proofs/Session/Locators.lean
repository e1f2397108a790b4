import SyntaxForest.Proofs.Session.Run
import SyntaxForest.Proofs.Subtree.Locator

/-!
# Proofs/Session/Locators — locators in every reachable session

A locator may be kept while calls go on, and asked in any later session.  It answers exactly as long
as the stamp of its tree has not moved, and then its answers are those of a locator built anew.

* `Session.locator_never_stale` — **what a locator answers is never out of date**.
-/

namespace SyntaxForest

namespace Session

variable {s : Session} {i : Nat} {t : Tree} {n : NodeId}

/-- **An answer of a locator is never out of date**: asked in a later session it answers only for a tree
with the id of its own at an unmoved stamp; and what it answers for its own, a locator built there
answers as well. -/
theorem locator_never_stale (h : Reachable s) (ht : s.trees[i]? = some t) (hn : n.tree = t.id)
    (hlt : n.index < t.size) : ∃ l, t.locator n = .ok l ∧ ∀ cs : List Command,
      (∀ t' ∈ (s.later cs).trees, l.check t' = .ok () ↔ t'.id = t.id ∧ t'.stamp = t.stamp) ∧
      ∀ t', (s.later cs).trees[i]? = some t' → ∀ span answer,
        (l.covering t' span = .ok answer →
          ∃ l', t'.locator n = .ok l' ∧ l'.covering t' span = .ok answer) ∧
        (l.covered t' span = .ok answer →
          ∃ l', t'.locator n = .ok l' ∧ l'.covered t' span = .ok answer) := by
  have hsound := h.sound.trees ht
  obtain ⟨v, -, hl⟩ := Tree.exists_locator hsound.forest hn hlt
  refine ⟨_, hl, fun cs => ⟨fun _ _ => Locator.check_eq_ok, fun t' ht' span answer => ?_⟩⟩
  have hsame : Locator.check ⟨t.id, t.stamp, v.entries t.shape 0⟩ t' = .ok () →
      t'.locator n = .ok ⟨t.id, t.stamp, v.entries t.shape 0⟩ := by
    intro hcheck
    obtain ⟨-, hstamp⟩ := Locator.check_eq_ok.1 hcheck
    rw [(h.reaches ht ht').locator_eq hsound hstamp hn hlt, hl]
  constructor
  · intro hanswer
    obtain ⟨⟨⟩, hcheck, -⟩ := bind_eq_ok.1 hanswer
    exact ⟨_, hsame hcheck, hanswer⟩
  · intro hanswer
    obtain ⟨⟨⟩, hcheck, -⟩ := bind_eq_ok.1 hanswer
    exact ⟨_, hsame hcheck, hanswer⟩

/-- A session with a name in an array access, both of them with a range. -/
def nestedRanges : Session := played [⟨.legacy, {}⟩]
  [.edit 0 (.create .arrayAccess), .edit 0 (.setRange ⟨0, 0⟩ ⟨0, 9, by decide⟩),
    .edit 0 (.create .simpleName), .edit 0 (.setRange ⟨0, 1⟩ ⟨0, 4, by decide⟩),
    .edit 0 (.setChild ⟨0, 0⟩ .arrayAccessArray ⟨0, 1⟩)]

/-- Calls that the stamp passes over: a placeholder beside the name, and a copy of the whole. -/
def growBeside : List Command :=
  [.edit 0 (.child ⟨0, 0⟩ .arrayAccessIndex), .edit 0 (.copySubtree ⟨0, 0⟩)]

/-- After them the locator still finds the name, and a new locator finds it as well. -/
theorem locator_never_stale_growBeside : ∃ s t t' l l', Reachable s ∧ s.trees[0]? = some t ∧
    (s.later growBeside).trees[0]? = some t' ∧ t.size = 2 ∧ t'.size = 6 ∧ t.locator ⟨0, 0⟩ = .ok l ∧
    l.covering t' ⟨1, 3, by decide⟩ = .ok (some ⟨0, 1⟩) ∧ t'.locator ⟨0, 0⟩ = .ok l' ∧
    l'.covering t' ⟨1, 3, by decide⟩ = .ok (some ⟨0, 1⟩) := by
  have hs : Reachable nestedRanges := .played _ _
  have ht : nestedRanges.trees[0]? = some _ := Array.getElem?_eq_getElem (by decide +kernel)
  have ht' : (nestedRanges.later growBeside).trees[0]? = some _ :=
    Array.getElem?_eq_getElem (by decide +kernel)
  obtain ⟨l, hl, hlater⟩ := locator_never_stale hs ht (n := ⟨0, 0⟩) rfl (by decide +kernel)
  have hentries : Except.ok l = .ok ⟨0, 3, [⟨⟨0, 9, by decide⟩, ⟨0, 0⟩, 0⟩,
      ⟨⟨0, 4, by decide⟩, ⟨0, 1⟩, 1⟩]⟩ := hl.symm.trans (by decide +kernel)
  obtain rfl := Except.ok.inj hentries
  have hanswer := ((hlater growBeside).2 _ ht' ⟨1, 3, by decide⟩ (some ⟨0, 1⟩)).1
  obtain ⟨l', hl', hcovering⟩ := hanswer (by decide +kernel)
  exact ⟨_, _, _, _, l', hs, ht, ht', by decide +kernel, by decide +kernel, hl, by decide +kernel,
    hl', hcovering⟩

end Session

end SyntaxForest
