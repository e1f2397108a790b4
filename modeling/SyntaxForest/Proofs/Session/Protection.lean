import SyntaxForest.Proofs.Edit.Frozen
import SyntaxForest.Proofs.Session.Locality

/-!
# Proofs/Session/Protection — a protected node is frozen for as long as it is protected

Nothing takes the mark of protection off a node but the call that sets its marks.  Without that call,
whatever else happens in the session, the node keeps its scalars and its children.  A mandatory child
that was never read may still come to exist, for a read is no change; and the parent of the node may let
go of it, but no node may take it in.

* `Session.after_freezes` — one command.
* `Session.protected_node_frozen` — **all commands**, and what they can bring.
-/

namespace SyntaxForest

namespace Session

variable {s : Session} {i : Nat} {t : Tree} {p : NodeId} {r : Record} {cs cs' : List Command}

/-- **A read brought the node.**  One of the commands read a property of `p` in this slot while the slot
was empty, and what the read did to the tree with the number `i` was to let the node come to exist as the
placeholder of the property. -/
def Brings (s : Session) (cs : List Command) (i : Nat) (p : NodeId) (slot c : Nat) : Prop :=
  ∃ before e after q k u, cs = before ++ .edit i e :: after ∧ e.reads = some (p, q) ∧
    q.slot = slot ∧ (s.later before).trees[i]? = some u ∧ u.Lacks p.index q k ∧
    (s.later (before ++ [.edit i e])).trees[i]? = some (u.materialized p.index q k) ∧
    c = u.size

theorem later_append : s.later (cs ++ cs') = (s.later cs).later cs' := List.foldl_append ..

/-- What some commands bring is brought by these and more. -/
theorem Brings.append {slot c : Nat} (h : s.Brings cs i p slot c) : s.Brings (cs ++ cs') i p slot c := by
  obtain ⟨before, e, after, q, k, u, rfl, h⟩ := h
  exact ⟨before, e, after ++ cs', q, k, u, by simp, h⟩

/-- …and so is what later commands bring. -/
theorem Brings.later {slot c : Nat} (h : (s.later cs).Brings cs' i p slot c) :
    s.Brings (cs ++ cs') i p slot c := by
  obtain ⟨before, e, after, q, k, u, rfl, hreads, hslot, hu, hlacks, hu', hc⟩ := h
  rw [← later_append] at hu hu'
  exact ⟨cs ++ before, e, after, q, k, u, by simp, hreads, hslot, hu, hlacks,
    List.append_assoc cs .. ▸ hu', hc⟩

/-- **A command keeps a protected node frozen**, whether it succeeds or fails. -/
theorem after_freezes (h : s.Sound .declared) (ht : s.trees[i]? = some t)
    (hr : t.look p = .ok r) (hprotect : r.flags.protect = true) {c : Command}
    (hc : ∀ flags, c ≠ .edit i (.setFlags p flags)) :
    ∃ t', (after c s).trees[i]? = some t' ∧ t'.Freezes (s.Brings [c] i p) p.index r := by
  obtain ⟨hp, hr⟩ := Tree.look_eq_ok.1 hr
  obtain ⟨e, rfl, ht'⟩ | ⟨number, e, -, rfl, ht'⟩ | ⟨-, hadds⟩ := after_cases h ht c
  · refine ⟨_, ht', ?_⟩
    rcases Edit.after_does (h.trees ht) e (e.obeys_declared t) with heq | hdoes
    · exact ⟨r, heq.symm ▸ hr, .refl r⟩
    · have hne : ∀ flags, e ≠ .setFlags (t.handle p.index) flags := fun flags he =>
        hc flags (by rw [he, Tree.handle_index hp])
      obtain ⟨r', hr', hfrozen⟩ := hdoes.freezes hr hprotect hne
      refine ⟨r', hr', hfrozen.mono fun slot d hbrought => ?_⟩
      obtain ⟨q, k, hreads, hslot, hlacks, heq, hd⟩ := hbrought
      rw [Tree.handle_index hp] at hreads
      exact ⟨[], e, [], q, k, t, rfl, hreads, hslot, ht, hlacks, heq ▸ ht', hd⟩
  · exact ⟨t, ht', r, hr, .refl r⟩
  · obtain ⟨t', ht', hextends, -⟩ := hadds.extends ht
    exact ⟨t', ht', hextends.freezes hr⟩

/-- …and so do all commands. -/
theorem later_freezes (h : s.Sound .declared) (ht : s.trees[i]? = some t)
    (hr : t.look p = .ok r) (hprotect : r.flags.protect = true)
    (hcs : ∀ flags, .edit i (.setFlags p flags) ∉ cs) :
    ∃ t' r', (s.later cs).trees[i]? = some t' ∧ t'.look p = .ok r' ∧
      r.Frozen (s.Brings cs i p) r' := by
  induction cs generalizing s t r with
  | nil => exact ⟨t, r, ht, hr, .refl r⟩
  | cons c cs ih =>
    have hc : ∀ flags, c ≠ .edit i (.setFlags p flags) := fun flags heq =>
      hcs flags (heq ▸ List.mem_cons_self)
    obtain ⟨t₁, ht₁, r₁, hr₁, hfrozen₁⟩ := after_freezes h ht hr hprotect hc
    have hafter := (after_leadsTo h c).sound h
    have hown : p.tree = t₁.id :=
      (Tree.look_eq_ok.1 hr).1.trans ((h.ids ht).trans (hafter.ids ht₁).symm)
    obtain ⟨t', r', ht', hr', hfrozen⟩ := ih hafter ht₁ (Tree.look_eq_ok.2 ⟨hown, hr₁⟩)
      (hfrozen₁.flags ▸ hprotect) fun flags hmem => hcs flags (List.mem_cons_of_mem _ hmem)
    refine ⟨t', r', ht', hr', .trans (hfrozen₁.mono fun _ _ hb => ?_) (hfrozen.mono fun _ _ hb => ?_)⟩
    · exact @Brings.append _ _ _ [c] cs _ _ hb
    · exact @Brings.later _ _ _ [c] cs _ _ hb

/-- **A protected node is frozen.**  As long as its marks are not set, it keeps them whatever commands
are performed, succeed or fail; its scalars and its children stay as they were, but for placeholders
that reads bring to slots without any; and once it has no parent, it never has one again. -/
theorem protected_node_frozen (h : Reachable s) (ht : s.trees[i]? = some t)
    (hr : t.look p = .ok r) (hprotect : r.flags.protect = true)
    (hcs : ∀ flags, .edit i (.setFlags p flags) ∉ cs) :
    ∃ t' r', (s.later cs).trees[i]? = some t' ∧ t'.look p = .ok r' ∧ r'.flags.protect = true ∧
      r.Frozen (s.Brings cs i p) r' ∧
      ∀ before after u, cs = before ++ after → (s.later before).trees[i]? = some u →
        u.parent p = .ok none → t'.parent p = .ok none := by
  obtain ⟨t', r', ht', hr', hfrozen⟩ := later_freezes h.sound ht hr hprotect hcs
  refine ⟨t', r', ht', hr', hfrozen.flags ▸ hprotect, hfrozen, ?_⟩
  rintro before after u rfl hu hnone
  -- the node is frozen up to the point where it has no parent, and from there on
  obtain ⟨u', r₁, hu', hr₁, hfrozen₁⟩ := later_freezes h.sound ht hr hprotect fun flags hmem =>
    hcs flags (List.mem_append_left _ hmem)
  obtain rfl : u = u' := Option.some.inj (hu.symm.trans hu')
  rw [later_append] at ht'
  obtain ⟨v, r₂, hv, hr₂, hfrozen₂⟩ := later_freezes (h.later before).sound hu hr₁
    (hfrozen₁.flags ▸ hprotect) fun flags hmem => hcs flags (List.mem_append_right _ hmem)
  obtain rfl : t' = v := Option.some.inj (ht'.symm.trans hv)
  have hroot : r₁.location = none := by
    rw [Tree.parent, hr₁] at hnone
    exact Option.map_eq_none_iff.1 (Except.ok.inj hnone)
  rw [Tree.parent, hr₂]
  exact congrArg (fun l => Except.ok (Option.map _ l)) (hfrozen₂.location_none hroot)

/-- A session of one tree, in which a conditional expression without any child is the array of an access,
and protected. -/
def guardedConditional : Session := played [⟨.legacy, {}⟩]
  [.edit 0 (.create .arrayAccess), .edit 0 (.create .conditionalExpression),
    .edit 0 (.setChild ⟨0, 0⟩ .arrayAccessArray ⟨0, 1⟩),
    .edit 0 (.setFlags ⟨0, 1⟩ { protect := true })]

/-- Calls that read its condition, try to replace what was read, take the expression away from the access,
and try to put it back. -/
def strainGuard : List Command :=
  [.edit 0 (.child ⟨0, 1⟩ .conditionExpression), .edit 0 (.create .simpleName),
    .edit 0 (.setChild ⟨0, 1⟩ .conditionExpression ⟨0, 3⟩), .edit 0 (.detach ⟨0, 1⟩),
    .edit 0 (.setChild ⟨0, 0⟩ .arrayAccessArray ⟨0, 1⟩)]

/-- The condition that was read is there, nothing else is, and the expression is free. -/
theorem protected_node_frozen_strainGuard : ∃ s t t' r r', Reachable s ∧ s.trees[0]? = some t ∧
    (s.later strainGuard).trees[0]? = some t' ∧ t.look ⟨0, 1⟩ = .ok r ∧ t'.look ⟨0, 1⟩ = .ok r' ∧
    r.flags.protect = true ∧ r'.flags.protect = true ∧
    t.parent ⟨0, 1⟩ = .ok (some ⟨0, 0⟩) ∧ t'.parent ⟨0, 1⟩ = .ok none ∧
    r.slots = [.list [], .list [], .list []] ∧ r'.slots = [.list [2], .list [], .list []] ∧
    r.Frozen (s.Brings strainGuard 0 ⟨0, 1⟩) r' := by
  have hs : Reachable guardedConditional := .played _ _
  have ht : guardedConditional.trees[0]? = some _ := Array.getElem?_eq_getElem (by decide +kernel)
  have hr : guardedConditional.trees[0].look ⟨0, 1⟩ =
      .ok ⟨.conditionalExpression, none, { protect := true }, some ⟨0, .arrayAccessArray⟩,
        [.list [], .list [], .list []]⟩ := by decide +kernel
  have hcs : ∀ flags, .edit 0 (.setFlags ⟨0, 1⟩ flags) ∉ strainGuard := fun flags => by
    simp [strainGuard]
  obtain ⟨t', r', ht', hr', hprotect, hfrozen, hroot⟩ := protected_node_frozen hs ht hr rfl hcs
  have hlook : ((guardedConditional.later strainGuard).trees[0]?.map (·.look ⟨0, 1⟩)) =
      some (.ok ⟨.conditionalExpression, none, { protect := true }, none,
        [.list [2], .list [], .list []]⟩) := by decide +kernel
  rw [ht', Option.map_some, hr'] at hlook
  obtain rfl := Except.ok.inj (Option.some.inj hlook)
  have hfree : t'.parent ⟨0, 1⟩ = .ok none := by
    rw [Tree.parent, hr']
    rfl
  exact ⟨_, _, t', _, _, hs, ht, ht', hr, hr', rfl, hprotect, by decide +kernel, hfree, rfl, rfl,
    hfrozen⟩

end Session

end SyntaxForest
