import SyntaxForest.Proofs.Store.Forest
import Mathlib.Data.List.Flatten

/-!
# Proofs/Store/Descent — the nodes below a node

`Arena.Below` says that a node is met on the way up from another.  The nodes below two children of
one parent are apart, and what holds of a node as soon as it holds of its children holds of every
node.

* `Arena.Below.trans`, `Arena.Below.comparable` — the order of nodes above each other.
* `Arena.not_below_both` — **siblings have nothing in common below them**.
* `Arena.Forest.induct` — induction from the leaves up.
* `Arena.shown` — the children of a node that a shape shows.
-/

namespace SyntaxForest

namespace Arena

variable {a : Arena} {i j c d r : Nat} {l m : Location}

/-- The node `i` is `r` or stands below it. -/
def Below (a : Arena) (r i : Nat) : Prop := ∃ chain, a.Chain i chain ∧ r ∈ chain

namespace Below

theorem lt_size (h : a.Below r i) : i < a.size := by
  obtain ⟨chain, hc, -⟩ := h
  exact hc.lt_size hc.mem_self

/-- What stands below the parent of a node stands below it as well. -/
theorem up (hl : a.locationAt c = some l) (h : a.Below r l.parent) : a.Below r c := by
  obtain ⟨chain, hc, hr⟩ := h
  exact ⟨c :: chain, .up hl hc, List.mem_cons_of_mem _ hr⟩

theorem eq_or_up (h : a.Below r i) :
    r = i ∨ ∃ l, a.locationAt i = some l ∧ a.Below r l.parent := by
  obtain ⟨chain, hc, hr⟩ := h
  cases hc with
  | root _ _ => exact .inl (List.mem_singleton.1 hr)
  | up hl hc =>
    rcases List.mem_cons.1 hr with rfl | hr
    · exact .inl rfl
    · exact .inr ⟨_, hl, _, hc, hr⟩

theorem trans (h : a.Below r i) (h' : a.Below i j) : a.Below r j := by
  obtain ⟨chain, hc, hr⟩ := h
  obtain ⟨chain', hc', hi⟩ := h'
  obtain ⟨rest, hrest, hs⟩ := hc'.of_mem hi
  rw [hrest.unique hc] at hs
  exact ⟨chain', hc', hs.subset hr⟩

/-- Of two nodes above a third one is above the other. -/
theorem comparable (h : a.Below c i) (h' : a.Below d i) : a.Below c d ∨ a.Below d c := by
  obtain ⟨chain, hc, hmem⟩ := h
  obtain ⟨chain', hc', hmem'⟩ := h'
  obtain rfl := hc.unique hc'
  obtain ⟨rest, hrest, hs⟩ := hc.of_mem hmem
  obtain ⟨rest', hrest', hs'⟩ := hc.of_mem hmem'
  rcases List.suffix_or_suffix_of_suffix hs hs' with h | h
  · exact .inl ⟨rest', hrest', h.subset hrest.mem_self⟩
  · exact .inr ⟨rest, hrest, h.subset hrest'.mem_self⟩

end Below

/-- A parent does not stand below its child. -/
theorem not_below_parent (hl : a.locationAt i = some l) : ¬a.Below i l.parent := by
  rintro ⟨chain, hc, hmem⟩
  exact hc.not_mem_parent hl hmem

/-- **Siblings have nothing in common below them.** -/
theorem not_below_both (hc : a.locationAt c = some l) (hd : a.locationAt d = some m)
    (hp : l.parent = m.parent) (hne : c ≠ d) (h : a.Below c i) : ¬a.Below d i := by
  intro h'
  rcases h.comparable h' with h | h
  · rcases h.eq_or_up with rfl | ⟨m', hm', h⟩
    · exact hne rfl
    · rw [hd] at hm'
      cases hm'
      exact not_below_parent hc (hp ▸ h)
  · rcases h.eq_or_up with rfl | ⟨l', hl', h⟩
    · exact hne rfl
    · rw [hc] at hl'
      cases hl'
      exact not_below_parent hd (hp ▸ h)

namespace Forest

theorem below_self (h : a.Forest) (hi : i < a.size) : a.Below i i := by
  obtain ⟨chain, hc⟩ := h.rooted hi
  exact ⟨chain, hc, hc.mem_self⟩

/-- **Induction from the leaves up**: ways up get longer towards the leaves, and none is longer than
the arena. -/
theorem induct (h : a.Forest) {motive : Nat → Prop}
    (step : ∀ i < a.size, (∀ c l, a.locationAt c = some l → l.parent = i → motive c) → motive i)
    (hi : i < a.size) : motive i := by
  have hdeep : ∀ n i chain, a.Chain i chain → a.size ≤ chain.length + n → motive i := by
    intro n
    induction n with
    | zero =>
      intro i chain hc hn
      refine step i (hc.lt_size hc.mem_self) ?_
      rintro c l hl rfl
      have := (Chain.up hl hc).length_le
      rw [List.length_cons] at this
      omega
    | succ n ih =>
      intro i chain hc hn
      refine step i (hc.lt_size hc.mem_self) ?_
      rintro c l hl rfl
      exact ih c _ (.up hl hc) (by rw [List.length_cons]; omega)
  obtain ⟨chain, hc⟩ := h.rooted hi
  exact hdeep a.size i chain hc (by omega)

end Forest

end Arena

/-! ## The children that a shape shows -/

/-- The slots that a shape offers are some of all, in their order. -/
theorem Kind.liveOnly_sublist {α : Type} (shape : Shape) (k : Kind) (slots : List α) :
    (k.liveOnly shape slots).Sublist slots := by
  have hfrom : ∀ n, ((slots.zipIdx n).filterMap fun e =>
      if k.slotIsLive shape e.2 then some e.1 else none).Sublist slots := by
    induction slots with
    | nil => exact fun _ => .slnil
    | cons item slots ih =>
      intro n
      rw [List.zipIdx_cons, List.filterMap_cons]
      by_cases hlive : k.slotIsLive shape n = true
      · simp only [hlive, if_true]
        exact (ih (n + 1)).cons_cons item
      · simp only [hlive]
        exact (ih (n + 1)).cons item
  exact hfrom 0

namespace Arena

variable {a : Arena} {i c : Nat} {shape : Shape}

/-- The children of the node at an index that a shape shows, in order. -/
def shown (a : Arena) (shape : Shape) (i : Nat) : List Nat := a[i]?.elim [] (·.children shape)

/-- A record names no child twice. -/
theorem Forest.members_nodup (h : a.Forest) {r : Record} (hr : a[i]? = some r) :
    (r.slots.flatMap Slot.members).Nodup :=
  (List.nodup_flatMap.1 h.stored_nodup).1 r (Array.mem_toList_iff.2 (Array.mem_of_getElem? hr))

theorem shown_sublist {r : Record} (hr : a[i]? = some r) :
    (a.shown shape i).Sublist (r.slots.flatMap Slot.members) := by
  rw [shown, hr]
  exact (Kind.liveOnly_sublist shape r.kind r.slots).flatMap _

theorem Forest.shown_nodup (h : a.Forest) : (a.shown shape i).Nodup := by
  rcases hr : a[i]? with _ | r
  · rw [shown, hr]
    exact List.nodup_nil
  · exact (shown_sublist hr).nodup (h.members_nodup hr)

/-- The parent of a child that is shown. -/
theorem Forest.parent_of_shown (h : a.Forest) (hc : c ∈ a.shown shape i) :
    ∃ l, a.locationAt c = some l ∧ l.parent = i := by
  rcases hr : a[i]? with _ | r
  · rw [shown, hr] at hc
    cases hc
  · obtain ⟨s, hs⟩ := (mem_record_iff hr).1 ((shown_sublist hr).subset hc)
    obtain ⟨p, -, hl⟩ := h.filed hs
    exact ⟨_, hl, rfl⟩

end Arena

end SyntaxForest
