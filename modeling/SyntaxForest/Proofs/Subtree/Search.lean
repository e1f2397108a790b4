import SyntaxForest.Proofs.Subtree.Coverage
import SyntaxForest.Proofs.Subtree.Encounter
import SyntaxForest.Proofs.Subtree.Locator
import Mathlib.Data.List.Induction

/-!
# Proofs/Subtree/Search — what a search by ranges comes upon

A locator lists depths that a walk counts: one more at each step in, one less at each step out.  `Tree.Under`
is what is meant by them, the number of parents up to the root of the subtree.  From the row of entries a
search takes the best by a choice between two, in the order of the row; nothing is asked of how the ranges
lie to each other.

* `Locator.foldl_choose` — what a row of choices comes to, for the deepest and for the shallowest alike.
* `Tree.Shows.mem_places_iff` — **the count of a walk is the distance by parents**.
* `Tree.Shows.entries_eq_walk` — **a locator lists what a walk enters**, at that count, if its range is known.
* `Tree.Innermost`, `Tree.Outermost` — the answers as they are meant.
* `Tree.Lists.innermost`, `Tree.Lists.outermost` — **so they are given**.
* `Tree.Innermost.not_fits_under`, `Tree.Outermost.not_fits_over` — nothing further in fits, nor further out.
-/

namespace SyntaxForest

/-- What is made of some of a row has the order of the row. -/
theorem map_filterMap_sublist {α β γ : Type} {f : α → Option β} {g : β → γ} {k : α → γ}
    (h : ∀ x y, f x = some y → g y = k x) (xs : List α) :
    ((xs.filterMap f).map g).Sublist (xs.map k) := by
  induction xs with
  | nil => exact List.Sublist.refl _
  | cons x xs ih =>
    rw [List.filterMap_cons, List.map_cons]
    cases hx : f x with
    | none => exact ih.cons _
    | some y =>
      rw [List.map_cons, h x y hx]
      exact ih.cons_cons _

/-! ## The choice from a row -/

namespace Locator

variable {choose : Entry → Entry → Entry}

/-- **What a row of choices comes to.**  An entry is given up for a later one by their depths alone.  All that
stand before the one that is left would be given up for it, and it would be given up for none behind it. -/
theorem foldl_choose (yields : Nat → Nat → Prop) [DecidableRel yields]
    (hchoose : ∀ a b, choose a b = if yields a.depth b.depth then b else a)
    (htrans : ∀ a b c, yields a b → yields b c → yields a c)
    (hkept : ∀ a b c, ¬yields a b → yields a c → yields b c) (first : Entry) (es : List Entry) :
    ∃ before behind, first :: es = before ++ es.foldl choose first :: behind ∧
      (∀ x ∈ before, yields x.depth (es.foldl choose first).depth) ∧
      ∀ x ∈ behind, ¬yields (es.foldl choose first).depth x.depth := by
  induction es using List.reverseRecOn with
  | nil => exact ⟨[], [], rfl, by simp, by simp⟩
  | append_singleton es next ih =>
    obtain ⟨before, behind, hsplit, hbefore, hbehind⟩ := ih
    rw [List.foldl_append, List.foldl_cons, List.foldl_nil, hchoose, ← List.cons_append, hsplit]
    split
    · -- the next one takes the place: all so far stand before it
      rename_i hyields
      refine ⟨_, [], rfl, fun x hx => ?_, by simp⟩
      rcases List.mem_append.1 hx with hx | hx
      · exact htrans _ _ _ (hbefore x hx) hyields
      · rcases List.mem_cons.1 hx with rfl | hx
        · exact hyields
        · exact hkept _ _ _ (hbehind x hx) hyields
    · rename_i hstays
      refine ⟨before, behind ++ [next], by simp, hbefore, fun x hx => ?_⟩
      rcases List.mem_append.1 hx with hx | hx
      · exact hbehind x hx
      · rwa [List.mem_singleton.1 hx]

/-- **The deeper of each two leaves the last of the deepest.** -/
theorem foldl_deeper (first : Entry) (es : List Entry) : ∃ before behind,
    first :: es = before ++ es.foldl .deeper first :: behind ∧
      (∀ x ∈ before, x.depth ≤ (es.foldl .deeper first).depth) ∧
      ∀ x ∈ behind, ¬(es.foldl .deeper first).depth ≤ x.depth :=
  foldl_choose (· ≤ ·) (fun _ _ => rfl) (fun _ _ _ => Nat.le_trans) (by omega) first es

/-- **The shallower of each two leaves the first of the shallowest.** -/
theorem foldl_shallower (first : Entry) (es : List Entry) : ∃ before behind,
    first :: es = before ++ es.foldl .shallower first :: behind ∧
      (∀ x ∈ before, (es.foldl .shallower first).depth < x.depth) ∧
      ∀ x ∈ behind, ¬x.depth < (es.foldl .shallower first).depth :=
  foldl_choose (fun a b => b < a) (fun _ _ => rfl) (by omega) (by omega) first es

end Locator

namespace Tree

variable {t : Tree} {i d e : Nat} {s : Subtree} {r m n : NodeId} {order : List NodeId} {fits : Span → Bool}

/-! ## Distances -/

/-- **A node under another**, with the number of parents up to it. -/
inductive Under (t : Tree) (r : NodeId) : (distance : Nat) → NodeId → Prop
  | self : t.Under r 0 r
  | down {d : Nat} {n parent : NodeId} :
    t.parent n = .ok (some parent) → t.Under r d parent → t.Under r (d + 1) n

theorem Under.trans (h : t.Under r d m) (h' : t.Under m e n) : t.Under r (d + e) n := by
  induction h' with
  | self => exact h
  | down hparent _ ih => exact .down hparent ih

/-- What is under a node is the node itself or under one of its children, by one parent less. -/
theorem under_iff : t.Under r d n ↔ d = 0 ∧ n = r ∨
    ∃ c e, t.parent c = .ok (some r) ∧ t.Under c e n ∧ d = e + 1 := by
  constructor
  · intro h
    induction h with
    | self => exact .inl ⟨rfl, rfl⟩
    | @down d n parent hparent h ih =>
      rcases ih with ⟨rfl, rfl⟩ | ⟨c, e, hc, hunder, rfl⟩
      · exact .inr ⟨n, 0, hparent, .self, rfl⟩
      · exact .inr ⟨c, e + 1, hc, .down hparent hunder, rfl⟩
  · rintro (⟨rfl, rfl⟩ | ⟨c, e, hc, hunder, rfl⟩)
    · exact .self
    · rw [Nat.add_comm]
      exact (Under.self.down hc).trans hunder

theorem Under.descends (hf : Arena.Forest t.records) (hr : r ∈ t.nodes) (h : t.Under r d n) :
    Arena.Below t.records r.index n.index := by
  induction h with
  | self => exact hf.below_self (mem_nodes.1 hr).2
  | down hparent _ ih =>
    obtain ⟨-, l, hl, rfl⟩ := parent_eq_some.1 hparent
    exact ih.up hl

/-- No node is under itself by a parent. -/
theorem not_under_self (hf : Arena.Forest t.records) (hr : r ∈ t.nodes) : ¬t.Under r (d + 1) r := by
  rintro (_ | ⟨hparent, hunder⟩)
  have hbelow := hunder.descends hf hr
  obtain ⟨-, l, hl, rfl⟩ := parent_eq_some.1 hparent
  exact Arena.not_below_parent hl hbelow

/-- **Distances are unique.** -/
theorem Under.unique (hf : Arena.Forest t.records) (hr : r ∈ t.nodes) (h : t.Under r d n)
    (h' : t.Under r e n) : d = e := by
  induction h generalizing e with
  | self =>
    cases e with
    | zero => rfl
    | succ e => exact absurd h' (not_under_self hf hr)
  | down hparent h ih =>
    cases h' with
    | self => exact absurd (.down hparent h) (not_under_self hf hr)
    | down hparent' h' =>
      obtain rfl := Option.some.inj (Except.ok.inj (hparent.symm.trans hparent'))
      exact congrArg (· + 1) (ih h')

/-- Where every child is in sight, a node's children are those that it shows. -/
theorem Visible.parent_eq_iff (hv : t.Visible) (hf : Arena.Forest t.records) :
    t.parent n = .ok (some (t.handle i)) ↔ ∃ c ∈ t.shown i, n = t.handle c := by
  rw [parent_eq_some]
  constructor
  · rintro ⟨hown, l, hl, hparent⟩
    obtain rfl := congrArg NodeId.index hparent
    exact ⟨n.index, hv.mem_shown hf hl, (handle_index hown).symm⟩
  · rintro ⟨c, hc, rfl⟩
    obtain ⟨l, hl, rfl⟩ := hf.parent_of_shown hc
    exact ⟨rfl, l, hl, rfl⟩

/-! ## The count of a walk -/

theorem Shows.encounters_eq (hv : t.Visible) (hs : t.Shows i s) (level : Nat) : s.encounters level =
    ⟨level, s.head, s.slots.map Slot.scalar?⟩ ::
      (s.liveChildren t.shape).flatMap fun c => c.encounters (level + 1) := by
  rw [hs.liveChildren_eq hv]
  obtain ⟨h, ss⟩ := s
  exact Subtree.encounters_node h ss level

/-- **The level at which a node is met is its distance from the start**, and all that is under the start is
met. -/
theorem Shows.mem_places_iff (hf : Arena.Forest t.records) (hv : t.Visible) (hs : t.Shows i s)
    {level k : Nat} : (n, k) ∈ (s.encounters level).map Encounter.place ↔
      ∃ d, t.Under (t.handle i) d n ∧ k = level + d := by
  induction s using Subtree.induct generalizing i level with
  | node h ss ih =>
    obtain ⟨children, hfst, hsnd, hshows⟩ := hs.exists_children
    have hchild : ∀ x ∈ children, (n, k) ∈ (x.2.encounters (level + 1)).map Encounter.place ↔
        ∃ d, t.Under (t.handle x.1) d n ∧ k = level + 1 + d := by
      intro x hx
      have hmem : x.2 ∈ (Subtree.node h ss).liveChildren t.shape := hsnd ▸ List.mem_map_of_mem hx
      obtain ⟨slot, hslot, hmem⟩ := List.mem_flatMap.1 hmem
      exact ih slot ((Kind.liveOnly_sublist _ _ _).subset hslot) _ hmem (hshows x hx)
    have hself : (n, k) = (⟨level, (Subtree.node h ss).head,
        (Subtree.node h ss).slots.map Slot.scalar?⟩ : Encounter).place ↔ n = t.handle i ∧ k = level := by
      rw [Encounter.place, hs.node_eq, Prod.mk.injEq]
    rw [hs.encounters_eq hv, ← hsnd, List.flatMap_map, List.map_cons, List.mem_cons, hself,
      List.map_flatMap, List.mem_flatMap]
    constructor
    · rintro (⟨rfl, rfl⟩ | ⟨x, hx, hmem⟩)
      · exact ⟨0, .self, rfl⟩
      · obtain ⟨d, hunder, rfl⟩ := (hchild x hx).1 hmem
        have hparent := (hv.parent_eq_iff hf).2 ⟨x.1, hfst ▸ List.mem_map_of_mem hx, rfl⟩
        exact ⟨d + 1, under_iff.2 (.inr ⟨_, d, hparent, hunder, rfl⟩), by omega⟩
    · rintro ⟨d, hunder, rfl⟩
      rcases under_iff.1 hunder with ⟨rfl, rfl⟩ | ⟨c, e, hparent, hunder, rfl⟩
      · exact .inl ⟨rfl, rfl⟩
      · obtain ⟨c, hc, rfl⟩ := (hv.parent_eq_iff hf).1 hparent
        obtain ⟨x, hx, rfl⟩ := List.mem_map.1 (hfst ▸ hc)
        exact .inr ⟨x, hx, (hchild x hx).2 ⟨e, hunder, by omega⟩⟩

/-! ## The entries of a locator -/

/-- What a locator is to list of a node that is entered, if the range of the node is known. -/
def listed? (t : Tree) (place : NodeId × Nat) : Option Locator.Entry :=
  (t.range place.1).toOption.join.map fun range => ⟨range, place.1, place.2⟩

theorem listed?_eq_some {x : Locator.Entry} :
    t.listed? (n, d) = some x ↔ t.range n = .ok (some x.range) ∧ x.node = n ∧ x.depth = d := by
  obtain ⟨range, node, depth⟩ := x
  rw [listed?]
  rcases t.range n with _ | _ | _ <;> simp [Except.toOption, eq_comm]

/-- The entries are of the nodes that are met and have a range. -/
theorem Shows.entries_eq (hv : t.Visible) (hs : t.Shows i s) (level : Nat) : s.entries t.shape level =
    ((s.encounters level).map Encounter.place).filterMap t.listed? := by
  induction s using Subtree.induct generalizing i level with
  | node h ss ih =>
    obtain ⟨r, hr, hhead⟩ := hs.exists_record
    have hrange : t.range (t.handle i) = .ok r.range := bind_eq_ok.2 ⟨r, look_eq_ok.2 ⟨rfl, hr⟩, rfl⟩
    have hself : t.listed? ((Subtree.node h ss).head.node, level) =
        (Subtree.node h ss).head.range.map fun range => ⟨range, (Subtree.node h ss).head.node, level⟩ := by
      rw [hhead, listed?, hrange]
      rfl
    obtain ⟨children, hfst, hsnd, hshows⟩ := hs.exists_children
    rw [Subtree.entries_eq, hs.encounters_eq hv, List.map_cons, List.map_flatMap,
      List.filterMap_eq_flatMap_toList, List.flatMap_cons, Encounter.place, hself,
      ← List.filterMap_eq_flatMap_toList, List.filterMap_flatMap]
    refine congrArg (_ ++ ·) (List.flatMap_congr fun c hc => ?_)
    obtain ⟨slot, hslot, hmem⟩ := List.mem_flatMap.1 hc
    obtain ⟨x, hx, rfl⟩ := List.mem_map.1 (hsnd ▸ hc)
    exact ih slot ((Kind.liveOnly_sublist _ _ _).subset hslot) _ hmem (hshows x hx) _

/-- **A locator lists what a walk enters**, each node whose range is known, at the level at which it is
entered. -/
theorem Shows.entries_eq_walk (hv : t.Visible) (hs : t.Shows i s) : s.entries t.shape 0 =
    (WalkEvent.entries 0 (s.steps t.shape fun _ => false)).filterMap t.listed? := by
  rw [hs.entries_walk hv, hs.entries_eq hv]

theorem Shows.mem_entries_iff (hf : Arena.Forest t.records) (hv : t.Visible) (hs : t.Shows i s)
    {x : Locator.Entry} : x ∈ s.entries t.shape 0 ↔
      t.Under (t.handle i) x.depth x.node ∧ t.range x.node = .ok (some x.range) := by
  rw [hs.entries_eq hv, List.mem_filterMap]
  constructor
  · rintro ⟨⟨n, k⟩, hplace, hentry⟩
    obtain ⟨hrange, rfl, rfl⟩ := listed?_eq_some.1 hentry
    obtain ⟨d, hunder, hlevel⟩ := (hs.mem_places_iff hf hv).1 hplace
    rw [hlevel, Nat.zero_add]
    exact ⟨hunder, hrange⟩
  · rintro ⟨hunder, hrange⟩
    exact ⟨(x.node, x.depth), (hs.mem_places_iff hf hv).2 ⟨_, hunder, by omega⟩,
      listed?_eq_some.2 ⟨hrange, rfl, rfl⟩⟩

/-! ## Answers -/

/-- **A node fits**: it is so far under the root, and its range is known and is one that fits. -/
def Fits (t : Tree) (r : NodeId) (fits : Span → Bool) (d : Nat) (n : NodeId) : Prop :=
  t.Under r d n ∧ ∃ range, t.range n = .ok (some range) ∧ fits range = true

/-- **The innermost node under a root that fits**: one at the greatest distance from the root, and the last of
those by the order.  There is none only if no node fits. -/
def Innermost (t : Tree) (r : NodeId) (fits : Span → Bool) (order : List NodeId) : Option NodeId → Prop
  | none => ∀ d n, ¬t.Fits r fits d n
  | some m => ∃ d, t.Fits r fits d m ∧ ∀ e n, t.Fits r fits e n →
      e ≤ d ∧ (e = d → n ≠ m → List.Sublist [n, m] order)

/-- **The outermost node under a root that fits**: one at the least distance from the root, and the first of
those by the order.  There is none only if no node fits. -/
def Outermost (t : Tree) (r : NodeId) (fits : Span → Bool) (order : List NodeId) : Option NodeId → Prop
  | none => ∀ d n, ¬t.Fits r fits d n
  | some m => ∃ d, t.Fits r fits d m ∧ ∀ e n, t.Fits r fits e n →
      d ≤ e ∧ (e = d → n ≠ m → List.Sublist [m, n] order)

/-- **A row of entries lists the nodes that fit**, each at its distance, and in the order. -/
structure Lists (t : Tree) (r : NodeId) (fits : Span → Bool) (order : List NodeId)
    (es : List Locator.Entry) : Prop where
  fits_iff : ∀ d n, t.Fits r fits d n ↔ ∃ x ∈ es, x.node = n ∧ x.depth = d
  sublist : (es.map Locator.Entry.node).Sublist order

namespace Lists

variable {es before behind : List Locator.Entry} {x y : Locator.Entry}

/-- If nothing is listed, nothing fits. -/
theorem not_fits (h : t.Lists r fits order []) : ¬t.Fits r fits d n := by
  rw [h.fits_iff]
  simp

theorem fits_of_split (h : t.Lists r fits order (before ++ y :: behind)) : t.Fits r fits y.depth y.node :=
  (h.fits_iff _ _).2 ⟨y, by simp, rfl, rfl⟩

/-- What is listed before an entry comes before it in the order. -/
theorem before_sublist (h : t.Lists r fits order (before ++ y :: behind)) (hx : x ∈ before) :
    List.Sublist [x.node, y.node] order := by
  have hpair : List.Sublist [x, y] (before ++ y :: behind) :=
    (List.singleton_sublist.2 hx).append (List.singleton_sublist.2 List.mem_cons_self)
  exact (hpair.map Locator.Entry.node).trans h.sublist

theorem behind_sublist (h : t.Lists r fits order (before ++ y :: behind)) (hx : x ∈ behind) :
    List.Sublist [y.node, x.node] order := by
  have hpair : List.Sublist [y, x] (before ++ y :: behind) :=
    (List.Sublist.cons_cons y (List.singleton_sublist.2 hx)).trans (List.sublist_append_right _ _)
  exact (hpair.map Locator.Entry.node).trans h.sublist

/-- **The deepest and last of the entries is the innermost node.** -/
theorem innermost (h : t.Lists r fits order es) :
    t.Innermost r fits order ((Locator.best? .deeper es).map Locator.Entry.node) := by
  cases es with
  | nil => exact fun d n => h.not_fits
  | cons first es =>
    obtain ⟨before, behind, hsplit, hbefore, hbehind⟩ := Locator.foldl_deeper first es
    rw [hsplit] at h
    refine ⟨_, h.fits_of_split, fun e n hfits => ?_⟩
    obtain ⟨x, hx, rfl, rfl⟩ := (h.fits_iff e n).1 hfits
    rcases List.mem_append.1 hx with hx | hx
    · exact ⟨hbefore x hx, fun _ _ => h.before_sublist hx⟩
    · rcases List.mem_cons.1 hx with rfl | hx
      · exact ⟨Nat.le_refl _, fun _ hne => absurd rfl hne⟩
      · have hlt := hbehind x hx
        exact ⟨by omega, fun heq => absurd heq (by omega)⟩

/-- **The shallowest and first of the entries is the outermost node.** -/
theorem outermost (h : t.Lists r fits order es) :
    t.Outermost r fits order ((Locator.best? .shallower es).map Locator.Entry.node) := by
  cases es with
  | nil => exact fun d n => h.not_fits
  | cons first es =>
    obtain ⟨before, behind, hsplit, hbefore, hbehind⟩ := Locator.foldl_shallower first es
    rw [hsplit] at h
    refine ⟨_, h.fits_of_split, fun e n hfits => ?_⟩
    obtain ⟨x, hx, rfl, rfl⟩ := (h.fits_iff e n).1 hfits
    rcases List.mem_append.1 hx with hx | hx
    · have hlt := hbefore x hx
      exact ⟨by omega, fun heq => absurd heq (by omega)⟩
    · rcases List.mem_cons.1 hx with rfl | hx
      · exact ⟨Nat.le_refl _, fun _ hne => absurd rfl hne⟩
      · have hle := hbehind x hx
        exact ⟨by omega, fun _ _ => h.behind_sublist hx⟩

end Lists

/-- **The entries of a locator whose ranges fit list the nodes that fit**, in the order of a walk. -/
theorem Shows.lists (hf : Arena.Forest t.records) (hv : t.Visible) (hs : t.Shows i s) (fits : Span → Bool) :
    t.Lists (t.handle i) fits ((s.steps t.shape fun _ => false).filterMap WalkEvent.entered?)
      ((s.entries t.shape 0).filter fun x => fits x.range) where
  fits_iff d n := by
    constructor
    · rintro ⟨hunder, range, hrange, hfits⟩
      have hmem : ⟨range, n, d⟩ ∈ s.entries t.shape 0 := (hs.mem_entries_iff hf hv).2 ⟨hunder, hrange⟩
      exact ⟨_, List.mem_filter.2 ⟨hmem, hfits⟩, rfl, rfl⟩
    · rintro ⟨x, hx, rfl, rfl⟩
      obtain ⟨hx, hfits⟩ := List.mem_filter.1 hx
      obtain ⟨hunder, hrange⟩ := (hs.mem_entries_iff hf hv).1 hx
      exact ⟨hunder, _, hrange, hfits⟩
  sublist := by
    rw [← WalkEvent.map_fst_entries _ 0, hs.entries_eq_walk hv]
    refine (List.filter_sublist.map _).trans ?_
    exact map_filterMap_sublist (fun _ _ hx => (listed?_eq_some.1 hx).2.1) _

/-- Nothing under the innermost node fits. -/
theorem Innermost.not_fits_under (h : t.Innermost r fits order (some m)) : ¬t.Fits m fits (d + 1) n := by
  rintro ⟨hunder, hfits⟩
  obtain ⟨e, ⟨hm, -⟩, hdeepest⟩ := h
  have hle := (hdeepest _ n ⟨hm.trans hunder, hfits⟩).1
  omega

/-- Nothing between the root and the outermost node fits. -/
theorem Outermost.not_fits_over (hf : Arena.Forest t.records) (hr : r ∈ t.nodes)
    (h : t.Outermost r fits order (some m)) (hunder : t.Under n (d + 1) m) : ¬t.Fits r fits e n := by
  rintro hfits
  obtain ⟨d', ⟨hm, -⟩, hshallowest⟩ := h
  have hle := (hshallowest e n hfits).1
  have := (hfits.1.trans hunder).unique hf hr hm
  omega

end Tree

end SyntaxForest
