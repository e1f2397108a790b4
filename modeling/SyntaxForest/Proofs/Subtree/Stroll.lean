import SyntaxForest.Proofs.Store.Descent
import SyntaxForest.Subtree.Walk

/-!
# Proofs/Subtree/Stroll — walks that may turn back early

A stroll goes into a node, through the first few of its children, and out of it again
(`Tree.Strolls`); a walk that skips nothing goes through all of them.  Whatever is left out, a
stroll stays below its start, is nested, and enters no node twice.

* `Tree.Inside` — what is asked of the steps of a walk.
* `Tree.Strolls.inside` — **every stroll is inside**.
* `Tree.Strolls.length_le` — …and so is no longer than twice the arena.
-/

namespace SyntaxForest

namespace WalkEvent

/-- The node that a step enters. -/
def entered? : WalkEvent → Option NodeId
  | enter n => some n
  | leave _ => none

/-- **Properly nested**: every node entered is left after all that was entered in between. -/
inductive Nested : List WalkEvent → Prop
  | nil : Nested []
  | pair {n : NodeId} {inner rest : List WalkEvent} :
    Nested inner → Nested rest → Nested (.enter n :: (inner ++ .leave n :: rest))

end WalkEvent

open WalkEvent

namespace Tree

variable {t : Tree} {n : NodeId} {i : Nat} {cs : List Nat} {es : List WalkEvent}

/-- **A walk as it is meant**: it stays below its start, starts by entering it and ends by leaving
it, is properly nested, and enters no node twice. -/
structure Inside (t : Tree) (start : NodeId) (steps : List WalkEvent) : Prop where
  below : ∀ e ∈ steps, ∃ ns, t.ancestors e.node = .ok ns ∧ start ∈ ns
  first : steps.head? = some (.enter start)
  last : steps.getLast? = some (.leave start)
  nested : Nested steps
  once : (steps.filterMap entered?).Nodup

/-- The children of a node that the shape of the tree shows. -/
def shown (t : Tree) (i : Nat) : List Nat := Arena.shown t.records t.shape i

/-- **The steps of strolls** through a row of nodes, one after the other. -/
inductive Strolls (t : Tree) : List Nat → List WalkEvent → Prop
  | nil : Strolls t [] []
  | cons {c : Nat} {done cs : List Nat} {body es : List WalkEvent} :
    done <+: t.shown c → Strolls t done body → Strolls t cs es →
    Strolls t (c :: cs) (.enter (t.handle c) :: (body ++ .leave (t.handle c) :: es))

namespace Strolls

theorem nested (h : t.Strolls cs es) : Nested es := by
  induction h with
  | nil => exact .nil
  | cons _ _ _ ihBody ih => exact .pair ihBody ih

/-- The children that a stroll goes through have the node as their parent. -/
theorem parent_of_done {c d : Nat} {done : List Nat} (hf : Arena.Forest t.records)
    (hdone : done <+: t.shown c) (hd : d ∈ done) :
    ∃ l, Arena.locationAt t.records d = some l ∧ l.parent = c :=
  hf.parent_of_shown (hdone.subset hd)

theorem lt_size_of_done {c : Nat} {done : List Nat} (hf : Arena.Forest t.records)
    (hdone : done <+: t.shown c) : ∀ d ∈ done, d < t.records.size := by
  intro d hd
  obtain ⟨l, hl, -⟩ := parent_of_done hf hdone hd
  exact Arena.lt_size_of_locationAt hl

/-- Every step is about a node below one of the row. -/
theorem below_of_mem (hf : Arena.Forest t.records) (h : t.Strolls cs es)
    (hcs : ∀ c ∈ cs, c < t.records.size) :
    ∀ e ∈ es, ∃ c ∈ cs, ∃ i, e.node = t.handle i ∧ Arena.Below t.records c i := by
  induction h with
  | nil => exact fun e he => by cases he
  | @cons c done cs body es hdone _ _ ihBody ih =>
    obtain ⟨hc, hcs⟩ := List.forall_mem_cons.1 hcs
    have hself : ∀ e : WalkEvent, e.node = t.handle c →
        ∃ c' ∈ c :: cs, ∃ i, e.node = t.handle i ∧ Arena.Below t.records c' i :=
      fun e he => ⟨c, List.mem_cons_self, c, he, hf.below_self hc⟩
    intro e he
    rcases List.mem_cons.1 he with rfl | he
    · exact hself _ rfl
    rcases List.mem_append.1 he with he | he
    · obtain ⟨d, hd, i, hi, hbelow⟩ := ihBody (lt_size_of_done hf hdone) e he
      obtain ⟨l, hl, rfl⟩ := parent_of_done hf hdone hd
      exact ⟨l.parent, List.mem_cons_self, i, hi,
        (Arena.Below.up hl (hf.below_self hc)).trans hbelow⟩
    rcases List.mem_cons.1 he with rfl | he
    · exact hself _ rfl
    · obtain ⟨d, hd, i, hi, hbelow⟩ := ih hcs e he
      exact ⟨d, List.mem_cons_of_mem _ hd, i, hi, hbelow⟩

/-- …and so is every node that is entered. -/
theorem below_of_entered (hf : Arena.Forest t.records) (h : t.Strolls cs es)
    (hcs : ∀ c ∈ cs, c < t.records.size) (hn : n ∈ es.filterMap entered?) :
    ∃ c ∈ cs, ∃ i, n = t.handle i ∧ Arena.Below t.records c i := by
  obtain ⟨e, he, hen⟩ := List.mem_filterMap.1 hn
  obtain ⟨c, hc, i, hi, hbelow⟩ := h.below_of_mem hf hcs e he
  cases e with
  | enter m => exact ⟨c, hc, i, (Option.some.inj hen).symm.trans hi, hbelow⟩
  | leave m => cases hen

/-- **No node is entered twice** if the nodes of the row have nothing in common below them. -/
theorem once (hf : Arena.Forest t.records) (h : t.Strolls cs es)
    (hcs : ∀ c ∈ cs, c < t.records.size) (hnodup : cs.Nodup)
    (hapart : ∀ c ∈ cs, ∀ d ∈ cs, c ≠ d → ∀ i, Arena.Below t.records c i →
      ¬Arena.Below t.records d i) : (es.filterMap entered?).Nodup := by
  induction h with
  | nil => exact List.nodup_nil
  | @cons c done cs body es hdone hbody hes ihBody ih =>
    obtain ⟨hc, hcs⟩ := List.forall_mem_cons.1 hcs
    obtain ⟨hnot, hnodup⟩ := List.nodup_cons.1 hnodup
    have hlt := lt_size_of_done hf hdone
    have hne : ∀ d ∈ cs, c ≠ d := fun d hd heq => hnot (heq ▸ hd)
    have hrest : ∀ d ∈ cs, ∀ i, Arena.Below t.records c i → ¬Arena.Below t.records d i :=
      fun d hd => hapart c List.mem_cons_self d (List.mem_cons_of_mem _ hd) (hne d hd)
    have hbodyNodup : (body.filterMap entered?).Nodup := by
      refine ihBody hlt (hf.shown_nodup.sublist hdone.sublist) fun d hd e he hde i => ?_
      obtain ⟨l, hl, hparent⟩ := parent_of_done hf hdone hd
      obtain ⟨m, hm, hparent'⟩ := parent_of_done hf hdone he
      exact Arena.not_below_both hl hm (hparent.trans hparent'.symm) hde
    have hesNodup : (es.filterMap entered?).Nodup :=
      ih hcs hnodup fun d hd e he =>
        hapart d (List.mem_cons_of_mem _ hd) e (List.mem_cons_of_mem _ he)
    rw [List.filterMap_cons_some (by rfl), List.filterMap_append,
      List.filterMap_cons_none (by rfl)]
    refine List.nodup_cons.2 ⟨fun hmem => ?_, List.nodup_append.2 ⟨hbodyNodup, hesNodup, ?_⟩⟩
    · rcases List.mem_append.1 hmem with hmem | hmem
      · obtain ⟨d, hd, i, hi, hbelow⟩ := hbody.below_of_entered hf hlt hmem
        obtain ⟨l, hl, rfl⟩ := parent_of_done hf hdone hd
        cases hi
        exact Arena.not_below_parent hl hbelow
      · obtain ⟨d, hd, i, hi, hbelow⟩ := hes.below_of_entered hf hcs hmem
        cases hi
        exact hrest d hd c (hf.below_self hc) hbelow
    · rintro n hn _ hn' rfl
      obtain ⟨d, hd, i, hi, hbelow⟩ := hbody.below_of_entered hf hlt hn
      obtain ⟨d', hd', i', hi', hbelow'⟩ := hes.below_of_entered hf hcs hn'
      obtain ⟨l, hl, rfl⟩ := parent_of_done hf hdone hd
      cases hi.symm.trans hi'
      exact hrest d' hd' i ((Arena.Below.up hl (hf.below_self hc)).trans hbelow) hbelow'

theorem length_eq (h : t.Strolls cs es) : es.length = 2 * (es.filterMap entered?).length := by
  induction h with
  | nil => rfl
  | cons _ _ _ ihBody ih =>
    simp only [List.length_cons, List.length_append, List.filterMap_cons, List.filterMap_append,
      entered?]
    omega

/-- **Every stroll from a node is inside.** -/
theorem inside (hf : Arena.Forest t.records) (h : t.Strolls [i] es) (hi : i < t.records.size) :
    t.Inside (t.handle i) es := by
  have hrow : ∀ c ∈ [i], c < t.records.size := fun c hc => List.mem_singleton.1 hc ▸ hi
  have hbelow := h.below_of_mem hf hrow
  refine ⟨fun e he => ?_, ?_, ?_, h.nested, h.once hf hrow (List.nodup_singleton i) ?_⟩
  · obtain ⟨c, hc, j, hj, chain, hchain, hmem⟩ := hbelow e he
    obtain rfl := List.mem_singleton.1 hc
    rw [hj]
    exact ⟨_, ancestors_eq_ok.2 ⟨rfl, chain, hchain, rfl⟩, List.mem_map_of_mem hmem⟩
  · cases h
    rfl
  · cases h with
    | @cons _ _ _ body es _ _ hes =>
      cases hes
      rw [← List.cons_append, List.getLast?_append]
      rfl
  · intro c hc d hd hne
    exact absurd ((List.mem_singleton.1 hc).trans (List.mem_singleton.1 hd).symm) hne

/-- …and so is no longer than twice the arena. -/
theorem length_le (hf : Arena.Forest t.records) (h : t.Strolls [i] es) (hi : i < t.records.size) :
    es.length ≤ 2 * t.size := by
  have hrow : ∀ c ∈ [i], c < t.records.size := fun c hc => List.mem_singleton.1 hc ▸ hi
  have hsub : es.filterMap entered? ⊆ t.nodes := by
    intro n hn
    obtain ⟨c, -, j, rfl, hbelow⟩ := h.below_of_entered hf hrow hn
    exact List.mem_map_of_mem (List.mem_range.2 hbelow.lt_size)
  have hle := (List.subperm_of_subset (h.inside hf hi).once hsub).length_le
  rw [nodes, List.length_map, List.length_range] at hle
  rw [h.length_eq]
  omega

end Strolls

end Tree

end SyntaxForest
