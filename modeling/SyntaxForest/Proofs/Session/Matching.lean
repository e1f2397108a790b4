import SyntaxForest.Proofs.Session.Run
import SyntaxForest.Proofs.Subtree.Materialization

/-!
# Proofs/Session/Matching — comparisons in every reachable session

Within one shape a comparison is equality of completions, and so an equivalence of nodes, whatever trees
they are of.  And since a read makes only what stood for itself before, no read can be told from the
verdicts of comparisons.

* `Session.agree_iff_completion_eq` — **matching is equality of completed trees**.
* `Session.agree_after_child` — **a lazy read changes no comparison**.
-/

namespace SyntaxForest

namespace Tree

variable {t t' u u' : Tree} {n m : NodeId} {T : Typing} {p : Property} {k : Kind}

/-! ## Two trees -/

/-- The verdict on two nodes of trees of one shape, by their completions. -/
theorem exists_agree (ht : t.Sound T) (hu : u.Sound T) (hshape : t.shape = u.shape)
    (hn : n ∈ t.nodes) (hm : m ∈ u.nodes) : ∃ a b verdict, t.completion n = .ok a ∧
      u.completion m = .ok b ∧ t.agree n u m = .ok verdict ∧ (verdict = true ↔ a = b) := by
  rw [mem_nodes] at hn hm
  obtain ⟨l, hl, hln, -⟩ := exists_subtree ht.forest hn.1 hn.2
  obtain ⟨r, hr, hrm, -⟩ := exists_subtree hu.forest hm.1 hm.2
  refine ⟨_, _, ((Comparison.structural t.shape).run (.real l) (.real r)).run,
    bind_eq_ok.2 ⟨l, hln, rfl⟩, bind_eq_ok.2 ⟨r, hrm, rfl⟩, ?_, ?_⟩
  · refine bind_eq_ok.2 ⟨_, bind_eq_ok.2 ⟨l, hln, bind_eq_ok.2 ⟨r, hrm, rfl⟩⟩, ?_⟩
    rw [← hshape]
    rfl
  · rw [← hshape]
    exact Comparison.structural_matches_iff (l := .real l) (r := .real r) (hl.sound ht.typed)
      (hr.sound hu.typed)

/-- **The nodes of a tree keep their completions** in another tree. -/
structure SameCompletions (t t' : Tree) : Prop where
  shape : t'.shape = t.shape
  nodes : ∀ n ∈ t.nodes, n ∈ t'.nodes
  completion : ∀ n ∈ t.nodes, t'.completion n = t.completion n

theorem SameCompletions.refl (t : Tree) : t.SameCompletions t := ⟨rfl, fun _ h => h, fun _ _ => rfl⟩

/-- A placeholder that comes to exist. -/
theorem Lacks.sameCompletions {i : Nat} (ht : t.Sound T) (h : t.Lacks i p k)
    (hp : p ∈ p.owner.properties t.shape) : t.SameCompletions (t.materialized i p k) where
  shape := congrArg Config.shape materialized_config
  nodes n hn := by
    rw [mem_nodes] at hn ⊢
    exact ⟨by rw [hn.1, materialized_id], Nat.lt_of_lt_of_le hn.2 (h.settled ht.forest).size⟩
  completion n hn := by
    rw [mem_nodes] at hn
    have hle := (h.settled ht.forest).size
    obtain ⟨s, hs, hsub, -⟩ := exists_subtree ht.forest hn.1 hn.2
    obtain ⟨s', hs', hsub', -⟩ := exists_subtree (ht.materialize h).forest (n := n)
      (hn.1.trans materialized_id.symm) (Nat.lt_of_lt_of_le hn.2 hle)
    rw [completion, completion, hsub, hsub']
    change Except.ok (s'.completion (t.materialized i p k).config.shape) = _
    rw [materialized_config]
    exact congrArg Except.ok (hs.completion_materialized h hp hs')

/-- Trees whose nodes keep their completions keep the verdicts on them. -/
theorem SameCompletions.agree_eq (ht : t.Sound T) (hu : u.Sound T) (ht' : t'.Sound T)
    (hu' : u'.Sound T) (h : t.SameCompletions t') (h' : u.SameCompletions u')
    (hshape : t.shape = u.shape) (hn : n ∈ t.nodes) (hm : m ∈ u.nodes) :
    ∃ verdict, t.agree n u m = .ok verdict ∧ t'.agree n u' m = .ok verdict := by
  obtain ⟨a, b, v, ha, hb, hv, hab⟩ := exists_agree ht hu hshape hn hm
  obtain ⟨a', b', v', ha', hb', hv', hab'⟩ := exists_agree ht' hu'
    (h.shape.trans (hshape.trans h'.shape.symm)) (h.nodes n hn) (h'.nodes m hm)
  rw [h.completion n hn, ha] at ha'
  rw [h'.completion m hm, hb] at hb'
  cases ha'
  cases hb'
  obtain rfl : v = v' := Bool.eq_iff_iff.2 (hab.trans hab'.symm)
  exact ⟨v, hv, hv'⟩

/-- **A read keeps the completions**, if the shape offers what is read. -/
theorem child_sameCompletions {c : Option NodeId} (ht : t.Sound T) (hk : t.kind n = .ok k)
    (hp : p ∈ k.properties t.shape) (hrun : n.child p t = .ok c t') :
    t'.Sound T ∧ t.SameCompletions t' := by
  obtain ⟨-, ⟨-, rfl⟩ | ⟨k', hlacks, -, rfl⟩⟩ := (NodeId.child_atomic ht.forest).of_ok_eq hrun
  · exact ⟨ht, .refl t'⟩
  · have hkind := (kind_eq_ok.1 hk).2
    rw [hlacks.offers.kindAt] at hkind
    cases hkind
    exact ⟨ht.materialize hlacks, hlacks.sameCompletions ht hp⟩

end Tree

namespace Session

variable {s s' : Session} {i j : Nat} {t u : Tree} {n m₁ m₂ : NodeId} {k : Kind} {p : Property}

/-! ## Matching is an equivalence -/

/-- A node of some tree of the session that has the given shape. -/
structure Site (s : Session) (shape : Shape) where
  tree : Tree
  node : NodeId
  mem : tree ∈ s.trees
  shape_eq : tree.shape = shape
  node_mem : node ∈ tree.nodes

/-- **Matching is equality of completed trees**, and so an equivalence of the nodes of all trees of one
shape. -/
theorem agree_iff_completion_eq (h : Reachable s) (shape : Shape) :
    (∀ x y : s.Site shape, ∃ a b verdict, x.tree.completion x.node = .ok a ∧
      y.tree.completion y.node = .ok b ∧ x.tree.agree x.node y.tree y.node = .ok verdict ∧
        (verdict = true ↔ a = b)) ∧
    Equivalence fun x y : s.Site shape => x.tree.agree x.node y.tree y.node = .ok true := by
  have hverdict : ∀ x y : s.Site shape, ∃ a b verdict, x.tree.completion x.node = .ok a ∧
      y.tree.completion y.node = .ok b ∧ x.tree.agree x.node y.tree y.node = .ok verdict ∧
        (verdict = true ↔ a = b) := fun x y =>
    Tree.exists_agree (h.tree_sound x.mem) (h.tree_sound y.mem) (x.shape_eq.trans y.shape_eq.symm)
      x.node_mem y.node_mem
  have heq : ∀ x y : s.Site shape, x.tree.agree x.node y.tree y.node = .ok true ↔
      x.tree.completion x.node = y.tree.completion y.node := by
    intro x y
    obtain ⟨a, b, v, ha, hb, hv, hab⟩ := hverdict x y
    rw [ha, hb, hv, Except.ok.injEq, Except.ok.injEq, hab]
  refine ⟨hverdict, fun x => (heq x x).2 rfl, fun {x y} hxy => ?_, fun {x y z} hxy hyz => ?_⟩
  · exact (heq y x).2 ((heq x y).1 hxy).symm
  · exact (heq x z).2 (((heq x y).1 hxy).trans ((heq y z).1 hyz))

/-- A session of two legacy trees with a conditional expression in each. -/
def twoConditionals : Session := played [⟨.legacy, {}⟩, ⟨.legacy, {}⟩]
  [.edit 0 (.create .conditionalExpression), .edit 1 (.create .conditionalExpression)]

/-- The tree whose condition was read, which made it. -/
def readConditional : Tree where
  id := 0
  config := ⟨.legacy, {}⟩
  records := #[⟨.conditionalExpression, none, {}, none, [.list [1], .list [], .list []]⟩,
    ⟨.simpleName, none, {}, some ⟨0, .conditionElements⟩, [.scalar (.symbol "MISSING")]⟩]
  stamp := 0
  observer := none
  journal := #[]

/-- The tree whose condition was not read. -/
def unreadConditional : Tree where
  id := 1
  config := ⟨.legacy, {}⟩
  records := #[.fresh .conditionalExpression {}]
  stamp := 0
  observer := none
  journal := #[]

/-- The two match though one was read; the condition alone matches neither. -/
theorem agree_iff_completion_eq_twoConditionals : ∃ s, Reachable s ∧ readConditional ∈ s.trees ∧
    unreadConditional ∈ s.trees ∧
    readConditional.agree ⟨0, 0⟩ unreadConditional ⟨1, 0⟩ = .ok true ∧
    readConditional.completion ⟨0, 0⟩ = unreadConditional.completion ⟨1, 0⟩ ∧
    readConditional.agree ⟨0, 1⟩ unreadConditional ⟨1, 0⟩ = .ok false ∧
    readConditional.completion ⟨0, 1⟩ ≠ unreadConditional.completion ⟨1, 0⟩ := by
  have hs : Reachable (after (.edit 0 (.child ⟨0, 0⟩ .conditionExpression)) twoConditionals) :=
    .step _ (.played _ _)
  have ht : readConditional ∈
      (after (.edit 0 (.child ⟨0, 0⟩ .conditionExpression)) twoConditionals).trees := by
    decide +kernel
  have hu : unreadConditional ∈
      (after (.edit 0 (.child ⟨0, 0⟩ .conditionExpression)) twoConditionals).trees := by
    decide +kernel
  have hverdict := (agree_iff_completion_eq hs .legacy).1
  obtain ⟨a, b, v, ha, hb, hv, hab⟩ := hverdict ⟨_, ⟨0, 0⟩, ht, rfl, by decide⟩
    ⟨_, ⟨1, 0⟩, hu, rfl, by decide⟩
  obtain ⟨c, d, w, hc, hd, hw, hcd⟩ := hverdict ⟨_, ⟨0, 1⟩, ht, rfl, by decide⟩
    ⟨_, ⟨1, 0⟩, hu, rfl, by decide⟩
  have hsame : readConditional.completion ⟨0, 0⟩ = unreadConditional.completion ⟨1, 0⟩ := rfl
  have hother : readConditional.completion ⟨0, 1⟩ ≠ unreadConditional.completion ⟨1, 0⟩ := nofun
  have hyes : v = true := hab.2 (Except.ok.inj (ha.symm.trans (hsame.trans hb)))
  have hno : w = false := by
    refine Bool.eq_false_iff.2 fun h => hother ?_
    exact hc.trans (hcd.1 h ▸ hd.symm)
  exact ⟨_, hs, ht, hu, hyes ▸ hv, hsame, hno ▸ hw, hother⟩

/-! ## Reading changes nothing -/

/-- **A lazy read changes no comparison**: not of the tree that is read with itself, not with another one,
and not the other way round. -/
theorem agree_after_child (h : Reachable s) (ht : s.trees[i]? = some t) (hu : s.trees[j]? = some u)
    (hshape : t.shape = u.shape) (hm₁ : m₁ ∈ t.nodes) (hm₂ : m₂ ∈ u.nodes)
    (hk : t.kind n = .ok k) (hp : p ∈ k.properties t.shape) {reply : Reply}
    (hrun : run (.edit i (.child n p)) s = .ok reply s') :
    ∃ t' u', s'.trees[i]? = some t' ∧ s'.trees[j]? = some u' ∧
      (∃ verdict, t.agree m₁ u m₂ = .ok verdict ∧ t'.agree m₁ u' m₂ = .ok verdict) ∧
      ∃ verdict, u.agree m₂ t m₁ = .ok verdict ∧ u'.agree m₂ t' m₁ = .ok verdict := by
  obtain ⟨t₀, t', ht₀, hedit, rfl⟩ := act_eq_ok.1 hrun
  obtain rfl : t = t₀ := Option.some.inj (ht.symm.trans ht₀)
  obtain ⟨c, t'', hchild, hreply⟩ := exists_of_bind_ok hedit
  cases hreply
  obtain ⟨ht', hsame⟩ := Tree.child_sameCompletions (h.sound.trees ht) hk hp hchild
  -- whatever its number, each tree of the session keeps the completions of its nodes
  have hkeeps : ∀ {number : Nat} {v : Tree}, s.trees[number]? = some v →
      ∃ v', (s.trees.setIfInBounds i t')[number]? = some v' ∧ v'.Sound .declared ∧
        v.SameCompletions v' := by
    intro number v hv
    rw [Array.getElem?_setIfInBounds]
    split
    · next hi =>
      subst hi
      obtain rfl : t = v := Option.some.inj (ht.symm.trans hv)
      exact ⟨t', if_pos (Array.getElem?_eq_some_iff.1 ht).1, ht', hsame⟩
    · exact ⟨v, hv, h.sound.trees hv, .refl v⟩
  obtain ⟨u', hu', husound, husame⟩ := hkeeps hu
  obtain ⟨t'', ht'', htsound, htsame⟩ := hkeeps ht
  refine ⟨t'', u', ht'', hu', ?_, ?_⟩
  · exact Tree.SameCompletions.agree_eq (h.sound.trees ht) (h.sound.trees hu) htsound husound
      htsame husame hshape hm₁ hm₂
  · exact Tree.SameCompletions.agree_eq (h.sound.trees hu) (h.sound.trees ht) husound htsound
      husame htsame hshape.symm hm₂ hm₁

/-- The two match before the condition is read, and after it. -/
theorem agree_after_child_twoConditionals : ∃ s s' t u t' u', Reachable s ∧
    s.trees[0]? = some t ∧ s.trees[1]? = some u ∧
    run (.edit 0 (.child ⟨0, 0⟩ .conditionExpression)) s = .ok (.node? (some ⟨0, 1⟩)) s' ∧
    s'.trees[0]? = some t' ∧ s'.trees[1]? = some u' ∧ t.size = 1 ∧ t'.size = 2 ∧
    (∃ verdict, t.agree ⟨0, 0⟩ u ⟨1, 0⟩ = .ok verdict ∧
      t'.agree ⟨0, 0⟩ u' ⟨1, 0⟩ = .ok verdict) ∧
    ∃ verdict, u.agree ⟨1, 0⟩ t ⟨0, 0⟩ = .ok verdict ∧
      u'.agree ⟨1, 0⟩ t' ⟨0, 0⟩ = .ok verdict := by
  have hs : Reachable twoConditionals := .played _ _
  have ht : twoConditionals.trees[0]? = some { unreadConditional with id := 0 } := by
    decide +kernel
  have hu : twoConditionals.trees[1]? = some unreadConditional := by decide +kernel
  have hrun : run (.edit 0 (.child ⟨0, 0⟩ .conditionExpression)) twoConditionals =
      .ok (.node? (some ⟨0, 1⟩)) ⟨#[readConditional, unreadConditional], #[], #[]⟩ := by rfl
  have hread : ⟨0, 0⟩ ∈ ({ unreadConditional with id := 0 } : Tree).nodes := by decide
  have hother : ⟨1, 0⟩ ∈ unreadConditional.nodes := by decide
  have hkind : ({ unreadConditional with id := 0 } : Tree).kind ⟨0, 0⟩ =
      .ok .conditionalExpression := rfl
  obtain ⟨t', u', ht', hu', hverdict, hmirrored⟩ := agree_after_child hs ht hu rfl hread hother hkind
    (by decide) hrun
  obtain rfl : readConditional = t' := Option.some.inj ht'
  exact ⟨_, _, _, _, _, _, hs, ht, hu, hrun, ht', hu', rfl, rfl, hverdict, hmirrored⟩

end Session

end SyntaxForest
