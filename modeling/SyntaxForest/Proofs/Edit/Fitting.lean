import SyntaxForest.Proofs.Edit.Run
import SyntaxForest.Proofs.Subtree.Encounter

/-!
# Proofs/Edit/Fitting — the nodes that fit where they are

`Arena.Typed` says of all children at once that they are of kinds that a typing admits.  Of a typing that
some children go against, it can still be said which ones do, and these can be followed: no step makes a
node unfit that it does not bring in (`Arena.Fitting`), and a copy fits where what it is a copy of does.

* `Tree.Change.fitting`, `Tree.Splices.fitting` — **a node that fits goes on to fit**, if those that come in
  are admitted.
* `Edit.after_fitting`, `Edit.list_fitting` — …whatever is called.
* `Arena.Fitting.plant` — **a planted node fits if the image does at its position** (`Image.Fitting`).
* `Tree.Shows.fitting` — **an image fits where the node does** that it is of.
-/

namespace SyntaxForest

/-- **A node fits where it is**: it is a root, or of a kind that the owner of its slot admits. -/
def Arena.Fitting (T : Typing) (a : Arena) (c : Nat) : Prop :=
  ∀ l, a.locationAt c = some l → ∃ k, a.kindAt c = some k ∧ T.admits l.property k

/-- **An image fits at a position**: what is named there is of a kind that the owner of the slot admits. -/
def Image.Fitting (T : Typing) (row : List ImageNode) (q : Nat) : Prop :=
  ∀ l, (q, l) ∈ edgesFrom 0 row → ∃ node, row[q]? = some node ∧ T.admits l.property node.kind

namespace Arena.Fitting

variable {S T : Typing} {a b : Arena} {n c q : Nat} {p : Property} {x : Splice}

theorem of_root (h : a.locationAt c = none) : Fitting T a c := fun l hl => by
  rw [h] at hl
  cases hl

theorem congr (hkind : b.kindAt c = a.kindAt c) (hloc : b.locationAt c = a.locationAt c)
    (h : Fitting T a c) : Fitting T b c := fun l hl => by
  rw [hloc] at hl
  rw [hkind]
  exact h l hl

theorem of_old (hold : ∀ i < a.size, b[i]? = a[i]?) (hc : c < a.size) (h : Fitting T a c) :
    Fitting T b c := h.congr (kindAt_of_old hold hc) (locationAt_of_old hold hc)

theorem modify {f : Record → Record} (hkind : ∀ r, (f r).kind = r.kind)
    (hloc : ∀ r, (f r).location = r.location) (h : Fitting T a c) : Fitting T (a.modify n f) c :=
  h.congr (kindAt_modify hkind) (locationAt_modify hloc)

/-- A fresh node is a root. -/
theorem push_fresh {k : Kind} {flags : Flags} (h : Fitting T a c) :
    Fitting T (a.push (.fresh k flags)) c := by
  rcases Nat.lt_or_ge c a.size with hc | hc
  · exact h.of_old (fun _ => getElem?_push_old) hc
  · exact .of_root (locationAt_push_fresh hc)

/-- A splice that is to bring the node in has to bring it where it fits. -/
theorem rewire (h : Fitting T a c)
    (hadded : x.added = some c → ∃ k, a.kindAt c = some k ∧ T.admits p.primary k) :
    Fitting T (a.rewire n p x) c := by
  intro l hl
  rw [kindAt_rewire]
  rw [locationAt_rewire (by simpa using lt_size_of_locationAt hl)] at hl
  split at hl
  · rename_i ha
    cases hl
    exact hadded ha
  · split at hl
    · cases hl
    · exact h l hl

/-- What is planted fits where its image does. -/
theorem plant {flags : Flags} {row : List ImageNode} {roots : List (Nat × Kind)}
    (hlaid : Image.Laid S 0 roots row) (h : Image.Fitting T row q) :
    Fitting T (a.plant flags row) (a.size + q) := by
  intro l hl
  obtain ⟨l', he, rfl⟩ := exists_edge_of_plant hlaid hl
  obtain ⟨node, hnode, hadmits⟩ := h l' he
  exact ⟨node.kind, kindAt_plant ⟨node, List.mem_zipIdx_iff_getElem?.2 hnode, rfl⟩, hadmits⟩

end Arena.Fitting

namespace Tree

variable {S T : Typing} {t t' : Tree} {n c : Nat} {p : Property}

/-- **One step leaves a node fitting** that it does not bring in, or brings in as the typing asks. -/
theorem Change.fitting (h : t.Change T t') (hc : Arena.Fitting T t.records c) :
    Arena.Fitting T t'.records c := by
  cases h with
  | create k => exact hc.push_fresh
  | splice n p x hx hbrings =>
    rw [splice_records]
    refine hc.rewire fun hadded => ?_
    obtain ⟨k, ty, hk, hty, hconf⟩ := (hx.welcomes c hadded).conforms
    exact ⟨k, hk, hbrings c k hadded hk ty hty hconf⟩
  | materialize n p k hk =>
    rw [materialized_records]
    refine hc.push_fresh.rewire fun hadded => ?_
    cases hadded
    obtain ⟨ty, hty⟩ := Property.form_of_placeholder hk.placeholder
    have hconf : k.conformsTo ty = true :=
      Property.placeholder_conformsTo hk.placeholder (by rw [hty]; rfl)
    exact ⟨k, by simp [Arena.kindAt, size, Record.fresh], T.single hty hconf⟩
  | write n p v _ => exact commit_records ▸ hc.modify (fun _ => rfl) fun _ => rfl
  | setRange n range _ => exact hc.modify (fun _ => rfl) fun _ => rfl
  | setFlags n flags _ => exact hc.modify (fun _ => rfl) fun _ => rfl

/-- **…and so does a run of them.** -/
theorem Changes.fitting (h : t.Changes T t') (hc : Arena.Fitting T t.records c) :
    Arena.Fitting T t'.records c := by
  induction h with
  | refl => exact hc
  | tail _ hstep ih => exact hstep.fitting ih

/-- **A row of splices leaves a node fitting** that it brings in where it is admitted, or not at all. -/
theorem Splices.fitting {xs : List Splice} (h : Splices n p t xs t')
    (hadded : ∀ x ∈ xs, x.added = some c → ∀ k, Arena.kindAt t.records c = some k →
      T.admits p.primary k)
    (hc : Arena.Fitting T t.records c) : Arena.Fitting T t'.records c := by
  induction h with
  | nil _ => exact hc
  | cons hx _ ih =>
    obtain ⟨hfirst, hrest⟩ := List.forall_mem_cons.1 hadded
    refine ih ?_ (splice_records ▸ hc.rewire fun hxc => ?_)
    · simpa only [splice_records, Arena.kindAt_rewire] using hrest
    · obtain ⟨k, _, hk, -⟩ := (hx.welcomes c hxc).conforms
      exact ⟨k, hk, hfirst hxc k hk⟩

/-- **An image fits where the node does that it is of.** -/
theorem Shows.fitting {i q : Nat} {s : Subtree} (hf : Arena.Forest t.records) (hs : t.Shows i s)
    (h : ∀ d, s.nodes[q]? = some (t.handle d) → Arena.Fitting T t.records d) :
    Image.Fitting T s.image.nodes q := by
  intro l he
  have hrow : s.rowFrom 0 <+: s.image.nodes.drop 0 := List.prefix_refl _
  have hnodes : s.nodes <+: s.nodes.drop 0 := List.prefix_refl _
  obtain ⟨d, l', node, hd, hl, hp, hnode, hk⟩ := hs.exists_named hf hrow hnodes _ he
  obtain ⟨k, hk', hadmits⟩ := h d hd l' hl
  rw [hk] at hk'
  cases hk'
  exact ⟨node, hnode, hp ▸ hadmits⟩

end Tree

namespace Edit

open TreeM

variable {S T : Typing} {t : Tree} {n : NodeId} {c : Nat} {p : Property}

/-- **A call that obeys a typing leaves a node fitting**, whatever becomes of it, unless it copies. -/
theorem after_fitting (h : t.Sound S) {e : Edit} (he : ∀ n, e ≠ .copySubtree n) (hT : e.Obeys T t)
    (hc : Arena.Fitting T t.records c) : Arena.Fitting T (after e.run t).records c := by
  rcases after_does h e hT with heq | hdoes
  · exact heq.symm ▸ hc
  · generalize after e.run t = t' at hdoes ⊢
    cases hdoes with
    | turn _ hturns => exact hturns.changes.fitting hc
    | read _ _ hk => exact (Tree.Change.materialize _ _ _ hk).fitting hc
    | setRange _ hlt => exact (Tree.Change.setRange _ _ hlt).fitting hc
    | setFlags _ hlt => exact (Tree.Change.setFlags _ _ hlt).fitting hc
    | copy _ _ => exact absurd rfl (he _)
    | observe _ => exact hc

/-- **An edit of a list leaves a node fitting** that is not among the newcomers, or is admitted. -/
theorem list_fitting {edit : ListEdit} (hf : Arena.Forest t.records)
    (hnew : t.handle c ∈ edit.newcomers → ∀ k, t.kind (t.handle c) = .ok k → T.admits p.primary k)
    (hc : Arena.Fitting T t.records c) :
    (list n p edit).run.Atomic t fun _ t' => Arena.Fitting T t'.records c := by
  refine .look_bind fun s hs => .bind_pure ?_
  obtain ⟨ho, -, rfl⟩ := Sequence.sequence_eq_ok.1 hs
  exact (Sequence.apply_settles hf ho edit).atomic.mono fun _ _ ⟨_, hsplices, hadded⟩ =>
    hsplices.fitting (fun x hx hxc k hk => hnew (hadded x hx c hxc) k (Tree.kind_eq_ok.2 ⟨rfl, hk⟩)) hc

end Edit

end SyntaxForest
