import SyntaxForest.Proofs.Session.Foreign
import SyntaxForest.Proofs.Session.Walks
import SyntaxForest.Proofs.Subtree.Block

/-!
# Proofs/Session/Blocks — a row of copies is a row of blocks

Copies of some nodes are made one after the other in another tree.  Where a copy comes to stand depends on those
before it, and one that is refused ends the row.  What has been copied until then stays, block after block, and of
what has not nothing is left.

* `Tree.Receives` — what a tree is after it has taken in some copies.
* `Session.clone_cases` — a node is copied, or it is barred and nothing has happened.
* `Session.copies_in_order` — **a row of copies is made in order, up to the first node that is barred**.
-/

namespace SyntaxForest

namespace Tree

variable {t u u' u'' : Tree} {n root : NodeId} {image : Image} {images : List Image} {roots : List NodeId}

/-- **Copies side by side**: the first one stands at an index, each other where the one before it ends. -/
inductive CopiesFrom (u : Tree) : (start : Nat) → List Image → List NodeId → Prop
  | nil (start : Nat) : u.CopiesFrom start [] []
  | cons {start : Nat} {image : Image} {images : List Image} {root : NodeId} {roots : List NodeId} :
    u.CopyAt start image root → u.CopiesFrom (start + image.size) images roots →
    u.CopiesFrom start (image :: images) (root :: roots)

/-- **The tree has taken in copies of the images**: what was there is as it was, and behind it stand the copies
side by side, and nothing else.  This does not count as a change. -/
structure Receives (u : Tree) (images : List Image) (roots : List NodeId) (u' : Tree) : Prop extends
    u.Extends u' where
  stamp : u'.stamp = u.stamp
  grown : u'.size = u.size + total (images.map Image.size)
  copies : u'.CopiesFrom u.size images roots

theorem Receives.refl (u : Tree) : u.Receives [] [] u where
  toExtends := .refl u
  stamp := rfl
  grown := rfl
  copies := .nil _

/-- A copy comes before the others. -/
theorem Receives.cons (hgrafted : u.Grafted image root u') (hcopy : u'.CopyAt u.size image root)
    (h : u'.Receives images roots u'') (hf : Arena.Forest u'.records) (hf' : Arena.Forest u''.records) :
    u.Receives (image :: images) (root :: roots) u'' where
  toExtends := hgrafted.toExtends.trans h.toExtends
  stamp := h.stamp.trans hgrafted.stamp
  grown := by
    rw [h.grown, hgrafted.grown, List.map_cons, total_cons, Nat.add_assoc]
  copies := .cons (hcopy.mono hf hf' h.toExtends) (hgrafted.grown ▸ h.copies)

/-- **Why a node is not copied**: it is a node of another tree, or there is something below it that the shape does
not read. -/
inductive Bars (t : Tree) (n : NodeId) (shape : Shape) : Refusal → Prop
  | foreign : n.tree ≠ t.id → t.Bars n shape .foreignTree
  | exceeds {image : Image} {k : Kind} {p : Property} : t.snapshot n = .ok image → image.Exceeds shape k p →
    t.Bars n shape (.unsupported k p (.notInShape shape))

end Tree

namespace Session

variable {s : Session} {i j : Nat} {t u : Tree} {n : NodeId} {ns : List NodeId}

/-- A call that a command is made of leaves a reachable session, whatever becomes of it. -/
theorem Reachable.leaves {α : Type} {a : SessionM α} {f : α → Reply} {c : Command} (h : Reachable s)
    (hc : Session.run c = do return f (← a)) : Leaves Reachable a s := by
  have hstep := h.step c
  rw [after, hc] at hstep
  rw [Leaves]
  rcases ha : a s with ⟨x, s'⟩ | ⟨e, s'⟩
  · rwa [bind_of_ok ha] at hstep
  · rwa [bind_of_error ha] at hstep

theorem Reachable.clone (h : Reachable s) : Leaves Reachable (Session.clone i n j) s :=
  h.leaves (f := .node) (c := .clone i n j) rfl

theorem Reachable.cloneAll (h : Reachable s) : Leaves Reachable (Session.cloneAll i ns j) s :=
  h.leaves (f := .nodes) (c := .cloneAll i ns j) rfl

/-- **A node is copied, or it is barred** and nothing has happened. -/
theorem clone_cases (h : Reachable s) (ht : s.trees[i]? = some t) (hu : s.trees[j]? = some u)
    (hn : n.tree = t.id → n ∈ t.nodes) :
    (∃ image root u', t.snapshot n = .ok image ∧ (∀ k p, ¬image.Exceeds u.shape k p) ∧
      u.Grafted image root u' ∧ u'.CopyAt u.size image root ∧
      clone i n j s = .ok root { s with trees := s.trees.setIfInBounds j u' }) ∨
    ∃ r, t.Bars n u.shape r ∧ clone i n j s = .error (.refused r) s := by
  by_cases hown : n.tree = t.id
  · have htsound := h.sound.trees ht
    have husound := h.sound.trees hu
    obtain ⟨-, hlt⟩ := Tree.mem_nodes.1 (hn hown)
    obtain ⟨a, -, -, ha⟩ := Tree.exists_subtree htsound.forest hown hlt
    have hsnap : t.snapshot n = .ok a.image := bind_eq_ok.2 ⟨a, ha, rfl⟩
    have hi : a.image.Sound .declared := Tree.snapshot_sound htsound.typed hsnap
    have hclone : clone i n j s = act j a.image.graft s :=
      look_bind_run (bind_eq_ok.2 ⟨t, tree_eq_ok.2 ht, hsnap⟩)
    rcases a.image.checkPlantable_cases u.shape with ⟨hcheck, hfits⟩ | ⟨k, p, hexceeds, hcheck⟩
    · have hrun := hclone.trans (act_eq_ok.2 ⟨u, _, hu, Image.graft_run hi hcheck, rfl⟩)
      have hvisible := (h.clone.of_ok hrun).visible (getElem?_setIfInBounds_same hu _)
      exact .inl ⟨_, _, _, hsnap, hfits, Tree.grafted husound hi hcheck,
        Tree.planted_copyAt husound hvisible hi hcheck, hrun⟩
    · exact .inr ⟨_, .exceeds hsnap hexceeds, hclone.trans (act_error hu (TreeM.look_bind_error hcheck))⟩
  · exact .inr ⟨_, .foreign hown, clone_foreign ht hown⟩

/-- **A row of copies is made in order, up to the first node that is barred.**  The nodes before it have been
copied: the other tree is as it was, but for a block for each of them, one behind the other in the order of the
row, and the roots of these blocks are the answer if no node is barred.  The first that is makes the row fail, for
the reason that it has, and leaves nothing behind.  A node may come several times, and beside one that it is
below. -/
theorem copies_in_order (h : Reachable s) (ht : s.trees[i]? = some t) (hu : s.trees[j]? = some u) (hij : i ≠ j)
    (hns : ∀ n ∈ ns, n.tree = t.id → n ∈ t.nodes) : ∃ done rest images roots u',
      ns = done ++ rest ∧ done.mapM t.snapshot = .ok images ∧
      (∀ image ∈ images, ∀ k p, ¬image.Exceeds u.shape k p) ∧ u.Receives images roots u' ∧
      (rest = [] ∧ cloneAll i ns j s = .ok roots { s with trees := s.trees.setIfInBounds j u' } ∨
        ∃ n tail r, rest = n :: tail ∧ t.Bars n u.shape r ∧
          cloneAll i ns j s = .error (.refused r) { s with trees := s.trees.setIfInBounds j u' }) := by
  induction ns generalizing s u with
  | nil =>
    refine ⟨[], [], [], [], u, rfl, rfl, List.forall_mem_nil _, .refl u, .inl ⟨rfl, ?_⟩⟩
    rw [setIfInBounds_same hu]
    rfl
  | cons n ns ih =>
    obtain ⟨hn, hns⟩ := List.forall_mem_cons.1 hns
    rcases clone_cases h ht hu hn with
      ⟨image, root, u₁, hsnap, hfits, hgrafted, hcopy, hclone⟩ | ⟨r, hbars, hclone⟩
    · have h₁ := h.clone.of_ok hclone
      have ht₁ : (s.trees.setIfInBounds j u₁)[i]? = some t := by
        rw [Array.getElem?_setIfInBounds, if_neg hij.symm, ht]
      have hu₁ := getElem?_setIfInBounds_same hu u₁
      have hshape : u₁.shape = u.shape := congrArg Config.shape hgrafted.config
      obtain ⟨done, rest, images, roots, u', hsplit, himages, hfits', hreceives, hend⟩ := ih h₁ ht₁ hu₁ hns
      simp only [Array.setIfInBounds_setIfInBounds, hshape] at hfits' hend
      have h' : Reachable { s with trees := s.trees.setIfInBounds j u' } := by
        rcases hend with ⟨_, hrun⟩ | ⟨_, _, _, _, _, hrun⟩
        · exact h₁.cloneAll.of_ok hrun
        · exact h₁.cloneAll.of_error hrun
      have hf₁ := (h₁.sound.trees hu₁).forest
      have hf' := (h'.sound.trees (getElem?_setIfInBounds_same hu u')).forest
      refine ⟨n :: done, rest, image :: images, root :: roots, u', congrArg (n :: ·) hsplit, ?_,
        List.forall_mem_cons.2 ⟨hfits, hfits'⟩, hreceives.cons hgrafted hcopy hf₁ hf', ?_⟩
      · rw [List.mapM_cons]
        exact bind_eq_ok.2 ⟨image, hsnap, bind_eq_ok.2 ⟨images, himages, rfl⟩⟩
      · rw [cloneAll_cons_of_ok hclone]
        rcases hend with ⟨hrest, hrun⟩ | ⟨m, tail, r, hrest, hbars, hrun⟩
        · exact .inl ⟨hrest, bind_of_ok hrun⟩
        · exact .inr ⟨m, tail, r, hrest, hbars, bind_of_error hrun⟩
    · refine ⟨[], n :: ns, [], [], u, rfl, rfl, List.forall_mem_nil _, .refl u,
        .inr ⟨n, ns, r, rfl, hbars, ?_⟩⟩
      rw [setIfInBounds_same hu]
      exact cloneAll_cons_error hclone

/-- A session of two trees, one of each shape.  In the first there are a pattern of a name, and an annotated type; in
the second there is a pattern. -/
def patternAndAnnotated : Session := played [⟨.current, {}⟩, ⟨.legacy, {}⟩]
  [.edit 0 (.create .pattern), .edit 0 (.create .simpleName),
    .edit 0 (.list ⟨0, 0⟩ .patternElements (.push ⟨0, 1⟩)), .edit 0 (.create .qualifiedType),
    .edit 0 (.create .simpleName), .edit 0 (.list ⟨0, 2⟩ .qualifiedTypeAnnotations (.push ⟨0, 3⟩)),
    .edit 1 (.create .pattern)]

/-- The name, and twice the pattern around it, the annotated type, and the name again. -/
def nestedRow : List NodeId := [⟨0, 1⟩, ⟨0, 0⟩, ⟨0, 0⟩, ⟨0, 2⟩, ⟨0, 1⟩]

/-- The annotated type is refused by the legacy tree, which has three more blocks then. -/
theorem copies_in_order_nestedRow : ∃ s t u images roots u', Reachable s ∧ s.trees[0]? = some t ∧
    s.trees[1]? = some u ∧ (nestedRow.take 3).mapM t.snapshot = .ok images ∧ u.Receives images roots u' ∧
    u.size = 1 ∧ u'.size = 6 ∧ cloneAll 0 nestedRow 1 s =
      .error (.refused (.unsupported .qualifiedType .qualifiedTypeAnnotations (.notInShape .legacy)))
        { s with trees := s.trees.setIfInBounds 1 u' } := by
  have hs : Reachable patternAndAnnotated := .played _ _
  have ht : patternAndAnnotated.trees[0]? = some _ := Array.getElem?_eq_getElem (by decide +kernel)
  have hu : patternAndAnnotated.trees[1]? = some _ := Array.getElem?_eq_getElem (by decide +kernel)
  have hns : ∀ n ∈ nestedRow, n.tree = patternAndAnnotated.trees[0].id →
      n ∈ patternAndAnnotated.trees[0].nodes := by decide +kernel
  have hsize : patternAndAnnotated.trees[1].size = 1 := by decide +kernel
  obtain ⟨done, rest, images, roots, u', hsplit, himages, -, hreceives, hend⟩ :=
    copies_in_order hs ht hu (by decide) hns
  have hfails : (match cloneAll 0 nestedRow 1 patternAndAnnotated with
      | .ok _ _ => none
      | .error e s' => some (e, s'.trees[1]?.map Tree.size)) =
    some (.refused (.unsupported .qualifiedType .qualifiedTypeAnnotations (.notInShape .legacy)), some 6) := by
    decide +kernel
  rcases hend with ⟨_, hrun⟩ | ⟨_, _, r, _, _, hrun⟩ <;> rw [hrun] at hfails
  · cases hfails
  · obtain ⟨hr, hsize'⟩ := Prod.mk.inj (Option.some.inj hfails)
    rw [getElem?_setIfInBounds_same hu] at hsize'
    have hsize' : u'.size = 6 := Option.some.inj hsize'
    -- what has come to the other tree tells how many nodes have been copied
    have hsizes : ∀ k < 6, k ≠ 3 → ((nestedRow.take k).mapM patternAndAnnotated.trees[0].snapshot).toOption.map
        (fun images => total (images.map Image.size)) ≠ some 5 := by decide +kernel
    have hdone := List.prefix_iff_eq_take.1 ⟨rest, hsplit.symm⟩
    have hlength : done.length < 6 :=
      Nat.lt_succ_of_le (List.IsPrefix.length_le ⟨rest, hsplit.symm⟩)
    have hthree : done.length = 3 := by
      by_contra hne
      refine hsizes _ hlength hne ?_
      have htotal : total (images.map Image.size) = 5 := by
        have := hreceives.grown
        omega
      rw [← hdone, himages]
      exact congrArg some htotal
    rw [hthree] at hdone
    cases hr
    exact ⟨_, _, _, images, roots, u', hs, ht, hu, hdone ▸ himages, hreceives, hsize, hsize', hrun⟩

end Session

end SyntaxForest
