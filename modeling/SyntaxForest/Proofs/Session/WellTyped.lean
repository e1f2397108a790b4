import SyntaxForest.Proofs.Edit.Worded
import SyntaxForest.Proofs.Session.Conformance
import SyntaxForest.Typed.Nodes

/-!
# Proofs/Session/WellTyped — what is stored is of the types that are declared, for life

A node has one slot for each property that its kind stores, and each slot holds what that property
declares.  Children are looked at when they come in, scalars when they are written; an image is not looked
at again, for it was taken from a tree that was right.  Nothing changes the kind of a node.

So typed handles may trust the store: a name that they return is a name, and a scalar that they read is of
the type that they take it for.

* `Session.Reachable.worded` — the scalars of reachable sessions are right.
* `Tree.Reaches.keepsKinds` — **kinds are kept**.
* `Session.wellTyped_for_life` — the whole, with what typed handles make of it.
-/

namespace SyntaxForest

/-! ## Scalars -/

namespace Scalar

theorem exists_text {ty : ScalarType} (hty : ty = .identifier ∨ ty = .number ∨ ty = .operatorToken)
    (v : Scalar) (hv : v.conformsTo ty = true) : ∃ text, v.text? = some text := by
  cases v with
  | symbol text => exact ⟨text, rfl⟩
  | _ => rcases hty with rfl | rfl | rfl <;> cases hv

theorem exists_prefixOp (v : Scalar) (hv : v.conformsTo .prefixOperator = true) :
    ∃ op, v.prefixOp? = some op := by
  cases v with
  | prefixOp op => exact ⟨op, rfl⟩
  | _ => cases hv

theorem exists_postfixOp (v : Scalar) (hv : v.conformsTo .postfixOperator = true) :
    ∃ op, v.postfixOp? = some op := by
  cases v with
  | postfixOp op => exact ⟨op, rfl⟩
  | _ => cases hv

theorem exists_primitive (v : Scalar) (hv : v.conformsTo .primitiveType = true) :
    ∃ code, v.primitive? = some code := by
  cases v with
  | primitive code => exact ⟨code, rfl⟩
  | _ => cases hv

end Scalar

/-- Scalars are read in every shape. -/
theorem Property.slotIsLive_of_scalar {p : Property} {ty : ScalarType} (h : p.form = .scalar ty)
    (shape : Shape) : p.owner.slotIsLive shape p.slot = true := by
  cases p <;> first | (cases shape <;> rfl) | cases h

/-- Where a text is needed, the empty one is refused. -/
theorem ScalarType.Takes.ne_empty {ty : ScalarType} {v : Scalar} (h : ty.Takes v)
    (hty : ty = .identifier ∨ ty = .number) : v ≠ .symbol "" := by
  rintro rfl
  rcases hty with rfl | rfl <;> cases h.text

/-! ## Trees -/

namespace Tree

variable {t t' : Tree} {n c : NodeId} {p : Property} {k : Kind} {i : Nat} {T : Typing}

/-- **The slot holds what the property declares**: a scalar of its type, and not the empty text where the
type is that of identifiers or numbers; or children whose kinds conform to its type. -/
inductive Fills (t : Tree) (p : Property) : Slot Nat → Prop
  | scalar {ty : ScalarType} {v : Scalar} : p.form = .scalar ty → v.conformsTo ty = true →
    (ty = .identifier ∨ ty = .number → v ≠ .symbol "") → Fills t p (.scalar v)
  | child {ty : ChildType} {c : Option Nat} : p.form = .child ty →
    (∀ i ∈ c, ∃ k, t.kind (t.handle i) = .ok k ∧ k.conformsTo ty = true) → Fills t p (.child c)
  | list {ty : ChildType} {cs : List Nat} : p.form = .list ty →
    (∀ i ∈ cs, ∃ k, t.kind (t.handle i) = .ok k ∧ k.conformsTo ty = true) → Fills t p (.list cs)

/-- **The slots of every node are those that its kind declares**, one for each stored property, and each
holds what the property declares. -/
def WellTyped (t : Tree) : Prop :=
  ∀ n r, t.look n = .ok r → List.Forall₂ t.Fills r.kind.storage r.slots

theorem Sound.wellTyped (h : t.Sound .declared) (hw : Arena.Worded t.records) : t.WellTyped := by
  intro n r hr
  obtain ⟨-, hr⟩ := look_eq_ok.1 hr
  have hfits := h.forest.fits hr
  have hlen : r.kind.storage.length = r.slots.length := by
    simp only [Kind.fits, Bool.and_eq_true, beq_iff_eq] at hfits
    exact hfits.1.symm
  refine List.forall₂_iff_zip.2 ⟨hlen, fun {p content} hmem => ?_⟩
  obtain ⟨s, hs⟩ := List.mem_iff_getElem?.1 hmem
  obtain ⟨hp, hcontent⟩ := List.getElem?_zip_eq_some.1 hs
  obtain ⟨_, hcontent', hform⟩ := Kind.exists_slot_of_fits hfits hp
  obtain rfl := Option.some.inj (hcontent.symm.trans hcontent')
  have hmembers : ∀ ty, p.form.childType? = some ty → ∀ i ∈ content.members,
      ∃ k, t.kind (t.handle i) = .ok k ∧ k.conformsTo ty = true := by
    intro ty hty i hi
    rw [← Arena.membersAt_of_content hr hcontent] at hi
    obtain ⟨k, hk, hadmits⟩ := h.typed hi ((Arena.storageAt_of_record hr).trans hp)
    exact ⟨k, kind_eq_ok.2 ⟨rfl, hk⟩, hadmits ty hty⟩
  rcases hty : p.form with ty | ty | ty <;> rw [hty] at hform hmembers
  · cases content with
    | scalar v =>
      have htakes : ty.Takes v := hw hr hcontent hp hty
      exact .scalar hty htakes.conforms htakes.ne_empty
    | child _ | list _ => cases hform
  · cases content with
    | child c => exact .child hty fun i hi => hmembers ty rfl i (Option.mem_toList.2 hi)
    | scalar _ | list _ => cases hform
  · cases content with
    | list cs => exact .list hty (hmembers ty rfl)
    | scalar _ | child _ => cases hform

/-! ## Kinds -/

/-- The nodes that are there keep their kinds. -/
def KeepsKinds (t t' : Tree) : Prop := ∀ n k, t.kind n = .ok k → t'.kind n = .ok k

/-- **Kinds are kept.** -/
theorem Reaches.keepsKinds (hr : t.Reaches T t') : t.KeepsKinds t' := by
  intro n k hk
  obtain ⟨hn, hk⟩ := kind_eq_ok.1 hk
  exact kind_eq_ok.2 ⟨hn.trans hr.id_config.1.symm, hr.kindAt hk⟩

/-- A copy is of the kind of the node that it was taken from. -/
theorem planted_kind {image : Image} {node : ImageNode} (h : image.nodes[i]? = some node) :
    (t.planted image).kind (t.handle (t.size + i)) = .ok node.kind := by
  refine kind_eq_ok.2 ⟨planted_id.symm, ?_⟩
  rw [planted_records]
  exact Arena.kindAt_plant ⟨node, List.mem_zipIdx_iff_getElem?.2 h, rfl⟩

/-! ## Children that calls return -/

/-- The type of names admits names only. -/
theorem kind_of_name (hty : p.primary.form.childType? = some .name)
    (h : ∃ k, t.kind c = .ok k ∧ Typing.declared.admits p.primary k) :
    t.kind c = .ok .simpleName := by
  obtain ⟨k, hk, hadmits⟩ := h
  have hname : k.conformsTo .name = true := hadmits .name hty
  obtain rfl : k = .simpleName := by simpa [Kind.conformsTo] using hname
  exact hk

/-- **The names that typed handles return are names.** -/
structure NamesAreNames (t : Tree) : Prop where
  simpleType : ∀ (m : SimpleType) c t', m.name t = .ok c t' → t'.kind c.node = .ok .simpleName
  qualifiedType : ∀ (m : QualifiedType) c t', m.name t = .ok c t' →
    t'.kind c.node = .ok .simpleName
  binding : ∀ (m : Pattern) c, m.binding t = .ok (some c) → t.kind c.node = .ok .simpleName
  clearBinding : ∀ (m : Pattern) c t', m.clearBinding t = .ok (some c) t' →
    t'.kind c.node = .ok .simpleName

/-! ## Scalars that calls return -/

/-- **A scalar is there to be read**, and of the type that is declared. -/
theorem Sound.exists_scalar_eq_ok {ty : ScalarType} (h : t.Sound .declared)
    (hw : Arena.Worded t.records) (hform : p.form = .scalar ty) (hk : t.kind n = .ok p.owner) :
    ∃ v, t.scalar n p = .ok v ∧ ty.Takes v := by
  obtain ⟨hn, hk⟩ := kind_eq_ok.1 hk
  obtain ⟨r, hr, hkind⟩ := Option.map_eq_some_iff.1 hk
  obtain ⟨v, hv⟩ := exists_scalar h.forest hr hkind.symm hform
  have hstorage : r.kind.storage[p.slot]? = some p := by
    rw [hkind, p.storage_primary, Property.primary_of_scalar hform]
  refine ⟨v, ?_, hw hr hv hstorage hform⟩
  have hcheck : t.checkProperty n p = .ok () :=
    checkProperty_iff.2 ⟨hn, r, hr, hkind.symm, hkind ▸ Property.slotIsLive_of_scalar hform t.shape⟩
  refine bind_eq_ok.2 ⟨(), hcheck, bind_eq_ok.2 ⟨r, look_eq_ok.2 ⟨hn, hr⟩, ?_⟩⟩
  rw [hv]
  rfl

/-- A projection that takes every value of the type reads the scalar. -/
theorem Sound.exists_project_eq_ok {α : Type} {k₀ : Kind} {m : Typed k₀} {ty : ScalarType}
    {f : Scalar → Option α} (h : t.Sound .declared) (hw : Arena.Worded t.records)
    (hform : p.form = .scalar ty) (hf : ∀ v, v.conformsTo ty = true → ∃ a, f v = some a)
    (hk : t.kind m.node = .ok p.owner) : ∃ a, m.project p f t = .ok a := by
  obtain ⟨v, hv, htakes⟩ := h.exists_scalar_eq_ok hw hform hk
  obtain ⟨a, ha⟩ := hf v htakes.conforms
  refine ⟨a, bind_eq_ok.2 ⟨v, hv, ?_⟩⟩
  rw [ha]
  rfl

/-- **The scalars that typed handles read are what they take them for**, on nodes of their kinds. -/
structure ScalarsAreRead (t : Tree) : Prop where
  identifier : ∀ m : SimpleName, t.kind m.node = .ok .simpleName → ∃ x, m.identifier t = .ok x
  number : ∀ m : NumberLiteral, t.kind m.node = .ok .numberLiteral → ∃ x, m.token t = .ok x
  operator : ∀ m : Operator, t.kind m.node = .ok .operator → ∃ x, m.token t = .ok x
  code : ∀ m : PrimitiveType, t.kind m.node = .ok .primitiveType → ∃ x, m.code t = .ok x
  prefixOp : ∀ m : PrefixExpression, t.kind m.node = .ok .prefixExpression →
    ∃ x, m.operator t = .ok x
  postfixOp : ∀ m : PostfixExpression, t.kind m.node = .ok .postfixExpression →
    ∃ x, m.operator t = .ok x

/-- **A sound tree whose scalars are right does for typed handles.** -/
theorem Sound.namesAreNames (h : t.Sound .declared) : t.NamesAreNames where
  simpleType m c t' hrun := by
    obtain ⟨d, _, hd, hrun⟩ := exists_of_bind_ok hrun
    cases hrun
    exact kind_of_name rfl (h.required_admits hd)
  qualifiedType m c t' hrun := by
    obtain ⟨d, _, hd, hrun⟩ := exists_of_bind_ok hrun
    cases hrun
    exact kind_of_name rfl (h.required_admits hd)
  binding m c hrun := by
    obtain ⟨ret, hret, hrun⟩ := bind_eq_ok.1 hrun
    obtain ⟨d, rfl, rfl⟩ := Option.map_eq_some_iff.1 (Except.ok.inj hrun)
    exact kind_of_name rfl (h.peekChild_admits hret)
  clearBinding m c t' hrun := by
    obtain ⟨ret, _, hret, hrun⟩ := exists_of_bind_ok hrun
    cases ret with
    | none => cases hrun
    | some d =>
      cases hrun
      exact kind_of_name rfl (h.clearChild_admits hret)

theorem Sound.scalarsAreRead (h : t.Sound .declared) (hw : Arena.Worded t.records) :
    t.ScalarsAreRead where
  identifier _ := h.exists_project_eq_ok (p := .simpleNameIdentifier) hw rfl
    (Scalar.exists_text (.inl rfl))
  number _ := h.exists_project_eq_ok (p := .numberLiteralToken) hw rfl
    (Scalar.exists_text (.inr (.inl rfl)))
  operator _ := h.exists_project_eq_ok (p := .operatorToken) hw rfl
    (Scalar.exists_text (.inr (.inr rfl)))
  code _ := h.exists_project_eq_ok (p := .primitiveTypeCode) hw rfl Scalar.exists_primitive
  prefixOp _ := h.exists_project_eq_ok (p := .prefixOperator) hw rfl Scalar.exists_prefixOp
  postfixOp _ := h.exists_project_eq_ok (p := .postfixOperator) hw rfl Scalar.exists_postfixOp

end Tree

/-! ## Sessions -/

namespace Session

variable {s s' : Session} {t t' : Tree} {image : Image} {number : Nat}

/-- The scalars of all trees and images are right. -/
structure Worded (s : Session) : Prop where
  trees : ∀ t ∈ s.trees, Arena.Worded t.records
  images : ∀ image ∈ s.images, image.Worded

theorem Worded.start (configs : List Config) : (start configs).Worded where
  trees t ht := by
    obtain ⟨i, hi⟩ := Array.mem_iff_getElem?.1 ht
    obtain ⟨config, rfl⟩ := exists_config hi
    exact .empty
  images image hi := by simp [Session.start] at hi

theorem Worded.of_tree (h : s.Worded) (ht' : Arena.Worded t'.records) :
    Worded { s with trees := s.trees.setIfInBounds number t' } where
  trees t ht := by
    rcases Array.mem_or_eq_of_mem_setIfInBounds ht with ht | rfl
    · exact h.trees t ht
    · exact ht'
  images := h.images

theorem Holds.worded (h : s.Worded) (hi : s.Holds image) : image.Worded := by
  cases hi with
  | kept hi => exact h.images image (Array.mem_of_getElem? hi)
  | taken ht hi => exact Tree.snapshot_worded (h.trees _ ht) hi

theorem Adds.worded (h : s.Worded) (hadds : s.Adds s') : s'.Worded := by
  cases hadds with
  | plant ht hi _ =>
    refine h.of_tree ?_
    rw [Tree.planted_records]
    exact (h.trees _ (Array.mem_of_getElem? ht)).plant (hi.worded h)
  | locate _ => exact ⟨h.trees, h.images⟩
  | keep hi =>
    refine ⟨h.trees, fun image himage => ?_⟩
    rcases Array.mem_push.1 himage with himage | rfl
    · exact h.images image himage
    · exact hi.worded h

theorem Additions.worded (h : s.Worded) (hadds : s.Additions s') : s'.Worded := by
  induction hadds with
  | refl => exact h
  | tail _ hadds ih => exact hadds.worded ih

/-- **Every command keeps the scalars right**, whether it succeeds or fails. -/
theorem after_worded (hs : s.Sound .declared) (h : s.Worded) (c : Command) : (after c s).Worded := by
  refine Leaves.after ?_
  by_cases hedit : c.isEdit = true
  · cases c with
    | edit number e =>
      exact .act h fun t ht =>
        h.of_tree (Tree.run_worded (hs.trees ht) (h.trees t (Array.mem_of_getElem? ht)) e)
    | _ => cases hedit
  · exact (run_adds hs (by simpa using hedit)).mono fun _ hadds => hadds.worded h

/-- **The scalars of reachable sessions are right.** -/
theorem Reachable.worded (h : Reachable s) : s.Worded := by
  induction h with
  | start configs => exact .start configs
  | step c h ih => exact after_worded h.sound ih c

/-- **What is stored is well typed for life.**  The slots of every node hold what its kind declares, and
typed handles may rely on it; a node is of the kind that it was created with, be it by a call, as a
placeholder or as a copy, and stays so whatever happens. -/
theorem wellTyped_for_life (h : Reachable s) (ht : s.trees[number]? = some t) :
    t.WellTyped ∧ t.NamesAreNames ∧ t.ScalarsAreRead ∧
      (∀ k n t', TreeM.create k t = .ok n t' → t'.kind n = .ok k) ∧
      (∀ n p c t', t.peekChild n p = .ok none → n.child p t = .ok (some c) t' →
        ∃ k, p.placeholder = some k ∧ t'.kind c = .ok k) ∧
      (∀ image copy t', s.Holds image → image.graft t = .ok copy t' →
        copy = t.handle t.size ∧ ∀ i node, image.nodes[i]? = some node →
          t'.kind (t.handle (t.size + i)) = .ok node.kind) ∧
      ∀ cs t', (s.later cs).trees[number]? = some t' → t.KeepsKinds t' := by
  have hsound := h.sound.trees ht
  have hworded := h.worded.trees t (Array.mem_of_getElem? ht)
  refine ⟨hsound.wellTyped hworded, hsound.namesAreNames, hsound.scalarsAreRead hworded,
    fun k n t' hrun => ?_, fun n p c t' hpeek hrun => ?_, fun image copy t' hi hrun => ?_,
    fun cs t' ht' => (h.reaches ht ht').keepsKinds⟩
  · cases hrun
    exact Tree.created_kind k
  · obtain ⟨-, ⟨hpeek', -⟩ | ⟨k, hlacks, hc, rfl⟩⟩ :=
      (NodeId.child_atomic hsound.forest).of_ok_eq hrun
    · cases hpeek.symm.trans hpeek'
    · cases hc
      exact ⟨k, hlacks.placeholder, Tree.materialized_kind⟩
  · obtain ⟨-, hcopy, rfl⟩ := (Image.graft_atomic (hi.sound h.sound)).of_ok_eq hrun
    exact ⟨hcopy, fun i node hnode => Tree.planted_kind hnode⟩

/-- The commands that make a pattern with a name to bind, and a type whose name nobody has read. -/
def bindName : List Command :=
  [.edit 0 (.create .pattern), .edit 0 (.createWith .simpleName .simpleNameIdentifier (.symbol "x")),
    .edit 0 (.setChild ⟨0, 0⟩ .patternBinding ⟨0, 1⟩), .edit 0 (.create .qualifiedType)]

/-- The name of the type comes to exist, the name of the pattern is taken away, and both are names; the
latter is still one when it is named anew. -/
theorem wellTyped_for_life_bindName : ∃ s t t' t'', Reachable s ∧ s.trees[0]? = some t ∧ t.WellTyped ∧
    QualifiedType.name ⟨⟨0, 2⟩⟩ t = .ok ⟨⟨0, 3⟩⟩ t' ∧ t'.kind ⟨0, 3⟩ = .ok .simpleName ∧
    Pattern.clearBinding ⟨⟨0, 0⟩⟩ t = .ok (some ⟨⟨0, 1⟩⟩) t'' ∧ t''.kind ⟨0, 1⟩ = .ok .simpleName ∧
    ∀ u, (s.later [.edit 0 (.setScalar ⟨0, 1⟩ .simpleNameIdentifier (.symbol "y"))]).trees[0]? = some u →
      u.kind ⟨0, 1⟩ = .ok .simpleName := by
  have hs : Reachable (played [⟨.legacy, {}⟩] bindName) := .played _ _
  have ht : (played [⟨.legacy, {}⟩] bindName).trees[0]? = some _ :=
    Array.getElem?_eq_getElem Nat.zero_lt_one
  obtain ⟨htyped, hnames, -, -, -, -, hkinds⟩ := wellTyped_for_life hs ht
  exact ⟨_, _, _, _, hs, ht, htyped, rfl, hnames.qualifiedType ⟨⟨0, 2⟩⟩ ⟨⟨0, 3⟩⟩ _ rfl, rfl,
    hnames.clearBinding ⟨⟨0, 0⟩⟩ ⟨⟨0, 1⟩⟩ _ rfl, fun u hu => hkinds _ u hu ⟨0, 1⟩ _ rfl⟩

end Session

end SyntaxForest
