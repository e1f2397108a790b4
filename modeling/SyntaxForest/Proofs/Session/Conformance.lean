import SyntaxForest.Proofs.Session.Misfits

/-!
# Proofs/Session/Conformance — the kinds that single children are found to have

Children are of the type that the owner of their slot declares (`Typing.declared`), and a property that reads
a single child declares the same type, except that the qualifier of a qualified type is read out of a list that
takes any node.  So what is read is of the declared type, unless it is one of the nodes that were put into
that list without being types, or copied from there (`Session.Misfit`).

* `Session.child_conforms` — **what is read is of the declared type, unless it is the qualifier and a
  misfit**; a misfit is not.
* `Session.qualifier_not_conforms` — the exception is real.
-/

namespace SyntaxForest

namespace Tree

variable {t t' : Tree} {n c : NodeId} {p : Property} {i : Nat} {T : Typing}

/-- What is in the slot of a property is of a kind that the slot admits. -/
theorem Sound.member_admits (h : t.Sound T) (hk : Arena.kindAt t.records n.index = some p.owner)
    (hi : i ∈ Arena.membersAt t.records n.index p.slot) :
    ∃ k, t.kind (t.handle i) = .ok k ∧ T.admits p.primary k := by
  obtain ⟨k, hk, hadmits⟩ := h.typed hi (Arena.storageAt_slot hk)
  exact ⟨k, kind_eq_ok.2 ⟨rfl, hk⟩, hadmits⟩

/-- A child that is there is of a kind that its slot admits. -/
theorem Sound.peekChild_admits (h : t.Sound T) (hc : t.peekChild n p = .ok (some c)) :
    ∃ k, t.kind c = .ok k ∧ T.admits p.primary k := by
  obtain ⟨hn, hp, old, hold, hret⟩ := peekChild_ok hc
  obtain ⟨d, rfl, rfl⟩ := Option.map_eq_some_iff.1 hret
  refine h.member_admits hp.kindAt ?_
  rw [(currentChild_members hold).2]
  exact List.mem_singleton_self d

/-- …and so is one that comes to exist when it is read. -/
theorem Sound.child_admits (h : t.Sound T) (hrun : n.child p t = .ok (some c) t') :
    ∃ k, t'.kind c = .ok k ∧ T.admits p.primary k := by
  obtain ⟨-, ⟨hpeek, rfl⟩ | ⟨k, hlacks, hc, rfl⟩⟩ := (NodeId.child_atomic h.forest).of_ok_eq hrun
  · exact h.peekChild_admits hpeek
  · cases hc
    obtain ⟨ty, hty⟩ := Property.form_of_placeholder hlacks.placeholder
    have hconf : k.conformsTo ty = true :=
      Property.placeholder_conformsTo hlacks.placeholder (by rw [hty]; rfl)
    exact ⟨k, materialized_kind, T.single hty hconf⟩

theorem Sound.required_admits {k₀ : Kind} {m : Typed k₀} (h : t.Sound T)
    (hrun : m.required p t = .ok c t') : ∃ k, t'.kind c = .ok k ∧ T.admits p.primary k := by
  obtain ⟨ret, u, hchild, hrun⟩ := exists_of_bind_ok hrun
  rcases ret with _ | d
  · cases hrun
  · cases hrun
    exact h.child_admits hchild

/-- A child that goes out of its slot was admitted before. -/
theorem Sound.clearChild_admits (h : t.Sound T) (hrun : n.clearChild p t = .ok (some c) t') :
    ∃ k, t'.kind c = .ok k ∧ T.admits p.primary k := by
  obtain ⟨-, hoffers, ⟨hc, -⟩ | ⟨i, hc, hallows, rfl⟩⟩ :=
    (NodeId.clearChild_settles h.forest).atomic.of_ok_eq hrun
  · cases hc
  · cases hc
    obtain ⟨k, hk, hadmits⟩ := h.member_admits hoffers.kindAt (hallows.admits.removed_mem rfl)
    exact ⟨k, kind_eq_ok.2 ⟨splice_id.symm, by simpa using (kind_eq_ok.1 hk).2⟩, hadmits⟩

/-- A child that is there stands in the slot of the property. -/
theorem peekChild_located (hf : Arena.Forest t.records) (hc : t.peekChild n p = .ok (some c)) :
    Arena.locationAt t.records c.index = some ⟨n.index, p.primary⟩ := by
  obtain ⟨hn, hp, old, hold, hret⟩ := peekChild_ok hc
  obtain ⟨d, rfl, rfl⟩ := Option.map_eq_some_iff.1 hret
  obtain ⟨q, hq, hl⟩ := hf.filed (c := d) (i := n.index) (s := p.slot)
    ((currentChild_members hold).2 ▸ List.mem_singleton_self d)
  rw [Arena.storageAt_slot hp.kindAt] at hq
  cases hq
  exact hl

end Tree

namespace Session

variable {configs : List Config} {cs : List Command} {i : Nat} {t : Tree} {n c : NodeId} {p : Property}
  {ty : ChildType}

/-- A node that is a misfit is there, and is no type. -/
theorem Misfit.kind (h : Misfit configs cs (.tree i c.index))
    (ht : (played configs cs).trees[i]? = some t) :
    ∃ k, Arena.kindAt t.records c.index = some k ∧ k.conformsTo .type = false := by
  obtain ⟨k, hk, htype⟩ := h.exists_kind
  rw [kindAt, ht] at hk
  exact ⟨k, hk, htype⟩

/-- A child that is there is of the declared type, unless it is the qualifier and a misfit. -/
theorem peekChild_conforms (ht : (played configs cs).trees[i]? = some t) (hp : p.form = .child ty)
    (hc : t.peekChild n p = .ok (some c)) : ∃ k, t.kind c = .ok k ∧
      (k.conformsTo ty = true ↔
        ¬(p = .qualifiedTypeQualifier ∧ Misfit configs cs (.tree i c.index))) := by
  have hsound := (Reachable.played configs cs).sound.trees ht
  obtain ⟨k, hk, hadmits⟩ := hsound.peekChild_admits hc
  refine ⟨k, hk, ?_⟩
  have hkind := (Tree.kind_eq_ok.1 hk).2
  by_cases hq : p = .qualifiedTypeQualifier
  · subst hq
    cases hp
    constructor
    · rintro htype ⟨-, hmisfit⟩
      obtain ⟨k', hk', hno⟩ := hmisfit.kind ht
      rw [hkind] at hk'
      cases hk'
      rw [htype] at hno
      cases hno
    · intro hno
      rcases (fitting_or_misfit configs cs).trees c.index ht with hfit | hmisfit
      · obtain ⟨k', hk', hstrict⟩ := hfit _ (Tree.peekChild_located hsound.forest hc)
        rw [hkind] at hk'
        cases hk'
        exact hstrict.2 rfl
      · exact absurd ⟨rfl, hmisfit⟩ hno
  · have hty : p.primary.form.childType? = some ty :=
      (Property.childType?_primary hq).trans (by rw [hp]; rfl)
    exact iff_of_true (hadmits ty hty) fun h => hq h.1

/-- **A single child that is read is of the declared type**, unless it is the qualifier of a qualified type and
a misfit: a node that was put among the elements of a qualified type without being a type, or the copy of such
a node.  A misfit is not of the declared type.  A placeholder that the read makes always is. -/
theorem child_conforms (configs : List Config) (cs : List Command)
    (ht : (played configs cs).trees[i]? = some t) (n : NodeId) (hp : p.form = .child ty) :
    (∀ c, t.peekChild n p = .ok (some c) → ∃ k, t.kind c = .ok k ∧
      (k.conformsTo ty = true ↔
        ¬(p = .qualifiedTypeQualifier ∧ Misfit configs cs (.tree i c.index)))) ∧
    ∀ c t', n.child p t = .ok (some c) t' → ∃ k, t'.kind c = .ok k ∧
      (k.conformsTo ty = true ↔
        ¬(p = .qualifiedTypeQualifier ∧ t' = t ∧ Misfit configs cs (.tree i c.index))) := by
  refine ⟨fun c => peekChild_conforms ht hp, fun c t' hrun => ?_⟩
  have hsound := (Reachable.played configs cs).sound.trees ht
  obtain ⟨-, ⟨hpeek, rfl⟩ | ⟨k, hk, hc, rfl⟩⟩ := (NodeId.child_atomic hsound.forest).of_ok_eq hrun
  · obtain ⟨k, hk, hiff⟩ := peekChild_conforms ht hp hpeek
    exact ⟨k, hk, by simpa using hiff⟩
  · cases hc
    have hconf : k.conformsTo ty = true :=
      Property.placeholder_conformsTo hk.placeholder (by rw [hp]; rfl)
    refine ⟨k, Tree.materialized_kind, iff_of_true hconf fun ⟨_, hsame, _⟩ => ?_⟩
    -- the tree has one node more
    have hsize : t.records.size + 1 = t.records.size := by
      simpa [Tree.created] using congrArg (·.records.size) hsame
    omega

/-- The commands that put a node of some kind where a legacy tree reads the qualifier of a type. -/
def putQualifier (k : Kind) : List Command :=
  [.edit 0 (.create .qualifiedType), .edit 0 (.create k),
    .edit 0 (.list ⟨0, 0⟩ .qualifiedTypeElements (.push ⟨0, 1⟩))]

/-- A legacy tree makes the index of an array access when it is read.  It reads as a qualifier the type that
was put there, which is no misfit, and the number that was put there, which is one. -/
theorem child_conforms_legacy :
    (∃ t t', (played [⟨.legacy, {}⟩] [.edit 0 (.create .arrayAccess)]).trees[0]? = some t ∧
      NodeId.child ⟨0, 0⟩ .arrayAccessIndex t = .ok (some ⟨0, 1⟩) t' ∧
        ∃ k, t'.kind ⟨0, 1⟩ = .ok k ∧ k.conformsTo .expression = true) ∧
    (∃ t, (played [⟨.legacy, {}⟩] (putQualifier .simpleType)).trees[0]? = some t ∧
      t.peekChild ⟨0, 0⟩ .qualifiedTypeQualifier = .ok (some ⟨0, 1⟩) ∧
        ¬Misfit [⟨.legacy, {}⟩] (putQualifier .simpleType) (.tree 0 1)) ∧
    ∃ t, (played [⟨.legacy, {}⟩] (putQualifier .numberLiteral)).trees[0]? = some t ∧
      t.peekChild ⟨0, 0⟩ .qualifiedTypeQualifier = .ok (some ⟨0, 1⟩) ∧
        Misfit [⟨.legacy, {}⟩] (putQualifier .numberLiteral) (.tree 0 1) := by
  refine ⟨⟨_, _, rfl, rfl, ?_⟩, ⟨_, rfl, rfl, ?_⟩, ⟨_, rfl, rfl, ?_⟩⟩
  · obtain ⟨k, hk, hiff⟩ := (child_conforms [⟨.legacy, {}⟩] [.edit 0 (.create .arrayAccess)] (i := 0) rfl
      ⟨0, 0⟩ (p := .arrayAccessIndex) rfl).2 ⟨0, 1⟩ _ rfl
    exact ⟨k, hk, hiff.2 fun h => by cases h.1⟩
  · obtain ⟨k, hk, hiff⟩ := (child_conforms [⟨.legacy, {}⟩] (putQualifier .simpleType) (i := 0) rfl ⟨0, 0⟩
      (p := .qualifiedTypeQualifier) rfl).1 ⟨0, 1⟩ rfl
    obtain rfl : k = .simpleType := Except.ok.inj (hk.symm.trans (by rfl))
    exact fun hmisfit => hiff.1 rfl ⟨rfl, hmisfit⟩
  · obtain ⟨k, hk, hiff⟩ := (child_conforms [⟨.legacy, {}⟩] (putQualifier .numberLiteral) (i := 0) rfl ⟨0, 0⟩
      (p := .qualifiedTypeQualifier) rfl).1 ⟨0, 1⟩ rfl
    obtain rfl : k = .numberLiteral := Except.ok.inj (hk.symm.trans (by rfl))
    by_contra hno
    cases hiff.2 fun h => hno h.2

/-- **The qualifier need not be a type**: it is read out of a list that takes any node. -/
theorem qualifier_not_conforms : ¬∀ (s : Session) (t : Tree) (n c : NodeId) (p : Property)
    (ty : ChildType), Reachable s → t ∈ s.trees → p.form = .child ty →
      t.peekChild n p = .ok (some c) → ∃ k, t.kind c = .ok k ∧ k.conformsTo ty = true := by
  intro h
  have ht := @Array.getElem_mem _
    (played [⟨.legacy, {}⟩] (putQualifier .numberLiteral)).trees 0 (by decide +kernel)
  obtain ⟨k, hk, hconf⟩ := h _ _ ⟨0, 0⟩ ⟨0, 1⟩ .qualifiedTypeQualifier .type (.played _ _) ht rfl
    (by rfl)
  obtain rfl : k = .numberLiteral := Except.ok.inj (hk.symm.trans (by rfl))
  cases hconf

end Session

end SyntaxForest
