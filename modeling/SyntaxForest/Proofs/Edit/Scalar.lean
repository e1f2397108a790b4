import SyntaxForest.Proofs.Edit.Answers

/-!
# Proofs/Edit/Scalar — what the calls about scalars, ranges and marks do

Each of them is one step, or nothing at all.
-/

namespace SyntaxForest

namespace NodeId

open TreeM

variable {t : Tree} {n : NodeId} {p : Property}

/-- **A scalar is written**, or nothing happens. -/
theorem setScalar_settles {v : Scalar} (hf : Arena.Forest t.records) :
    (n.setScalar p v).Settles (n ∈ t.nodes) t fun _ t' =>
      n.tree = t.id ∧ t.Takes n.index p v ∧ t' = t.written n.index p v := by
  refine .look_bind Tree.checkProperty_answered fun _ hp =>
    .look_bind (fun _ => Property.scalarType_answered) fun ty hty =>
    .look_bind (fun _ => .guard _ _) fun _ hconf => .look_bind (fun _ => .guard _ _) fun _ htext =>
    .look_bind Tree.checkModifiable_answered fun _ hm => ?_
  obtain ⟨hn, hp⟩ := Tree.checkProperty_iff.1 hp
  have hform := Property.scalarType_eq_ok.1 hty
  rw [unlessRefused_eq_ok] at hconf htext
  rw [Bool.not_eq_true'] at htext
  obtain ⟨-, hm⟩ := Tree.checkModifiable_eq_ok.1 hm
  refine .of_ok (x := ()) (u := t.written n.index p v) ?_
    ⟨hn, ⟨hp, hm, ty, hform, hconf, htext⟩, rfl⟩
  obtain ⟨r, hr, ho, -⟩ := hp
  obtain ⟨old, hs⟩ := Tree.exists_scalar hf hr ho hform
  obtain ⟨_, n⟩ := n
  obtain rfl := hn
  have hslot : Arena.slotAt t.records n p.slot = some (.scalar old) :=
    (Arena.slotAt_of_record hr).trans hs
  rw [tell_bind, writeSlot_bind (by simpa using hslot), touch_bind]
  simp [TreeM.tell, Tree.written, Tree.commit, Tree.handle]

/-- A record that is there is amended and the change counted. -/
theorem amend_settles {f : Record → Record} :
    TreeM.Settles (n ∈ t.nodes) (do
      look (·.own n)
      amend n.index f
      touch) t fun _ t' => n.tree = t.id ∧ n.index < t.records.size ∧ t' = t.amended n.index f := by
  refine .look_bind (fun _ => Tree.own_answered) fun _ hn => ?_
  rw [Tree.own_eq_ok] at hn
  by_cases hlt : n.index < t.records.size
  · refine .of_ok (x := ()) (u := t.amended n.index f) ?_ ⟨hn, hlt, rfl⟩
    rw [amend_bind hlt]
    rfl
  · refine .of_error (e := .broken (.missingRecord n.index)) ?_ fun h =>
      absurd (Tree.mem_nodes.1 h).2 hlt
    simp [bind, EStateM.bind, amend, hlt]

/-- **A range is set**, or nothing happens. -/
theorem setRange_settles {range : Span} : (n.setRange range).Settles (n ∈ t.nodes) t fun _ t' =>
    n.tree = t.id ∧ n.index < t.records.size ∧
      t' = t.amended n.index fun r => { r with range := some range } := amend_settles

/-- **Marks are set**, or nothing happens. -/
theorem setFlags_settles {flags : Flags} : (n.setFlags flags).Settles (n ∈ t.nodes) t fun _ t' =>
    n.tree = t.id ∧ n.index < t.records.size ∧
      t' = t.amended n.index fun r => { r with flags } := amend_settles

end NodeId

end SyntaxForest
