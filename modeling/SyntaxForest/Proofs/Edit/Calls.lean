import SyntaxForest.Proofs.Edit.Run
import SyntaxForest.Typed.Nodes

/-!
# Proofs/Edit/Calls — calls about nodes of the tree are answered

The specifications of the single calls say when they answer (`TreeM.Settles`).  Here the calls that are
made of others follow: planting, the calls that treat all properties alike, and those of typed handles.
A child that has to be there is found, for the property that it is read through has a placeholder.

* `Image.graft_answers` — an image that was taken of a tree is planted, or refused.
* `Edit.run_answers` — **every call on a tree answers** if the nodes that it is given are of the tree.
* `Typed.calls_answer`, `Typed.questions_answered` — so do all calls of typed handles.
* `Tree.Sound.consultable` — **every node of a sound tree can be asked anything**.
-/

namespace SyntaxForest

open TreeM

variable {t t' : Tree} {n c : NodeId} {p : Property} {T : Typing}

/-! ## Planting -/

namespace Image

theorem checkPlantable_answered (i : Image) (shape : Shape) : Answered (i.checkPlantable shape) :=
  .forM fun _ _ => .forM fun _ _ => .guard _ _

/-- **A sound image is planted or refused**: it has a first node, and every child is one of its nodes. -/
theorem graft_answers {i : Image} (h : i.Sound T) : Answers i.graft t := by
  rcases hcheck : i.checkPlantable t.shape with e | ⟨⟩
  · refine answers_look_bind (i.checkPlantable_answered t.shape) fun _ hok => ?_
    cases hcheck.symm.trans hok
  · exact .of_ok (graft_run h hcheck)

end Image

theorem Tree.exists_snapshot (hf : Arena.Forest t.records) (hn : n ∈ t.nodes) :
    ∃ i, t.snapshot n = .ok i := by
  obtain ⟨hn, hlt⟩ := mem_nodes.1 hn
  obtain ⟨s, -, -, hs⟩ := exists_subtree hf hn hlt
  exact ⟨s.image, bind_eq_ok.2 ⟨s, hs, rfl⟩⟩

theorem NodeId.copySubtree_answers (h : t.Sound T) (hn : n ∈ t.nodes) :
    Answers n.copySubtree t := by
  obtain ⟨i, hi⟩ := Tree.exists_snapshot h.forest hn
  exact answers_look_bind (.of_ok hi) fun _ hi =>
    Image.graft_answers (Tree.snapshot_sound h.typed hi)

/-! ## Any property by the same calls -/

/-- A list that is opened has its elements. -/
theorem Sequence.Open.exists_elements {s : Sequence} (ho : s.Open t) (hf : Arena.Forest t.records) :
    ∃ cs, t.elements s = .ok cs := by
  obtain ⟨items, hitems⟩ := ho.exists_items hf
  exact ⟨items.map t.handle, bind_eq_ok.2 ⟨items, hitems, rfl⟩⟩

namespace Tree

/-- A scalar that is read is one that the property declares. -/
theorem form_of_scalar {v : Scalar} (hf : Arena.Forest t.records) (hv : t.scalar n p = .ok v) :
    ∃ ty, p.form = .scalar ty := by
  obtain ⟨_, hp, hv⟩ := bind_eq_ok.1 hv
  obtain ⟨r, hr, hv⟩ := bind_eq_ok.1 hv
  obtain ⟨-, r', hr', ho, -⟩ := checkProperty_iff.1 hp
  obtain rfl := Option.some.inj (hr'.symm.trans (look_eq_ok.1 hr).2)
  obtain ⟨content, hs, hfits⟩ := hf.exists_slot hr' ho
  rw [hs] at hv
  cases content with
  | child _ | list _ => cases hv
  | scalar w =>
    rcases hform : p.primary.form with ty | _ | _ <;> rw [hform] at hfits
    · exact ⟨ty, Property.form_of_primary hform⟩
    · cases hfits
    · cases hfits

theorem peekValue_answered (hf : Arena.Forest t.records) (hn : n ∈ t.nodes) :
    Answered (t.peekValue n p) := by
  rw [peekValue]
  cases p.form with
  | scalar ty => exact (scalar_answered hf hn).bind fun _ _ => .of_ok rfl
  | child ty => exact (peekChild_answered hf hn).bind fun _ _ => .of_ok rfl
  | list ty =>
    refine (sequence_answered hn).bind fun s hs => ?_
    obtain ⟨cs, hcs⟩ := (Sequence.sequence_eq_ok.1 hs).1.exists_elements hf
    exact (Answered.of_ok hcs).bind fun _ _ => .of_ok rfl

end Tree

namespace NodeId

theorem value_answers (hf : Arena.Forest t.records) (hn : n ∈ t.nodes) : Answers (n.value p) t := by
  rw [value]
  cases p.form with
  | scalar ty => exact answers_look_bind (Tree.scalar_answered hf hn) fun _ _ => .of_ok rfl
  | child ty => exact ((child_settles hf).answers hn).bind_pure
  | list ty =>
    refine answers_look_bind (Tree.sequence_answered hn) fun s hs => ?_
    obtain ⟨cs, hcs⟩ := (Sequence.sequence_eq_ok.1 hs).1.exists_elements hf
    exact answers_look_bind (.of_ok hcs) fun _ _ => .of_ok rfl

theorem setValue_answers {v : Value} (hf : Arena.Forest t.records) (hn : n ∈ t.nodes)
    (hv : ∀ c ∈ v.members, c ∈ t.nodes) : Answers (n.setValue p v) t := by
  refine answers_look_bind (Tree.checkProperty_answered hn) fun _ _ => ?_
  split
  · exact answers_look (.refuse _)
  · exact (setScalar_settles hf).answers hn
  · exact (setChild_settles hf).answers ⟨hn, hv _ (List.mem_singleton_self _)⟩
  · exact ((clearChild_settles hf).answers hn).bind_pure
  · exact answers_look (.refuse _)
  · exact answers_look (.refuse _)

/-- Nothing is read only where nothing stands in. -/
theorem placeholder_of_child_none (h : n.child p t = .ok none t') : p.placeholder = none := by
  obtain ⟨ret, -, hrun⟩ := exists_of_look_bind_ok h
  cases ret with
  | some c => cases hrun
  | none =>
    rcases hplace : p.placeholder with _ | k
    · rfl
    · simp only [hplace] at hrun
      obtain ⟨c, _, -, hrun⟩ := exists_of_bind_ok hrun
      obtain ⟨_, _, -, hrun⟩ := exists_of_bind_ok hrun
      obtain ⟨_, _, -, hrun⟩ := exists_of_bind_ok hrun
      cases hrun

end NodeId

/-! ## Children that have to be there -/

namespace Typed

variable {k : Kind} {m : Typed k}

/-- **A child that has to be there is there**, or the question is refused. -/
theorem required_answers (hf : Arena.Forest t.records) (hn : m.node ∈ t.nodes)
    (hp : p.isMandatory = true) : Answers (m.required p) t := by
  refine ((NodeId.child_settles hf).answers hn).bind fun ret t' hrun => ?_
  cases ret with
  | some c => exact .of_ok rfl
  | none =>
    obtain ⟨_, hpeek, -⟩ := exists_of_look_bind_ok hrun
    obtain ⟨_, -, hpeek⟩ := bind_eq_ok.1 hpeek
    obtain ⟨ty, hty, -⟩ := bind_eq_ok.1 hpeek
    obtain ⟨k, hk⟩ := Property.exists_placeholder hp (Property.childType_eq_ok.1 hty)
    cases hk.symm.trans (NodeId.placeholder_of_child_none hrun)

theorem createWith_answers {v : Scalar} (h : t.Sound T) : Answers (createWith k p v) t := by
  have hnew : t.handle t.size ∈ (t.created k).nodes :=
    Tree.mem_nodes.2 ⟨rfl, by simp [Tree.created, Tree.handle, Tree.size]⟩
  have hset : Answers ((t.handle t.size).setScalar p v) (t.created k) :=
    (NodeId.setScalar_settles h.create.forest).answers hnew
  have hrun : createWith k p v t =
      (((t.handle t.size).setScalar p v >>= fun _ => pure ⟨t.handle t.size⟩) : TreeM (Typed k))
        (t.created k) := by
    simp only [createWith, create, bind_assoc, pure_bind]
    exact create_bind
  rw [Answers, hrun]
  exact hset.bind_pure

end Typed

/-! ## All calls on a tree -/

namespace Edit

/-- The nodes that a call is given. -/
def handles : Edit → List NodeId
  | create _ | createWith _ _ _ | observe _ => []
  | setRange n _ | setFlags n _ | child n _ | required n _ | clearChild n _ | detach n
  | setScalar n _ _ | value n _ | copySubtree n => [n]
  | setChild n _ c => [n, c]
  | setValue n _ v => n :: v.members
  | list n _ edit => n :: edit.newcomers

/-- **A call about nodes of the tree.**  Typed handles ask for children that have to be there, and for no
others in this way. -/
structure Addressed (e : Edit) (t : Tree) : Prop where
  handles : ∀ n ∈ e.handles, n ∈ t.nodes
  required : ∀ n p, e = required n p → p.isMandatory = true

/-- **Every call about nodes of the tree answers.** -/
theorem run_answers (h : t.Sound T) (e : Edit) (he : e.Addressed t) : Answers e.run t := by
  have hf := h.forest
  have hnodes := he.handles
  cases e with
  | create k => exact .of_ok rfl
  | createWith k p v => exact (Typed.createWith_answers h).bind_pure
  | setRange n range => exact (NodeId.setRange_settles.answers (hnodes n List.mem_cons_self)).bind_pure
  | setFlags n flags => exact (NodeId.setFlags_settles.answers (hnodes n List.mem_cons_self)).bind_pure
  | child n p => exact ((NodeId.child_settles hf).answers (hnodes n List.mem_cons_self)).bind_pure
  | required n p =>
    exact (Typed.required_answers hf (hnodes n List.mem_cons_self) (he.required n p rfl)).bind_pure
  | setChild n p c =>
    exact ((NodeId.setChild_settles hf).answers
      ⟨hnodes n List.mem_cons_self, hnodes c (List.mem_cons_of_mem _ List.mem_cons_self)⟩).bind_pure
  | clearChild n p =>
    exact ((NodeId.clearChild_settles hf).answers (hnodes n List.mem_cons_self)).bind_pure
  | detach n => exact ((NodeId.detach_settles hf).answers (hnodes n List.mem_cons_self)).bind_pure
  | setScalar n p v =>
    exact ((NodeId.setScalar_settles hf).answers (hnodes n List.mem_cons_self)).bind_pure
  | value n p => exact (NodeId.value_answers hf (hnodes n List.mem_cons_self)).bind_pure
  | setValue n p v =>
    exact (NodeId.setValue_answers hf (hnodes n List.mem_cons_self)
      fun c hc => hnodes c (List.mem_cons_of_mem _ hc)).bind_pure
  | list n p edit =>
    refine answers_look_bind (Tree.sequence_answered (hnodes n List.mem_cons_self)) fun s hs => ?_
    obtain ⟨ho, -, -⟩ := Sequence.sequence_eq_ok.1 hs
    exact ((Sequence.apply_settles hf ho edit).answers
      fun c hc => hnodes c (List.mem_cons_of_mem _ hc)).bind_pure
  | copySubtree n =>
    exact (NodeId.copySubtree_answers h (hnodes n List.mem_cons_self)).bind_pure
  | observe observer => exact .of_ok rfl

end Edit

/-! ## Typed handles -/

namespace Typed

/-- What typed handles do to a tree: the calls on a node, with a child, a text or a word to be set. -/
def calls (n c : NodeId) (text : String) (code : PrimitiveCode) (before : PrefixOp)
    (after : PostfixOp) : List (TreeM Unit) :=
  [discard (SimpleName.create text), SimpleName.setIdentifier ⟨n⟩ text,
    discard (NumberLiteral.create text), NumberLiteral.setToken ⟨n⟩ text,
    Operator.setToken ⟨n⟩ text,
    discard (PrimitiveType.create code), PrimitiveType.setCode ⟨n⟩ code,
    discard (SimpleType.name ⟨n⟩), SimpleType.setName ⟨n⟩ ⟨c⟩,
    discard (QualifiedType.qualifier ⟨n⟩), QualifiedType.setQualifier ⟨n⟩ c,
    discard (QualifiedType.name ⟨n⟩), QualifiedType.setName ⟨n⟩ ⟨c⟩,
    discard (ArrayAccess.array ⟨n⟩), ArrayAccess.setArray ⟨n⟩ c,
    discard (ArrayAccess.index ⟨n⟩), ArrayAccess.setIndex ⟨n⟩ c,
    discard (CastExpression.type ⟨n⟩), CastExpression.setType ⟨n⟩ c,
    discard (CastExpression.expression ⟨n⟩), CastExpression.setExpression ⟨n⟩ c,
    discard (ConditionalExpression.expression ⟨n⟩), ConditionalExpression.setExpression ⟨n⟩ c,
    discard (ConditionalExpression.thenExpression ⟨n⟩),
    ConditionalExpression.setThenExpression ⟨n⟩ c,
    discard (ConditionalExpression.elseExpression ⟨n⟩),
    ConditionalExpression.setElseExpression ⟨n⟩ c,
    PrefixExpression.setOperator ⟨n⟩ before,
    discard (PrefixExpression.operand ⟨n⟩), PrefixExpression.setOperand ⟨n⟩ c,
    PostfixExpression.setOperator ⟨n⟩ after,
    discard (PostfixExpression.operand ⟨n⟩), PostfixExpression.setOperand ⟨n⟩ c,
    Pattern.setBinding ⟨n⟩ ⟨c⟩, discard (Pattern.clearBinding ⟨n⟩)]

/-- What typed handles ask a tree about a node. -/
def questions (n : NodeId) (t : Tree) : List (Except Failure Unit) :=
  [discard (SimpleName.identifier ⟨n⟩ t), discard (NumberLiteral.token ⟨n⟩ t),
    discard (Operator.token ⟨n⟩ t), discard (PrimitiveType.code ⟨n⟩ t),
    discard (PrefixExpression.operator ⟨n⟩ t), discard (PostfixExpression.operator ⟨n⟩ t),
    discard (QualifiedType.elements ⟨n⟩ t), discard (QualifiedType.annotations ⟨n⟩ t),
    discard (ArrayAccess.indexes ⟨n⟩ t), discard (CastExpression.types ⟨n⟩ t),
    discard (ConditionalExpression.conditionElements ⟨n⟩ t),
    discard (ConditionalExpression.thenElements ⟨n⟩ t),
    discard (ConditionalExpression.elseElements ⟨n⟩ t), discard (Pattern.elements ⟨n⟩ t),
    discard (Pattern.binding ⟨n⟩ t), discard (Expression.cast? t n), discard (TypeNode.cast? t n)]

/-- **All calls of typed handles answer.** -/
theorem calls_answer (h : t.Sound T) (hn : n ∈ t.nodes) (hc : c ∈ t.nodes) {text : String}
    {code : PrimitiveCode} {before : PrefixOp} {after : PostfixOp} :
    ∀ m ∈ calls n c text code before after, Answers m t := by
  have hread : ∀ {k : Kind} (p : Property), p.isMandatory = true →
      Answers ((⟨n⟩ : Typed k).required p) t := fun _ => required_answers h.forest hn
  have hname : ∀ {k : Kind} (p : Property), p.isMandatory = true →
      Answers (do return (⟨← (⟨n⟩ : Typed k).required p⟩ : SimpleName)) t :=
    fun p hp => (hread p hp).bind_pure
  have hset : ∀ p, Answers (n.setChild p c) t := fun _ =>
    (NodeId.setChild_settles h.forest).answers ⟨hn, hc⟩
  have hwrite : ∀ p v, Answers (n.setScalar p v) t := fun _ _ =>
    (NodeId.setScalar_settles h.forest).answers hn
  have hnew : ∀ k p v, Answers (createWith k p v) t := fun _ _ _ => createWith_answers h
  have hclear : Answers (Pattern.clearBinding ⟨n⟩) t :=
    ((NodeId.clearChild_settles h.forest).answers hn).bind_pure
  refine List.forall_iff_forall_mem.1 ?_
  exact ⟨(hnew _ _ _).discard, hwrite _ _, (hnew _ _ _).discard, hwrite _ _, hwrite _ _,
    (hnew _ _ _).discard, hwrite _ _, (hname _ rfl).discard, hset _, (hread _ rfl).discard, hset _,
    (hname _ rfl).discard, hset _, (hread _ rfl).discard, hset _, (hread _ rfl).discard, hset _,
    (hread _ rfl).discard, hset _, (hread _ rfl).discard, hset _, (hread _ rfl).discard, hset _,
    (hread _ rfl).discard, hset _, (hread _ rfl).discard, hset _, hwrite _ _,
    (hread _ rfl).discard, hset _, hwrite _ _, (hread _ rfl).discard, hset _, hset _,
    hclear.discard⟩

/-- A scalar is read as what it is taken for, or the question is refused. -/
theorem project_answered {k : Kind} {α : Type} {f : Scalar → Option α} (hf : Arena.Forest t.records)
    (hn : n ∈ t.nodes) : Answered ((⟨n⟩ : Typed k).project p f t) := by
  refine (Tree.scalar_answered hf hn).bind fun v _ => ?_
  split
  · exact .of_ok rfl
  · exact Property.scalarType_answered.bind fun _ _ => .refuse _

/-- **All questions of typed handles are answered.** -/
theorem questions_answered (hf : Arena.Forest t.records) (hn : n ∈ t.nodes) :
    ∀ x ∈ questions n t, Answered x := by
  have hscalar : ∀ {k : Kind} {α : Type} p (f : Scalar → Option α),
      Answered ((⟨n⟩ : Typed k).project p f t) := fun _ _ => project_answered hf hn
  have hlist : ∀ p, Answered (t.sequence n p) := fun _ => Tree.sequence_answered hn
  obtain ⟨k, hk⟩ := Tree.exists_kind hn
  have hcast : ∀ {α : Type} (f : Kind → α), Answered (do return f (← t.kind n)) := fun f =>
    (Answered.of_ok hk).bind fun _ _ => .of_ok rfl
  have hbinding : Answered (Pattern.binding ⟨n⟩ t) :=
    (Tree.peekChild_answered hf hn).bind fun _ _ => .of_ok rfl
  refine List.forall_iff_forall_mem.1 ?_
  exact ⟨(hscalar _ _).discard, (hscalar _ _).discard, (hscalar _ _).discard,
    (hscalar _ _).discard, (hscalar _ _).discard, (hscalar _ _).discard, (hlist _).discard,
    (hlist _).discard, (hlist _).discard, (hlist _).discard, (hlist _).discard,
    (hlist _).discard, (hlist _).discard, (hlist _).discard, hbinding.discard,
    (hcast _).discard, (hcast _).discard⟩

end Typed

/-! ## Lists in use -/

namespace Sequence

variable {s : Sequence}

/-- The tree that edits of a list leave, whether they succeed or fail. -/
def through (s : Sequence) (t : Tree) (es : List ListEdit) : Tree :=
  es.foldl (fun t e => after (s.apply e) t) t

/-- **A list stays usable**, whatever edits are made through it. -/
theorem Open.through (ho : s.Open t) (hf : Arena.Forest t.records) (es : List ListEdit) :
    s.Open (s.through t es) ∧ Arena.Forest (s.through t es).records := by
  induction es generalizing t with
  | nil => exact ⟨ho, hf⟩
  | cons e es ih =>
    obtain ⟨ho', hf'⟩ := ((apply_settles hf ho e).atomic.mono fun _ _ ⟨_, hsplices, _⟩ =>
      ho.splices hf hsplices).after ⟨ho, hf⟩
    exact ih ho' hf'

end Sequence

/-! ## Nodes that can be asked anything -/

namespace Tree

/-- **A node that can be asked for any property**, of its own kind or of another: what is not refused is
answered, and done. -/
structure Consultable (t : Tree) (n : NodeId) : Prop where
  peekChild : ∀ p, Answered (t.peekChild n p)
  scalar : ∀ p, Answered (t.scalar n p)
  /-- nothing else is taken for a scalar -/
  scalarOnly : ∀ p v, t.scalar n p = .ok v → ∃ ty, p.form = .scalar ty
  peekValue : ∀ p, Answered (t.peekValue n p)
  sequence : ∀ p, Answered (t.sequence n p)
  /-- a list that is opened can be read, and edited over and over -/
  list : ∀ p s, t.sequence n p = .ok s → ∀ es, Returns ((s.through t es).elements s) ∧
    ∀ e : ListEdit, (∀ c ∈ e.newcomers, c ∈ (s.through t es).nodes) →
      Answers (s.apply e) (s.through t es)
  questions : ∀ x ∈ Typed.questions n t, Answered x
  calls : ∀ c ∈ t.nodes, ∀ text code before after, ∀ m ∈ Typed.calls n c text code before after,
    Answers m t

/-- **Every node of a sound tree can be asked anything.** -/
theorem Sound.consultable (h : t.Sound T) (hn : n ∈ t.nodes) : t.Consultable n where
  peekChild _ := peekChild_answered h.forest hn
  scalar _ := scalar_answered h.forest hn
  scalarOnly _ _ := form_of_scalar h.forest
  peekValue _ := peekValue_answered h.forest hn
  sequence _ := sequence_answered hn
  list p s hs es := by
    obtain ⟨ho, -, -⟩ := Sequence.sequence_eq_ok.1 hs
    obtain ⟨ho, hf⟩ := ho.through h.forest es
    exact ⟨ho.exists_elements hf, fun e he => (Sequence.apply_settles hf ho e).answers he⟩
  questions := Typed.questions_answered h.forest hn
  calls _ hc _ _ _ _ := Typed.calls_answer h hn hc

end Tree

end SyntaxForest
