import SyntaxForest.Proofs.Edit.Answers
import SyntaxForest.Proofs.Subtree.Completion
import SyntaxForest.Proofs.Subtree.Iteration
import SyntaxForest.Proofs.Subtree.Locator
import SyntaxForest.Proofs.Subtree.Walk
import SyntaxForest.Subtree.Comparison
import SyntaxForest.Subtree.Footprint
import SyntaxForest.Subtree.Outline
import SyntaxForest.Typed.Handle

/-!
# Proofs/Subtree/Legible — what is there can be read

The plain readers are not refused: on a node of the tree each of them returns a value.  Above the node
stands a chain of parents that ends, below it hangs a subtree whose slots are of the forms that are
declared, and all that is copied, measured, shown, compared or walked is made of these.

* `Locator.tally_steps` — **the counter of a walk tells the depth**, and never goes down from 0.
* `Face.Sound.readable` — a comparison finds every slot to be of the form that it looks for.
* `Tree.Sound.legible` — **every node of a sound tree is legible**.
-/

namespace SyntaxForest

/-! ## The depth of a walk, by a counter -/

namespace Locator

/-- The entries of a walk, by a counter that goes up with every node entered and down with every node left.
Nothing is found if it has to go down from 0. -/
def tally (t : Tree) : (depth : Nat) → List WalkEvent → Option (List Entry)
  | _, [] => some []
  | depth, .enter n :: es => do
    let range ← (t.range n).toOption
    let entries ← tally t (depth + 1) es
    return (range.map fun range => ⟨range, n, depth⟩).toList ++ entries
  | depth + 1, .leave _ :: es => tally t depth es
  | 0, .leave _ :: _ => none

variable {t : Tree} {i depth : Nat} {s : Subtree} {es : List WalkEvent}

/-- The walk of the subtree adds its entries to those of what comes after it. -/
def Tallies (t : Tree) (s : Subtree) : Prop := ∀ depth es,
  tally t depth (s.steps t.shape (fun _ => false) ++ es) =
    (tally t depth es).map (s.entries t.shape depth ++ ·)

theorem tally_flatMap {cs : List Subtree} (h : ∀ c ∈ cs, Tallies t c) :
    tally t depth (cs.flatMap (Subtree.steps t.shape fun _ => false) ++ es) =
      (tally t depth es).map ((cs.flatMap fun c => c.entries t.shape depth) ++ ·) := by
  induction cs with
  | nil => simp
  | cons c cs ih =>
    obtain ⟨hc, hcs⟩ := List.forall_mem_cons.1 h
    rw [List.flatMap_cons, List.append_assoc, hc, ih hcs, Option.map_map, List.flatMap_cons]
    simp [Function.comp_def]

/-- **The counter tells the depth**: what is entered is left again, so the counter is back where it was
and has not been lower. -/
theorem tally_steps (hf : Arena.Forest t.records) (hs : t.Shows i s) : Tallies t s := by
  refine hf.induct (motive := fun i => ∀ s, t.Shows i s → Tallies t s) (fun i _ ih s hs depth es => ?_)
    hs.lt_size s hs
  obtain ⟨r, hr, hhead⟩ := hs.exists_record
  have hrange : t.range s.head.node = .ok s.head.range := by
    rw [hhead]
    exact bind_eq_ok.2 ⟨r, Tree.look_eq_ok.2 ⟨rfl, hr⟩, rfl⟩
  obtain ⟨children, hfst, hsnd, hshows⟩ := hs.exists_children
  have hchildren : ∀ c ∈ s.liveChildren t.shape, Tallies t c := by
    intro c hc
    rw [← hsnd] at hc
    obtain ⟨x, hx, rfl⟩ := List.mem_map.1 hc
    have hmem : x.1 ∈ t.shown i := hfst ▸ List.mem_map_of_mem hx
    obtain ⟨l, hl, hparent⟩ := hf.parent_of_shown hmem
    exact ih x.1 l hl hparent x.2 (hshows x hx)
  rw [Subtree.steps_eq, Subtree.body, if_neg Bool.false_ne_true, List.cons_append, List.append_assoc,
    tally, hrange, tally_flatMap hchildren, Subtree.entries_eq]
  change (do
    let entries ← (tally t depth es).map _
    return _ ++ entries) = _
  rcases tally t depth es with _ | entries
  · rfl
  · simp

end Locator

/-! ## The sides of a comparison -/

theorem Property.exists_liveProperty (shape : Shape) (p : Property) :
    ∃ q, p.owner.liveProperty? shape p.slot = some q := by
  cases shape <;> cases p <;> exact ⟨_, rfl⟩

namespace Face

variable {f g : Face} {shape : Shape} {T : Typing}

/-- **All that a comparison comes to** on one side: children, the elements of lists, and what stands in for a
child or for an element that is not there. -/
inductive Below (shape : Shape) (f : Face) : Face → Prop
  | self : Below shape f f
  | child {g c : Face} {p : Property} : Below shape f g → g.child p = some c → Below shape f c
  | item {g : Face} {slot : Nat} {s : Subtree} : Below shape f g → s ∈ g.items slot →
    Below shape f (.real s)
  | sole {g c : Face} {slot : Nat} : Below shape f g → g.kind.soleFace? shape slot = some c →
    Below shape f c

/-- **A side that can be read**: what is there has each of its properties in a slot of the form that is
declared, and every slot has a property of the grammar to read it. -/
structure Readable (shape : Shape) (f : Face) : Prop where
  slot : ∀ s, f = .real s → ∀ p ∈ f.kind.storage,
    ∃ content, s.slots[p.slot]? = some content ∧ content.fits p.form = true
  live : ∀ p ∈ f.kind.storage, ∃ q, f.kind.liveProperty? shape p.slot = some q

theorem Sound.below (hf : f.Sound T) (h : f.Below shape g) : g.Sound T := by
  induction h with
  | self => exact hf
  | child _ hc ih => exact ih.child hc
  | item _ hs ih => exact ih.items hs
  | sole _ hc _ => exact .sole hc

/-- **What is sound can be read.** -/
theorem Sound.readable (hf : f.Sound T) : f.Readable shape where
  slot s hs p hp := by
    subst hs
    cases hf with
    | node hfits _ _ => exact Kind.exists_slot_of_fits hfits (Kind.storage_of_mem hp).1
  live p hp := by
    rw [← (Kind.storage_of_mem hp).2]
    exact p.exists_liveProperty shape

end Face

/-! ## Legible nodes -/

namespace Tree

variable {t u : Tree} {n k : NodeId} {T : Typing}

/-- **A node that can be read**, with all that stands above it and hangs below it. -/
structure Legible (t : Tree) (n : NodeId) : Prop where
  kind : Returns (t.kind n)
  range : Returns (t.range n)
  flags : Returns (t.flags n)
  parent : Returns (t.parent n)
  /-- the property that reads the slot is one of the grammar -/
  locationInParent : ∃ ret, t.locationInParent n = .ok ret ∧ ∀ r l, t.look n = .ok r →
    r.location = some l → ret = l.property.owner.liveProperty? t.shape l.property.slot
  ancestors : Returns (t.ancestors n)
  root : Returns (t.root n)
  children : Returns (t.children n)
  /-- a comparison can read all that it comes to -/
  subtree : ∃ s, t.subtree n = .ok s ∧ ∀ f, (Face.real s).Below t.shape f → f.Readable t.shape
  snapshot : Returns (t.snapshot n)
  outline : Returns (t.outline n)
  footprint : Returns (t.footprint n)
  subtreeFootprint : Returns (t.subtreeFootprint n)
  walk : ∀ {m : Type → Type} [Monad m] (v : Visitor m), Returns (t.walk n v)
  /-- a cursor answers every call, whatever it is asked to skip -/
  next : ∀ c, Cursor.Used t n c → Returns (c.next t)
  /-- …and comes to its end -/
  ends : ∀ plan, ∃ fuel, Returns (Cursor.drain t plan fuel 0 (.starting n))
  /-- the counter of the depth goes down only from where it went up -/
  locator : ∃ steps entries, t.preorder n {} = .ok (steps, true) ∧
    Locator.tally t 0 steps = some entries ∧ t.locator n = .ok ⟨t.id, t.stamp, entries⟩
  cast : ∀ k, Returns (Typed.cast? k t n)
  expression : Returns (Expression.cast? t n)
  type : Returns (TypeNode.cast? t n)

/-- **Every node of a sound tree is legible.** -/
theorem Sound.legible (h : t.Sound T) (hn : n ∈ t.nodes) : t.Legible n := by
  have hf := h.forest
  obtain ⟨r, hr⟩ := exists_look hn
  obtain ⟨k, hk⟩ := exists_kind hn
  obtain ⟨hown, hlt⟩ := mem_nodes.1 hn
  obtain ⟨s, hshows, hsubtree, hownSubtree⟩ := exists_subtree hf hown hlt
  have hancestors := exists_ancestors hf hn
  have hwalk : t.preorder n {} = .ok (s.steps t.shape (fun _ => false), true) :=
    preorder_eq_ok hf hown hshows
  exact {
    kind := ⟨k, hk⟩
    range := .map ⟨r, hr⟩ _
    flags := .map ⟨r, hr⟩ _
    parent := .map ⟨r, hr⟩ _
    locationInParent := by
      refine ⟨_, bind_eq_ok.2 ⟨r, hr, rfl⟩, fun r' l hr' hl => ?_⟩
      obtain rfl := Except.ok.inj (hr.symm.trans hr')
      obtain ⟨q, hq⟩ := l.property.exists_liveProperty t.shape
      rw [hl, Option.map_some, hq, Option.getD_some]
    ancestors := hancestors
    root := .map hancestors _
    children := .map ⟨r, hr⟩ _
    subtree := by
      have hsound : (Face.real s).Sound T := hshows.sound h.typed
      exact ⟨s, hsubtree, fun _ hf => (hsound.below hf).readable⟩
    snapshot := .map ⟨s, hownSubtree⟩ _
    outline := .map ⟨s, hsubtree⟩ _
    footprint := .map ⟨r, hr⟩ _
    subtreeFootprint := .map ⟨s, hsubtree⟩ _
    walk := fun _ => .map ⟨s, hsubtree⟩ _
    next := fun c hc => hc.exists_next hf hn
    ends := Cursor.exists_drain hf hn
    locator := by
      refine ⟨_, s.entries t.shape 0, hwalk, ?_, bind_eq_ok.2 ⟨s, hsubtree, rfl⟩⟩
      have htally := Locator.tally_steps hf hshows 0 []
      rw [List.append_nil] at htally
      rw [htally]
      simp [Locator.tally]
    cast := fun _ => .map ⟨k, hk⟩ _
    expression := .map ⟨k, hk⟩ _
    type := .map ⟨k, hk⟩ _ }

/-- **Any two legible nodes can be compared**, under any test of scalars. -/
theorem Legible.compare (h : t.Legible n) (h' : u.Legible k) {m : Type → Type} [Monad m]
    (sameScalar : Property → Scalar → Scalar → m Bool) :
    Returns (t.compare n u k sameScalar) := by
  obtain ⟨l, hl, -⟩ := h.subtree
  obtain ⟨r, hr, -⟩ := h'.subtree
  exact ⟨_, bind_eq_ok.2 ⟨l, hl, bind_eq_ok.2 ⟨r, hr, rfl⟩⟩⟩

end Tree

end SyntaxForest
