import SyntaxForest.Proofs.Subtree.Encounter
import SyntaxForest.Proofs.Text.Quoted
import SyntaxForest.Subtree.Outline

/-!
# Proofs/Subtree/Outline — the lines of an outline, and whose they are

An outline has lines of two sorts, those of nodes and those of the properties between them.  They are told
apart by how they begin, for kinds are spelt with a capital letter and properties are not.  No line is broken
in two, whatever the texts in it: a line break in a quoted text is escaped.

* `Tree.Shows.filter_outline` — **the lines that begin with a kind are those of the nodes that are met**.
* `Subtree.unbroken_of_mem_outline` — no line has a line break in it.
-/

namespace SyntaxForest

/-! ## Lines without breaks -/

theorem Span.unbroken_text (s : Span) : Text.Unbroken s.text :=
  .append (.append (Text.unbroken_toString _) (by decide)) (Text.unbroken_toString _)

theorem Scalar.unbroken_text (v : Scalar) : Text.Unbroken v.text := by
  cases v with
  | symbol text => exact Text.unbroken_quoted text
  | prefixOp op => cases op <;> decide
  | postfixOp op => cases op <;> decide
  | primitive code => cases code <;> decide

theorem Kind.unbroken_name (k : Kind) : Text.Unbroken k.name := by
  cases k <;> decide

theorem Property.unbroken_name (p : Property) : Text.Unbroken p.name := by
  cases p <;> decide

namespace Outline

theorem toList_margin (depth : Nat) : (margin depth).toList = List.replicate (2 * depth) ' ' := by
  rw [margin, String.pushn_eq_repeat_push]
  induction 2 * depth with
  | zero => rfl
  | succ n ih => rw [Nat.repeat, String.toList_push, ih, List.replicate_succ']

theorem unbroken_margin (depth : Nat) : Text.Unbroken (margin depth) := by
  rw [Text.Unbroken, toList_margin]
  simp

/-! ## The lines of nodes -/

/-- The line of a node, from what the node keeps itself. -/
def kindLine (k : Kind) (range : Option Span) (scalars : List (Option Scalar)) : String :=
  k.name ++ (range.elim "" fun range => "@" ++ range.text) ++
    String.join ((scalars.zip k.storage).filterMap fun (v, p) => v.map fun v => s!" {p.name}={v.text}")

theorem nodeLine_eq (h : Head) (ss : List (Slot Lines)) :
    nodeLine h (ss.zip h.kind.storage) = kindLine h.kind h.range (ss.map Slot.scalar?) := by
  rw [nodeLine, scalars, kindLine, List.zip_map_left, List.filterMap_map]
  rfl

theorem unbroken_kindLine (k : Kind) (range : Option Span) (scalars : List (Option Scalar)) :
    Text.Unbroken (kindLine k range scalars) := by
  refine (k.unbroken_name.append ?_).append (.join fun s hs => ?_)
  · cases range with
    | none => exact (by decide : Text.Unbroken "")
    | some range => exact .append (by decide) range.unbroken_text
  · obtain ⟨⟨v, p⟩, -, hs⟩ := List.mem_filterMap.1 hs
    obtain ⟨v, -, rfl⟩ := Option.map_eq_some_iff.1 hs
    exact .append (.append (.append (by decide) p.unbroken_name) (by decide)) v.unbroken_text

/-- **A line of a node**: what is first in it, after the margin, is a capital letter. -/
def namesKind (line : String) : Bool := (line.toList.find? (· != ' ')).any Char.isUpper

theorem namesKind_margin (depth : Nat) (s : String) : namesKind (margin depth ++ s) = namesKind s := by
  rw [namesKind, String.toList_append, toList_margin, List.find?_append, List.find?_replicate]
  simp [namesKind]

theorem namesKind_kindLine (k : Kind) (range : Option Span) (scalars : List (Option Scalar)) :
    namesKind (kindLine k range scalars) = true := by
  rw [namesKind, kindLine, String.append_assoc, String.toList_append, List.find?_append]
  cases k <;> rfl

theorem namesKind_property (depth : Nat) (p : Property) (s : String) :
    namesKind (margin depth ++ p.name ++ s) = false := by
  rw [String.append_assoc, namesKind_margin, namesKind, String.toList_append, List.find?_append]
  cases p <;> rfl

/-- The lines of a property that name a kind are lines of the nodes in it. -/
theorem filter_propertyLines (depth : Nat) (s : Slot Lines) (p : Property) :
    (propertyLines depth s p).filter namesKind =
      s.members.flatMap fun c => (c (depth + 1)).filter namesKind := by
  have hname : namesKind (margin depth ++ p.name) = false := by
    simpa using namesKind_property depth p ""
  rcases s with v | (_ | c) | (_ | ⟨c, cs⟩)
  · rfl
  · exact List.filter_cons_of_neg (by simp [namesKind_property])
  · rw [propertyLines, List.filter_cons_of_neg (by simp [hname])]
    exact (List.flatMap_singleton ..).symm
  · exact List.filter_cons_of_neg (by simp [namesKind_property])
  · change ((margin depth ++ p.name) :: (c :: cs).flatMap (· (depth + 1))).filter namesKind = _
    rw [List.filter_cons_of_neg (by simp [hname]), List.filter_flatMap]
    rfl

/-- The lines of a node that name a kind: its own comes first, and then those of its children. -/
theorem filter_node (h : Head) {ss : List (Slot Lines)} (hfits : h.kind.fits ss = true) (depth : Nat) :
    (node h ss depth).filter namesKind =
      (margin depth ++ kindLine h.kind h.range (ss.map Slot.scalar?)) ::
        (ss.flatMap Slot.members).flatMap fun c => (c (depth + 2)).filter namesKind := by
  have hlength := Nat.le_of_eq (beq_iff_eq.1 (Bool.and_eq_true_iff.1 hfits).1)
  have hslots : ((ss.zip h.kind.storage).flatMap fun x => propertyLines (depth + 1) x.1 x.2).filter
      namesKind = (ss.flatMap Slot.members).flatMap fun c => (c (depth + 2)).filter namesKind := by
    calc ((ss.zip h.kind.storage).flatMap fun x => propertyLines (depth + 1) x.1 x.2).filter namesKind
      _ = (ss.zip h.kind.storage).flatMap fun x =>
          x.1.members.flatMap fun c => (c (depth + 2)).filter namesKind := by
        rw [List.filter_flatMap]
        simp only [filter_propertyLines]
      _ = ((ss.zip h.kind.storage).map Prod.fst).flatMap fun s =>
          s.members.flatMap fun c => (c (depth + 2)).filter namesKind := by rw [List.flatMap_map]
      _ = (ss.flatMap Slot.members).flatMap fun c => (c (depth + 2)).filter namesKind := by
        rw [List.map_fst_zip hlength, List.flatMap_assoc]
  change List.filter namesKind ((margin depth ++ nodeLine h (ss.zip h.kind.storage)) ::
    (ss.zip h.kind.storage).flatMap fun x => propertyLines (depth + 1) x.1 x.2) = _
  rw [List.filter_cons_of_pos, nodeLine_eq, hslots]
  rw [nodeLine_eq, namesKind_margin, namesKind_kindLine]

/-- The lines of a property have no breaks if those of the nodes in it have none. -/
theorem unbroken_propertyLines (depth : Nat) {s : Slot Lines} (p : Property)
    (h : ∀ c ∈ s.members, ∀ depth, ∀ l ∈ c depth, Text.Unbroken l) :
    ∀ l ∈ propertyLines depth s p, Text.Unbroken l := by
  have hname : Text.Unbroken (margin depth ++ p.name) := (unbroken_margin _).append p.unbroken_name
  rcases s with v | (_ | c) | (_ | ⟨c, cs⟩)
  · exact List.forall_mem_nil _
  · exact List.forall_mem_singleton.2 (hname.append (by decide))
  · exact List.forall_mem_cons.2 ⟨hname, h c (List.mem_singleton_self c) _⟩
  · exact List.forall_mem_singleton.2 (hname.append (by decide))
  · refine List.forall_mem_cons.2 ⟨hname, fun l hl => ?_⟩
    obtain ⟨d, hd, hl⟩ := List.mem_flatMap.1 hl
    exact h d hd _ l hl

end Outline

/-- **No line of an outline is broken in two**, whatever texts are in it. -/
theorem Subtree.unbroken_of_mem_outline (s : Subtree) (depth : Nat) :
    ∀ l ∈ s.outline depth, Text.Unbroken l := by
  induction s using Subtree.induct generalizing depth with
  | node h ss ih =>
    rw [outline_node]
    refine List.forall_mem_cons.2 ⟨(Outline.unbroken_margin _).append ?_, fun l hl => ?_⟩
    · rw [Outline.nodeLine_eq]
      exact Outline.unbroken_kindLine _ _ _
    · have hchildren : ∀ slot ∈ ss.map (Slot.map outline), ∀ c ∈ slot.members,
          ∀ depth, ∀ l ∈ c depth, Text.Unbroken l := Slot.forall_mem_map.2 ih
      obtain ⟨x, hx, hl⟩ := List.mem_flatMap.1 hl
      exact Outline.unbroken_propertyLines _ _ (hchildren x.1 (List.of_mem_zip hx).1) l hl

/-- The line of a node that is met. -/
def Encounter.line (e : Encounter) : String :=
  Outline.margin (2 * e.level) ++ Outline.kindLine e.head.kind e.head.range e.scalars

namespace Tree

variable {t : Tree} {i : Nat} {s : Subtree}

/-- **The lines that name a kind are the lines of the nodes that are met**, in the same order, and each two
steps further in than the line of the parent. -/
theorem Shows.filter_outline (hs : t.Shows i s) (level : Nat) :
    (s.outline (2 * level)).filter Outline.namesKind = (s.encounters level).map Encounter.line := by
  induction hs generalizing level with
  | @node i r pairs hr hfits hslots hx ih =>
    rw [hslots, Kind.fits_map_slots] at hfits
    have hchildren : ((pairs.flatMap Slot.members).map Prod.snd).flatMap (fun c =>
        (c.outline (2 * level + 2)).filter Outline.namesKind) =
          ((pairs.flatMap Slot.members).map Prod.snd).flatMap fun c =>
            (c.encounters (level + 1)).map Encounter.line := by
      refine List.flatMap_congr fun c hc => ?_
      obtain ⟨x, hx, rfl⟩ := List.mem_map.1 hc
      obtain ⟨slot, hslot, hx⟩ := List.mem_flatMap.1 hx
      exact ih slot hslot x hx (level + 1)
    rw [Subtree.outline_node, Outline.filter_node _ (by rw [Kind.fits_map_slots, Kind.fits_map_slots, hfits]),
      Slot.flatMap_members_map, List.flatMap_map, Slot.flatMap_members_map, hchildren,
      Subtree.encounters_node, Slot.flatMap_members_map, List.map_cons, List.map_flatMap (f := Encounter.line)]
    simp [Encounter.line, Function.comp_def]

end Tree

end SyntaxForest
