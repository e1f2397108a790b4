import SyntaxForest.Proofs.Edit.Worded
import SyntaxForest.Proofs.Subtree.Bare
import SyntaxForest.Proofs.Subtree.Outline

/-!
# Proofs/Subtree/Readback — an outline determines what it shows

The line of a node says what the node keeps itself: a kind is a word of letters, a range is put between a sign
and a space, and a scalar ends where its type says.  How many nodes stand under a property is said by nothing
but the margin: the list is over where a line stands less deep than its elements.

* `Outline.kindLine_inj` — **the line of a node determines its kind, its range and its scalars**.
* `Outline.Shallow` — what may follow the lines of a node.
* `Subtree.Declared.readBack` — **a subtree is read back from its lines**, whatever follows them.
* `Subtree.outline_eq_iff` — outlines are the same exactly if the bare subtrees are.
-/

namespace SyntaxForest

/-! ## The line of a node -/

/-- Two scalars of one type are two texts, or two words of one vocabulary. -/
theorem Scalar.texts_or_words {ty : ScalarType} {v w : Scalar} (hv : v.conformsTo ty = true)
    (hw : w.conformsTo ty = true) : (∃ a b, v = symbol a ∧ w = symbol b) ∨
      (v.text.toList.all (· != ' ') = true ∧ w.text.toList.all (· != ' ') = true ∧
        (v.text = w.text → v = w)) := by
  have hpre : ∀ op : PrefixOp, op.token.toList.all (· != ' ') = true := fun op => by
    cases op <;> decide
  have hpost : ∀ op : PostfixOp, op.token.toList.all (· != ' ') = true := fun op => by
    cases op <;> decide
  have hprimitive : ∀ code : PrimitiveCode, code.token.toList.all (· != ' ') = true := fun code => by
    cases code <;> decide
  cases v <;> cases w
  case symbol.symbol a b => exact .inl ⟨a, b, rfl, rfl⟩
  case prefixOp.prefixOp op op' =>
    refine .inr ⟨hpre op, hpre op', fun h => congrArg prefixOp (Option.some.inj ?_)⟩
    rw [← op.ofToken?_token, ← op'.ofToken?_token, show op.token = op'.token from h]
  case postfixOp.postfixOp op op' =>
    refine .inr ⟨hpost op, hpost op', fun h => congrArg postfixOp (Option.some.inj ?_)⟩
    rw [← op.ofToken?_token, ← op'.ofToken?_token, show op.token = op'.token from h]
  case primitive.primitive code code' =>
    refine .inr ⟨hprimitive code, hprimitive code', fun h => congrArg primitive (Option.some.inj ?_)⟩
    rw [← code.ofToken?_token, ← code'.ofToken?_token, show code.token = code'.token from h]
  all_goals cases ty <;> simp [conformsTo] at hv hw

/-- **A scalar of a known type is read back**, if nothing or a space follows it. -/
theorem Scalar.text_append_inj {ty : ScalarType} {v w : Scalar} {r r' : List Char}
    (hv : v.conformsTo ty = true) (hw : w.conformsTo ty = true) (hr : ∀ c ∈ r.head?, c = ' ')
    (hr' : ∀ c ∈ r'.head?, c = ' ') (h : v.text.toList ++ r = w.text.toList ++ r') : v = w ∧ r = r' := by
  obtain ⟨a, b, rfl, rfl⟩ | ⟨hv, hw, hinj⟩ := Scalar.texts_or_words hv hw
  · obtain ⟨rfl, hrest⟩ := Text.quoted_append_inj h
    exact ⟨rfl, hrest⟩
  · obtain ⟨htext, hrest⟩ := append_inj_of_stops (List.all_eq_true.1 hv) (List.all_eq_true.1 hw)
      (fun c hc => by simp [hr c hc]) (fun c hc => by simp [hr' c hc]) h
    exact ⟨hinj (String.toList_inj.1 htext), hrest⟩

/-- A range is read back, if nothing or a space follows it. -/
theorem Span.text_append_inj {a b : Span} {r r' : List Char} (hr : ∀ c ∈ r.head?, c = ' ')
    (hr' : ∀ c ∈ r'.head?, c = ' ') (h : a.text.toList ++ r = b.text.toList ++ r') : a = b ∧ r = r' := by
  have hchars : ∀ s : Span, s.text.toList =
      Nat.toDigits 10 s.start ++ '.' :: '.' :: Nat.toDigits 10 s.stop := by
    intro s
    have htext : s.text = toString s.start ++ ".." ++ toString s.stop := rfl
    simp [htext]
  rw [hchars, hchars, List.append_assoc, List.append_assoc] at h
  obtain ⟨hstart, hrest⟩ := Text.toDigits_append_inj (by decide) (by decide) (by simp) (by simp) h
  obtain ⟨hstop, hr⟩ := Text.toDigits_append_inj (by decide) (by decide)
    (fun c hc => by rw [hr c hc]; decide) (fun c hc => by rw [hr' c hc]; decide)
    (List.cons.inj (List.cons.inj hrest).2).2
  obtain ⟨start, stop, _⟩ := a
  obtain rfl : start = b.start := hstart
  obtain rfl : stop = b.stop := hstop
  exact ⟨rfl, hr⟩

namespace Outline

/-- What a property shows of a scalar: one of its type, or none if it holds nodes. -/
inductive Declares (p : Property) : Option Scalar → Prop
  | scalar {ty : ScalarType} {v : Scalar} : p.form = .scalar ty → v.conformsTo ty = true → Declares p (some v)
  | none : (∀ ty, p.form ≠ .scalar ty) → Declares p none

/-- The scalars of a row of slots are those that the properties declare. -/
theorem declares_of_worded {α : Type} {k : Kind} {ss : List (Slot α)} (hfits : k.fits ss = true)
    (hworded : k.Worded ss) : List.Forall₂ Declares k.storage (ss.map Slot.scalar?) := by
  refine List.forall₂_map_right_iff.2 (List.forall₂_iff_zip.2
    ⟨(Kind.forall₂_of_fits hfits).length_eq, fun {p content} hmem => ?_⟩)
  obtain ⟨s, hs⟩ := List.mem_iff_getElem?.1 hmem
  obtain ⟨hp, hcontent⟩ := List.getElem?_zip_eq_some.1 hs
  have hform := List.forall₂_zip (Kind.forall₂_of_fits hfits) hmem
  cases content with
  | scalar v =>
    rcases hty : p.form with ty | _ | _ <;> rw [hty] at hform
    · exact .scalar hty (hworded hcontent hp hty).conforms
    · cases hform
    · cases hform
  | child _ | list _ =>
    refine .none fun ty hty => ?_
    rw [hty] at hform
    cases hform

/-- The scalars of a node as they are shown, one after the other. -/
def scalarsText (ps : List Property) (vs : List (Option Scalar)) : String :=
  String.join ((vs.zip ps).filterMap fun (v, p) => v.map fun v => s!" {p.name}={v.text}")

theorem toList_scalarsText_some (p : Property) (ps : List Property) (v : Scalar) (vs : List (Option Scalar)) :
    (scalarsText (p :: ps) (some v :: vs)).toList =
      ' ' :: (p.name.toList ++ '=' :: (v.text.toList ++ (scalarsText ps vs).toList)) := by
  have htext : scalarsText (p :: ps) (some v :: vs) =
      (" " ++ p.name ++ "=" ++ v.text) ++ scalarsText ps vs := String.join_cons
  simp [htext]

/-- Before each scalar there is a space. -/
theorem head?_scalarsText (ps : List Property) (vs : List (Option Scalar)) :
    ∀ c ∈ (scalarsText ps vs).toList.head?, c = ' ' := by
  induction ps generalizing vs with
  | nil => simp [scalarsText]
  | cons p ps ih =>
    rcases vs with _ | ⟨_ | v, vs⟩
    · simp [scalarsText]
    · exact ih vs
    · simp [toList_scalarsText_some]

/-- **The scalars of a node are read back.** -/
theorem scalarsText_inj {ps : List Property} {vs vs' : List (Option Scalar)}
    (h : List.Forall₂ Declares ps vs) (h' : List.Forall₂ Declares ps vs')
    (heq : scalarsText ps vs = scalarsText ps vs') : vs = vs' := by
  induction h generalizing vs' with
  | nil =>
    cases h'
    rfl
  | @cons p v ps vs hv hvs ih =>
    obtain _ | ⟨hv', hvs'⟩ := h'
    cases hv with
    | none hnot =>
      cases hv' with
      | none _ => rw [ih hvs' heq]
      | scalar hty _ => exact absurd hty (hnot _)
    | @scalar ty v hty hconf =>
      cases hv' with
      | none hnot => exact absurd hty (hnot _)
      | @scalar ty' v' hty' hconf' =>
        obtain rfl := Form.scalar.inj (hty.symm.trans hty')
        have htexts := congrArg String.toList heq
        rw [toList_scalarsText_some, toList_scalarsText_some, List.cons_inj_right,
          List.append_cancel_left_eq, List.cons_inj_right] at htexts
        obtain ⟨rfl, hrest⟩ := Scalar.text_append_inj hconf hconf' (head?_scalarsText _ _)
          (head?_scalarsText _ _) htexts
        rw [ih hvs' (String.toList_inj.1 hrest)]

/-- The range of a node as it is shown, if it is known. -/
def rangeText (range : Option Span) : String := range.elim "" fun range => "@" ++ range.text

theorem toList_rangeText_some (range : Span) :
    (rangeText (some range)).toList = '@' :: range.text.toList := by
  rw [rangeText, Option.elim_some, String.toList_append]
  rfl

/-- **A range is read back**, known or not. -/
theorem rangeText_append_inj {range range' : Option Span} {r r' : List Char} (hr : ∀ c ∈ r.head?, c = ' ')
    (hr' : ∀ c ∈ r'.head?, c = ' ') (h : (rangeText range).toList ++ r = (rangeText range').toList ++ r') :
    range = range' ∧ r = r' := by
  rcases range with _ | range <;> rcases range' with _ | range'
  · exact ⟨rfl, h⟩
  · rw [toList_rangeText_some] at h
    have hspace := hr '@' (by rw [show r = _ from h]; rfl)
    exact absurd hspace (by decide)
  · rw [toList_rangeText_some] at h
    have hspace := hr' '@' (by rw [show r' = _ from h.symm]; rfl)
    exact absurd hspace (by decide)
  · rw [toList_rangeText_some, toList_rangeText_some] at h
    obtain ⟨rfl, hrest⟩ := Span.text_append_inj hr hr' (List.cons.inj h).2
    exact ⟨rfl, hrest⟩

theorem toList_kindLine (k : Kind) (range : Option Span) (vs : List (Option Scalar)) :
    (kindLine k range vs).toList =
      k.name.toList ++ ((rangeText range).toList ++ (scalarsText k.storage vs).toList) := by
  have htext : kindLine k range vs = k.name ++ rangeText range ++ scalarsText k.storage vs := rfl
  simp [htext]

/-- The word for a kind ends where a range or a scalar begins. -/
theorem not_isAlpha_head? (range : Option Span) (ps : List Property) (vs : List (Option Scalar)) :
    ∀ c ∈ ((rangeText range).toList ++ (scalarsText ps vs).toList).head?, c.isAlpha = false := by
  rcases range with _ | range
  · intro c hc
    rw [head?_scalarsText ps vs c hc]
    decide
  · rw [toList_rangeText_some]
    intro c hc
    obtain rfl : '@' = c := by simpa using hc
    decide

/-- **The line of a node determines its kind, its range and its scalars.** -/
theorem kindLine_inj {k k' : Kind} {range range' : Option Span} {vs vs' : List (Option Scalar)}
    (h : List.Forall₂ Declares k.storage vs) (h' : List.Forall₂ Declares k'.storage vs')
    (heq : kindLine k range vs = kindLine k' range' vs') : k = k' ∧ range = range' ∧ vs = vs' := by
  have hletters : ∀ k : Kind, ∀ c ∈ k.name.toList, c.isAlpha = true := fun k =>
    List.all_eq_true.1 (by cases k <;> decide)
  have hname : ∀ k : Kind, Kind.ofName? k.name = some k := fun k => by cases k <;> rfl
  have htexts := congrArg String.toList heq
  rw [toList_kindLine, toList_kindLine] at htexts
  obtain ⟨hword, hrest⟩ := append_inj_of_stops (hletters k) (hletters k') (not_isAlpha_head? _ _ _)
    (not_isAlpha_head? _ _ _) htexts
  obtain rfl : k = k' := Option.some.inj (by rw [← hname k, ← hname k', String.toList_inj.1 hword])
  obtain ⟨rfl, hscalars⟩ := rangeText_append_inj (head?_scalarsText _ _) (head?_scalarsText _ _) hrest
  exact ⟨rfl, rfl, scalarsText_inj h h' (String.toList_inj.1 hscalars)⟩

/-! ## What may follow the lines of a node -/

/-- How deep a line stands: the number of spaces before it. -/
def indent (line : String) : Nat := (line.toList.takeWhile (· == ' ')).length

/-- **What may follow**: nothing, or a line that stands less deep than the depth. -/
def Shallow (depth : Nat) (lines : List String) : Prop := ∀ line ∈ lines.head?, indent line < 2 * depth

theorem indent_margin (depth : Nat) {s : String} (hs : ∀ c ∈ s.toList.head?, c ≠ ' ') :
    indent (margin depth ++ s) = 2 * depth := by
  have hstop : s.toList.takeWhile (· == ' ') = [] := by
    rcases hchars : s.toList with _ | ⟨c, cs⟩
    · rfl
    · exact List.takeWhile_cons_of_neg (by simpa using hs c (by rw [hchars]; rfl))
  rw [indent, String.toList_append, toList_margin, List.takeWhile_append_of_pos (by simp), hstop]
  simp

theorem indent_kindLine (depth : Nat) (k : Kind) (range : Option Span) (vs : List (Option Scalar)) :
    indent (margin depth ++ kindLine k range vs) = 2 * depth := by
  refine indent_margin depth ?_
  rw [toList_kindLine]
  cases k <;> (intro c hc; obtain rfl := Option.some.inj hc; decide)

theorem indent_property (depth : Nat) (p : Property) (s : String) :
    indent (margin depth ++ p.name ++ s) = 2 * depth := by
  rw [String.append_assoc]
  refine indent_margin depth ?_
  rw [String.toList_append]
  cases p <;> (intro c hc; obtain rfl := Option.some.inj hc; decide)

theorem Shallow.mono {depth depth' : Nat} {lines : List String} (h : Shallow depth lines)
    (hle : depth ≤ depth') : Shallow depth' lines := fun line hline =>
  Nat.lt_of_lt_of_le (h line hline) (Nat.mul_le_mul_left 2 hle)

/-- Lines of a depth are not those of what may follow. -/
theorem not_shallow_cons {depth : Nat} {line : String} {lines : List String}
    (hindent : indent line = 2 * depth) : ¬Shallow depth (line :: lines) := fun h =>
  absurd (h line rfl) (by omega)

theorem shallow_cons {depth depth' : Nat} {line : String} {lines : List String}
    (hindent : indent line = 2 * depth) (hlt : depth < depth') : Shallow depth' (line :: lines) := by
  rintro _ ⟨⟩
  omega

/-! ## The lines of a property -/

/-- The first line of a property stands at the depth of the property. -/
theorem indent_head?_propertyLines (depth : Nat) (s : Slot Lines) (p : Property) :
    ∀ line ∈ (propertyLines depth s p).head?, indent line = 2 * depth := by
  have hheader : indent (margin depth ++ p.name) = 2 * depth := by simpa using indent_property depth p ""
  rcases s with v | (_ | c) | (_ | ⟨c, cs⟩) <;> rintro line ⟨⟩
  · exact indent_property depth p _
  · exact hheader
  · exact indent_property depth p _
  · exact hheader

/-- Properties at a depth may follow what stands deeper. -/
theorem Shallow.properties {depth : Nat} {r : List String} (hr : Shallow (depth + 1) r)
    (slots : List (Slot Lines × Property)) :
    Shallow (depth + 1) ((slots.flatMap fun x => propertyLines depth x.1 x.2) ++ r) := by
  induction slots with
  | nil => exact hr
  | cons x slots ih =>
    rw [List.flatMap_cons, List.append_assoc]
    rcases hlines : propertyLines depth x.1 x.2 with _ | ⟨line, lines⟩
    · exact ih
    · refine shallow_cons ?_ (Nat.lt_succ_self depth)
      exact indent_head?_propertyLines depth x.1 x.2 line (by rw [hlines]; rfl)

end Outline

namespace Subtree

open Outline

variable {s s' : Subtree} {p : Property} {depth : Nat} {r r' : List String}

/-- A subtree in lines: the line of the node, and then its properties. -/
theorem outline_eq_cons (h : Head) (ss : List (Slot Subtree)) (depth : Nat) :
    (node h ss).outline depth = (margin depth ++ kindLine h.kind h.range (ss.map Slot.scalar?)) ::
      ((ss.map (Slot.map outline)).zip h.kind.storage).flatMap fun x =>
        propertyLines (depth + 1) x.1 x.2 := by
  rw [outline_node, ← List.map_congr_left fun s _ => Slot.scalar?_map outline s, ← Function.comp_def,
    ← List.map_map, ← nodeLine_eq]
  rfl

/-! ## Reading back -/

/-- **The nodes are as their kinds declare them**: their slots have the forms and their scalars the types. -/
inductive Declared : Subtree → Prop
  | node {h : Head} {ss : List (Slot Subtree)} : h.kind.fits ss = true → h.kind.Worded ss →
    (∀ slot ∈ ss, ∀ c ∈ slot.members, Declared c) → Declared (node h ss)

/-- **The subtree is read back** from its lines, up to handles and marks, whatever may follow them: that is a
line no deeper than the first of them, such as the next element of a list. -/
def ReadBack (s : Subtree) : Prop :=
  ∀ ⦃depth : Nat⦄ ⦃s' : Subtree⦄ ⦃r r' : List String⦄, s'.Declared → Shallow (depth + 1) r →
    Shallow (depth + 1) r' → s.outline depth ++ r = s'.outline depth ++ r' → s.bare = s'.bare ∧ r = r'

/-- The lines of a list that has elements. -/
theorem propertyLines_list (depth : Nat) (p : Property) (c : Subtree) (cs : List Subtree) :
    propertyLines depth (Slot.map outline (.list (c :: cs))) p =
      (margin depth ++ p.name) :: (c :: cs).flatMap (·.outline (depth + 1)) :=
  congrArg ((margin depth ++ p.name) :: ·) (List.flatMap_map ..)

/-- What follows an element is another element, or what follows the list. -/
theorem shallow_elements (hr : Shallow depth r) (cs : List Subtree) :
    Shallow (depth + 1) (cs.flatMap (·.outline depth) ++ r) := by
  rcases cs with _ | ⟨⟨h, ss⟩, cs⟩
  · exact hr.mono (Nat.le_succ depth)
  · rw [List.flatMap_cons, outline_eq_cons]
    exact shallow_cons (indent_kindLine _ _ _ _) (Nat.lt_succ_self depth)

/-- With an element, a list does not begin like what follows a list. -/
theorem elements_ne (hr : Shallow depth r) (c : Subtree) (cs : List Subtree) (r' : List String) :
    (c :: cs).flatMap (·.outline depth) ++ r' ≠ r := by
  rintro rfl
  obtain ⟨h, ss⟩ := c
  rw [List.flatMap_cons, outline_eq_cons] at hr
  exact not_shallow_cons (indent_kindLine _ _ _ _) hr

/-- **The elements of a list are read back**: the list ends where the lines get less deep. -/
theorem elements_append_inj {cs cs' : List Subtree} (hcs : ∀ c ∈ cs, c.ReadBack)
    (hcs' : ∀ c ∈ cs', c.Declared) (hr : Shallow depth r) (hr' : Shallow depth r')
    (h : cs.flatMap (·.outline depth) ++ r = cs'.flatMap (·.outline depth) ++ r') :
    cs.map bare = cs'.map bare ∧ r = r' := by
  induction cs generalizing cs' with
  | nil =>
    cases cs' with
    | nil => exact ⟨rfl, h⟩
    | cons c' cs' => exact absurd h.symm (elements_ne hr c' cs' r')
  | cons c cs ih =>
    cases cs' with
    | nil => exact absurd h (elements_ne hr' c cs r)
    | cons c' cs' =>
      obtain ⟨hc, hcs⟩ := List.forall_mem_cons.1 hcs
      obtain ⟨hc', hcs'⟩ := List.forall_mem_cons.1 hcs'
      rw [List.flatMap_cons, List.flatMap_cons, List.append_assoc, List.append_assoc] at h
      -- an element is followed by elements, so a bound one deeper than that of the list
      obtain ⟨hbare, hrest⟩ := hc hc' (shallow_elements hr cs) (shallow_elements hr' cs') h
      obtain ⟨hbares, hrest⟩ := ih hcs hcs' hrest
      exact ⟨by rw [List.map_cons, List.map_cons, hbare, hbares], hrest⟩

/-- The line above children is not that of a property without any. -/
theorem header_ne (depth : Nat) (p : Property) {s : String} (hs : s ≠ "") :
    margin depth ++ p.name ++ s ≠ margin depth ++ p.name := by
  intro h
  have htexts := congrArg String.toList h
  rw [String.toList_append, List.append_right_eq_self] at htexts
  exact hs (String.toList_eq_nil_iff.1 htexts)

/-- **The content of a property is read back**, if its scalar is known. -/
theorem propertyLines_append_inj {x x' : Slot Subtree} (hfits : x.fits p.form = true)
    (hfits' : x'.fits p.form = true) (hscalar : x.scalar? = x'.scalar?) (hx : ∀ c ∈ x.members, c.ReadBack)
    (hx' : ∀ c ∈ x'.members, c.Declared) (hr : Shallow (depth + 1) r) (hr' : Shallow (depth + 1) r')
    (h : propertyLines depth (x.map outline) p ++ r = propertyLines depth (x'.map outline) p ++ r') :
    x.map bare = x'.map bare ∧ r = r' := by
  rcases hform : p.form with ty | ty | ty <;> rw [hform] at hfits hfits'
  case scalar =>
    obtain v | _ | _ := x <;> cases hfits
    obtain v' | _ | _ := x' <;> cases hfits'
    obtain rfl := Option.some.inj hscalar
    exact ⟨rfl, h⟩
  case child =>
    obtain _ | c | _ := x <;> cases hfits
    obtain _ | c' | _ := x' <;> cases hfits'
    rcases c with _ | c <;> rcases c' with _ | c'
    · exact ⟨rfl, (List.cons.inj h).2⟩
    · exact absurd (List.cons.inj h).1 (header_ne depth p (by decide))
    · exact absurd (List.cons.inj h).1.symm (header_ne depth p (by decide))
    · obtain ⟨hbare, hrest⟩ := hx c (List.mem_singleton_self c) (hx' c' (List.mem_singleton_self c'))
        (hr.mono (Nat.le_succ _)) (hr'.mono (Nat.le_succ _)) (List.cons.inj h).2
      exact ⟨congrArg (fun b => Slot.child (some b)) hbare, hrest⟩
  case list =>
    obtain _ | _ | cs := x <;> cases hfits
    obtain _ | _ | cs' := x' <;> cases hfits'
    rcases cs with _ | ⟨c, cs⟩ <;> rcases cs' with _ | ⟨c', cs'⟩
    · exact ⟨rfl, (List.cons.inj h).2⟩
    · rw [propertyLines_list] at h
      exact absurd (List.cons.inj h).1 (header_ne depth p (by decide))
    · rw [propertyLines_list] at h
      exact absurd (List.cons.inj h).1.symm (header_ne depth p (by decide))
    · rw [propertyLines_list, propertyLines_list] at h
      obtain ⟨hbares, hrest⟩ := elements_append_inj hx hx' hr hr' (List.cons.inj h).2
      exact ⟨congrArg Slot.list hbares, hrest⟩

/-- **The slots of a node are read back**, if its scalars are known. -/
theorem slots_append_inj {ps : List Property} {ss ss' : List (Slot Subtree)}
    (hfits : List.Forall₂ (fun p x => x.fits p.form = true) ps ss)
    (hfits' : List.Forall₂ (fun p x => x.fits p.form = true) ps ss')
    (hscalars : ss.map Slot.scalar? = ss'.map Slot.scalar?) (hss : ∀ x ∈ ss, ∀ c ∈ x.members, c.ReadBack)
    (hss' : ∀ x ∈ ss', ∀ c ∈ x.members, c.Declared) (hr : Shallow (depth + 1) r)
    (hr' : Shallow (depth + 1) r')
    (h : (((ss.map (Slot.map outline)).zip ps).flatMap fun x => propertyLines depth x.1 x.2) ++ r =
      (((ss'.map (Slot.map outline)).zip ps).flatMap fun x => propertyLines depth x.1 x.2) ++ r') :
    ss.map (Slot.map bare) = ss'.map (Slot.map bare) ∧ r = r' := by
  induction hfits generalizing ss' with
  | nil =>
    cases hfits'
    exact ⟨rfl, h⟩
  | @cons p x ps ss hx hxs ih =>
    obtain _ | ⟨hx', hxs'⟩ := hfits'
    obtain ⟨hscalar, hscalars⟩ := List.cons.inj hscalars
    obtain ⟨hc, hcs⟩ := List.forall_mem_cons.1 hss
    obtain ⟨hc', hcs'⟩ := List.forall_mem_cons.1 hss'
    rw [List.map_cons, List.map_cons, List.zip_cons_cons, List.zip_cons_cons, List.flatMap_cons,
      List.flatMap_cons, List.append_assoc, List.append_assoc] at h
    obtain ⟨hbare, hrest⟩ := propertyLines_append_inj hx hx' hscalar hc hc' (hr.properties _)
      (hr'.properties _) h
    obtain ⟨hbares, hrest⟩ := ih hxs' hscalars hcs hcs' hrest
    exact ⟨by rw [List.map_cons, List.map_cons, hbare, hbares], hrest⟩

/-- **A subtree is read back from its lines**, whatever may follow them. -/
theorem Declared.readBack (hs : s.Declared) : s.ReadBack := by
  induction hs with
  | @node h ss hfits hworded _ ih =>
    intro depth s' r r' hs' hr hr' heq
    obtain @⟨h', ss', hfits', hworded', hdeclared⟩ := hs'
    rw [outline_eq_cons, outline_eq_cons] at heq
    obtain ⟨hline, hslots⟩ := List.cons.inj heq
    -- the first lines give the kind, and with it the properties that the other lines are of
    obtain ⟨hkind, hrange, hscalars⟩ := kindLine_inj (declares_of_worded hfits hworded)
      (declares_of_worded hfits' hworded') (String.append_right_inj _ |>.1 hline)
    rw [← hkind] at hfits' hslots
    obtain ⟨hbares, hrest⟩ := slots_append_inj (Kind.forall₂_of_fits hfits) (Kind.forall₂_of_fits hfits')
      hscalars ih hdeclared (hr.mono (Nat.le_succ _)) (hr'.mono (Nat.le_succ _)) hslots
    exact ⟨by rw [bare_node, bare_node, Head.bare, Head.bare, hkind, hrange, hbares], hrest⟩

/-- **Outlines are the same exactly if the bare subtrees are.** -/
theorem outline_eq_iff (hs : s.Declared) (hs' : s'.Declared) :
    s.outline depth = s'.outline depth ↔ s.bare = s'.bare := by
  have hnil : Shallow (depth + 1) [] := fun _ h => nomatch h
  constructor
  · intro h
    exact (hs.readBack hs' hnil hnil (congrArg (· ++ []) h)).1
  · intro h
    rw [← outline_bare s, h, outline_bare]

end Subtree

/-- **What is stored is as it is declared**, if the scalars are right. -/
theorem Tree.Shows.declared {t : Tree} {i : Nat} {s : Subtree} (hw : Arena.Worded t.records)
    (hs : t.Shows i s) : s.Declared := by
  induction hs with
  | @node i r pairs hr hfits hpairs _ ih =>
    have hworded := hw hr
    rw [hpairs, Kind.fits_map_slots] at hfits
    rw [hpairs, Kind.worded_map] at hworded
    exact .node ((Kind.fits_map_slots _).trans hfits) ((Kind.worded_map _).2 hworded)
      (Slot.forall_mem_map.2 ih)

end SyntaxForest
