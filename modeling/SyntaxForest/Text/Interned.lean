/-!
# Text/Interned — texts kept once

Equal texts are one symbol.  A row of texts is interned by giving each the position of its first equal.

* `firstEqual_inj` — texts are equal exactly when their positions are.
-/

namespace SyntaxForest.Text

/-- A text of a row, with the position of the first text of the row that is equal to it. -/
structure Interned where
  text : String
  firstEqual : Nat
  deriving DecidableEq, Repr

/-- The number of bytes of the text in UTF-8. -/
def Interned.byteLength (s : Interned) : Nat := s.text.utf8ByteSize

/-- Interns a row of texts, in order. -/
def intern (texts : List String) : List Interned :=
  texts.map fun text => ⟨text, texts.idxOf text⟩

/-- The text at the position of the first equal is the text itself. -/
theorem getElem?_firstEqual {texts : List String} {s : Interned} (h : s ∈ intern texts) :
    texts[s.firstEqual]? = some s.text := by
  obtain ⟨text, hmem, rfl⟩ := List.mem_map.1 h
  have hlt := List.idxOf_lt_length_of_mem hmem
  rw [List.getElem?_eq_getElem hlt, List.getElem_idxOf]

/-- **Interning tells texts apart**: two texts of a row are equal exactly when their positions are. -/
theorem firstEqual_inj {texts : List String} {a b : Interned} (ha : a ∈ intern texts)
    (hb : b ∈ intern texts) : a.firstEqual = b.firstEqual ↔ a.text = b.text := by
  constructor
  · intro h
    have hpos := getElem?_firstEqual ha
    rw [h, getElem?_firstEqual hb] at hpos
    exact (Option.some.inj hpos).symm
  · intro h
    obtain ⟨x, -, rfl⟩ := List.mem_map.1 ha
    obtain ⟨y, -, rfl⟩ := List.mem_map.1 hb
    exact congrArg texts.idxOf h

end SyntaxForest.Text
