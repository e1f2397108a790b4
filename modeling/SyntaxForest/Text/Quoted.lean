import SyntaxForest.Text.Unprintable

/-!
# Text/Quoted — texts between double quotes

A quoted text stands between double quotes.  The quote, the backslash and four controls have escapes
of two characters; any other unprintable character is written by its code point in lower-case
hexadecimal digits between braces, without leading zeros; all else stands as it is.

* `escape_of_plain` — a printable character other than quote and backslash is its own escape.
-/

namespace SyntaxForest.Text

/-- The hexadecimal digits of a number, lower case, without leading zeros. -/
def hexDigits (n : Nat) : List Char := Nat.toDigits 16 n

/-- What stands for a character inside a quoted text. -/
def escape (c : Char) : List Char :=
  if c = '\x00' then ['\\', '0']
  else if c = '\t' then ['\\', 't']
  else if c = '\n' then ['\\', 'n']
  else if c = '\r' then ['\\', 'r']
  else if c = '"' then ['\\', '"']
  else if c = '\\' then ['\\', '\\']
  else if isUnprintable c then ['\\', 'u', '\x7b'] ++ hexDigits c.toNat ++ ['\x7d']
  else [c]

/-- The quoted form of a text. -/
def quoted (text : String) : String :=
  String.ofList ('"' :: text.toList.flatMap escape ++ ['"'])

theorem escape_of_plain {c : Char} (h : isUnprintable c = false) (hq : c ≠ '"') (hb : c ≠ '\\') :
    escape c = [c] := by
  have h0 : c ≠ '\x00' := by rintro rfl; exact absurd h (by decide)
  have ht : c ≠ '\t' := by rintro rfl; exact absurd h (by decide)
  have hn : c ≠ '\n' := by rintro rfl; exact absurd h (by decide)
  have hr : c ≠ '\r' := by rintro rfl; exact absurd h (by decide)
  simp [escape, h, hq, hb, h0, ht, hn, hr]

end SyntaxForest.Text
