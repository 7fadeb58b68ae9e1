import ThreeAddress.Text.Graphic

/-!
# Quoted text

Listings show characters and strings between quotes, with escapes for whatever would not show
or would end the quotes early: five characters have a letter of their own, the quote takes a
backslash, and a character that is not graphic is written by its number.
-/

namespace ThreeAddress

namespace Quoted

/-- A character by its number in lower-case hexadecimal, without padding. -/
def byNumber (c : Char) : List Char :=
  ['\\', 'u', '\x7b'] ++ Nat.toDigits 16 c.toNat ++ ['\x7d']

/-- One character between a given pair of quotes. -/
def escape (quote c : Char) : List Char :=
  if c = '\x00' then ['\\', '0']
  else if c = '\t' then ['\\', 't']
  else if c = '\n' then ['\\', 'n']
  else if c = '\r' then ['\\', 'r']
  else if c = '\\' then ['\\', '\\']
  else if c = quote then ['\\', quote]
  else if isGraphic c then [c]
  else byNumber c

/-- A character between single quotes. -/
def char (c : Char) : String :=
  String.ofList ('\'' :: escape '\'' c ++ ['\''])

/-- A text between double quotes. -/
def string (text : String) : String :=
  String.ofList ('"' :: text.toList.flatMap (escape '"') ++ ['"'])

end Quoted

end ThreeAddress
