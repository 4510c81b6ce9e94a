import CqlWire.Text.Blank
import CqlWire.Text.Ascii

/-!
# Quoted text and the NULL literal

A string literal stands between single quotes, and a quote inside it is written twice.

* `quote`, `unquote?`: writing and reading a string literal; reading ignores white space around it;
* `isNullLiteral`: the word NULL in any case, with any white space around it.
-/

namespace CqlWire.Text

/-- The text with every quote written twice. -/
def doubleQuotes : List Char → List Char
  | [] => []
  | '\x27' :: r => '\x27' :: '\x27' :: doubleQuotes r
  | c :: r => c :: doubleQuotes r

/-- The string literal of a text. -/
def quote (s : List Char) : List Char :=
  '\x27' :: doubleQuotes s ++ ['\x27']

/-- The text of a literal whose opening quote has been read; the closing quote must be last. -/
def closeQuote : List Char → Option (List Char)
  | [] => none
  | ['\x27'] => some []
  | '\x27' :: '\x27' :: r => (closeQuote r).map ('\x27' :: ·)
  | c :: r => if c = '\x27' then none else (closeQuote r).map (c :: ·)

/-- The text of a string literal, which white space may surround. -/
def unquote? (t : List Char) : Option (List Char) :=
  match trim t with
  | '\x27' :: r => closeQuote r
  | _ => none

/-- The word for an absent value. -/
def nullWord : List Char := "NULL".toList

/-- The literal of an absent value: NULL in any case, white space around it ignored. -/
def isNullLiteral (t : List Char) : Bool :=
  eqIgnoreCase (trim t) nullWord

end CqlWire.Text
