/-!
# ASCII letters

Folding of case over the ASCII letters alone; every other character stays as it is.
-/

namespace CqlWire.Text

/-- The character with an ASCII capital made small. -/
def toAsciiLower (c : Char) : Char :=
  if 'A' ≤ c ∧ c ≤ 'Z' then Char.ofNat (c.toNat + 32) else c

/-- The character with an ASCII small letter made capital. -/
def toAsciiUpper (c : Char) : Char :=
  if 'a' ≤ c ∧ c ≤ 'z' then Char.ofNat (c.toNat - 32) else c

/-- Two texts that differ at most in the case of ASCII letters. -/
def eqIgnoreCase (s t : List Char) : Bool :=
  s.map toAsciiLower == t.map toAsciiLower

/-- An ASCII letter. -/
def isAsciiLetter (c : Char) : Bool :=
  ('a' ≤ c && c ≤ 'z') || ('A' ≤ c && c ≤ 'Z')

/-- An ASCII digit. -/
def isAsciiDigit (c : Char) : Bool :=
  '0' ≤ c && c ≤ '9'

/-- A character of US-ASCII. -/
def isAscii (c : Char) : Bool :=
  c.toNat < 128

end CqlWire.Text
