import CqlWire.Text.Ascii
import CqlWire.Text.CaseTables

/-!
# Case

The two cases of letters in the sense of Unicode, and the full case mappings, which can turn one
character into several. The context that a mapping may depend on is left out of account, so a
character is always mapped as if it stood alone.

* `isUppercase`, `isLowercase`: the case of a letter;
* `toLowercase`, `toUppercase`: what a character becomes.
-/

namespace CqlWire.Text

/-- A letter of upper case. -/
def isUppercase (c : Char) : Bool :=
  if c.toNat < 128 then 'A' ≤ c && c ≤ 'Z' else uppercaseRuns.any (·.contains c.toNat)

/-- A letter of lower case. -/
def isLowercase (c : Char) : Bool :=
  if c.toNat < 128 then 'a' ≤ c && c ≤ 'z' else lowercaseRuns.any (·.contains c.toNat)

/-- What a mapping makes of a character: its expansion, or the character shifted, or itself. -/
def mapCase (expansions : List (Nat × List Nat)) (shifts : List (CodeRun × Int)) (c : Char) :
    List Char :=
  match expansions.lookup c.toNat with
  | some ns => ns.map Char.ofNat
  | none =>
    match shifts.find? fun s => s.1.contains c.toNat with
    | some (_, d) => [Char.ofNat (c.toNat + d).toNat]
    | none => [c]

/-- The lowercase form of a character. -/
def toLowercase (c : Char) : List Char :=
  if c.toNat < 128 then [toAsciiLower c] else mapCase lowercaseExpansions lowercaseShifts c

/-- The uppercase form of a character. -/
def toUppercase (c : Char) : List Char :=
  if c.toNat < 128 then [toAsciiUpper c] else mapCase uppercaseExpansions uppercaseShifts c

theorem toLowercase_of_ascii {c : Char} (h : c.toNat < 128) : toLowercase c = [toAsciiLower c] :=
  if_pos h

theorem toUppercase_of_ascii {c : Char} (h : c.toNat < 128) : toUppercase c = [toAsciiUpper c] :=
  if_pos h

end CqlWire.Text
