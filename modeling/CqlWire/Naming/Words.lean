import CqlWire.Text.Case

/-!
# Words of an identifier

An identifier is taken apart into lowercase words. Underscores and hyphens separate words, and a
capital starts a new one behind a lowercase letter or a digit, and also behind another capital if a
lowercase letter follows, so that a run of capitals is one word up to its last letter.

* `Naming.parts`: the words as they are written;
* `Naming.words`: the words in lower case.
-/

namespace CqlWire.Naming

open Text (isUppercase isLowercase isAsciiDigit toLowercase)

/-- An underscore or a hyphen. -/
def isSeparator (c : Char) : Bool :=
  c == '_' || c == '-'

/-- Whether a new word starts at `c`, between the character before it and the one behind it. -/
def startsWord (before c : Char) (behind : Option Char) : Bool :=
  isUppercase c &&
    (isLowercase before || isAsciiDigit before || (isUppercase before && behind.any isLowercase))

/-- The words of an identifier as they are written. -/
def parts : List Char → List (List Char)
  | [] => []
  | [c] => if isSeparator c then [] else [[c]]
  | c :: d :: r =>
    if isSeparator c then parts (d :: r)
    else if isSeparator d || startsWord c d r.head? then [c] :: parts (d :: r)
    else
      match parts (d :: r) with
      | w :: ws => (c :: w) :: ws
      | [] => [[c]]

/-- The words of an identifier in lower case. -/
def words (name : List Char) : List (List Char) :=
  (parts name).map fun w => w.flatMap toLowercase

end CqlWire.Naming
