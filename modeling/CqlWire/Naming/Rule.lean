import CqlWire.Naming.Words

/-!
# Renaming rules

How the name of a column or of an enumeration member is made from its identifier. Three rules keep
the identifier's own division: they leave it as it is or change the case of its ASCII letters. The
others join its words anew.

* `Naming.Rule.ofName?`: a rule by its name, which is written the way it writes names;
* `Naming.Rule.apply`: the name that a rule makes.
-/

namespace CqlWire.Naming

open Text (toAsciiLower toAsciiUpper toUppercase)

/-- The renaming rules. -/
inductive Rule where
  | verbatim | lower | upper | snake | screamingSnake | camel | pascal | kebab
deriving DecidableEq, Repr

namespace Rule

/-- The rules that have a name, in the order in which they are listed. -/
def named : List (String × Rule) :=
  [("lowercase", .lower), ("UPPERCASE", .upper), ("snake_case", .snake),
   ("SCREAMING_SNAKE_CASE", .screamingSnake), ("camelCase", .camel), ("PascalCase", .pascal),
   ("kebab-case", .kebab)]

/-- The rule of a name. -/
def ofName? (name : String) : Option Rule :=
  named.lookup name

/-- Words with a separator between them. -/
def joinWith (separator : Char) (ws : List (List Char)) : List Char :=
  [separator].intercalate ws

/-- A word with its first character in upper case. -/
def capitalize : List Char → List Char
  | [] => []
  | c :: r => toUppercase c ++ r

/-- The name that a rule makes from an identifier. -/
def apply : Rule → List Char → List Char
  | .verbatim, name => name
  | .lower, name => name.map toAsciiLower
  | .upper, name => name.map toAsciiUpper
  | .snake, name => joinWith '_' (words name)
  | .screamingSnake, name => (joinWith '_' (words name)).map toAsciiUpper
  | .kebab, name => joinWith '-' (words name)
  | .pascal, name => (words name).flatMap capitalize
  | .camel, name =>
    match words name with
    | [] => []
    | w :: ws => w ++ ws.flatMap capitalize

end Rule

end CqlWire.Naming
