/-!
# TOML tables

The values of a TOML document and the rules by which its lines build up tables. No setting takes a
boolean, a number or a date, so of such a value it is only known that it stands in its place.

A table remembers how it came about, since that decides what may still be added to it:

* `TableOrigin`: by its own header, by the header of a table inside it, by a dotted key, or inline;
* `TomlValue.put?`: a value under a dotted key, whose path may pass through tables that dotted
  keys made and through no others;
* `TomlValue.openTable?`: a header, which opens a table that is new or was only implied.
-/

namespace CqlWire

/-- How a table came about. -/
inductive TableOrigin where
  | header | implied | dotted | inline
deriving DecidableEq, Repr

/-- The values that settings are made of, and `scalar` for a boolean, a number, a date or a time. -/
inductive TomlValue where
  | text (s : List Char)
  | scalar
  | array (items : List TomlValue)
  | table (origin : TableOrigin) (entries : List (List Char × TomlValue))
deriving Repr

/-- A line of a document that says something. -/
inductive TomlLine where
  | header (path : List (List Char))
  | entry (path : List (List Char)) (value : TomlValue)
deriving Repr

namespace TomlValue

/-- The entries of a table. -/
abbrev Entries := List (List Char × TomlValue)

/-- The value of a key. -/
def lookup? (key : List Char) (entries : Entries) : Option TomlValue :=
  entries.lookup key

/-- The entries with the value of a key replaced, or added at the end. -/
def set (key : List Char) (value : TomlValue) : Entries → Entries
  | [] => [(key, value)]
  | (k, v) :: r => if k = key then (key, value) :: r else (k, v) :: set key value r

/-- Changes the table at the end of a path. Tables on the way must satisfy `passes`, and those that
are missing come about as `fresh`. The change sees how its table came about. -/
def change? (fresh : TableOrigin) (passes : TableOrigin → Bool)
    (f : TableOrigin → Entries → Option Entries) :
    (path : List (List Char)) → TableOrigin → Entries → Option Entries
  | [], origin, entries => f origin entries
  | key :: path, _, entries =>
    match lookup? key entries with
    | none => do
      let inner ← change? fresh passes f path fresh []
      return set key (.table fresh inner) entries
    | some (.table origin inner) =>
      if passes origin then do
        let inner ← change? fresh passes f path origin inner
        return set key (.table origin inner) entries
      else none
    | some _ => none

/-- Adds a value under the last key of a path. A dotted path ends in a table that dotted keys made. -/
def put? (path : List (List Char)) (value : TomlValue) (origin : TableOrigin)
    (entries : Entries) : Option Entries :=
  match path.getLast? with
  | none => none
  | some key =>
    change? .dotted (fun o => o == .dotted || o == .implied)
      (fun o inner =>
        if 1 < path.length && o != .dotted then none
        else if (lookup? key inner).isSome then none
        else some (set key value inner))
      path.dropLast origin entries

/-- Opens the table of a header. -/
def openTable? (path : List (List Char)) (entries : Entries) : Option Entries :=
  match path.getLast? with
  | none => none
  | some key =>
    change? .implied (· != .inline)
      (fun _ inner =>
        match lookup? key inner with
        | none => some (set key (.table .header []) inner)
        | some (.table .implied inside) => some (set key (.table .header inside) inner)
        | some _ => none)
      path.dropLast .header entries

/-- The entries after some more lines; `current` is the path of the table whose header came last. -/
def addLines? (current : List (List Char)) (entries : Entries) : List TomlLine → Option Entries
  | [] => some entries
  | .header path :: lines => do addLines? path (← openTable? path entries) lines
  | .entry path value :: lines => do
    let entries ← change? .implied (· != .inline) (put? path value) current .header entries
    addLines? current entries lines

/-- The document that lines make up. -/
def ofLines? (lines : List TomlLine) : Option Entries :=
  addLines? [] [] lines

/-- The inline table that keys with values make up. -/
def inlineTable? (items : List (List (List Char) × TomlValue)) : Option TomlValue := do
  let entries ← items.foldlM (fun entries (path, value) => put? path value .header entries) []
  return .table .inline entries

end TomlValue

end CqlWire
