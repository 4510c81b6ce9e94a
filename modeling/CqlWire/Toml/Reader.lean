import CqlWire.Toml.Scalar
import CqlWire.Toml.Table
import CqlWire.Toml.Text

/-!
# Reading TOML documents

A document is a sequence of lines: headers of tables, keys with values, comments and blank lines. It
is refused where it breaks the grammar, where it nests too deep, where it gives a key twice, and
where it holds an array of tables, which no setting takes.

* `Toml.value?`: a value at the front, and what stands behind it;
* `Toml.read?`: the entries of a whole document.
-/

namespace CqlWire.Toml

mutual

/-- A value at the front, and what stands behind it; at most `room` more brackets may stand open at
once. -/
def value? : (fuel room : Nat) → List Char → Option (TomlValue × List Char)
  | fuel + 1, room + 1, '[' :: r => (items? fuel room r).map fun (vs, r) => (.array vs, r)
  | fuel + 1, room + 1, '\x7b' :: r =>
    match r.dropWhile isGap with
    | '\x7d' :: r => some (.table .inline [], r)
    | r => do
      let (items, r) ← members? fuel room r
      return (← TomlValue.inlineTable? items, r)
  | _, _, s =>
    match text? s with
    | some (t, r) => some (.text t, r)
    | none => (scalar? s).map fun r => (.scalar, r)

/-- The values up to the closing bracket; a comma may stand behind the last. -/
def items? : (fuel room : Nat) → List Char → Option (List TomlValue × List Char)
  | 0, _, _ => none
  | fuel + 1, room, s => do
    match ← skipLines? false s with
    | ']' :: r => return ([], r)
    | s =>
      let (v, r) ← value? fuel room s
      match ← skipLines? false r with
      | ']' :: r => return ([v], r)
      | ',' :: r =>
        let (vs, r) ← items? fuel room r
        return (v :: vs, r)
      | _ => none

/-- One or more keys with values up to the closing brace, commas between them. -/
def members? : (fuel room : Nat) → List Char →
    Option (List (List (List Char) × TomlValue) × List Char)
  | 0, _, _ => none
  | fuel + 1, room, s => do
    let (path, r) ← path? s
    match r with
    | '=' :: r =>
      let (v, r) ← value? fuel room (r.dropWhile isGap)
      match r.dropWhile isGap with
      | '\x7d' :: r => return ([(path, v)], r)
      | ',' :: r =>
        let (items, r) ← members? fuel room r
        return ((path, v) :: items, r)
      | _ => none
    | _ => none

end

/-- The lines of a document. -/
def lines? : (fuel : Nat) → List Char → Option (List TomlLine)
  | 0, _ => none
  | fuel + 1, s =>
    match s.dropWhile isGap with
    | [] => some []
    | '[' :: '[' :: _ => none
    | '[' :: r => do
      let (path, r) ← path? r
      match r with
      | ']' :: r => return .header path :: (← lines? fuel (← lineEnd? false r))
      | _ => none
    | c :: r =>
      if c == '#' || c == '\n' || c == '\r' then do
        lines? fuel (← lineEnd? false (c :: r))
      else do
        let (path, r) ← path? (c :: r)
        match r with
        | '=' :: r =>
          let (v, r) ← value? fuel (nestingLimit - 1) (r.dropWhile isGap)
          return .entry path v :: (← lines? fuel (← lineEnd? false r))
        | _ => none

/-- The text without a byte order mark in front. -/
def dropMark : List Char → List Char
  | '\uFEFF' :: r => r
  | s => s

/-- Reads a whole document. Every step reads a character, so the length of the text bounds them. -/
def read? (text : List Char) : Option TomlValue.Entries := do
  let s := dropMark text
  TomlValue.ofLines? (← lines? (2 * s.length + 2) s)

end CqlWire.Toml
