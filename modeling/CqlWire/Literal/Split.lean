import CqlWire.Literal.Term

/-!
# Splitting collection literals

A collection literal is a bracket pair around terms, or around pairs of terms joined by colons,
which commas separate. Layout characters may stand after the opening bracket, around commas and
colons and before the closing bracket, and any white space around the whole.

* `splitElements`: `{a, b, c}` as its terms;
* `splitEntries`: `{a: b, c: d}` as its pairs of terms;
* `SplitError`: where a text stops being such a literal.

Reading is greedy. A comma that no term follows is not part of the list, so the closing bracket is
then expected in its place and the text is refused from that comma on.
-/

namespace CqlWire.Literal

open Text (trim skipLayout)

/-- Where a literal is malformed. -/
inductive SplitError where
  /-- The text ends where more is needed. -/
  | unexpectedEnd
  /-- The text cannot be read on from here. -/
  | malformedNear (rest : List Char)
deriving DecidableEq, Repr

/-- A text is refused from the given rest on. -/
def SplitError.from : List Char → SplitError
  | [] => .unexpectedEnd
  | rest => .malformedNear rest

/-- The wording of a refusal. -/
def SplitError.message : SplitError → String
  | .unexpectedEnd => "unexpected end of input (unbalanced brackets?)"
  | .malformedNear rest => s!"malformed literal near '{String.ofList rest}'"

/-- A separator with layout around it; what is left after it. -/
def separator? (sep : Char) (s : List Char) : Option (List Char) :=
  match skipLayout s with
  | c :: r => if c = sep then some (skipLayout r) else none
  | [] => none

/-- One item of a list: what it reads, and the rest. -/
abbrev Item (α : Type) := List Char → Option (α × List Char)

/-- Further items, each behind a comma, and the rest. An item that does not shorten the text ends
the list. -/
def moreItems {α : Type} (item : Item α) (s : List Char) : List α × List Char :=
  match separator? ',' s with
  | none => ([], s)
  | some u =>
    match item u with
    | none => ([], s)
    | some (a, r) =>
      if r.length < s.length then
        let rest := moreItems item r
        (a :: rest.1, rest.2)
      else ([], s)
termination_by s.length

/-- Items separated by commas, possibly none, and the rest. -/
def items {α : Type} (item : Item α) (s : List Char) : List α × List Char :=
  match item s with
  | none => ([], s)
  | some (a, r) =>
    let rest := moreItems item r
    (a :: rest.1, rest.2)

/-- Two terms joined by a colon. -/
def entry? : Item (List Char × List Char) := fun s => do
  let (key, r) ← term? s
  let r ← separator? ':' r
  let (value, r) ← term? r
  return ((key, value), r)

/-- The items between an opening and a closing bracket that together are the whole text. -/
def enclosed {α : Type} (item : Item α) (opening closing : Char) (text : List Char) :
    Except SplitError (List α) :=
  match trim text with
  | [] => .error .unexpectedEnd
  | c :: r =>
    if c ≠ opening then .error (.from (c :: r))
    else
      let (found, r) := items item (skipLayout r)
      match skipLayout r with
      | [] => .error .unexpectedEnd
      | d :: rest =>
        if d ≠ closing then .error (.from (d :: rest))
        else if rest = [] then .ok found
        else .error (.from rest)

/-- The terms of a literal such as `{a, b, c}`, without white space at their ends. -/
def splitElements (opening closing : Char) (text : List Char) :
    Except SplitError (List (List Char)) :=
  (enclosed term? opening closing text).map (·.map trim)

/-- The pairs of a literal such as `{a: b, c: d}`, without white space at their ends. -/
def splitEntries (opening closing : Char) (text : List Char) :
    Except SplitError (List (List Char × List Char)) :=
  (enclosed entry? opening closing text).map (·.map fun e => (trim e.1, trim e.2))

end CqlWire.Literal
