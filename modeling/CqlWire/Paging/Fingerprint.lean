import CqlWire.Codec.Basic

/-!
# Fingerprints of statements

A fingerprint is the text of a query with the stored form of every bound value, in order. Two
executions continue each other only if their fingerprints are equal.

* `Fingerprint.bind`: adds a value that a codec stores;
* `Fingerprint.mismatch?`: the first difference, if there is one: the text, then the number of
  values, then the first value that differs.
-/

namespace CqlWire

/-- A query and the stored values that are bound to it. -/
structure Fingerprint where
  query : String
  values : List (Option Bytes)
deriving DecidableEq, Repr

namespace Fingerprint

/-- A query to which nothing is bound. -/
def ofQuery (query : String) : Fingerprint := ⟨query, []⟩

/-- Binds a value that is stored already. -/
def bindStored (f : Fingerprint) (value : Option Bytes) : Fingerprint :=
  { f with values := f.values ++ [value] }

/-- Binds a value in the form in which a codec stores it. -/
def bind (f : Fingerprint) (c : Codec) (v : Value) : Except Error Fingerprint := do
  return f.bindStored (← c.encode v)

/-- The position of the first of two values that differ. -/
def firstDifference? : (index : Nat) → List (Option Bytes × Option Bytes) → Option Nat
  | _, [] => none
  | index, (a, b) :: rest => if a = b then firstDifference? (index + 1) rest else some index

/-- The first difference from the statement that wants to go on. -/
def mismatch? (recorded actual : Fingerprint) : Option Mismatch :=
  if recorded.query ≠ actual.query then some (.queryText recorded.query actual.query)
  else if recorded.values.length ≠ actual.values.length then
    some (.parameterCount recorded.values.length actual.values.length)
  else (firstDifference? 0 (recorded.values.zip actual.values)).map Mismatch.parameter

end Fingerprint

end CqlWire
