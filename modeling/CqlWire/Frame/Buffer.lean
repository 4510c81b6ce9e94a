import CqlWire.Frame

/-!
# Frames in a buffer

Frames and counts are written behind what a buffer holds already. A step of writing that is refused
ends the writing, and the buffer keeps what was written before.

* `Frame.Writer`: a step of writing, which `Frame.put` is made of;
* `Frame.putCount`, `Frame.putValue`: one count and one framed value;
* `Frame.putCounted`, `Frame.readCounted`: as many framed values as the count before them says.
-/

namespace CqlWire.Frame

/-- A step that writes into a buffer or is refused. -/
abbrev Writer := EStateM Error Bytes Unit

/-- Writes bytes behind those of the buffer. -/
def put (bs : Bytes) : Writer :=
  modify fun buffer => buffer ++ bs

/-- Writes a length or a count. -/
def putCount (n : Nat) : Writer :=
  match writeCount n with
  | .ok bs => put bs
  | .error e => throw e

/-- Writes a framed value. -/
def putValue : Option Bytes → Writer
  | none => put (Bytes.ofInt 4 (-1))
  | some bs => do
    putCount bs.length
    put bs

/-- Writes framed values one after the other. -/
def putAll : List (Option Bytes) → Writer
  | [] => pure ()
  | v :: vs => do
    putValue v
    putAll vs

/-- Writes how many values there are, and each of them framed. -/
def putCounted (vs : List (Option Bytes)) : Writer := do
  putCount vs.length
  putAll vs

/-- Reads so many framed values; what is left comes with them. -/
def readAll (type : ColumnType) : (count : Nat) → Bytes → Except Error (List (Option Bytes) × Bytes)
  | 0, bs => .ok ([], bs)
  | count + 1, bs => do
    let (v, bs) ← read type bs
    let (vs, bs) ← readAll type count bs
    return (v :: vs, bs)

/-- Reads a count and so many framed values; what is left comes with them. -/
def readCounted (type : ColumnType) (bs : Bytes) : Except Error (List (Option Bytes) × Bytes) := do
  let (count, bs) ← readCount type bs
  readAll type count bs

end CqlWire.Frame
