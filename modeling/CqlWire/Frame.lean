import CqlWire.Bytes
import CqlWire.ColumnType.Text
import CqlWire.Error

/-!
# Frames

A value inside another one is framed: four bytes hold its length as a signed number, its bytes
follow, and the length -1 alone stands for an absent value. The number of elements of a collection
is written as such a length too.

* `Frame.write`, `Frame.read`: one framed value;
* `Frame.writeCount`, `Frame.readCount`: the number of elements;
* `Frame.expectEnd`: nothing may be left;
* `Frame.afterRefusal`: where a reader stands that was refused.
-/

namespace CqlWire.Frame

/-- The greatest length that a frame can hold. -/
def maxLength : Nat := 2147483647

/-- The four bytes of a length or count. -/
def writeCount (n : Nat) : Except Error Bytes :=
  if n ≤ maxLength then .ok (Bytes.ofNat 4 n)
  else .error (.illegalValue "frame" s!"{n} bytes" "exceeds i32::MAX")

/-- The frame of a value. -/
def write : Option Bytes → Except Error Bytes
  | none => .ok (Bytes.ofInt 4 (-1))
  | some bs => do return (← writeCount bs.length) ++ bs

/-- The first `n` bytes and the rest, if there are so many. -/
def split? (n : Nat) (bs : Bytes) : Option (Bytes × Bytes) :=
  let taken := bs.take n
  if taken.length = n then some (taken, bs.drop n) else none

theorem append_of_split? {n : Nat} {bs head rest : Bytes} (h : split? n bs = some (head, rest)) :
    head ++ rest = bs ∧ head.length = n := by
  simp only [split?] at h
  split at h
  · simp only [Option.some.injEq, Prod.mk.injEq] at h
    rename_i hn
    exact ⟨by rw [← h.1, ← h.2, List.take_append_drop], by rw [← h.1, hn]⟩
  · simp at h

/-- Reads a count; what is left comes with it. -/
def readCount (type : ColumnType) (bs : Bytes) : Except Error (Nat × Bytes) :=
  match split? 4 bs with
  | none => .error (.decode type.toText s!"truncated count: {bs.length} bytes left")
  | some (head, rest) =>
    let n := Bytes.toInt head
    if n < 0 then .error (.decode type.toText s!"negative count {n}") else .ok (n.toNat, rest)

/-- Reads a framed value; what is left comes with it. -/
def read (type : ColumnType) (bs : Bytes) : Except Error (Option Bytes × Bytes) :=
  match split? 4 bs with
  | none => .error (.decode type.toText s!"truncated length prefix: {bs.length} bytes left")
  | some (head, rest) =>
    let n := Bytes.toInt head
    if n = -1 then .ok (none, rest)
    else if n < 0 then .error (.decode type.toText s!"invalid length {n}")
    else
      match split? n.toNat rest with
      | none => .error (.decode type.toText s!"value needs {n} bytes, {rest.length} left")
      | some (value, rest) => .ok (some value, rest)

/-- Where a reader stands after `readCount` or `read` was refused: behind the four bytes of the
number, if there were four. -/
def afterRefusal (bs : Bytes) : Bytes :=
  match split? 4 bs with
  | none => bs
  | some (_, rest) => rest

/-- Refuses bytes that are left over. -/
def expectEnd (type : ColumnType) (bs : Bytes) : Except Error Unit :=
  if bs.isEmpty then .ok () else .error (.decode type.toText s!"{bs.length} trailing bytes")

/-- Refuses an absent value. -/
def require (type : ColumnType) : Option Bytes → Except Error Bytes
  | some bs => .ok bs
  | none => .error (.unexpectedNull type.toText)

/-- Refuses any other number of bytes than `n`. -/
def fixed (type : ColumnType) (n : Nat) (bs : Bytes) : Except Error (Octets n) :=
  if h : bs.length = n then .ok ⟨bs, h⟩
  else .error (.invalidLength type.toText (toString n) bs.length)

end CqlWire.Frame
