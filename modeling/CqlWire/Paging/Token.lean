import CqlWire.Paging.Base64
import CqlWire.Paging.Fingerprint
import CqlWire.Paging.Sha256

/-!
# Paging tokens

A token carries the state from which a query goes on. There are two kinds.

* A *safe* token is an envelope around the state and the fingerprint of its statement, signed with a
  key. Nothing else than what was signed is read, and only for the same statement.
* A *simple* token is the state alone.

The envelope holds a version, the framed state, the framed query and the framed values behind their
number; the signature over all of that comes last. `Envelope.write` and `Envelope.read` are the
envelope without its signature, `TokenKind.serialize` and `TokenKind.deserialize` the tokens as
bytes, `TokenKind.toToken` and `TokenKind.ofToken` the tokens as text.
-/

namespace CqlWire

/-- The state that the database gave with a page, from which the next page follows. -/
structure PagingState where
  bytes : Bytes
deriving DecidableEq, Repr

/-- How tokens are made. -/
inductive TokenKind where
  | simple
  | safe (key : Bytes)
deriving DecidableEq, Repr

/-! ## The envelope -/

namespace Envelope

/-- The version that is written and the only one that is read. -/
def version : UInt8 := 1

/-- The frames of several values. -/
def writeAll : List (Option Bytes) → Except Error Bytes
  | [] => .ok []
  | v :: vs => do
    let head ← Frame.write v
    return head ++ (← writeAll vs)

/-- The envelope of a state and the fingerprint of its statement. -/
def write (state : PagingState) (f : Fingerprint) : Except Error Bytes := do
  let stateFrame ← Frame.write (some state.bytes)
  let queryFrame ← Frame.write (some (Utf8.encode f.query.toList))
  let count ← Frame.writeCount f.values.length
  let values ← writeAll f.values
  return version :: (stateFrame ++ queryFrame ++ count ++ values)

/-- An envelope that ends too early. -/
def truncated : Error := .corruptedState "truncated envelope"

/-- Reads four bytes as a number; what is left comes with it. -/
def readNumber (bs : Bytes) : Except Error (Int × Bytes) :=
  match Frame.split? 4 bs with
  | none => .error truncated
  | some (head, rest) => .ok (Bytes.toInt head, rest)

/-- Reads a framed value; what is left comes with it. -/
def readField (bs : Bytes) : Except Error (Option Bytes × Bytes) := do
  let (n, rest) ← readNumber bs
  if n = -1 then return (none, rest)
  else if n < 0 then .error (.corruptedState s!"invalid length {n}")
  else
    match Frame.split? n.toNat rest with
    | none => .error truncated
    | some (value, rest) => return (some value, rest)

/-- Reads so many framed values; what is left comes with them. -/
def readFields : (count : Nat) → Bytes → Except Error (List (Option Bytes) × Bytes)
  | 0, bs => .ok ([], bs)
  | count + 1, bs => do
    let (v, bs) ← readField bs
    let (vs, bs) ← readFields count bs
    return (v :: vs, bs)

/-- Reads the number of the values; what is left comes with it. -/
def readCount (bs : Bytes) : Except Error (Nat × Bytes) := do
  let (count, bs) ← readNumber bs
  refuseIf (count < 0) (.corruptedState s!"negative value count {count}")
  return (count.toNat, bs)

/-- Reads the values behind their number; what is left comes with them. -/
def readCounted (bs : Bytes) : Except Error (List (Option Bytes) × Bytes) := do
  let (count, bs) ← readCount bs
  readFields count bs

/-- Reads a framed value that may not be absent. -/
def readPresent (what : String) (bs : Bytes) : Except Error (Bytes × Bytes) := do
  match ← readField bs with
  | (some value, rest) => return (value, rest)
  | (none, _) => .error (.corruptedState ("missing " ++ what))

/-- Reads an envelope. -/
def read (bs : Bytes) : Except Error (PagingState × Fingerprint) := do
  refuseIf (bs.head? ≠ some version) (.corruptedState "unknown envelope version")
  let (state, bs) ← readPresent "paging state" bs.tail
  let (query, bs) ← readPresent "query text" bs
  let query ← (Utf8.decode query).mapError fun _ => Error.corruptedState "query text is not UTF-8"
  let (values, bs) ← readCounted bs
  refuseIf (!bs.isEmpty) (.corruptedState s!"{bs.length} trailing bytes")
  return (⟨state⟩, ⟨String.ofList query, values⟩)

end Envelope

/-! ## Tokens -/

/-- The length of a signature. -/
def tagLength : Nat := 32

/-- The key where no secret is configured. -/
def builtinKey : Bytes := Utf8.encode "qail-cql paging-state v1".toList

namespace TokenKind

/-- Safe tokens with the built-in key. -/
def builtin : TokenKind := .safe builtinKey

/-- The bytes of a token. -/
def serialize (mac : Mac) : TokenKind → PagingState → Fingerprint → Except Error Bytes
  | .simple, state, _ => .ok state.bytes
  | .safe key, state, f => do
    let body ← Envelope.write state f
    return body ++ (mac key body).1

/-- The state in the bytes of a token, for the statement that wants to go on. -/
def deserialize (mac : Mac) : TokenKind → Bytes → Fingerprint → Except Error PagingState
  | .simple, bs, _ =>
    if bs.isEmpty then .error (.corruptedState "empty paging state") else .ok ⟨bs⟩
  | .safe key, bs, f => do
    refuseIf (bs.length < 1 + tagLength)
      (.corruptedState s!"{bs.length} bytes is too short for a signed paging state")
    let body := bs.take (bs.length - tagLength)
    let tag := bs.drop (bs.length - tagLength)
    refuseIf ((mac key body).1 ≠ tag) (.corruptedState "integrity check failed")
    let (state, recorded) ← Envelope.read body
    match recorded.mismatch? f with
    | some difference => .error (.statementMismatch difference)
    | none => return state

/-- The text of a token. -/
def toToken (mac : Mac) (kind : TokenKind) (state : PagingState) (f : Fingerprint) :
    Except Error (List Char) := do
  return Base64.encode (← kind.serialize mac state f)

/-- The state in a token, which white space may surround. -/
def ofToken (mac : Mac) (kind : TokenKind) (text : List Char) (f : Fingerprint) :
    Except Error PagingState :=
  match Base64.decode (Text.trim text) with
  | .ok bs => kind.deserialize mac bs f
  | .error e => .error (.corruptedState ("invalid base64: " ++ e.message))

end TokenKind

end CqlWire
