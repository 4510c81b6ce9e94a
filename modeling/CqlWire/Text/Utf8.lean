import CqlWire.Bytes

/-!
# UTF-8

`Utf8.encode` writes a text as UTF-8; `Utf8.decode` reads one and refuses malformed bytes with the
place of the first sequence that no text produces:

* a sequence is *incomplete* when the bytes end inside a character that could still be finished;
* otherwise it is *invalid*, and its length is the number of bytes that could begin a character.
-/

namespace CqlWire.Utf8

/-- The UTF-8 bytes of a text. -/
def encode (s : List Char) : Bytes :=
  s.flatMap String.utf8EncodeChar

/-- Why bytes are not UTF-8; `at` is the index of the first byte of the faulty sequence. -/
inductive Refusal where
  | invalid (length index : Nat)
  | incomplete (index : Nat)
deriving DecidableEq, Repr

/-- The wording of a refusal. -/
def Refusal.message : Refusal → String
  | .invalid length index => s!"invalid utf-8 sequence of {length} bytes from index {index}"
  | .incomplete index => s!"incomplete utf-8 byte sequence from index {index}"

/-- The number of bytes that the first byte of a character announces; zero for none. -/
def width (lead : UInt8) : Nat :=
  if lead < 0x80 then 1
  else if lead < 0xC2 then 0
  else if lead < 0xE0 then 2
  else if lead < 0xF0 then 3
  else if lead < 0xF5 then 4
  else 0

/-- A continuation byte. -/
def isTail (b : UInt8) : Bool :=
  0x80 ≤ b && b ≤ 0xBF

/-- The second byte of a character, which for some first bytes has a narrower range: overlong
forms, surrogates and numbers above the last code point are excluded here. -/
def isSecond (lead b : UInt8) : Bool :=
  if lead = 0xE0 then 0xA0 ≤ b && b ≤ 0xBF
  else if lead = 0xED then 0x80 ≤ b && b ≤ 0x9F
  else if lead = 0xF0 then 0x90 ≤ b && b ≤ 0xBF
  else if lead = 0xF4 then 0x80 ≤ b && b ≤ 0x8F
  else isTail b

/-- The code point of a lead byte, of which the low `bits` count, and its continuation bytes. -/
def codePoint (lead : UInt8) (bits : Nat) (tails : List UInt8) : Char :=
  Char.ofNat (tails.foldl (fun n b => n * 64 + b.toNat % 64) (lead.toNat % Nat.pow 2 bits))

/-- Reads a text whose first byte stands at `index` of the whole input. -/
def decodeFrom (index : Nat) : Bytes → Except Refusal (List Char)
  | [] => .ok []
  | a :: rest =>
    match width a, rest with
    | 1, r => (decodeFrom (index + 1) r).map (codePoint a 7 [] :: ·)
    | 2, b :: r =>
      if isTail b then (decodeFrom (index + 2) r).map (codePoint a 5 [b] :: ·)
      else .error (.invalid 1 index)
    | 3, b :: c :: r =>
      if !isSecond a b then .error (.invalid 1 index)
      else if !isTail c then .error (.invalid 2 index)
      else (decodeFrom (index + 3) r).map (codePoint a 4 [b, c] :: ·)
    | 4, b :: c :: d :: r =>
      if !isSecond a b then .error (.invalid 1 index)
      else if !isTail c then .error (.invalid 2 index)
      else if !isTail d then .error (.invalid 3 index)
      else (decodeFrom (index + 4) r).map (codePoint a 3 [b, c, d] :: ·)
    | 0, _ => .error (.invalid 1 index)
    | 4, [b, c] =>
      if !isSecond a b then .error (.invalid 1 index)
      else if !isTail c then .error (.invalid 2 index)
      else .error (.incomplete index)
    | _, b :: _ =>
      if isSecond a b then .error (.incomplete index) else .error (.invalid 1 index)
    | _, [] => .error (.incomplete index)

/-- Reads a text from UTF-8. -/
def decode (bs : Bytes) : Except Refusal (List Char) :=
  decodeFrom 0 bs

end CqlWire.Utf8
