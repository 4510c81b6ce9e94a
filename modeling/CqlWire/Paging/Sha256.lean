import CqlWire.Bytes

/-!
# SHA-256 and the keyed hash

* `Sha256.hash`: the digest of a byte string, 32 bytes;
* `Mac`: a keyed hash of 32 bytes, whatever the key's length;
* `Mac.hmacSha256`: the keyed hash made of SHA-256, which hashes the message behind the key, and the
  result behind the key again. Keys longer than a block are hashed first.
-/

namespace CqlWire

namespace Sha256

/-- The eight words between two blocks. -/
structure State where
  a : UInt32
  b : UInt32
  c : UInt32
  d : UInt32
  e : UInt32
  f : UInt32
  g : UInt32
  h : UInt32
deriving DecidableEq, Repr

/-- The words before the first block. -/
def initial : State :=
  ⟨0x6a09e667, 0xbb67ae85, 0x3c6ef372, 0xa54ff53a, 0x510e527f, 0x9b05688c, 0x1f83d9ab, 0x5be0cd19⟩

/-- The constants of the 64 rounds. -/
def roundConstants : List UInt32 :=
  [0x428a2f98, 0x71374491, 0xb5c0fbcf, 0xe9b5dba5, 0x3956c25b, 0x59f111f1, 0x923f82a4, 0xab1c5ed5,
   0xd807aa98, 0x12835b01, 0x243185be, 0x550c7dc3, 0x72be5d74, 0x80deb1fe, 0x9bdc06a7, 0xc19bf174,
   0xe49b69c1, 0xefbe4786, 0x0fc19dc6, 0x240ca1cc, 0x2de92c6f, 0x4a7484aa, 0x5cb0a9dc, 0x76f988da,
   0x983e5152, 0xa831c66d, 0xb00327c8, 0xbf597fc7, 0xc6e00bf3, 0xd5a79147, 0x06ca6351, 0x14292967,
   0x27b70a85, 0x2e1b2138, 0x4d2c6dfc, 0x53380d13, 0x650a7354, 0x766a0abb, 0x81c2c92e, 0x92722c85,
   0xa2bfe8a1, 0xa81a664b, 0xc24b8b70, 0xc76c51a3, 0xd192e819, 0xd6990624, 0xf40e3585, 0x106aa070,
   0x19a4c116, 0x1e376c08, 0x2748774c, 0x34b0bcb5, 0x391c0cb3, 0x4ed8aa4a, 0x5b9cca4f, 0x682e6ff3,
   0x748f82ee, 0x78a5636f, 0x84c87814, 0x8cc70208, 0x90befffa, 0xa4506ceb, 0xbef9a3f7, 0xc67178f2]

/-- A word rotated to the right. -/
def rotate (x : UInt32) (n : UInt32) : UInt32 :=
  (x >>> n) ||| (x <<< (32 - n))

/-- The message with its end mark and its length in bits, in whole blocks. -/
def pad (message : Bytes) : Bytes :=
  let zeros := (119 - message.length % 64) % 64
  message ++ 0x80 :: List.replicate zeros 0 ++ Bytes.ofNat 8 (8 * message.length)

/-- The big-endian words of a block. -/
def words : Bytes → List UInt32
  | a :: b :: c :: d :: r => UInt32.ofNat (Bytes.toNat [a, b, c, d]) :: words r
  | _ => []

/-- The words of the rounds from the last sixteen on, which are given first to last. Each further
word is made of four of the sixteen before it. -/
def schedule : (rounds : Nat) → List UInt32 → List UInt32
  | 0, _ => []
  | _ + 1, [] => []
  | rounds + 1, w :: ws =>
    let x := ws.getD 0 0
    let y := ws.getD 13 0
    let s0 := rotate x 7 ^^^ rotate x 18 ^^^ (x >>> 3)
    let s1 := rotate y 17 ^^^ rotate y 19 ^^^ (y >>> 10)
    w :: schedule rounds (ws ++ [w + s0 + ws.getD 8 0 + s1])

/-- One round. -/
def round (s : State) (constant word : UInt32) : State :=
  let s1 := rotate s.e 6 ^^^ rotate s.e 11 ^^^ rotate s.e 25
  let choice := (s.e &&& s.f) ^^^ ((~~~ s.e) &&& s.g)
  let t1 := s.h + s1 + choice + constant + word
  let s0 := rotate s.a 2 ^^^ rotate s.a 13 ^^^ rotate s.a 22
  let majority := (s.a &&& s.b) ^^^ (s.a &&& s.c) ^^^ (s.b &&& s.c)
  ⟨t1 + s0 + majority, s.a, s.b, s.c, s.d + t1, s.e, s.f, s.g⟩

/-- The words after one block. -/
def compress (s : State) (block : Bytes) : State :=
  let r := (roundConstants.zip (schedule 64 (words block))).foldl (fun t (k, w) => round t k w) s
  ⟨s.a + r.a, s.b + r.b, s.c + r.c, s.d + r.d, s.e + r.e, s.f + r.f, s.g + r.g, s.h + r.h⟩

/-- The words after so many blocks. -/
def absorb : (blocks : Nat) → State → Bytes → State
  | 0, s, _ => s
  | blocks + 1, s, bs => absorb blocks (compress s (bs.take 64)) (bs.drop 64)

/-- The bytes of a state. -/
def digest (s : State) : Octets 32 :=
  ⟨[s.a, s.b, s.c, s.d, s.e, s.f, s.g, s.h].flatMap fun w => Bytes.ofNat 4 w.toNat,
    by simp [Bytes.length_ofNat]⟩

/-- The digest of a message. -/
def hash (message : Bytes) : Octets 32 :=
  let padded := pad message
  digest (absorb (padded.length / 64) initial padded)

end Sha256

/-- A keyed hash of 32 bytes; it takes keys and messages of any length. -/
abbrev Mac := (key message : Bytes) → Octets 32

namespace Mac

/-- The length of a block, to which the key is brought. -/
def blockLength : Nat := 64

/-- The key as one block. -/
def blockKey (key : Bytes) : Bytes :=
  let short := if blockLength < key.length then (Sha256.hash key).1 else key
  short ++ List.replicate (blockLength - short.length) 0

/-- The keyed hash made of SHA-256. -/
def hmacSha256 : Mac := fun key message =>
  let k := blockKey key
  let inner := Sha256.hash (k.map (· ^^^ 0x36) ++ message)
  Sha256.hash (k.map (· ^^^ 0x5c) ++ inner.1)

end Mac

end CqlWire
