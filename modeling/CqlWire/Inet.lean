import CqlWire.Bytes
import CqlWire.Number.Integer

/-!
# Internet addresses

An address has four bytes (version 4) or sixteen (version 6).

* `Inet.toText`: four decimal numbers joined by dots; or eight hexadecimal groups joined by colons,
  where the longest run of at least two zero groups, the first of several, shrinks to `::`, and the
  last four bytes of an address that embeds one of version 4 are written in its way;
* `Inet.read?`: reads either form; the decimal numbers have no leading zeros.
-/

namespace CqlWire

/-- An internet address. -/
inductive Inet where
  | v4 (octets : Octets 4)
  | v6 (octets : Octets 16)
deriving DecidableEq, Repr

namespace Inet

/-- The bytes of an address. -/
def bytes : Inet → Bytes
  | .v4 o => o.1
  | .v6 o => o.1

/-- The address of four or of sixteen bytes. -/
def ofBytes? (bs : Bytes) : Option Inet :=
  if h : bs.length = 4 then some (.v4 ⟨bs, h⟩)
  else if h : bs.length = 16 then some (.v6 ⟨bs, h⟩)
  else none

theorem ofBytes?_bytes (a : Inet) : ofBytes? a.bytes = some a := by
  cases a with
  | v4 o => simp [ofBytes?, bytes, o.2]
  | v6 o => simp [ofBytes?, bytes, o.2]

/-! ## Writing -/

/-- Texts joined by a character. -/
def joinWith (c : Char) (parts : List (List Char)) : List Char :=
  List.intercalate [c] parts

/-- Bytes as decimal numbers joined by dots. -/
def dotted (bs : Bytes) : List Char :=
  joinWith '.' (bs.map fun b => decimalDigits b.toNat)

/-- The big-endian pairs of bytes. -/
def pairs : Bytes → List Nat
  | a :: b :: r => (a.toNat * 256 + b.toNat) :: pairs r
  | _ => []

/-- Groups in hexadecimal joined by colons. -/
def colons (gs : List Nat) : List Char :=
  joinWith ':' (gs.map (Nat.toDigits 16))

/-- The longest run of zero groups, the first of several, as its start and its length. The groups
begin at index `i`. -/
def longestZeros : (i : Nat) → List Nat → Nat × Nat
  | _, [] => (0, 0)
  | i, g :: gs =>
    let later := longestZeros (i + 1) gs
    let here := ((g :: gs).takeWhile (· == 0)).length
    if later.2 ≤ here then (i, here) else later

/-- An address of version 6, by its eight groups. -/
def groupsText (gs : List Nat) : List Char :=
  let (start, length) := longestZeros 0 gs
  if 1 < length then colons (gs.take start) ++ [':', ':'] ++ colons (gs.drop (start + length))
  else colons gs

/-- The first twelve bytes of an address of version 6 that embeds one of version 4. -/
def mappedMark : Bytes := List.replicate 10 0 ++ [0xFF, 0xFF]

/-- The text of an address. -/
def toText : Inet → List Char
  | .v4 o => dotted o.1
  | .v6 o =>
    if o.1.take 12 = mappedMark then "::ffff:".toList ++ dotted (o.1.drop 12)
    else groupsText (pairs o.1)

/-! ## Reading -/

/-- A number of at most so many digits; what is left comes with it. -/
def number? (radix most : Nat) (leadingZeros : Bool) (s : List Char) : Option (Nat × List Char) :=
  let value? := fun c => (hexValue? c).filter (· < radix)
  let digits := s.takeWhile fun c => (value? c).isSome
  let redundant := !leadingZeros && digits.head? == some '0' && 1 < digits.length
  if digits = [] ∨ most < digits.length ∨ redundant then none
  else some (digits.foldl (fun n c => n * radix + (value? c).getD 0) 0, s.drop digits.length)

/-- So many decimal bytes, each but the first behind a dot. -/
def octets? : (count : Nat) → (first : Bool) → List Char → Option (Bytes × List Char)
  | 0, _, s => some ([], s)
  | count + 1, first, s => do
    let s ← if first then some s else
      match s with
      | '.' :: r => some r
      | _ => none
    let (n, s) ← number? 10 3 false s
    if 255 < n then none
    else
      let (rest, s) ← octets? count false s
      return (UInt8.ofNat n :: rest, s)

/-- At most `room` groups of an address of version 6, each but the first behind a colon. The last
two may be written as four decimal bytes, which end the groups; the flag tells whether they are. -/
def groups : (room : Nat) → (first : Bool) → List Char → List Nat × Bool × List Char
  | 0, _, s => ([], false, s)
  | room + 1, first, s =>
    let start? := if first then some s else
      match s with
      | ':' :: r => some r
      | _ => none
    match start? with
    | none => ([], false, s)
    | some t =>
      match if room = 0 then none else octets? 4 true t with
      | some (bs, r) => (pairs bs, true, r)
      | none =>
        match number? 16 4 true t with
        | none => ([], false, s)
        | some (g, r) =>
          let (gs, embedded, r) := groups room false r
          (g :: gs, embedded, r)

/-- The eight groups of an address of version 6, and the rest. The mark `::` stands for at least
one group of zero. -/
def eightGroups? (s : List Char) : Option (List Nat × List Char) :=
  let (head, embedded, r) := groups 8 true s
  if head.length = 8 then some (head, r)
  else if embedded then none
  else
    match r with
    | ':' :: ':' :: r =>
      let (tail, _, r) := groups (7 - head.length) true r
      some (head ++ List.replicate (8 - head.length - tail.length) 0 ++ tail, r)
    | _ => none

/-- Reads an address. -/
def read? (s : List Char) : Option Inet :=
  match octets? 4 true s with
  | some (bs, []) => ofBytes? bs
  | some (_, _ :: _) => none
  | none =>
    match eightGroups? s with
    | some (gs, []) => ofBytes? (gs.flatMap (Bytes.ofNat 2))
    | _ => none

/-- The wording of a refusal. -/
def refusal : String := "invalid IP address syntax"

end Inet

end CqlWire
