import CqlWire.Bytes
import CqlWire.Text.Ascii
import CqlWire.Text.Utf8

/-!
# UUIDs

A UUID is sixteen bytes. Its text is five groups of hexadecimal digits joined by hyphens; reading
also takes the digits without hyphens, and the hyphenated form in braces or behind `urn:uuid:`.

* `Uuid.toText`, `Uuid.read`;
* `Uuid.hyphenatedPart?`: the part of a text that has the length of the hyphenated form;
* `UuidError`: the first thing that is wrong with a text, in the order length, characters, number
  of groups, length of a group. The characters are counted in the part that has the length of the
  hyphenated form, or in the whole text where none has;
* `Uuid.version`: 1 for the UUIDs that are made from the time.
-/

namespace CqlWire

open Text (eqIgnoreCase)

/-- A UUID. -/
abbrev Uuid := Octets 16

/-- Why a text is not a UUID. Places and lengths are counted in bytes, groups from zero. -/
inductive UuidError where
  | length (found : Nat)
  | character (found : Char) (index : Nat)
  | groupCount (found : Nat)
  | groupLength (group expected found : Nat)
deriving DecidableEq, Repr

/-- The wording of a refusal. -/
def UuidError.message : UuidError → String
  | .length found => s!"invalid length: found {found}"
  | .character found index =>
    "invalid character: found \x60" ++ String.singleton found ++ "\x60 at " ++ toString index
  | .groupCount found => s!"invalid group count: expected 5, found {found}"
  | .groupLength group expected found =>
    s!"invalid group length in group {group}: expected {expected}, found {found}"

namespace Uuid

/-- The numbers of hexadecimal digits of the five groups. -/
def groupLengths : List Nat := [8, 4, 4, 4, 12]

/-- Where the last group begins. -/
def lastGroupStart : Nat := 24

/-- The digits cut into groups of the given lengths, with hyphens between them. -/
def hyphenate : List Nat → List Char → List Char
  | [], _ => []
  | [_], digits => digits
  | n :: ns, digits => digits.take n ++ '-' :: hyphenate ns (digits.drop n)

/-- The hyphenated text, in small letters. -/
def toText (u : Uuid) : List Char :=
  hyphenate groupLengths u.1.toHex

/-- The version, in the high half of the seventh byte. -/
def version (u : Uuid) : Nat :=
  (u.1.getD 6 0).toNat / 16

/-- The parts of a text between hyphens. -/
def groups : List Char → List (List Char)
  | [] => [[]]
  | c :: r =>
    if c = '-' then [] :: groups r
    else
      match groups r with
      | g :: gs => (c :: g) :: gs
      | [] => [[c]]

/-- What stands in front of the hyphenated form in a uniform resource name. -/
def urnMark : List Char := "urn:uuid:".toList

/-- The text inside of braces or behind the mark of a uniform resource name, with the number of
bytes in front of it; nothing for a text without either. -/
def unwrap? (s : List Char) : Option (List Char × Nat) :=
  match s with
  | '\x7b' :: r => if r.getLast? = some '\x7d' then some (r.dropLast, 1) else none
  | _ => if eqIgnoreCase (s.take 9) urnMark then some (s.drop 9, 9) else none

/-- The UUID of 32 hexadecimal digits. -/
def ofDigits? (digits : List Char) : Option Uuid :=
  match Bytes.ofHex? digits with
  | some bs => if h : bs.length = 16 then some ⟨bs, h⟩ else none
  | none => none

/-- The UUID of the hyphenated form. -/
def ofHyphenated? (s : List Char) : Option Uuid :=
  let gs := groups s
  if gs.map List.length = groupLengths then ofDigits? gs.flatten else none

/-- The first character that is neither a hexadecimal digit nor a hyphen, with its place, where the
text begins at the given place. -/
def foreign? (index : Nat) : List Char → Option (Char × Nat)
  | [] => none
  | c :: r =>
    if c = '-' ∨ (hexValue? c).isSome then foreign? (index + 1) r else some (c, index)

/-- What is wrong with a part of a text, if it is no UUID. The part begins at `offset`, and the text
has `length` bytes. The last group counts as what the whole text has room for behind the places of
the first four. Without a hyphen, a part that stands for digits alone has the wrong length. -/
def fault (hyphenated : Bool) (length offset : Nat) (part : List Char) : UuidError :=
  match foreign? offset part with
  | some (c, index) => .character c index
  | none =>
    let gs := groups part
    if gs.length = 1 ∧ !hyphenated then .length length
    else if gs.length ≠ 5 then .groupCount gs.length
    else
      let checked := (gs.zip groupLengths).zipIdx.take 4
      match checked.find? fun ((g, n), _) => g.length ≠ n with
      | some ((g, n), i) => .groupLength i n g.length
      | none => .groupLength 4 12 (length - lastGroupStart)

/-- The number of characters of the hyphenated form. -/
def hyphenatedLength : Nat := 36

/-- The part of a text that has the length of the hyphenated form: the whole text, even where it
begins and ends like one with something around it, or else what stands inside. -/
def hyphenatedPart? (s : List Char) : Option (List Char) :=
  let fits := fun (t : List Char) => (Utf8.encode t).length = hyphenatedLength
  if fits s then some s
  else
    match unwrap? s with
    | some (inner, _) => if fits inner then some inner else none
    | none => none

/-- What is wrong with a text that is no UUID and has no part of the hyphenated form's length. -/
def faultOfText (s : List Char) : UuidError :=
  let length := (Utf8.encode s).length
  match unwrap? s with
  | some (inner, offset) => fault true length offset inner
  | none => fault false length 0 s

/-- The number of bytes of the longest text, which has the mark of a uniform resource name. -/
def maxTextLength : Nat := 45

/-- Reads a UUID in any of its forms. -/
def read (s : List Char) : Except UuidError Uuid :=
  let length := (Utf8.encode s).length
  if length = 0 ∨ maxTextLength < length then .error (.length length)
  else
    match ofDigits? s, hyphenatedPart? s with
    | some u, _ => .ok u
    | none, some part =>
      match ofHyphenated? part with
      | some u => .ok u
      | none => .error (fault true hyphenatedLength 0 part)
    | none, none => .error (faultOfText s)

end Uuid

end CqlWire
