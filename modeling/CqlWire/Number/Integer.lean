import CqlWire.Text.Ascii

/-!
# Reading integers

An integer is an optional sign and decimal digits. `readInteger` reads one into a given range and
tells the first thing that is wrong, from left to right: a character that is no digit, or the digit
with which the number leaves the range.
-/

namespace CqlWire

open Nat (pow)

/-- Why a text is not an integer of the range. -/
inductive IntegerError where
  | empty
  | invalidDigit
  | tooLarge
  | tooSmall
deriving DecidableEq, Repr

/-- The wording of a refusal. -/
def IntegerError.message : IntegerError → String
  | .empty => "cannot parse integer from empty string"
  | .invalidDigit => "invalid digit found in string"
  | .tooLarge => "number too large to fit in target type"
  | .tooSmall => "number too small to fit in target type"

/-- The value of a decimal digit. -/
def digitValue? (c : Char) : Option Nat :=
  if Text.isAsciiDigit c then some (c.toNat - 48) else none

/-- The decimal digits of a number. -/
def decimalDigits (n : Nat) : List Char :=
  Nat.toDigits 10 n

/-- An integer in decimal, with a minus sign where it is negative. -/
def decimalText (n : Int) : List Char :=
  if n < 0 then '-' :: decimalDigits n.natAbs else decimalDigits n.natAbs

/-- Reads digits behind those of `n`; the number may not exceed `limit`, or `overflow` results. -/
def readDigits (limit : Nat) (overflow : IntegerError) (n : Nat) :
    List Char → Except IntegerError Nat
  | [] => .ok n
  | c :: r =>
    match digitValue? c with
    | none => .error .invalidDigit
    | some d => if n * 10 + d ≤ limit then readDigits limit overflow (n * 10 + d) r else .error overflow

/-- Reads an integer from `lo` to `hi`, where `lo ≤ 0 ≤ hi`. -/
def readInteger (lo hi : Int) : List Char → Except IntegerError Int
  | [] => .error .empty
  | ['+'] | ['-'] => .error .invalidDigit
  | '-' :: r => (readDigits lo.natAbs .tooSmall 0 r).map fun n => -(n : Int)
  | '+' :: r => (readDigits hi.natAbs .tooLarge 0 r).map Int.ofNat
  | s => (readDigits hi.natAbs .tooLarge 0 s).map Int.ofNat

/-- The least two's complement integer of so many bits. -/
def minSigned (bits : Nat) : Int := -pow 2 (bits - 1)

/-- The greatest two's complement integer of so many bits. -/
def maxSigned (bits : Nat) : Int := pow 2 (bits - 1) - 1

/-- Whether an integer has a two's complement form of so many bits. -/
def fitsSigned (bits : Nat) (n : Int) : Bool :=
  minSigned bits ≤ n && n ≤ maxSigned bits

/-- Reads a signed integer of so many bits. -/
def readSigned (bits : Nat) (s : List Char) : Except IntegerError Int :=
  readInteger (minSigned bits) (maxSigned bits) s

end CqlWire
