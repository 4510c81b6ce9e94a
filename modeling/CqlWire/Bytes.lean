/-!
# Byte strings and big-endian numbers

A byte string is a list of bytes, most significant first wherever it stands for a number.

* `Bytes.capacity`: how many numbers a width can write;
* `Bytes.ofNat`, `Bytes.toNat`: unsigned numbers of a fixed width;
* `Bytes.ofInt`, `Bytes.toInt`: two's complement of a fixed width;
* `Bytes.toHex`: two lower-case hexadecimal digits a byte;
* `Bytes.ofNat_toNat`, `Bytes.toInt_ofInt`: both directions undo each other, within the width;
* `hexValue?`: the value of one hexadecimal digit, in either case.
-/

namespace CqlWire

/-- A byte string. -/
abbrev Bytes := List UInt8

/-- A byte string of a fixed length. -/
abbrev Octets (n : Nat) := { bs : Bytes // bs.length = n }

namespace Bytes

/-- The number of byte strings of a width, and so of numbers that they can write. -/
def capacity (width : Nat) : Nat :=
  Nat.pow 256 width

@[simp] theorem capacity_zero : capacity 0 = 1 := rfl

theorem capacity_succ (width : Nat) : capacity (width + 1) = capacity width * 256 := rfl

theorem capacity_pos (width : Nat) : 0 < capacity width :=
  Nat.pow_pos (by decide)

/-! ### Unsigned numbers -/

/-- The unsigned number that the bytes write, most significant byte first. -/
def toNat (bs : Bytes) : Nat :=
  bs.foldl (fun n b => n * 256 + b.toNat) 0

/-- The low `width` bytes of a number, most significant byte first. -/
def ofNat : (width : Nat) → Nat → Bytes
  | 0, _ => []
  | width + 1, n => ofNat width (n / 256) ++ [UInt8.ofNat n]

theorem length_ofNat (width n : Nat) : (ofNat width n).length = width := by
  induction width generalizing n with
  | zero => rfl
  | succ w ih => simp [ofNat, ih]

/-- Appending a byte shifts the number by one place. -/
theorem toNat_concat (bs : Bytes) (b : UInt8) : toNat (bs ++ [b]) = toNat bs * 256 + b.toNat := by
  simp [toNat]

/-- The first byte counts for as many places as bytes follow. -/
theorem toNat_cons (b : UInt8) (bs : Bytes) :
    toNat (b :: bs) = b.toNat * capacity bs.length + toNat bs := by
  have h : ∀ (bs : Bytes) (n : Nat), bs.foldl (fun n b => n * 256 + b.toNat) n =
      n * capacity bs.length + toNat bs := by
    intro bs
    induction bs with
    | nil => simp [toNat]
    | cons c cs ih =>
      intro n
      simp only [toNat, List.foldl_cons, List.length_cons] at ih ⊢
      rw [ih, ih (0 * 256 + c.toNat), capacity_succ]
      grind
  simpa [toNat] using h bs b.toNat

theorem toNat_lt (bs : Bytes) : toNat bs < capacity bs.length := by
  induction bs with
  | nil => simp [toNat]
  | cons b bs ih =>
    have hb : b.toNat < 256 := b.toNat_lt
    have hm : b.toNat * capacity bs.length ≤ 255 * capacity bs.length :=
      Nat.mul_le_mul_right _ (by omega)
    rw [toNat_cons, List.length_cons, capacity_succ]
    omega

/-- The low bytes of a number write it up to the width. -/
theorem toNat_ofNat (width n : Nat) : toNat (ofNat width n) = n % capacity width := by
  induction width generalizing n with
  | zero => simp [ofNat, toNat, Nat.mod_one]
  | succ w ih =>
    have h : (UInt8.ofNat n).toNat = n % 256 := by simp
    rw [ofNat, toNat_concat, ih, h, capacity_succ, Nat.mul_comm (capacity w) 256, Nat.mod_mul]
    omega

/-- A byte string is the one of its length that writes its number. -/
theorem ofNat_toNat (bs : Bytes) : ofNat bs.length (toNat bs) = bs := by
  generalize hn : bs.length = n
  induction n generalizing bs with
  | zero => rw [List.length_eq_zero_iff.1 hn]; rfl
  | succ n ih =>
    have hne : bs ≠ [] := by intro h; simp [h] at hn
    obtain ⟨init, last, rfl⟩ : ∃ init last, bs = init ++ [last] :=
      ⟨bs.dropLast, bs.getLast hne, (List.dropLast_concat_getLast hne).symm⟩
    have hb : last.toNat < 256 := last.toNat_lt
    have hd : (toNat init * 256 + last.toNat) / 256 = toNat init := by omega
    have hl : UInt8.ofNat (toNat init * 256 + last.toNat) = last := by
      apply UInt8.toNat_inj.1
      simp only [UInt8.toNat_ofNat']
      omega
    rw [toNat_concat, ofNat, hd, hl, ih init (by simpa using hn)]

/-! ### Two's complement -/

/-- Two's complement of `width` bytes; a number out of range keeps its low bytes. -/
def ofInt (width : Nat) (n : Int) : Bytes :=
  ofNat width (n % capacity width).toNat

/-- The signed number that the bytes write in two's complement. -/
def toInt (bs : Bytes) : Int :=
  Int.bmod bs.toNat (capacity bs.length)

theorem length_ofInt (width : Nat) (n : Int) : (ofInt width n).length = width :=
  length_ofNat _ _

theorem toNat_ofInt (width : Nat) (n : Int) : (toNat (ofInt width n) : Int) = n % capacity width := by
  have hpos := capacity_pos width
  have h0 : 0 ≤ n % capacity width := Int.emod_nonneg _ (by omega)
  have h1 : n % capacity width < capacity width := Int.emod_lt_of_pos _ (by omega)
  rw [ofInt, toNat_ofNat, Nat.mod_eq_of_lt (by omega)]
  omega

/-- A number in the range of the width is read back. -/
theorem toInt_ofInt {width : Nat} {n : Int} (lo : -(capacity width : Int) ≤ n * 2)
    (hi : n * 2 < capacity width) : toInt (ofInt width n) = n := by
  rw [toInt, length_ofInt, toNat_ofInt, Int.emod_bmod, Int.bmod_eq_of_le_mul_two lo hi]

/-- A byte string is the one of its length that writes its signed number. -/
theorem ofInt_toInt (bs : Bytes) : ofInt bs.length (toInt bs) = bs := by
  have h : (toNat bs : Int) < capacity bs.length := by exact_mod_cast toNat_lt bs
  rw [ofInt, toInt, Int.bmod_emod, Int.emod_eq_of_lt (by omega) h, Int.toNat_natCast, ofNat_toNat]

end Bytes

/-! ## Hexadecimal -/

/-- The lower-case hexadecimal digit of a number below sixteen. -/
def hexDigit (n : Nat) : Char :=
  if n < 10 then Char.ofNat (48 + n) else Char.ofNat (87 + n)

/-- The value of a hexadecimal digit. -/
def hexValue? (c : Char) : Option Nat :=
  if '0' ≤ c ∧ c ≤ '9' then some (c.toNat - 48)
  else if 'a' ≤ c ∧ c ≤ 'f' then some (c.toNat - 87)
  else if 'A' ≤ c ∧ c ≤ 'F' then some (c.toNat - 55)
  else none

/-- Two lower-case hexadecimal digits a byte. -/
def Bytes.toHex (bs : Bytes) : List Char :=
  bs.flatMap fun b => [hexDigit (b.toNat / 16), hexDigit (b.toNat % 16)]

theorem Bytes.length_toHex (bs : Bytes) : bs.toHex.length = 2 * bs.length := by
  induction bs with
  | nil => rfl
  | cons b bs ih => simp only [toHex, List.flatMap_cons, List.length_append] at ih ⊢; simp [ih]; omega

/-- The bytes that an even number of hexadecimal digits writes. -/
def Bytes.ofHex? : List Char → Option Bytes
  | [] => some []
  | a :: b :: r => do
    let hi ← hexValue? a
    let lo ← hexValue? b
    return UInt8.ofNat (hi * 16 + lo) :: (← ofHex? r)
  | [_] => none

end CqlWire
