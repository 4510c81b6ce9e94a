import CqlWire.Coding.Number
import CqlWire.Proofs.Frame
import Mathlib.Algebra.Group.Nat.Defs

/-!
# Two's complement

The numbers of a range are those of some bytes (`fitsSigned_iff`) and read back from them
(`toInt_ofInt_of_fits`). Bytes that only repeat the sign do not count (`toInt_stripSign`), so that
a number is read back from the fewest bytes too (`decodeVarint_encodeVarint`).
-/

namespace CqlWire

namespace Bytes

theorem capacity_eq_two_pow (width : Nat) : capacity width = 2 ^ (8 * width) := by
  rw [Nat.pow_mul]
  rfl

/-- Bytes with the high bit set stand for a number below zero. -/
theorem toInt_eq (bs : Bytes) : toInt bs =
    if bs.toNat * 2 < capacity bs.length then (bs.toNat : Int)
    else bs.toNat - capacity bs.length := by
  have hlt := toNat_lt bs
  rw [toInt, Int.bmod_def, Int.emod_eq_of_lt (by omega) (by omega)]
  split <;> split <;> omega

/-! ## Ranges -/

/-- A range of whole bytes is what these bytes write. -/
theorem fitsSigned_iff (width : Nat) {n : Int} (h : 0 < width) : fitsSigned (8 * width) n = true ↔
    -(capacity width : Int) ≤ n * 2 ∧ n * 2 < capacity width := by
  have hc : capacity width = Nat.pow 2 (8 * width - 1) * 2 := by
    calc capacity width = 2 ^ (8 * width - 1 + 1) := by
          rw [capacity_eq_two_pow, Nat.sub_add_cancel (by omega)]
      _ = Nat.pow 2 (8 * width - 1) * 2 := Nat.pow_succ _ _
  rw [fitsSigned, Bool.and_eq_true, decide_eq_true_iff, decide_eq_true_iff, minSigned, maxSigned]
  omega

/-- A number of the range is read back. -/
theorem toInt_ofInt_of_fits {width : Nat} {n : Int} (h : 0 < width)
    (hn : fitsSigned (8 * width) n = true) : toInt (ofInt width n) = n := by
  obtain ⟨lo, hi⟩ := (fitsSigned_iff width h).1 hn
  exact toInt_ofInt lo hi

/-! ## The fewest bytes -/

/-- A first byte that only repeats the sign of the second one does not count. -/
theorem toInt_cons_sign {a b : UInt8} (h : (a = 0x00 ∧ b < 0x80) ∨ (a = 0xFF ∧ 0x80 ≤ b))
    (bs : Bytes) : toInt (a :: b :: bs) = toInt (b :: bs) := by
  have hlt := toNat_lt bs
  have hb : b.toNat < 256 := b.toNat_lt
  simp only [toInt_eq, toNat_cons, List.length_cons, capacity_succ]
  generalize toNat bs = n at *
  generalize capacity bs.length = c at *
  rcases h with ⟨rfl, h⟩ | ⟨rfl, h⟩
  · have hb' : b.toNat < 128 := UInt8.lt_iff_toNat_lt.1 h
    have hm : b.toNat * c ≤ 127 * c := Nat.mul_le_mul_right c (by omega)
    rw [show (0x00 : UInt8).toNat = 0 from rfl, Nat.zero_mul, Nat.zero_add]
    rw [if_pos (by omega), if_pos (by omega)]
  · have hb' : 128 ≤ b.toNat := UInt8.le_iff_toNat_le.1 h
    have hm : 128 * c ≤ b.toNat * c := Nat.mul_le_mul_right c hb'
    rw [show (0xFF : UInt8).toNat = 255 from rfl]
    rw [if_neg (by omega), if_neg (by omega)]
    omega

/-- Bytes give up the first one if it repeats the sign of the second, and so on. -/
theorem stripSign_cons (a : UInt8) (bs : Bytes) :
    stripSign (a :: bs) = a :: bs ∨
      stripSign (a :: bs) = stripSign bs ∧ bs ≠ [] ∧ toInt (a :: bs) = toInt bs := by
  cases bs with
  | nil => exact .inl rfl
  | cons b r =>
    by_cases h : (a = 0x00 ∧ b < 0x80) ∨ (a = 0xFF ∧ 0x80 ≤ b)
    · exact .inr ⟨if_pos h, List.cons_ne_nil b r, toInt_cons_sign h r⟩
    · exact .inl (if_neg h)

theorem toInt_stripSign (bs : Bytes) : toInt bs.stripSign = toInt bs := by
  induction bs with
  | nil => rfl
  | cons a bs ih =>
    rcases stripSign_cons a bs with hkept | ⟨hleft, -, hsign⟩
    · rw [hkept]
    · rw [hleft, ih, hsign]

theorem length_stripSign_le (bs : Bytes) : bs.stripSign.length ≤ bs.length := by
  induction bs with
  | nil => exact Nat.le_refl _
  | cons a bs ih =>
    rcases stripSign_cons a bs with hkept | ⟨hleft, -, -⟩
    · exact Nat.le_of_eq (congrArg List.length hkept)
    · rw [hleft, List.length_cons]
      omega

theorem stripSign_ne_nil {bs : Bytes} (h : bs ≠ []) : bs.stripSign ≠ [] := by
  induction bs with
  | nil => exact absurd rfl h
  | cons a bs ih =>
    rcases stripSign_cons a bs with hkept | ⟨hleft, hne, -⟩
    · rw [hkept]
      exact List.cons_ne_nil a bs
    · rw [hleft]
      exact ih hne

end Bytes

namespace Coding

theorem length_encodeVarint_le (n : Int) : (encodeVarint n).length ≤ 16 := by
  have := Bytes.length_stripSign_le (Bytes.ofInt 16 n)
  rwa [Bytes.length_ofInt] at this

theorem encodeVarint_ne_nil (n : Int) : encodeVarint n ≠ [] := by
  apply Bytes.stripSign_ne_nil
  intro h
  have := Bytes.length_ofInt 16 n
  rw [h] at this
  cases this

/-- A number of 128 bits is read back from its fewest bytes. -/
theorem decodeVarint_encodeVarint {type : ColumnType} {n : Int} (h : fitsSigned 128 n = true) :
    decodeVarint type (encodeVarint n) = .ok n := by
  have hlen := length_encodeVarint_le n
  have hne : ¬(encodeVarint n).isEmpty = true := by
    rw [List.isEmpty_iff]
    exact encodeVarint_ne_nil n
  have hlong : ¬16 < (encodeVarint n).length := by omega
  have hread : Bytes.toInt (Bytes.ofInt 16 n) = n := Bytes.toInt_ofInt_of_fits (by decide) h
  rw [decodeVarint, if_neg hne, if_neg hlong, encodeVarint, Bytes.toInt_stripSign, hread]

end Coding

end CqlWire
