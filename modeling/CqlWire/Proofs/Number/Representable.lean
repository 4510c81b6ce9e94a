import CqlWire.Proofs.Number.UnscaledLiteral

/-!
# Decimals of 96 bits as numbers

A decimal that is converted keeps its number: a negative scale is multiplied out and any other scale
is kept (`ofUnscaled?_eq_some_iff`), so the result is exactly the number at that scale
(`ofUnscaled?_eq_some_iff_number`).

Not every number that a decimal of 96 bits denotes is converted (`UnscaledDecimal.IsRepresentable`).
The conversion also needs a scale from -38 to 28 and an integer of 96 bits
(`exists_ofUnscaled?_iff`). A representable number has them anyway if its integer ends in no zero
(`bounds_of_isRepresentable`), or if its scale is at most zero and no less than -38
(`natAbs_lt_of_isRepresentable`).
-/

namespace CqlWire

open Nat (pow)

/-- The number itself. -/
def Decimal.number (x : Decimal) : ℚ := x.mantissa / 10 ^ x.scale

namespace UnscaledDecimal

/-- The number is that of a decimal of 96 bits. -/
def IsRepresentable (d : UnscaledDecimal) : Prop := ∃ x : Decimal, x.number = d.number

variable {d : UnscaledDecimal} {x : Decimal}

/-- Two decimals denote one number if their integers agree once both scales are multiplied out. -/
theorem number_eq_iff : x.number = d.number ↔
    x.mantissa * 10 ^ d.scale.toNat = d.unscaled * 10 ^ (x.scale + (-d.scale).toNat) := by
  have hten : (10 : ℚ) ≠ 0 := by norm_num
  have hx : (10 : ℚ) ^ x.scale ≠ 0 := pow_ne_zero _ hten
  have hd : (10 : ℚ) ^ d.scale.toNat ≠ 0 := pow_ne_zero _ hten
  have hscale : -d.scale = ((-d.scale).toNat : Int) - (d.scale.toNat : Int) := by omega
  have hpower : (10 : ℚ) ^ (-d.scale) = 10 ^ (-d.scale).toNat / 10 ^ d.scale.toNat := by
    conv_lhs => rw [hscale]
    rw [zpow_sub₀ hten, zpow_natCast, zpow_natCast]
  rw [Decimal.number, number, hpower, ← mul_div_assoc, div_eq_div_iff hx hd, pow_add,
    ← Int.cast_inj (α := ℚ)]
  push_cast
  rw [mul_assoc (d.unscaled : ℚ), mul_comm ((10 : ℚ) ^ x.scale)]

/-- Multiplying by a power of ten makes no integer smaller. -/
theorem natAbs_le_natAbs_mul (u : Int) (n : Nat) : u.natAbs ≤ (u * 10 ^ n).natAbs := by
  rw [Int.natAbs_mul, Int.natAbs_pow]
  exact Nat.le_mul_of_pos_right _ (Nat.pow_pos (by decide))

theorem ofParts?_eq_some_iff {m : Int} {k : Nat} :
    Decimal.ofParts? m k = some x ↔ x.mantissa = m ∧ x.scale = k := by
  obtain ⟨mantissa, scale, hm, hk⟩ := x
  unfold Decimal.ofParts?
  constructor
  · intro h
    split at h
    · cases h
      exact ⟨rfl, rfl⟩
    · cases h
  · rintro ⟨rfl, rfl⟩
    exact dif_pos ⟨hm, hk⟩

/-- An integer of 96 bits has 128. -/
theorem fitsSigned_mantissa (x : Decimal) : fitsSigned 128 x.mantissa = true := by
  have h := x.mantissa_lt
  have h96 : pow 2 96 = 79228162514264337593543950336 := rfl
  have h127 : pow 2 127 = 170141183460469231731687303715884105728 := rfl
  rw [fitsSigned, Bool.and_eq_true, decide_eq_true_iff, decide_eq_true_iff, minSigned, maxSigned]
  show -((pow 2 127 : Nat) : Int) ≤ _ ∧ _ ≤ ((pow 2 127 : Nat) : Int) - 1
  omega

/-- A scale of zero or more is kept with the integer, and a negative one is multiplied out. -/
theorem ofUnscaled?_eq_some_iff : Decimal.ofUnscaled? d = some x ↔
    -38 ≤ d.scale ∧ x.scale = d.scale.toNat ∧
      x.mantissa = d.unscaled * 10 ^ (-d.scale).toNat := by
  unfold Decimal.ofUnscaled?
  by_cases hneg : d.scale < 0
  · have hzero : d.scale.toNat = 0 := by omega
    have habs : d.scale.natAbs = (-d.scale).toNat := by omega
    have hproduct : d.unscaled * (pow 10 d.scale.natAbs : Nat) =
        d.unscaled * 10 ^ (-d.scale).toNat := by
      rw [habs]
      rfl
    rw [if_pos hneg, hproduct, hzero]
    by_cases hfar : 38 < d.scale.natAbs
    · rw [if_pos hfar]
      constructor
      · exact nofun
      · rintro ⟨hle, -⟩
        omega
    · rw [if_neg hfar]
      dsimp only
      constructor
      · intro h
        split at h
        · obtain ⟨hm, hk⟩ := ofParts?_eq_some_iff.1 h
          exact ⟨by omega, hk, hm⟩
        · cases h
      · rintro ⟨-, hk, hm⟩
        rw [← hm, if_pos (fitsSigned_mantissa x)]
        exact ofParts?_eq_some_iff.2 ⟨rfl, hk⟩
  · have hzero : (-d.scale).toNat = 0 := by omega
    rw [if_neg hneg, ofParts?_eq_some_iff, hzero, pow_zero, mul_one]
    constructor
    · rintro ⟨hm, hk⟩
      exact ⟨by omega, hk, hm⟩
    · rintro ⟨-, hk, hm⟩
      exact ⟨hm, hk⟩

/-- What a decimal is converted to is exactly its number, at the scale that the conversion has. -/
theorem ofUnscaled?_eq_some_iff_number : Decimal.ofUnscaled? d = some x ↔
    -38 ≤ d.scale ∧ x.scale = d.scale.toNat ∧ x.number = d.number := by
  rw [ofUnscaled?_eq_some_iff]
  refine and_congr_right fun _ => and_congr_right fun hk => ?_
  have hpos : (10 : Int) ^ d.scale.toNat ≠ 0 := pow_ne_zero _ (by decide)
  rw [number_eq_iff, hk, add_comm, pow_add, ← mul_assoc]
  exact (mul_left_inj' hpos).symm

/-! ## Representable numbers -/

/-- A representable number whose scale is not positive is an integer of 96 bits. -/
theorem natAbs_lt_of_isRepresentable (h : d.IsRepresentable) (hle : d.scale ≤ 0) :
    (d.unscaled * 10 ^ (-d.scale).toNat).natAbs < 2 ^ 96 := by
  obtain ⟨y, hy⟩ := h
  have hzero : d.scale.toNat = 0 := by omega
  have heq := number_eq_iff.1 hy
  rw [hzero, pow_zero, mul_one, add_comm, pow_add, ← mul_assoc] at heq
  have hgrow := natAbs_le_natAbs_mul (d.unscaled * 10 ^ (-d.scale).toNat) y.scale
  rw [← heq] at hgrow
  exact Nat.lt_of_le_of_lt hgrow y.mantissa_lt

/-- A decimal is converted if its number is representable, its scale is from -38 to 28 and its
integer has 96 bits, and otherwise it is not. -/
theorem exists_ofUnscaled?_iff : (∃ x, Decimal.ofUnscaled? d = some x) ↔
    d.IsRepresentable ∧ -38 ≤ d.scale ∧ d.scale ≤ 28 ∧ d.unscaled.natAbs < 2 ^ 96 := by
  constructor
  · rintro ⟨x, hx⟩
    obtain ⟨hlo, hk, hm⟩ := ofUnscaled?_eq_some_iff.1 hx
    have hnumber := (ofUnscaled?_eq_some_iff_number.1 hx).2.2
    have hgrow := natAbs_le_natAbs_mul d.unscaled (-d.scale).toNat
    rw [← hm] at hgrow
    have hscale := x.scale_le
    exact ⟨⟨x, hnumber⟩, hlo, by omega, Nat.lt_of_le_of_lt hgrow x.mantissa_lt⟩
  · rintro ⟨hd, hlo, hhi, hu⟩
    have hmantissa : (d.unscaled * 10 ^ (-d.scale).toNat).natAbs < 2 ^ 96 := by
      rcases le_or_gt d.scale 0 with hle | hpos
      · exact natAbs_lt_of_isRepresentable hd hle
      · have hzero : (-d.scale).toNat = 0 := by omega
        rw [hzero, pow_zero, mul_one]
        exact hu
    let x : Decimal := ⟨d.unscaled * 10 ^ (-d.scale).toNat, d.scale.toNat, hmantissa, by omega⟩
    exact ⟨x, ofUnscaled?_eq_some_iff.2 ⟨hlo, rfl, rfl⟩⟩

/-- A number whose integer ends in no zero is denoted at no smaller scale, and at a greater one with so
many zeros more. -/
theorem exists_scale_eq_add (h : x.number = d.number) (hscale : 0 ≤ d.scale)
    (hten : ¬10 ∣ d.unscaled) :
    ∃ n, x.scale = d.scale.toNat + n ∧ x.mantissa = d.unscaled * 10 ^ n := by
  have hzero : (-d.scale).toNat = 0 := by omega
  have heq := number_eq_iff.1 h
  rw [hzero, add_zero] at heq
  have hle : d.scale.toNat ≤ x.scale := by
    -- a smaller scale would leave a factor of ten in the integer
    by_contra hlt
    obtain ⟨n, hn⟩ := Nat.exists_eq_add_of_lt (Nat.lt_of_not_le hlt)
    have hpow : (10 : Int) ^ x.scale ≠ 0 := pow_ne_zero _ (by decide)
    rw [hn, add_assoc, pow_add, mul_left_comm, mul_comm d.unscaled] at heq
    refine hten ⟨x.mantissa * 10 ^ n, ?_⟩
    rw [← mul_left_cancel₀ hpow heq, pow_succ]
    ring
  obtain ⟨n, hn⟩ := Nat.exists_eq_add_of_le hle
  have hpow : (10 : Int) ^ d.scale.toNat ≠ 0 := pow_ne_zero _ (by decide)
  rw [hn, pow_add, mul_left_comm, mul_comm x.mantissa] at heq
  exact ⟨n, hn, mul_left_cancel₀ hpow heq⟩

/-- A representable number whose integer ends in no zero has a scale and an integer that are in
range. -/
theorem bounds_of_isRepresentable (h : d.IsRepresentable) (hten : ¬10 ∣ d.unscaled) :
    -38 ≤ d.scale ∧ d.scale ≤ 28 ∧ d.unscaled.natAbs < 2 ^ 96 := by
  rcases le_or_gt d.scale 0 with hle | hpos
  · have hlt := natAbs_lt_of_isRepresentable h hle
    have hgrow := natAbs_le_natAbs_mul d.unscaled (-d.scale).toNat
    refine ⟨?_, by omega, Nat.lt_of_le_of_lt hgrow hlt⟩
    -- the power alone has 96 bits, since the integer is not zero
    have hne : d.unscaled.natAbs ≠ 0 := by
      intro hzero
      rw [Int.natAbs_eq_zero.1 hzero] at hten
      exact hten (dvd_zero 10)
    rw [Int.natAbs_mul, Int.natAbs_pow] at hlt
    have hpower := Nat.lt_of_le_of_lt (Nat.le_mul_of_pos_left _ (Nat.pos_of_ne_zero hne)) hlt
    have hexponent : (-d.scale).toNat < 38 :=
      (Nat.pow_lt_pow_iff_right (by decide)).1 (Nat.lt_trans hpower (by decide : 2 ^ 96 < 10 ^ 38))
    omega
  · obtain ⟨y, hy⟩ := h
    obtain ⟨n, hn, hm⟩ := exists_scale_eq_add hy (Int.le_of_lt hpos) hten
    have hgrow := natAbs_le_natAbs_mul d.unscaled n
    rw [← hm] at hgrow
    have hscale := y.scale_le
    exact ⟨by omega, by omega, Nat.lt_of_le_of_lt hgrow y.mantissa_lt⟩

end UnscaledDecimal

end CqlWire
