import CqlWire.Bytes
import CqlWire.Proofs.Text.Quoted

/-!
# Hexadecimal digits are read as they were written

A byte string is read from its digits (`Bytes.ofHex?_toHex`), which are two for a byte
(`Bytes.length_of_ofHex?`). The digits that are written are those of the numbers below sixteen
(`Bytes.eq_hexDigit_of_mem_toHex`), so they are characters of a word. Nothing else is read, apart
from the same digits as capital letters (`Bytes.ofHex?_eq_some_iff`).
-/

namespace CqlWire

open Text (isWordChar isAscii toAsciiLower)

theorem hexValue?_hexDigit {n : Nat} (h : n < 16) : hexValue? (hexDigit n) = some n := by
  revert n
  decide

theorem isWordChar_hexDigit {n : Nat} (h : n < 16) : isWordChar (hexDigit n) = true := by
  revert n
  decide

theorem hexDigit_ne {n : Nat} (h : n < 16) : hexDigit n ≠ '-' ∧ hexDigit n ≠ '+' := by
  revert n
  decide

theorem isAscii_of_isWordChar {c : Char} (h : isWordChar c = true) : isAscii c = true := by
  have := Text.toNat_of_isWordChar h
  exact decide_eq_true (by omega)

/-- A digit has one value in either case. -/
theorem hexValue?_toAsciiLower (c : Char) : hexValue? (toAsciiLower c) = hexValue? c :=
  Text.toAsciiLower_induction (P := fun c d => hexValue? d = hexValue? c) (fun _ => rfl)
    (by decide) c

theorem toNat_of_hexValue? {c : Char} {n : Nat} (h : hexValue? c = some n) : c.toNat ≤ 102 := by
  have hle {a b : Char} (hab : a ≤ b) : a.toNat ≤ b.toNat := UInt32.le_iff_toNat_le.1 hab
  unfold hexValue? at h
  split at h
  · rename_i hdigit
    exact Nat.le_trans (hle hdigit.2) (by decide)
  · split at h
    · rename_i hsmall
      exact hle hsmall.2
    · split at h
      · rename_i hcapital
        exact Nat.le_trans (hle hcapital.2) (by decide)
      · cases h

/-- A character has a value if its small form is the digit that is written for the value. -/
theorem hexValue?_eq_some_iff {c : Char} {n : Nat} :
    hexValue? c = some n ↔ n < 16 ∧ toAsciiLower c = hexDigit n := by
  constructor
  · intro h
    have hdigits : ∀ k < 103, ∀ n ∈ hexValue? (Char.ofNat k),
        n < 16 ∧ toAsciiLower (Char.ofNat k) = hexDigit n := by decide +kernel
    have hk := toNat_of_hexValue? h
    have hc := hdigits c.toNat (by omega) n
    rw [Char.ofNat_toNat] at hc
    exact hc h
  · rintro ⟨hn, hc⟩
    rw [← hexValue?_toAsciiLower, hc, hexValue?_hexDigit hn]

namespace Bytes

/-- The two halves of a byte. -/
theorem halves_lt (b : UInt8) : b.toNat / 16 < 16 ∧ b.toNat % 16 < 16 := by
  have := b.toNat_lt
  omega

theorem ofNat_halves (b : UInt8) : UInt8.ofNat (b.toNat / 16 * 16 + b.toNat % 16) = b := by
  rw [Nat.mul_comm, Nat.div_add_mod, UInt8.ofNat_toNat]

theorem toHex_cons (b : UInt8) (bs : Bytes) :
    toHex (b :: bs) = hexDigit (b.toNat / 16) :: hexDigit (b.toNat % 16) :: bs.toHex := rfl

/-- A byte string is read from its digits. -/
theorem ofHex?_toHex (bs : Bytes) : ofHex? bs.toHex = some bs := by
  induction bs with
  | nil => rfl
  | cons b bs ih =>
    obtain ⟨hhi, hlo⟩ := halves_lt b
    rw [toHex_cons, ofHex?, hexValue?_hexDigit hhi, hexValue?_hexDigit hlo, ih]
    exact congrArg (fun a => some (a :: bs)) (ofNat_halves b)

theorem ofHex?_map_toAsciiLower (s : List Char) : ofHex? (s.map toAsciiLower) = ofHex? s := by
  fun_induction ofHex? s with
  | case1 => rfl
  | case2 a b r ih =>
    rw [List.map_cons, List.map_cons, ofHex?, hexValue?_toAsciiLower, hexValue?_toAsciiLower, ih]
  | case3 => rfl

theorem toHex_cons_ofNat {hi lo : Nat} (hhi : hi < 16) (hlo : lo < 16) (bs : Bytes) :
    toHex (UInt8.ofNat (hi * 16 + lo) :: bs) = hexDigit hi :: hexDigit lo :: bs.toHex := by
  have hbyte : (UInt8.ofNat (hi * 16 + lo)).toNat = hi * 16 + lo :=
    UInt8.toNat_ofNat_of_lt' (show hi * 16 + lo < 256 by omega)
  rw [toHex_cons, hbyte, show (hi * 16 + lo) / 16 = hi by omega,
    show (hi * 16 + lo) % 16 = lo by omega]

/-- A text is read as the bytes whose digits it has, in either case. -/
theorem ofHex?_eq_some_iff {s : List Char} {bs : Bytes} :
    ofHex? s = some bs ↔ s.map toAsciiLower = bs.toHex := by
  constructor
  · intro h
    fun_induction ofHex? s generalizing bs with
    | case1 =>
      cases h
      rfl
    | case2 a b r ih =>
      simp only [Option.bind_eq_bind, Option.bind_eq_some_iff, Option.pure_def,
        Option.some.injEq] at h
      obtain ⟨hi, hhi, lo, hlo, rest, hrest, rfl⟩ := h
      obtain ⟨hhi, ha⟩ := hexValue?_eq_some_iff.1 hhi
      obtain ⟨hlo, hb⟩ := hexValue?_eq_some_iff.1 hlo
      rw [toHex_cons_ofNat hhi hlo, List.map_cons, List.map_cons, ha, hb, ih hrest]
    | case3 => cases h
  · intro h
    rw [← ofHex?_map_toAsciiLower, h, ofHex?_toHex]

theorem length_of_ofHex? {s : List Char} {bs : Bytes} (h : ofHex? s = some bs) :
    s.length = 2 * bs.length := by
  fun_induction ofHex? s generalizing bs with
  | case1 =>
    cases h
    rfl
  | case2 a b r ih =>
    simp only [Option.bind_eq_bind, Option.bind_eq_some_iff, Option.pure_def,
      Option.some.injEq] at h
    obtain ⟨hi, -, lo, -, rest, hrest, rfl⟩ := h
    rw [List.length_cons, List.length_cons, List.length_cons, ih hrest]
    omega
  | case3 => cases h

theorem eq_hexDigit_of_mem_toHex {bs : Bytes} {c : Char} (h : c ∈ bs.toHex) :
    ∃ n < 16, c = hexDigit n := by
  obtain ⟨b, -, hc⟩ := List.mem_flatMap.1 h
  obtain ⟨hhi, hlo⟩ := halves_lt b
  rw [List.mem_cons, List.mem_singleton] at hc
  rcases hc with rfl | rfl
  · exact ⟨_, hhi, rfl⟩
  · exact ⟨_, hlo, rfl⟩

theorem isWordChar_of_mem_toHex {bs : Bytes} {c : Char} (h : c ∈ bs.toHex) :
    isWordChar c = true := by
  obtain ⟨n, hn, rfl⟩ := eq_hexDigit_of_mem_toHex h
  exact isWordChar_hexDigit hn

end Bytes

end CqlWire
