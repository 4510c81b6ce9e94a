import CqlWire.Fallible
import CqlWire.Number.Integer
import CqlWire.Proofs.Text.Quoted

/-!
# Integers are read as they were written

Digits are read as the number that they write, up to the limit (`readDigits_eq_ok_iff`), and a text
is read as an integer exactly if it is a sign and digits of one in the range
(`readSigned_eq_ok_iff`). So an integer is read from its own text (`readSigned_decimalText`).
-/

namespace CqlWire

open Text (isAsciiDigit isWordChar)
open Nat (pow)

/-! ## Digits -/

theorem isAsciiDigit_iff {c : Char} : isAsciiDigit c = true ↔ 48 ≤ c.toNat ∧ c.toNat ≤ 57 := by
  rw [isAsciiDigit, Bool.and_eq_true, decide_eq_true_iff, decide_eq_true_iff, Char.le_def,
    Char.le_def, UInt32.le_iff_toNat_le, UInt32.le_iff_toNat_le]
  rfl

theorem isAsciiDigit_of_isDigit {c : Char} (h : c.isDigit = true) : isAsciiDigit c = true := by
  rw [Char.isDigit, Bool.and_eq_true, decide_eq_true_iff, decide_eq_true_iff] at h
  exact isAsciiDigit_iff.2 ⟨UInt32.le_iff_toNat_le.1 h.1, UInt32.le_iff_toNat_le.1 h.2⟩

theorem le_ofDigitChars (cs : List Char) (n : Nat) : n ≤ Nat.ofDigitChars 10 cs n := by
  rw [Nat.ofDigitChars_eq_ofDigitChars_zero]
  have hpow : 0 < 10 ^ cs.length := Nat.pow_pos (by decide)
  have := Nat.le_mul_of_pos_left n hpow
  omega

/-- Digits are read as the number that they write, if it is within the limit. -/
theorem readDigits_eq_ok_iff {limit n m : Nat} {overflow : IntegerError} {cs : List Char}
    (hn : n ≤ limit) : readDigits limit overflow n cs = .ok m ↔
      (∀ c ∈ cs, isAsciiDigit c = true) ∧ Nat.ofDigitChars 10 cs n = m ∧ m ≤ limit := by
  induction cs generalizing n with
  | nil =>
    rw [readDigits, Except.ok.injEq, Nat.ofDigitChars_nil]
    constructor
    · rintro rfl
      exact ⟨nofun, rfl, hn⟩
    · rintro ⟨-, h, -⟩
      exact h
  | cons c cs ih =>
    rw [readDigits, Nat.ofDigitChars_cons]
    by_cases hc : isAsciiDigit c = true
    · have hd : digitValue? c = some (c.toNat - 48) := if_pos hc
      have hstep : 10 * n + (c.toNat - '0'.toNat) = n * 10 + (c.toNat - 48) := by
        rw [Nat.mul_comm]
        rfl
      simp only [hd]
      rw [hstep]
      by_cases hle : n * 10 + (c.toNat - 48) ≤ limit
      · rw [if_pos hle, ih hle, List.forall_mem_cons]
        exact ⟨fun h => ⟨⟨hc, h.1⟩, h.2⟩, fun h => ⟨h.1.2, h.2⟩⟩
      · rw [if_neg hle]
        refine ⟨nofun, ?_⟩
        rintro ⟨-, rfl, hlimit⟩
        have := le_ofDigitChars cs (n * 10 + (c.toNat - 48))
        omega
    · have hd : digitValue? c = none := if_neg hc
      simp only [hd]
      exact ⟨nofun, fun h => absurd (h.1 c List.mem_cons_self) hc⟩

/-! ## Signs -/

/-- What may stand in front of the digits of an integer. -/
inductive Sign where
  | absent
  | plus
  | minus
deriving DecidableEq, Repr

/-- The sign as it is written. -/
def Sign.text : Sign → List Char
  | .absent => []
  | .plus => ['+']
  | .minus => ['-']

theorem Sign.of_mem_text {sign : Sign} {c : Char} (h : c ∈ sign.text) : c = '+' ∨ c = '-' := by
  cases sign with
  | absent => cases h
  | plus => exact .inl (List.mem_singleton.1 h)
  | minus => exact .inr (List.mem_singleton.1 h)

/-- What the sign does to the number that the digits write. -/
def Sign.factor : Sign → Int
  | .absent | .plus => 1
  | .minus => -1

/-- The sign with which an integer is written. -/
def Sign.ofInt (n : Int) : Sign :=
  if n < 0 then .minus else .absent

theorem Sign.text_ofInt (n : Int) : (Sign.ofInt n).text = if n < 0 then ['-'] else [] := by
  unfold Sign.ofInt
  split <;> rfl

theorem Sign.factor_ofInt_mul (n : Int) : (Sign.ofInt n).factor * n.natAbs = n := by
  unfold Sign.ofInt
  split
  · show -1 * (n.natAbs : Int) = n
    omega
  · show 1 * (n.natAbs : Int) = n
    omega

variable {lo hi n : Int} {c : Char} {cs : List Char}

theorem readInteger_neg : readInteger lo hi ('-' :: c :: cs) =
    (readDigits lo.natAbs .tooSmall 0 (c :: cs)).map fun m : Nat => -(m : Int) := by
  rw [readInteger]
  · cases readDigits lo.natAbs .tooSmall 0 (c :: cs) <;> rfl
  · exact nofun

theorem readInteger_pos : readInteger lo hi ('+' :: c :: cs) =
    (readDigits hi.natAbs .tooLarge 0 (c :: cs)).map Int.ofNat := rfl

theorem readInteger_unsigned (h : c ≠ '+' ∧ c ≠ '-') : readInteger lo hi (c :: cs) =
    (readDigits hi.natAbs .tooLarge 0 (c :: cs)).map Int.ofNat := by
  rw [readInteger]
  · exact nofun
  · rintro h'
    exact h.1 (List.cons_eq_cons.1 h').1
  · rintro h'
    exact h.2 (List.cons_eq_cons.1 h').1
  · rintro r h'
    exact h.2 (List.cons_eq_cons.1 h').1
  · rintro r h'
    exact h.1 (List.cons_eq_cons.1 h').1

/-- Neither sign is a digit. -/
theorem ne_sign_of_isAsciiDigit (h : isAsciiDigit c = true) : c ≠ '+' ∧ c ≠ '-' := by
  constructor <;> rintro rfl <;> exact absurd h (by decide)

/-- Digits are read, and what the sign does to their number is done. -/
theorem map_readDigits_eq_ok_iff {limit : Nat} {overflow : IntegerError} {f : Nat → Int} {k : Int}
    (hf : ∀ m : Nat, f m = k * m) : (readDigits limit overflow 0 cs).map f = .ok n ↔
      (∀ c ∈ cs, isAsciiDigit c = true) ∧ n = k * Nat.ofDigitChars 10 cs 0 ∧
        Nat.ofDigitChars 10 cs 0 ≤ limit := by
  constructor
  · intro h
    obtain ⟨m, hm, hn⟩ := map_eq_ok_iff.1 h
    obtain ⟨hcs, rfl, hlimit⟩ := (readDigits_eq_ok_iff (Nat.zero_le limit)).1 hm
    exact ⟨hcs, by rw [← hn, hf], hlimit⟩
  · rintro ⟨hcs, hn, hlimit⟩
    have hm : readDigits limit overflow 0 cs = .ok (Nat.ofDigitChars 10 cs 0) :=
      (readDigits_eq_ok_iff (Nat.zero_le limit)).2 ⟨hcs, rfl, hlimit⟩
    exact map_eq_ok_iff.2 ⟨_, hm, by rw [hn, hf]⟩

/-- The greatest magnitude that a number of so many bits has behind a sign. -/
def Sign.limit (bits : Nat) : Sign → Nat
  | .absent | .plus => (maxSigned bits).natAbs
  | .minus => (minSigned bits).natAbs

theorem fitsSigned_factor_iff {bits m : Nat} (sign : Sign) :
    fitsSigned bits (sign.factor * m) = true ↔ m ≤ sign.limit bits := by
  have hpow : 0 < pow 2 (bits - 1) := Nat.pow_pos (by decide)
  rw [fitsSigned, Bool.and_eq_true, decide_eq_true_iff, decide_eq_true_iff]
  cases sign <;> dsimp only [minSigned, maxSigned, Sign.factor, Sign.limit] <;> omega

/-- Behind a sign, or where there is none, an integer of the range has to follow in digits. -/
theorem readSigned_sign_append_iff {bits : Nat} (sign : Sign)
    (hc : sign = .absent → c ≠ '+' ∧ c ≠ '-') :
    readSigned bits (sign.text ++ c :: cs) = .ok n ↔
      (∀ d ∈ c :: cs, isAsciiDigit d = true) ∧
        n = sign.factor * Nat.ofDigitChars 10 (c :: cs) 0 ∧ fitsSigned bits n = true := by
  have hfit : ∀ hn : n = sign.factor * Nat.ofDigitChars 10 (c :: cs) 0, fitsSigned bits n = true ↔
      Nat.ofDigitChars 10 (c :: cs) 0 ≤ (sign.limit bits) := by
    rintro rfl
    exact fitsSigned_factor_iff sign
  rw [readSigned, and_congr_right hfit]
  cases sign with
  | minus =>
    show readInteger _ _ ('-' :: c :: cs) = _ ↔ _
    rw [readInteger_neg]
    exact map_readDigits_eq_ok_iff fun m => (Int.neg_one_mul m).symm
  | plus =>
    show readInteger _ _ ('+' :: c :: cs) = _ ↔ _
    rw [readInteger_pos]
    exact map_readDigits_eq_ok_iff fun m => (Int.one_mul m).symm
  | absent =>
    show readInteger _ _ (c :: cs) = _ ↔ _
    rw [readInteger_unsigned (hc rfl)]
    exact map_readDigits_eq_ok_iff fun m => (Int.one_mul m).symm

/-- A text is read as an integer of the range if it is a sign and digits that write it. -/
theorem readSigned_eq_ok_iff {bits : Nat} {s : List Char} : readSigned bits s = .ok n ↔
    ∃ (sign : Sign) (digits : List Char), s = sign.text ++ digits ∧ digits ≠ [] ∧
      (∀ c ∈ digits, isAsciiDigit c = true) ∧ n = sign.factor * Nat.ofDigitChars 10 digits 0 ∧
      fitsSigned bits n = true := by
  constructor
  · intro h
    cases s with
    | nil => cases h
    | cons c cs =>
      by_cases hminus : c = '-'
      · subst hminus
        cases cs with
        | nil => cases h
        | cons d ds =>
          exact ⟨.minus, d :: ds, rfl, List.cons_ne_nil d ds,
            (readSigned_sign_append_iff .minus nofun).1 h⟩
      · by_cases hplus : c = '+'
        · subst hplus
          cases cs with
          | nil => cases h
          | cons d ds =>
            exact ⟨.plus, d :: ds, rfl, List.cons_ne_nil d ds,
              (readSigned_sign_append_iff .plus nofun).1 h⟩
        · exact ⟨.absent, c :: cs, rfl, List.cons_ne_nil c cs,
            (readSigned_sign_append_iff .absent fun _ => ⟨hplus, hminus⟩).1 h⟩
  · rintro ⟨sign, digits, rfl, hne, hdigits, hn⟩
    cases digits with
    | nil => exact absurd rfl hne
    | cons c cs =>
      have hc := ne_sign_of_isAsciiDigit (hdigits c List.mem_cons_self)
      exact (readSigned_sign_append_iff sign fun _ => hc).2 ⟨hdigits, hn⟩

/-! ## Decimal texts -/

theorem isAsciiDigit_of_mem_decimalDigits {n : Nat} (h : c ∈ decimalDigits n) :
    isAsciiDigit c = true :=
  isAsciiDigit_of_isDigit (Nat.isDigit_of_mem_toDigits (by decide) (by decide) h)

theorem decimalDigits_ne_nil (n : Nat) : decimalDigits n ≠ [] :=
  Nat.toDigits_ne_nil

theorem ofDigitChars_decimalDigits (n : Nat) : Nat.ofDigitChars 10 (decimalDigits n) 0 = n :=
  Nat.ofDigitChars_ten_toDigits

theorem isAsciiDigit_of_mem_zeros {k n : Nat}
    (h : c ∈ List.replicate k '0' ++ decimalDigits n) : isAsciiDigit c = true := by
  rcases List.mem_append.1 h with h | h
  · rw [List.eq_of_mem_replicate h]
    rfl
  · exact isAsciiDigit_of_mem_decimalDigits h

/-- Zeros in front do not change the number. -/
theorem ofDigitChars_zeros (k n : Nat) :
    Nat.ofDigitChars 10 (List.replicate k '0' ++ decimalDigits n) 0 = n := by
  rw [Nat.ofDigitChars_append, Nat.ofDigitChars_replicate_zero, Nat.mul_zero,
    ofDigitChars_decimalDigits]

theorem decimalText_eq (n : Int) :
    decimalText n = (if n < 0 then ['-'] else []) ++ decimalDigits n.natAbs := by
  unfold decimalText
  split <;> rfl

theorem decimalText_of_nonneg {n : Int} (h : 0 ≤ n) : decimalText n = decimalDigits n.toNat := by
  rw [decimalText, if_neg (by omega)]
  congr 1
  omega

theorem decimalText_ne_nil (n : Int) : decimalText n ≠ [] := by
  rw [decimalText_eq]
  exact List.append_ne_nil_of_right_ne_nil _ (decimalDigits_ne_nil _)

/-- The text of an integer has a minus sign and digits. -/
theorem of_mem_decimalText {n : Int} (h : c ∈ decimalText n) : c = '-' ∨ isAsciiDigit c = true := by
  rw [decimalText_eq] at h
  rcases List.mem_append.1 h with h | h
  · split at h
    · exact .inl (List.mem_singleton.1 h)
    · cases h
  · exact .inr (isAsciiDigit_of_mem_decimalDigits h)

theorem isWordChar_of_mem_decimalText {n : Int} (h : c ∈ decimalText n) : isWordChar c = true := by
  rcases of_mem_decimalText h with rfl | h
  · rfl
  · exact Text.isWordChar_of_isAsciiDigit h

theorem lt_of_mem_decimalText {n : Int} (h : c ∈ decimalText n) : c.toNat < 65 := by
  rcases of_mem_decimalText h with rfl | h
  · decide
  · have := isAsciiDigit_iff.1 h
    omega

/-- An integer of the range is read from its text. -/
theorem readSigned_decimalText {bits : Nat} {n : Int} (h : fitsSigned bits n = true) :
    readSigned bits (decimalText n) = .ok n := by
  rw [decimalText_eq, ← Sign.text_ofInt]
  refine readSigned_eq_ok_iff.2 ⟨Sign.ofInt n, decimalDigits n.natAbs, rfl, decimalDigits_ne_nil _,
    fun c hc => isAsciiDigit_of_mem_decimalDigits hc, ?_, h⟩
  rw [ofDigitChars_decimalDigits, Sign.factor_ofInt_mul]

end CqlWire
