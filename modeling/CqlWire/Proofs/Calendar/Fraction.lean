import CqlWire.Proofs.Calendar.Numeral
import Mathlib.Algebra.Order.Field.Rat
import Mathlib.Data.Rat.Floor
import Mathlib.Tactic.FieldSimp
import Mathlib.Tactic.IntervalCases
import Mathlib.Tactic.Positivity

/-!
# Fractions of a second

A `Fraction` is the digits behind a point, as many as there are. Reading keeps nine of them
(`Fraction.nanos`): the number that they write is that of all digits, rounded down to the nanosecond
(`nanos_eq_floor`), and it is the same number if and only if the others are zeros
(`nanos_exact_iff`). A fraction of whole milliseconds is one without other digits than zeros from the
fourth to the ninth (`nanos_mod_iff`). The same holds of whole seconds and a fraction together
(`toNanosecond`, `toNanosecond_eq_self_iff`).
-/

namespace CqlWire

open Text (isAsciiDigit)

section

variable {cs : List Char}

/-- The number of digits that are cut in two is that of both parts. -/
theorem ofDigitChars_take_drop (k : Nat) (cs : List Char) :
    Nat.ofDigitChars 10 cs 0 = 10 ^ (cs.drop k).length * Nat.ofDigitChars 10 (cs.take k) 0 +
      Nat.ofDigitChars 10 (cs.drop k) 0 := by
  conv_lhs => rw [← List.take_append_drop k cs]
  rw [Nat.ofDigitChars_append, Nat.ofDigitChars_eq_ofDigitChars_zero]

/-- Digits write zero if all of them are zeros. -/
theorem ofDigitChars_eq_zero_iff (h : ∀ c ∈ cs, isAsciiDigit c = true) :
    Nat.ofDigitChars 10 cs 0 = 0 ↔ ∀ c ∈ cs, c = '0' := by
  induction cs with
  | nil => exact iff_of_true rfl nofun
  | cons c cs ih =>
    have hc := isAsciiDigit_iff.1 (h c List.mem_cons_self)
    have hzero : '0'.toNat = 48 := rfl
    have hpow : 10 ^ cs.length ≠ 0 := Nat.ne_of_gt (Nat.pow_pos (by decide))
    rw [Nat.ofDigitChars_cons, Nat.ofDigitChars_eq_ofDigitChars_zero, hzero, Nat.mul_zero,
      Nat.zero_add, Nat.add_eq_zero_iff, ih fun d hd => h d (List.mem_cons_of_mem _ hd),
      List.forall_mem_cons, Nat.mul_eq_zero, or_iff_right hpow]
    refine and_congr_left fun _ => ⟨fun hdigit => ?_, fun hdigit => by rw [hdigit]; rfl⟩
    have hnat : c.toNat = 48 := by omega
    rw [← Char.ofNat_toNat c, hnat]

end

namespace Calendar

variable {s r : List Char} {n : Nat}

/-- The digits of a fraction of a second. Where there are none, there is no point either. -/
structure Fraction where
  digits : List Char
  isDigit : ∀ c ∈ digits, isAsciiDigit c = true

namespace Fraction

variable (f : Fraction)

/-- The fraction as it is written. -/
def text : List Char := if f.digits = [] then [] else '.' :: f.digits

/-- The number that all digits write behind the point. -/
def number : ℚ := Nat.ofDigitChars 10 f.digits 0 / 10 ^ f.digits.length

/-- The first nine digits as nanoseconds. -/
def nanos : Nat :=
  Nat.ofDigitChars 10 (f.digits.take 9) 0 * 10 ^ (9 - (f.digits.take 9).length)

/-- What the digits behind the ninth write, in nanoseconds. -/
def dropped : ℚ := Nat.ofDigitChars 10 (f.digits.drop 9) 0 / 10 ^ (f.digits.drop 9).length

theorem nanos_nil (h : ∀ c ∈ [], isAsciiDigit c = true) : nanos ⟨[], h⟩ = 0 :=
  Nat.zero_mul _

theorem isDigit_drop {k : Nat} : ∀ c ∈ f.digits.drop k, isAsciiDigit c = true :=
  fun c hc => f.isDigit c (List.mem_of_mem_drop hc)

/-- The number is made up of the nanoseconds that are kept and the part that is dropped. -/
theorem number_mul : f.number * 10 ^ 9 = f.nanos + f.dropped := by
  have hten : (10 : ℚ) ≠ 0 := by norm_num
  rw [number, nanos, dropped, ofDigitChars_take_drop 9 f.digits]
  rcases Nat.lt_or_ge f.digits.length 9 with hshort | hlong
  · have hpower : (10 : ℚ) ^ 9 = 10 ^ (9 - f.digits.length) * 10 ^ f.digits.length := by
      rw [← pow_add, Nat.sub_add_cancel (Nat.le_of_lt hshort)]
    rw [List.take_of_length_le (Nat.le_of_lt hshort),
      List.drop_eq_nil_of_le (Nat.le_of_lt hshort), hpower]
    push_cast
    field_simp
    simp
  · have hlength : f.digits.length = 9 + (f.digits.drop 9).length := by
      rw [List.length_drop]
      omega
    have htake : (f.digits.take 9).length = 9 := by
      rw [List.length_take, Nat.min_eq_left hlong]
    rw [htake, hlength, pow_add, Nat.sub_self, pow_zero, Nat.mul_one]
    push_cast
    field_simp

theorem dropped_nonneg : 0 ≤ f.dropped := by
  unfold dropped
  positivity

theorem dropped_lt_one : f.dropped < 1 := by
  have hlt := ofDigitChars_lt (f.isDigit_drop (k := 9))
  rw [dropped, div_lt_one (by positivity)]
  exact_mod_cast hlt

/-- The nanoseconds that are kept are the number rounded down. -/
theorem nanos_eq_floor : (f.nanos : Int) = ⌊f.number * 10 ^ 9⌋ := by
  symm
  rw [Int.floor_eq_iff, number_mul, Int.cast_natCast]
  have hlo := f.dropped_nonneg
  have hhi := f.dropped_lt_one
  exact ⟨le_add_of_nonneg_right hlo, add_lt_add_right hhi _⟩

theorem number_lt_one : f.number < 1 := by
  have hlt := ofDigitChars_lt f.isDigit
  rw [number, div_lt_one (by positivity)]
  exact_mod_cast hlt

theorem nanos_lt : f.nanos < 1000000000 := by
  have hfloor := f.nanos_eq_floor
  have hlt : f.number * 10 ^ 9 < (1000000000 : Int) := by
    have := f.number_lt_one
    push_cast
    linarith
  have := Int.floor_lt.2 hlt
  omega

/-- Nothing is lost if there are only zeros behind the ninth digit, and something is lost
otherwise. -/
theorem nanos_exact_iff :
    (f.nanos : ℚ) / 10 ^ 9 = f.number ↔ ∀ c ∈ f.digits.drop 9, c = '0' := by
  rw [div_eq_iff (by norm_num), number_mul, left_eq_add, dropped, div_eq_zero_iff,
    or_iff_left (by positivity), Nat.cast_eq_zero]
  exact ofDigitChars_eq_zero_iff f.isDigit_drop

/-- The nanoseconds are whole milliseconds if there are only zeros from the fourth digit to the
ninth. -/
theorem nanos_mod_iff : f.nanos % 1000000 = 0 ↔ ∀ c ∈ (f.digits.take 9).drop 3, c = '0' := by
  have hdigits : ∀ c ∈ (f.digits.take 9).drop 3, isAsciiDigit c = true :=
    fun c hc => f.isDigit c (List.mem_of_mem_take (List.mem_of_mem_drop hc))
  rw [← ofDigitChars_eq_zero_iff hdigits, nanos, ofDigitChars_take_drop 3 (f.digits.take 9)]
  have hlength : (f.digits.take 9).length ≤ 9 := List.length_take_le _ _
  have hdrop : ((f.digits.take 9).drop 3).length = (f.digits.take 9).length - 3 := List.length_drop
  have hlt := ofDigitChars_lt hdigits
  generalize Nat.ofDigitChars 10 ((f.digits.take 9).drop 3) 0 = low at hlt ⊢
  generalize Nat.ofDigitChars 10 ((f.digits.take 9).take 3) 0 = high
  rw [hdrop] at hlt ⊢
  generalize (f.digits.take 9).length = k at hlength hlt ⊢
  -- the powers of ten are numerals once it is known how many digits are kept
  interval_cases k <;> omega

end Fraction

/-! ## Whole seconds and a fraction -/

/-- A number of seconds, rounded down to the nanosecond. -/
def toNanosecond (q : ℚ) : ℚ := ⌊q * 10 ^ 9⌋ / 10 ^ 9

theorem toNanosecond_add (seconds : Int) (f : Fraction) :
    toNanosecond (seconds + f.number) = seconds + f.nanos / 10 ^ 9 := by
  have hmul : ((seconds : ℚ) + f.number) * 10 ^ 9 =
      ((seconds * 10 ^ 9 : Int) : ℚ) + f.number * 10 ^ 9 := by
    push_cast
    ring
  rw [toNanosecond, hmul, Int.floor_intCast_add, ← f.nanos_eq_floor]
  push_cast
  ring

/-- Rounding down to the nanosecond changes nothing if there are only zeros behind the ninth digit of
the fraction, and otherwise it does. -/
theorem toNanosecond_eq_self_iff (seconds : Int) (f : Fraction) :
    toNanosecond (seconds + f.number) = seconds + f.number ↔ ∀ c ∈ f.digits.drop 9, c = '0' := by
  rw [toNanosecond_add, add_right_inj, f.nanos_exact_iff]

/-- Whole seconds and nanoseconds below one second are told from their sum. -/
theorem add_nanos_inj {s s' : Int} {n n' : Nat} (hn : n < 1000000000) (hn' : n' < 1000000000) :
    (s : ℚ) + n / 10 ^ 9 = s' + n' / 10 ^ 9 ↔ s = s' ∧ n = n' := by
  have hsum (s : Int) (n : Nat) :
      (s : ℚ) + n / 10 ^ 9 = ((s * 1000000000 + n : Int) : ℚ) / 10 ^ 9 := by
    push_cast
    ring
  rw [hsum, hsum, div_left_inj' (by norm_num), Int.cast_inj]
  omega

/-- A number rounded down to the nanosecond has its whole seconds, and the nanoseconds of its
fraction. -/
theorem eq_toNanosecond_iff (s s' : Int) (n : Nat) (f : Fraction) :
    (n < 1000000000 ∧ (s : ℚ) + n / 10 ^ 9 = toNanosecond (s' + f.number)) ↔
      s = s' ∧ n = f.nanos := by
  rw [toNanosecond_add]
  constructor
  · rintro ⟨hn, h⟩
    exact (add_nanos_inj hn f.nanos_lt).1 h
  · rintro ⟨rfl, rfl⟩
    exact ⟨f.nanos_lt, rfl⟩

/-! ## Reading -/

theorem nanos_append (f : Fraction) (hne : f.digits ≠ []) (hr : NoDigitAhead r) :
    nanos (f.digits ++ r) = .ok (f.nanos, r) := by
  have hcount : (f.digits ++ r).length - (f.digits.drop 9 ++ r).length =
      (f.digits.take 9).length := by
    rw [List.length_append, List.length_append, List.length_take, List.length_drop]
    omega
  refine bind_eq_ok_iff.2 ⟨_, number_append f.isDigit hne hr (by decide), ?_⟩
  show Except.ok _ = _
  rw [hcount, Text.dropWhile_append f.isDigit_drop hr]
  rfl

/-- A fraction is read from its text if neither a digit nor, where it is empty, a point follows. -/
theorem fraction_append (f : Fraction) (hr : NoDigitAhead r) (hpoint : r.head? ≠ some '.') :
    fraction (f.text ++ r) = .ok (f.nanos, r) := by
  obtain ⟨ds, hdigits⟩ := f
  cases ds with
  | nil =>
    rw [Fraction.nanos_nil, Fraction.text, if_pos rfl, List.nil_append]
    unfold fraction
    split
    · exact absurd rfl hpoint
    · rfl
  | cons d ds => exact nanos_append ⟨d :: ds, hdigits⟩ (List.cons_ne_nil d ds) hr

/-- What is read as a fraction stands in front. -/
theorem of_fraction (h : fraction s = .ok (n, r)) :
    ∃ f : Fraction, s = f.text ++ r ∧ n = f.nanos := by
  unfold fraction at h
  split at h
  · rename_i s
    obtain ⟨ds, rest, rfl, hdigits, hrest⟩ := exists_digits s
    obtain ⟨p, hp, -⟩ := bind_eq_ok_iff.1 h
    obtain ⟨m, left⟩ := p
    have hne : ds ≠ [] := by
      rintro rfl
      obtain ⟨e, he⟩ := number_of_noDigitAhead (some 9) hrest
      rw [List.nil_append, he] at hp
      cases hp
    have hread := nanos_append ⟨ds, hdigits⟩ hne hrest
    rw [hread] at h
    cases h
    refine ⟨⟨ds, hdigits⟩, ?_, rfl⟩
    rw [Fraction.text, if_neg hne]
    rfl
  · cases h
    exact ⟨⟨[], nofun⟩, rfl, (Fraction.nanos_nil _).symm⟩

end Calendar

end CqlWire
