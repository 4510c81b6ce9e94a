import CqlWire.Proofs.Calendar.ClockLiteral
import CqlWire.Proofs.Calendar.Writing

/-!
# Dates and times in the plain form are read as they were written

A year without a sign is read up to its fourth digit, and one with a sign up to its last. It is written
with a sign where four digits are too few, so that every year is read as it was written
(`year_yearText`). All other numbers have two digits (`LooseNumeral.ofNat`), but for the nine of a
fraction (`Fraction.ofNanos`). So a date is read from its text (`Date.read_toText`), and a time outside
of leap seconds is (`TimeOfDay.read_toText`).
-/

namespace CqlWire

open Calendar
open Text (isAsciiDigit isWordChar trimStart)

namespace Calendar

/-! ## Numbers -/

/-- A number of two digits. -/
def LooseNumeral.ofNat (n : Nat) (h : n < 100) : LooseNumeral :=
  ⟨[], padded 2 n, List.forall_mem_nil _, fun _ hc => isAsciiDigit_of_mem_padded hc, padded_ne_nil 2 n,
    Nat.le_of_eq (length_padded (by decide) h)⟩

theorem LooseNumeral.value_ofNat {n : Nat} (h : n < 100) : (ofNat n h).value = n :=
  ofDigitChars_padded 2 n

/-- Nanoseconds as a fraction of nine digits. -/
def Fraction.ofNanos (n : Nat) : Fraction :=
  ⟨padded 9 n, fun _ hc => isAsciiDigit_of_mem_padded hc⟩

theorem Fraction.text_ofNanos (n : Nat) : (ofNanos n).text = '.' :: padded 9 n :=
  if_neg (padded_ne_nil 9 n)

theorem Fraction.nanos_ofNanos {n : Nat} (h : n < 1000000000) : (ofNanos n).nanos = n := by
  have hlength : (padded 9 n).length = 9 := length_padded (by decide) h
  have hall : (ofNanos n).digits.take 9 = padded 9 n := List.take_of_length_le (Nat.le_of_eq hlength)
  rw [nanos, hall, hlength, ofDigitChars_padded]
  exact Nat.mul_one n

/-! ## Years -/

variable {s r : List Char} {n : Nat} {y : Int}

theorem year_minus (hs : number none s = .ok (n, r)) (hn : fitsSigned 32 (-(n : Int)) = true) :
    year ('-' :: s) = .ok (-(n : Int), r) := by
  have hstart : trimStart ('-' :: s) = '-' :: s := rfl
  simp only [year, hstart, hs]
  exact if_pos hn

theorem year_plus (hs : number none s = .ok (n, r)) (hn : fitsSigned 32 n = true) :
    year ('+' :: s) = .ok ((n : Int), r) := by
  have hstart : trimStart ('+' :: s) = '+' :: s := rfl
  simp only [year, hstart, hs]
  exact if_pos hn

/-- Without a sign up to four digits are read. -/
theorem year_unsigned {ds : List Char} (hdigits : ∀ c ∈ ds, isAsciiDigit c = true) (hne : ds ≠ [])
    (hs : number (some 4) (ds ++ s) = .ok (n, r)) (hn : fitsSigned 32 n = true) :
    year (ds ++ s) = .ok ((n : Int), r) := by
  have hstart : trimStart (ds ++ s) = ds ++ s :=
    trimStart_append_digits (List.forall_mem_nil _) hdigits hne
  unfold year
  rw [hstart]
  cases ds with
  | nil => exact absurd rfl hne
  | cons c ds =>
    have hc := ne_sign_of_isAsciiDigit (hdigits c List.mem_cons_self)
    rw [List.cons_append] at hs ⊢
    split
    · rename_i heq
      exact absurd (List.cons_eq_cons.1 heq).1 hc.2
    · rename_i heq
      exact absurd (List.cons_eq_cons.1 heq).1 hc.1
    · rw [hs]
      exact if_pos hn

/-- Every year is read from its text. -/
theorem year_yearText (hy : fitsSigned 32 y = true) (hr : NoDigitAhead r) :
    year (yearText y ++ r) = .ok (y, r) := by
  have hrange : -2147483648 ≤ y ∧ y ≤ 2147483647 := by
    rw [fitsSigned, Bool.and_eq_true, decide_eq_true_iff, decide_eq_true_iff] at hy
    exact hy
  have hdigits : ∀ n : Nat, ∀ c ∈ padded 4 n, isAsciiDigit c = true :=
    fun n c hc => isAsciiDigit_of_mem_padded hc
  unfold yearText
  split
  · rename_i hfour
    have hlength : (padded 4 y.toNat).length = 4 := length_padded (by decide) (by omega)
    have hnumber : number (some 4) (padded 4 y.toNat ++ r) = .ok (y.toNat, r) := by
      rw [number_append (hdigits _) (padded_ne_nil _ _) hr (by decide),
        List.take_of_length_le (Nat.le_of_eq hlength),
        List.drop_eq_nil_of_le (Nat.le_of_eq hlength), ofDigitChars_padded, List.nil_append]
    have hvalue : (y.toNat : Int) = y := Int.toNat_of_nonneg hfour.1
    rw [year_unsigned (hdigits _) (padded_ne_nil _ _) hnumber (hvalue.symm ▸ hy), hvalue]
  · have hnumber : number none (padded 4 y.natAbs ++ r) = .ok (y.natAbs, r) := by
      rw [number_append_all (hdigits _) (padded_ne_nil _ _) hr
        (length_padded_le (by decide) (by decide) (by omega)), ofDigitChars_padded]
    split
    · have hvalue : -(y.natAbs : Int) = y := by omega
      rw [List.cons_append, year_minus hnumber (hvalue.symm ▸ hy), hvalue]
    · have hvalue : (y.natAbs : Int) = y := by omega
      rw [List.cons_append, year_plus hnumber (hvalue.symm ▸ hy), hvalue]

end Calendar

/-! ## Dates -/

theorem Date.fitsSigned_year (d : Date) : fitsSigned 32 d.civil.year = true := by
  obtain ⟨hvalid, hdays⟩ := Date.ofCivil?_eq_some_iff.1 d.ofCivil?_civil
  obtain ⟨-, hmonth, -, hday⟩ := Civil.bounds_of_isValid hvalid
  have hbefore := Civil.daysBefore_le d.civil.year d.civil.month
  have hfirst := d.first_le
  have hlast := d.le_last
  have hin : -2147483648 ≤ d.civil.year ∧ d.civil.year ≤ 2147483647 := by
    unfold Civil.dayNumber at hdays
    omega
  rw [fitsSigned, Bool.and_eq_true, decide_eq_true_iff, decide_eq_true_iff]
  exact hin

/-- A date is read from its text. -/
theorem Date.read_toText (d : Date) : Date.read d.toText = .ok d := by
  obtain ⟨hlo, hhi, hfirst, hlast⟩ := d.civil_bounds
  let month := LooseNumeral.ofNat d.civil.month (by omega)
  let day := LooseNumeral.ofNat d.civil.day (by omega)
  have hmonth : month.value = d.civil.month := LooseNumeral.value_ofNat _
  have hday : day.value = d.civil.day := LooseNumeral.value_ofNat _
  have htext : d.toText =
      yearText d.civil.year ++ '-' :: (month.text ++ '-' :: (day.text ++ [])) := by
    simp only [toText, List.append_assoc, List.cons_append, List.append_nil]
    rfl
  have hdate : ofCivil? ⟨d.civil.year, month.value, day.value⟩ = some d := by
    rw [hmonth, hday]
    exact d.ofCivil?_civil
  rw [htext]
  simp only [Date.read, bind_eq_ok_iff, Prod.exists, mark_eq_ok_iff, finish_eq_ok_iff]
  exact ⟨_, _, year_yearText d.fitsSigned_year (noDigitAhead_cons rfl), (), _, rfl, _, _,
    field_text_append month (by omega) (by omega) (noDigitAhead_cons rfl), (), _, rfl, _, _,
    field_text_append day (by omega) (by omega) noDigitAhead_nil, (), rfl,
    inRange_eq_ok_iff.2 hdate⟩

theorem isWordChar_of_mem_padded {width n : Nat} {c : Char} (h : c ∈ padded width n) :
    isWordChar c = true :=
  Text.isWordChar_of_isAsciiDigit (isAsciiDigit_of_mem_padded h)

/-- A date is written with digits and signs. -/
theorem Date.isWordChar_of_mem_toText {d : Date} {c : Char} (h : c ∈ d.toText) :
    isWordChar c = true := by
  have hyear : ∀ c ∈ yearText d.civil.year, isWordChar c = true := by
    unfold yearText
    split
    · exact fun c hc => isWordChar_of_mem_padded hc
    · refine List.forall_mem_cons.2 ⟨?_, fun c hc => isWordChar_of_mem_padded hc⟩
      split <;> rfl
  simp only [toText, List.mem_append, List.mem_cons] at h
  rcases h with (h | rfl | h) | rfl | h
  · exact hyear c h
  · rfl
  · exact isWordChar_of_mem_padded h
  · rfl
  · exact isWordChar_of_mem_padded h

/-! ## Times -/

namespace TimeOfDay

variable {t : TimeOfDay}

/-- The literal of a time, to the nanosecond. -/
def literal (h : t.isLeap = false) : ClockLiteral where
  hour := .ofNat t.hour (by have := clock_of_not_leap h; omega)
  minute := .ofNat t.minute (by have := clock_of_not_leap h; omega)
  second := .ofNat t.second (by have := clock_of_not_leap h; omega)
  fraction := .ofNanos t.fraction

theorem text_literal (h : t.isLeap = false) : (literal h).text = t.toText .nanos := by
  simp only [toText, FractionDigits.toText, List.append_assoc, List.cons_append,
    ← Fraction.text_ofNanos]
  rfl

theorem isClockTime_literal (h : t.isLeap = false) : (literal h).IsClockTime := by
  obtain ⟨hhour, hminute, hsecond, -, -⟩ := clock_of_not_leap h
  constructor <;> rwa [literal, LooseNumeral.value_ofNat]

/-- A time outside of leap seconds is read from its text. -/
theorem read_toText (h : t.isLeap = false) : read (t.toText .nanos) = .ok t := by
  obtain ⟨-, -, -, hseconds, hfraction⟩ := clock_of_not_leap h
  refine (read_eq_ok_iff.2 ⟨literal h, (text_literal h).symm, isClockTime_literal h, ?_, ?_⟩).1
  · simp only [ClockLiteral.seconds, literal, LooseNumeral.value_ofNat, hseconds]
  · have hnanos := isLeap_eq_false_iff.1 h
    rw [literal, hfraction, Fraction.nanos_ofNanos hnanos]

end TimeOfDay

end CqlWire
