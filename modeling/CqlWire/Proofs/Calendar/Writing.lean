import CqlWire.Calendar.Writer
import CqlWire.Proofs.Calendar.InstantLiteral

/-!
# Instants are read as they were written

An instant of whole milliseconds is written with a year, and the year decides how it is read. From 0 to
9999 it has four digits, and the text is a literal of the same instant (`Instant.literal`,
`Instant.read_toText`). Any other year has a sign in front, where reading wants a digit
(`Instant.read_toText_of_year`).
-/

namespace CqlWire

open Calendar
open Text (isAsciiDigit)

/-! ## Numbers -/

theorem le_length_padded (width n : Nat) : width ≤ (padded width n).length := by
  rw [padded, List.length_append, List.length_replicate]
  omega

theorem length_padded_le {width bound n : Nat} (hwidth : width ≤ bound) (hbound : 0 < bound)
    (h : n < 10 ^ bound) : (padded width n).length ≤ bound := by
  have hlength : (decimalDigits n).length ≤ bound :=
    (Nat.length_toDigits_le_iff (by decide) hbound).2 h
  rw [padded, List.length_append, List.length_replicate]
  omega

theorem length_padded {width n : Nat} (hwidth : 0 < width) (h : n < 10 ^ width) :
    (padded width n).length = width :=
  Nat.le_antisymm (length_padded_le (Nat.le_refl width) hwidth h) (le_length_padded width n)

theorem padded_ne_nil (width n : Nat) : padded width n ≠ [] :=
  List.append_ne_nil_of_right_ne_nil _ (decimalDigits_ne_nil n)

theorem isAsciiDigit_of_mem_padded {width n : Nat} {c : Char} (h : c ∈ padded width n) :
    isAsciiDigit c = true :=
  isAsciiDigit_of_mem_zeros h

theorem ofDigitChars_padded (width n : Nat) : Nat.ofDigitChars 10 (padded width n) 0 = n :=
  ofDigitChars_zeros (width - (decimalDigits n).length) n

theorem le_length_yearText (year : Int) : 4 ≤ (yearText year).length := by
  unfold yearText
  split
  · exact le_length_padded 4 _
  · exact Nat.le_succ_of_le (le_length_padded 4 _)

namespace Calendar

/-- A number with as many zeros in front as its width needs. -/
def Numeral.ofNat (width n : Nat) (hwidth : 0 < width) (h : n < 10 ^ width) : Numeral width :=
  ⟨padded width n, fun _ hc => isAsciiDigit_of_mem_padded hc, length_padded hwidth h⟩

theorem Numeral.value_ofNat {width n : Nat} (hwidth : 0 < width) (h : n < 10 ^ width) :
    (ofNat width n hwidth h).value = n :=
  ofDigitChars_padded width n

/-- Milliseconds as a fraction of three digits. -/
def Fraction.ofMillis (n : Nat) : Fraction :=
  ⟨padded 3 n, fun _ hc => isAsciiDigit_of_mem_padded hc⟩

theorem Fraction.text_ofMillis (n : Nat) : (ofMillis n).text = '.' :: padded 3 n :=
  if_neg (padded_ne_nil 3 n)

theorem Fraction.nanos_ofMillis {n : Nat} (h : n < 1000) : (ofMillis n).nanos = n * 1000000 := by
  have hlength : (padded 3 n).length = 3 := length_padded (by decide) h
  have hall : (ofMillis n).digits.take 9 = padded 3 n :=
    List.take_of_length_le (Nat.le_trans (Nat.le_of_eq hlength) (by decide))
  rw [nanos, hall, hlength, ofDigitChars_padded]
  rfl

end Calendar

/-! ## Instants -/

/-- A date lies in one of twelve months. -/
theorem Date.civil_bounds (d : Date) :
    1 ≤ d.civil.month ∧ d.civil.month ≤ 12 ∧ 1 ≤ d.civil.day ∧ d.civil.day ≤ 31 :=
  Civil.bounds_of_isValid (Civil.isValid_ofDays d.days)

/-- What a clock shows outside of leap seconds. -/
theorem TimeOfDay.clock_of_not_leap {t : TimeOfDay} (h : t.isLeap = false) :
    t.hour < 24 ∧ t.minute < 60 ∧ t.second < 60 ∧
      t.hour * 3600 + t.minute * 60 + t.second = t.seconds ∧ t.fraction = t.nanos := by
  have hseconds : t.seconds < 86400 := t.seconds_lt
  have hfraction : t.fraction = t.nanos := Nat.mod_eq_of_lt (isLeap_eq_false_iff.1 h)
  have hsecond : t.second = t.seconds % 60 := by
    rw [second, h]
    rfl
  rw [hour, minute, hsecond]
  omega

theorem TimeOfDay.colon_mem_toText (digits : FractionDigits) (t : TimeOfDay) :
    ':' ∈ t.toText digits := by
  simp only [toText, List.mem_append, List.mem_cons, true_or, or_true]

namespace Instant

variable {t : Instant}

theorem toText_millis (hyear : 0 ≤ t.date.civil.year ∧ t.date.civil.year ≤ 9999) :
    t.toText .millis "Z" = padded 4 t.date.civil.year.toNat ++ '-' ::
      (padded 2 t.date.civil.month ++ '-' :: (padded 2 t.date.civil.day ++ 'T' ::
        (padded 2 t.time.hour ++ ':' :: (padded 2 t.time.minute ++ ':' ::
          (padded 2 t.time.second ++ ('.' :: padded 3 (t.time.fraction / 1000000) ++ ['Z'])))))) := by
  simp only [toText, Date.toText, TimeOfDay.toText, FractionDigits.toText, yearText, if_pos hyear,
    List.append_assoc, List.cons_append]
  rfl

theorem colon_mem_toText (digits : FractionDigits) (offset : String) (t : Instant) :
    ':' ∈ t.toText digits offset :=
  List.mem_append_left _ (List.mem_append_right _ (List.mem_cons_of_mem _
    (t.time.colon_mem_toText digits)))

section

variable (hyear : 0 ≤ t.date.civil.year ∧ t.date.civil.year ≤ 9999) (hleap : t.time.isLeap = false)

/-- The literal of an instant, to the millisecond. -/
def literal : InstantLiteral where
  year := .ofNat 4 t.date.civil.year.toNat (by decide) (by omega)
  month := .ofNat 2 t.date.civil.month (by decide) (by have := t.date.civil_bounds; omega)
  day := .ofNat 2 t.date.civil.day (by decide) (by have := t.date.civil_bounds; omega)
  mark := 'T'
  isMark := .inl rfl
  hour := .ofNat 2 t.time.hour (by decide) (by have := TimeOfDay.clock_of_not_leap hleap; omega)
  minute := .ofNat 2 t.time.minute (by decide) (by have := TimeOfDay.clock_of_not_leap hleap; omega)
  second := .ofNat 2 t.time.second (by decide) (by have := TimeOfDay.clock_of_not_leap hleap; omega)
  fraction := .ofMillis (t.time.fraction / 1000000)
  offset := .universal false

theorem text_literal : (literal hyear hleap).text = t.toText .millis "Z" := by
  rw [toText_millis hyear, ← Fraction.text_ofMillis]
  rfl

theorem civil_literal : (literal hyear hleap).civil = t.date.civil := by
  simp only [InstantLiteral.civil, literal, Numeral.value_ofNat, Int.toNat_of_nonneg hyear.1]

theorem isInstant_literal : (literal hyear hleap).IsInstant := by
  obtain ⟨hhour, hminute, hsecond, -, -⟩ := TimeOfDay.clock_of_not_leap hleap
  constructor
  · rw [civil_literal]
    exact Civil.isValid_ofDays t.date.days
  · rwa [literal, Numeral.value_ofNat]
  · rwa [literal, Numeral.value_ofNat]
  · rwa [literal, Numeral.value_ofNat]
  · exact Nat.succ_pos _
  · exact Nat.succ_pos _

theorem seconds_literal : (literal hyear hleap).seconds = t.seconds := by
  obtain ⟨hlo, hhi, -, -⟩ := t.date.civil_bounds
  obtain ⟨-, -, -, hclock, -⟩ := TimeOfDay.clock_of_not_leap hleap
  have hdays : t.date.civil.toDays = t.date.days := Civil.toDays_ofDays t.date.days
  rw [InstantLiteral.seconds, civil_literal, ← Civil.toDays_eq_dayNumber hlo hhi, hdays]
  simp only [literal, Numeral.value_ofNat, hclock]
  exact Int.sub_zero _

theorem nanos_literal (hwhole : t.time.nanos % 1000000 = 0) :
    (literal hyear hleap).fraction.nanos = t.time.nanos := by
  have hlt := TimeOfDay.isLeap_eq_false_iff.1 hleap
  rw [literal, (TimeOfDay.clock_of_not_leap hleap).2.2.2.2, Fraction.nanos_ofMillis (by omega)]
  omega

end

/-- An instant of whole milliseconds in a year of four digits is read from its text. -/
theorem read_toText (hyear : 0 ≤ t.date.civil.year ∧ t.date.civil.year ≤ 9999)
    (hleap : t.time.isLeap = false) (hwhole : t.time.nanos % 1000000 = 0) :
    read (t.toText .millis "Z") = .ok t := by
  rw [← text_literal hyear hleap]
  exact read_text (isInstant_literal hyear hleap) (seconds_literal hyear hleap).symm
    (nanos_literal hyear hleap hwhole).symm

/-- The text of an instant in another year has a sign where a digit is wanted. -/
theorem read_toText_of_year (hyear : ¬(0 ≤ t.date.civil.year ∧ t.date.civil.year ≤ 9999)) :
    read (t.toText .millis "Z") = .error .invalid := by
  obtain ⟨sign, rest, htext, hsign⟩ : ∃ sign rest, t.toText .millis "Z" = sign :: rest ∧
      isAsciiDigit sign = false := by
    simp only [toText, Date.toText, yearText, if_neg hyear, List.cons_append]
    exact ⟨_, _, rfl, by split <;> rfl⟩
  have hlength : 19 ≤ (Utf8.encode (t.toText .millis "Z")).length := by
    refine Nat.le_trans ?_ (Utf8.length_le_length_encode _)
    have hyear := le_length_yearText t.date.civil.year
    have hmonth := le_length_padded 2 t.date.civil.month
    have hday := le_length_padded 2 t.date.civil.day
    have hhour := le_length_padded 2 t.time.hour
    have hminute := le_length_padded 2 t.time.minute
    have hsecond := le_length_padded 2 t.time.second
    simp only [toText, Date.toText, TimeOfDay.toText, List.length_append, List.length_cons]
    omega
  refine bind_eq_error_iff.2 (.inr ⟨(), refuseIf_eq_ok_iff.2 (by omega), bind_eq_error_iff.2 (.inl ?_)⟩)
  rw [htext]
  exact digits_of_noDigitAhead (by decide) (noDigitAhead_cons hsign)

end Instant

end CqlWire
