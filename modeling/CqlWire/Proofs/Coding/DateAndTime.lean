import CqlWire.Proofs.Calendar.PlainText
import CqlWire.Proofs.Coding.Literal
import CqlWire.Proofs.Coding.Temporal

/-!
# Dates and times of day have literals of their own

The literal of a date or of a time of day is its text in quotes, from which it is read back
(`parse_format_date`, `parse_format_time`). A date is written with digits and signs, and a time has
colons (`format_date_ne_format_time`), so that a literal stands for one date or for one time
(`dates_and_times_have_own_literals`).
-/

namespace CqlWire.Coding

/-- A date is read from its literal. -/
theorem parse_format_date (d : Date) : date.parse (date.format d) = .ok d := by
  show orRefuse _ _ _ (Date.read (bareText (Text.quote d.toText))) = _
  rw [bareText_quote, Date.read_toText]
  rfl

/-- A time outside of leap seconds is read from its literal. -/
theorem parse_format_time {t : TimeOfDay} (h : t.isLeap = false) :
    time.parse (time.format t) = .ok t := by
  have hread : TimeOfDay.read (bareText (Text.quote (t.toText .nanos))) = .ok t := by
    rw [bareText_quote, TimeOfDay.read_toText h]
  exact parse_time_iff.2 ⟨hread, h⟩

theorem format_date_ne_format_time (d : Date) (t : TimeOfDay) : date.format d ≠ time.format t := by
  intro h
  have htext : d.toText = t.toText .nanos := by
    rw [← bareText_quote d.toText, ← bareText_quote (t.toText .nanos)]
    exact congrArg bareText h
  have hcolon := Date.isWordChar_of_mem_toText (htext ▸ t.colon_mem_toText .nanos)
  cases hcolon

/-- Every date in the supported range is read from its literal, whatever its year, and so is every
time outside of leap seconds; no literal stands for two of them. -/
theorem dates_and_times_have_own_literals :
    (∀ d : Date, date.parse (date.format d) = .ok d) ∧
    (∀ t : TimeOfDay, t.isLeap = false → time.parse (time.format t) = .ok t) ∧
    (∀ d d' : Date, date.format d = date.format d' → d = d') ∧
    (∀ t t' : TimeOfDay, t.isLeap = false → t'.isLeap = false →
      time.format t = time.format t' → t = t') ∧
    ∀ (d : Date) (t : TimeOfDay), date.format d ≠ time.format t := by
  refine ⟨parse_format_date, fun t h => parse_format_time h, fun d d' h => ?_,
    fun t t' ht ht' h => ?_, format_date_ne_format_time⟩
  · have hsame : date.parse (date.format d) = date.parse (date.format d') := congrArg date.parse h
    rw [parse_format_date, parse_format_date] at hsame
    exact Except.ok.inj hsame
  · have hsame : time.parse (time.format t) = time.parse (time.format t') := congrArg time.parse h
    rw [parse_format_time ht, parse_format_time ht'] at hsame
    exact Except.ok.inj hsame

/-- The first and the last date have years of six digits behind a sign, and the last nanosecond of a
day needs nine digits of a fraction. -/
theorem ends_of_calendar_have_own_literals :
    let first : Date := ⟨-96465292, by decide, by decide⟩
    let last : Date := ⟨95026236, by decide, by decide⟩
    let t : TimeOfDay := ⟨86399, 999999999, by decide, by decide, by decide⟩
    date.format first = "'-262143-01-01'".toList ∧ date.parse (date.format first) = .ok first ∧
      date.format last = "'+262142-12-31'".toList ∧ date.parse (date.format last) = .ok last ∧
      t.isLeap = false ∧ time.format t = "'23:59:59.999999999'".toList ∧
      time.parse (time.format t) = .ok t := by
  intro first last t
  obtain ⟨hdate, htime, -⟩ := dates_and_times_have_own_literals
  exact ⟨by decide +kernel, hdate first, by decide +kernel, hdate last, rfl, by decide +kernel,
    htime t rfl⟩

end CqlWire.Coding
