import CqlWire.Proofs.Calendar.Fraction
import CqlWire.Proofs.Calendar.Parts

/-!
# Times of day as they are written

A `ClockLiteral` is a time in the plain form: hour, minute and second of one or two digits and a
fraction of any number of digits. It writes a number of seconds since midnight
(`ClockLiteral.number`). A text is read as a time outside of leap seconds exactly if it is a literal
whose numbers are those of a clock (`TimeOfDay.read_eq_ok_iff`), and then the time is the number rounded
down to the nanosecond (`ClockLiteral.eq_toNanosecond_iff`).
-/

namespace CqlWire

open Calendar

/-- The seconds since midnight. -/
def TimeOfDay.number (t : TimeOfDay) : ℚ := t.seconds + t.nanos / 10 ^ 9

namespace Calendar

theorem inRange_eq_ok_iff {α : Type} {a? : Option α} {a : α} :
    CalendarError.inRange a? = .ok a ↔ a? = some a := by
  cases a? with
  | none => exact ⟨nofun, nofun⟩
  | some b => rw [CalendarError.inRange, Except.ok.injEq, Option.some.injEq]

/-- A clock shows the hours, minutes and seconds of the day, and in a leap second 60 seconds. -/
theorem clock_eq_ok_iff {hour minute second nanos : Nat} {t : TimeOfDay}
    (hnanos : nanos < 1000000000) :
    (clock hour minute second nanos = .ok t ∧ t.isLeap = false) ↔
      (hour < 24 ∧ minute < 60 ∧ second < 60) ∧
        t.seconds = hour * 3600 + minute * 60 + second ∧ t.nanos = nanos := by
  rw [clock, inRange_eq_ok_iff, TimeOfDay.isLeap_eq_false_iff]
  by_cases hsixty : second = 60
  · rw [if_pos hsixty, TimeOfDay.ofClock?]
    constructor
    · rintro ⟨h, hleap⟩
      split at h
      · have := (TimeOfDay.ofParts?_eq_some_iff.1 h).2
        unfold nanosPerSecond at this
        omega
      · cases h
    · rintro ⟨⟨-, -, hlt⟩, -⟩
      omega
  · rw [if_neg hsixty, TimeOfDay.ofClock?]
    constructor
    · rintro ⟨h, -⟩
      split at h
      · rename_i hclock
        exact ⟨hclock, TimeOfDay.ofParts?_eq_some_iff.1 h⟩
      · cases h
    · rintro ⟨hclock, hseconds, hn⟩
      rw [if_pos hclock]
      exact ⟨TimeOfDay.ofParts?_eq_some_iff.2 ⟨hseconds, hn⟩, by omega⟩

/-- A clock shows every time of the day. -/
theorem exists_time {hour minute second nanos : Nat} (hhour : hour < 24) (hminute : minute < 60)
    (hsecond : second < 60) (hnanos : nanos < 1000000000) :
    ∃ t : TimeOfDay, t.seconds = hour * 3600 + minute * 60 + second ∧ t.nanos = nanos := by
  have hseconds : hour * 3600 + minute * 60 + second < secondsPerDay := by
    unfold secondsPerDay
    omega
  exact ⟨⟨_, nanos, hseconds, by unfold nanosPerSecond; omega,
    fun hleap => by unfold nanosPerSecond at hleap; omega⟩, rfl, rfl⟩

/-! ## Literals -/

/-- A time in the plain form. -/
structure ClockLiteral where
  hour : LooseNumeral
  minute : LooseNumeral
  second : LooseNumeral
  fraction : Fraction

namespace ClockLiteral

variable (l : ClockLiteral)

/-- The time as it is written. -/
def text : List Char :=
  l.hour.text ++ ':' :: (l.minute.text ++ ':' :: (l.second.text ++ l.fraction.text))

/-- The numbers are those of a clock outside of leap seconds. -/
structure IsClockTime : Prop where
  hour_lt : l.hour.value < 24
  minute_lt : l.minute.value < 60
  second_lt : l.second.value < 60

/-- The whole seconds since midnight. -/
def seconds : Nat := l.hour.value * 3600 + l.minute.value * 60 + l.second.value

/-- The seconds since midnight, with the whole fraction. -/
def number : ℚ := l.seconds + l.fraction.number

/-- The literal is the time without the digits behind the ninth. -/
theorem eq_toNanosecond_iff {t : TimeOfDay} :
    (t.isLeap = false ∧ t.number = toNanosecond l.number) ↔
      t.seconds = l.seconds ∧ t.nanos = l.fraction.nanos := by
  have h := Calendar.eq_toNanosecond_iff t.seconds l.seconds t.nanos l.fraction
  rw [Int.ofNat_inj] at h
  rw [TimeOfDay.isLeap_eq_false_iff, ← h]
  rfl

/-- It is the time exactly if there are only zeros behind the ninth digit. -/
theorem toNanosecond_number_iff :
    toNanosecond l.number = l.number ↔ ∀ c ∈ l.fraction.digits.drop 9, c = '0' :=
  toNanosecond_eq_self_iff l.seconds l.fraction

theorem exists_time (h : l.IsClockTime) :
    ∃ t : TimeOfDay, t.seconds = l.seconds ∧ t.nanos = l.fraction.nanos :=
  Calendar.exists_time h.hour_lt h.minute_lt h.second_lt l.fraction.nanos_lt

end ClockLiteral

/-! ## Reading -/

theorem noDigitAhead_nil : NoDigitAhead [] := nofun

theorem noDigitAhead_cons {c : Char} {s : List Char} (h : Text.isAsciiDigit c = false) :
    NoDigitAhead (c :: s) := by
  rintro d hd
  cases hd
  exact h

/-- Neither a fraction nor what follows its point goes on with a digit where it begins. -/
theorem noDigitAhead_fraction (f : Fraction) {r : List Char} (hr : NoDigitAhead r) :
    NoDigitAhead (f.text ++ r) := by
  rw [Fraction.text]
  split
  · exact hr
  · exact noDigitAhead_cons rfl

end Calendar

/-- A text is read as a time outside of leap seconds exactly if it is a literal with the numbers of a
clock, and the time is that without the digits behind the ninth. -/
theorem TimeOfDay.read_eq_ok_iff {s : List Char} {t : TimeOfDay} :
    (TimeOfDay.read s = .ok t ∧ t.isLeap = false) ↔ ∃ l : ClockLiteral, s = l.text ∧ l.IsClockTime ∧
      t.seconds = l.seconds ∧ t.nanos = l.fraction.nanos := by
  constructor
  · rintro ⟨h, hleap⟩
    simp only [TimeOfDay.read, bind_eq_ok_iff, Prod.exists, mark_eq_ok_iff, finish_eq_ok_iff] at h
    obtain ⟨_, s₁, hhour, _, s₂, rfl, _, s₃, hminute, _, s₄, rfl, _, s₅, hsecond, _, s₆, hfraction,
      _, rfl, hclock⟩ := h
    obtain ⟨hour, rfl, -, -, rfl⟩ := of_field hhour
    obtain ⟨minute, rfl, -, -, rfl⟩ := of_field hminute
    obtain ⟨second, rfl, -, -, rfl⟩ := of_field hsecond
    obtain ⟨fraction, rfl, rfl⟩ := of_fraction hfraction
    obtain ⟨⟨hh, hm, hs⟩, hseconds, hnanos⟩ := (clock_eq_ok_iff fraction.nanos_lt).1 ⟨hclock, hleap⟩
    refine ⟨⟨hour, minute, second, fraction⟩, ?_, ⟨hh, hm, hs⟩, hseconds, hnanos⟩
    rw [ClockLiteral.text, List.append_nil]
  · rintro ⟨l, rfl, ⟨hh, hm, hs⟩, hseconds, hnanos⟩
    obtain ⟨hclock, hleap⟩ := (clock_eq_ok_iff (t := t) l.fraction.nanos_lt).2
      ⟨⟨hh, hm, hs⟩, hseconds, hnanos⟩
    refine ⟨?_, hleap⟩
    have hfraction := fraction_append (r := []) l.fraction noDigitAhead_nil nofun
    have hahead := noDigitAhead_fraction l.fraction noDigitAhead_nil
    rw [List.append_nil] at hfraction hahead
    simp only [TimeOfDay.read, bind_eq_ok_iff, Prod.exists, mark_eq_ok_iff, finish_eq_ok_iff]
    exact ⟨_, _, field_text_append l.hour (Nat.zero_le _) (by omega) (noDigitAhead_cons rfl), (), _,
      rfl, _, _, field_text_append l.minute (Nat.zero_le _) (by omega) (noDigitAhead_cons rfl), (), _,
      rfl, _, _, field_text_append l.second (Nat.zero_le _) (by omega) hahead, _, _, hfraction, (), rfl,
      hclock⟩

end CqlWire
