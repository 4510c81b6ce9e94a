import CqlWire.Proofs.Calendar.ClockLiteral
import CqlWire.Proofs.Calendar.Days
import CqlWire.Proofs.Text.Utf8

/-!
# Instants as they are written

An `InstantLiteral` is a date and a time in the timestamp form: numbers of full width, a fraction of
any number of digits and an offset from universal time (`OffsetText`). It writes a number of seconds
since 1970-01-01T00:00:00Z (`InstantLiteral.number`), for which the days of the date are counted and the
offset is taken away. A text is read as an instant outside of leap seconds exactly if it is a literal
of a day of the calendar, a time of a clock and an offset of less than a day (`Instant.read_eq_ok_iff`),
and then the instant is the number rounded down to the nanosecond
(`InstantLiteral.eq_toNanosecond_iff`).
-/

namespace CqlWire

open Calendar

/-- The seconds since 1970-01-01T00:00:00Z. -/
def Instant.number (t : Instant) : ℚ := t.seconds + t.time.nanos / 10 ^ 9

/-- An instant of whole milliseconds is that number of them. -/
theorem Instant.number_eq_millis {t : Instant} (h : t.time.nanos % 1000000 = 0) :
    t.number = t.millis / 1000 := by
  obtain ⟨m, hm⟩ := Nat.dvd_of_mod_eq_zero h
  have hmillis : t.millis = t.seconds * 1000 + m := by
    rw [millis, hm, Nat.mul_div_cancel_left m (by decide)]
  rw [number, hmillis, hm]
  push_cast
  ring

namespace Calendar

variable {s r : List Char} {n : Nat} {east : Int}

/-! ## Offsets -/

/-- The sign of an offset. West of universal time there are two characters for it. -/
inductive OffsetSign where
  | east
  | west
  | westTypographic

namespace OffsetSign

/-- The sign as it is written. -/
def mark : OffsetSign → Char
  | .east => '+'
  | .west => '-'
  | .westTypographic => '\u2212'

/-- What the sign does to the minutes behind it. -/
def factor : OffsetSign → Int
  | .east => 1
  | .west | .westTypographic => -1

end OffsetSign

/-- An offset from universal time as it is written. -/
inductive OffsetText where
  /-- The letter of universal time, in either case. -/
  | universal (lower : Bool)
  | shifted (sign : OffsetSign) (hours minutes : Numeral 2)

namespace OffsetText

/-- The offset as it is written. -/
def text : OffsetText → List Char
  | universal lower => [if lower then 'z' else 'Z']
  | shifted sign hours minutes => sign.mark :: (hours.digits ++ ':' :: minutes.digits)

/-- The minutes behind the hours, which a sign has. -/
def minutes : OffsetText → Nat
  | universal _ => 0
  | shifted _ _ minutes => minutes.value

/-- All minutes by which the time is ahead of universal time. -/
def minutesEast : OffsetText → Int
  | universal _ => 0
  | shifted sign hours minutes => sign.factor * (hours.value * 60 + minutes.value)

end OffsetText

theorem offsetHours_eq_ok_iff : offsetHours s = .ok (n, r) ↔
    ∃ m : Numeral 2, s = m.digits ++ r ∧ n = m.value := by
  unfold offsetHours
  split
  · rename_i hshort
    refine iff_of_false nofun ?_
    rintro ⟨m, rfl, -⟩
    have hbytes := Utf8.length_le_length_encode (m.digits ++ r)
    rw [List.length_append, m.length_eq] at hbytes
    omega
  · exact digits_eq_ok_iff

theorem offsetMinutes_eq_ok_iff : offsetMinutes s = .ok (n, r) ↔
    ∃ m : Numeral 2, s = m.digits ++ r ∧ n = m.value ∧ m.value < 60 := by
  simp only [offsetMinutes, bind_eq_ok_iff, Prod.exists, offsetHours_eq_ok_iff, ite_eq_ok_iff]
  constructor
  · rintro ⟨_, _, ⟨m, rfl, rfl⟩, hlt, heq⟩
    cases heq
    exact ⟨m, rfl, rfl, hlt⟩
  · rintro ⟨m, rfl, rfl, hlt⟩
    exact ⟨_, _, ⟨m, rfl, rfl⟩, hlt, rfl⟩

/-- Behind a sign there are hours and minutes. -/
theorem offset_mark_eq_ok_iff (sign : OffsetSign) : offset (sign.mark :: s) = .ok (east, r) ↔
    ∃ hours minutes : Numeral 2, s = hours.digits ++ ':' :: (minutes.digits ++ r) ∧
      minutes.value < 60 ∧ east = sign.factor * (hours.value * 60 + minutes.value) := by
  cases sign
  all_goals
    simp only [OffsetSign.mark, OffsetSign.factor, offset, bind_eq_ok_iff, Prod.exists,
      mark_eq_ok_iff, pure_eq_ok_iff, offsetHours_eq_ok_iff, offsetMinutes_eq_ok_iff]
    constructor
    · rintro ⟨_, _, ⟨hours, rfl, rfl⟩, _, _, rfl, _, _, ⟨minutes, rfl, rfl, hlt⟩, heq⟩
      cases heq
      exact ⟨hours, minutes, rfl, hlt, rfl⟩
    · rintro ⟨hours, minutes, rfl, hlt, rfl⟩
      exact ⟨_, _, ⟨hours, rfl, rfl⟩, (), _, rfl, _, _, ⟨minutes, rfl, rfl, hlt⟩, rfl⟩

/-- An offset is read from its text. -/
theorem offset_eq_ok_iff : offset s = .ok (east, r) ↔
    ∃ o : OffsetText, s = o.text ++ r ∧ o.minutes < 60 ∧ east = o.minutesEast := by
  constructor
  · intro h
    have hsigned (sign : OffsetSign) {s : List Char} (h : offset (sign.mark :: s) = .ok (east, r)) :
        ∃ o : OffsetText, sign.mark :: s = o.text ++ r ∧ o.minutes < 60 ∧ east = o.minutesEast := by
      obtain ⟨hours, minutes, rfl, hlt, rfl⟩ := (offset_mark_eq_ok_iff sign).1 h
      refine ⟨.shifted sign hours minutes, ?_, hlt, rfl⟩
      rw [OffsetText.text, List.cons_append, List.append_assoc, List.cons_append]
    unfold offset at h
    split at h
    · cases h
      exact ⟨.universal false, rfl, by decide, rfl⟩
    · cases h
      exact ⟨.universal true, rfl, by decide, rfl⟩
    · exact hsigned .east h
    · exact hsigned .west h
    · exact hsigned .westTypographic h
    · cases h
    · cases h
  · rintro ⟨o, rfl, hlt, rfl⟩
    cases o with
    | universal lower => cases lower <;> rfl
    | shifted sign hours minutes =>
      rw [OffsetText.text, List.cons_append, List.append_assoc, List.cons_append]
      exact (offset_mark_eq_ok_iff sign).2 ⟨hours, minutes, rfl, hlt, rfl⟩

/-- An offset begins with neither a digit nor a point. -/
theorem OffsetText.exists_cons (o : OffsetText) :
    ∃ c rest, o.text = c :: rest ∧ Text.isAsciiDigit c = false ∧ c ≠ '.' := by
  cases o with
  | universal lower => cases lower <;> exact ⟨_, [], rfl, by decide, by decide⟩
  | shifted sign hours minutes => cases sign <;> exact ⟨_, _, rfl, by decide, by decide⟩

/-! ## Literals -/

/-- What stands between date and time. -/
def IsDateTimeMark (c : Char) : Prop := c = 'T' ∨ c = 't' ∨ c = ' '

theorem dateTimeMark_eq_ok_iff {u : Unit} :
    dateTimeMark s = .ok (u, r) ↔ ∃ c, IsDateTimeMark c ∧ s = c :: r := by
  cases s with
  | nil => exact iff_of_false nofun nofun
  | cons c s =>
    simp only [dateTimeMark, ite_eq_ok_iff, Prod.mk.injEq, List.cons.injEq]
    constructor
    · rintro ⟨hc, -, rfl⟩
      exact ⟨c, hc, rfl, rfl⟩
    · rintro ⟨_, hc, rfl, rfl⟩
      exact ⟨hc, trivial, rfl⟩

/-- A date and a time in the timestamp form. -/
structure InstantLiteral where
  year : Numeral 4
  month : Numeral 2
  day : Numeral 2
  mark : Char
  isMark : IsDateTimeMark mark
  hour : Numeral 2
  minute : Numeral 2
  second : Numeral 2
  fraction : Fraction
  offset : OffsetText

namespace InstantLiteral

variable (l : InstantLiteral)

/-- The time behind the mark as it is written. -/
def timeText : List Char :=
  l.hour.digits ++ ':' :: (l.minute.digits ++ ':' :: (l.second.digits ++
    (l.fraction.text ++ l.offset.text)))

/-- The instant as it is written. -/
def text : List Char :=
  l.year.digits ++ '-' :: (l.month.digits ++ '-' :: (l.day.digits ++ l.mark :: l.timeText))

/-- The day that is written. -/
def civil : Civil := ⟨l.year.value, l.month.value, l.day.value⟩

/-- The calendar has the day, a clock the time, and the offset is less than a day. -/
structure IsInstant : Prop where
  isValid : l.civil.isValid = true
  hour_lt : l.hour.value < 24
  minute_lt : l.minute.value < 60
  second_lt : l.second.value < 60
  minutes_lt : l.offset.minutes < 60
  natAbs_lt : l.offset.minutesEast.natAbs < 24 * 60

/-- The whole seconds since 1970-01-01T00:00:00Z. -/
def seconds : Int :=
  l.civil.dayNumber * 86400 + (l.hour.value * 3600 + l.minute.value * 60 + l.second.value : Nat) -
    l.offset.minutesEast * 60

/-- The seconds since 1970-01-01T00:00:00Z, with the whole fraction. -/
def number : ℚ := l.seconds + l.fraction.number

/-- The literal is the instant without the digits behind the ninth. -/
theorem eq_toNanosecond_iff {t : Instant} :
    (t.time.isLeap = false ∧ t.number = toNanosecond l.number) ↔
      t.seconds = l.seconds ∧ t.time.nanos = l.fraction.nanos := by
  rw [TimeOfDay.isLeap_eq_false_iff]
  exact Calendar.eq_toNanosecond_iff t.seconds l.seconds t.time.nanos l.fraction

/-- It is the instant exactly if there are only zeros behind the ninth digit. -/
theorem toNanosecond_number_iff :
    toNanosecond l.number = l.number ↔ ∀ c ∈ l.fraction.digits.drop 9, c = '0' :=
  toNanosecond_eq_self_iff l.seconds l.fraction

theorem colon_mem_text : ':' ∈ l.text := by
  simp only [text, timeText, List.mem_append, List.mem_cons, true_or, or_true]

theorem year_bounds : 0 ≤ l.civil.year ∧ l.civil.year ≤ 9999 := by
  have hlt := l.year.value_lt
  have hyear : l.civil.year = l.year.value := rfl
  omega

theorem nineteen_le_length : 19 ≤ (Utf8.encode l.text).length := by
  refine Nat.le_trans ?_ (Utf8.length_le_length_encode l.text)
  simp only [text, timeText, List.length_append, List.length_cons, Numeral.length_eq]
  omega

/-- A clock of universal time shows the instant. -/
theorem exists_instant (h : l.IsInstant) :
    ∃ t : Instant, t.seconds = l.seconds ∧ t.time.nanos = l.fraction.nanos := by
  obtain ⟨hlo, hhi⟩ := l.year_bounds
  obtain ⟨hfirst, hlast⟩ := Civil.dayNumber_bounds h.isValid hlo hhi
  have hhour := h.hour_lt
  have hminute := h.minute_lt
  have hsecond := h.second_lt
  have hoffset := h.natAbs_lt
  have hnanos := l.fraction.nanos_lt
  have hseconds : l.seconds / 86400 * 86400 + l.seconds % 86400 = l.seconds := by omega
  -- the offset takes the date at most a day away from the one that is written
  have hdays : -96465292 ≤ l.seconds / 86400 ∧ l.seconds / 86400 ≤ 95026236 := by
    unfold seconds
    omega
  refine ⟨⟨⟨l.seconds / 86400, hdays.1, hdays.2⟩, ⟨(l.seconds % 86400).toNat, l.fraction.nanos, ?_,
    ?_, ?_⟩⟩, ?_, rfl⟩
  · unfold secondsPerDay
    omega
  · unfold nanosPerSecond
    omega
  · unfold nanosPerSecond
    omega
  · show l.seconds / 86400 * 86400 + (l.seconds % 86400).toNat = l.seconds
    omega

end InstantLiteral

end Calendar

/-! ## Reading -/

namespace Instant

variable {s : List Char} {t : Instant}

/-- What is read as an instant outside of leap seconds is a literal. -/
theorem of_read (h : read s = .ok t) (hleap : t.time.isLeap = false) :
    ∃ l : InstantLiteral, s = l.text ∧ l.IsInstant ∧
      t.seconds = l.seconds ∧ t.time.nanos = l.fraction.nanos := by
  simp only [read, bind_eq_ok_iff, refuseIf_eq_ok_iff, Prod.exists, mark_eq_ok_iff,
    dateTimeMark_eq_ok_iff, inRange_eq_ok_iff, finish_eq_ok_iff] at h
  obtain ⟨_, -, _, _, hyear, _, _, rfl, _, _, hmonth, _, _, rfl, _, _, hday, date, hdate, _, _,
    ⟨mark, hmark, rfl⟩, _, _, hhour, _, _, rfl, _, _, hminute, _, _, rfl, _, _, hsecond, _, _,
    hfraction, time, hclock, _, _, hoffset, _, rfl, _, hday', hparts⟩ := h
  obtain ⟨year, rfl, rfl⟩ := digits_eq_ok_iff.1 hyear
  obtain ⟨month, rfl, rfl⟩ := digits_eq_ok_iff.1 hmonth
  obtain ⟨day, rfl, rfl⟩ := digits_eq_ok_iff.1 hday
  obtain ⟨hour, rfl, rfl⟩ := digits_eq_ok_iff.1 hhour
  obtain ⟨minute, rfl, rfl⟩ := digits_eq_ok_iff.1 hminute
  obtain ⟨second, rfl, rfl⟩ := digits_eq_ok_iff.1 hsecond
  obtain ⟨hvalid, hdays⟩ := Date.ofCivil?_eq_some_iff.1 hdate
  obtain ⟨offset, rfl, hminutes, rfl⟩ := offset_eq_ok_iff.1 hoffset
  obtain ⟨hseconds, hnanos⟩ := ofParts?_eq_some_iff.1 hparts
  obtain ⟨fraction, rfl, rfl⟩ := of_fraction hfraction
  rw [TimeOfDay.isLeap_eq_false_iff, hnanos, ← TimeOfDay.isLeap_eq_false_iff] at hleap
  obtain ⟨⟨hh, hm, hs⟩, htime, hkept⟩ := (clock_eq_ok_iff fraction.nanos_lt).1 ⟨hclock, hleap⟩
  refine ⟨⟨year, month, day, mark, hmark, hour, minute, second, fraction, offset⟩, ?_,
    ⟨hvalid, hh, hm, hs, hminutes, Nat.lt_of_not_le hday'⟩, ?_, hnanos.trans hkept⟩
  · rw [List.append_nil]
    rfl
  · rw [hseconds, seconds, hdays, htime]
    rfl

/-- The literal of an instant is read. -/
theorem read_text {l : InstantLiteral} (h : l.IsInstant) (hseconds : t.seconds = l.seconds)
    (hnanos : t.time.nanos = l.fraction.nanos) : read l.text = .ok t := by
  obtain ⟨hlo, hhi⟩ := l.year_bounds
  obtain ⟨hfirst, hlast⟩ := Civil.dayNumber_bounds h.isValid hlo hhi
  obtain ⟨time, htime, hkept⟩ := exists_time h.hour_lt h.minute_lt h.second_lt l.fraction.nanos_lt
  have hclock := ((clock_eq_ok_iff l.fraction.nanos_lt).2
    ⟨⟨h.hour_lt, h.minute_lt, h.second_lt⟩, htime, hkept⟩).1
  -- an offset begins with neither a digit nor a point, so that it does not run into the fraction
  have hfraction : fraction (l.fraction.text ++ l.offset.text) =
      .ok (l.fraction.nanos, l.offset.text) := by
    obtain ⟨c, rest, hoffset, hdigit, hpoint⟩ := l.offset.exists_cons
    rw [hoffset]
    exact fraction_append l.fraction (noDigitAhead_cons hdigit) fun hc => hpoint (Option.some.inj hc)
  have hlength := l.nineteen_le_length
  have hoffset := h.natAbs_lt
  simp only [read, bind_eq_ok_iff, refuseIf_eq_ok_iff, Prod.exists, digits_eq_ok_iff,
    mark_eq_ok_iff, dateTimeMark_eq_ok_iff, inRange_eq_ok_iff, Date.ofCivil?_eq_some_iff,
    offset_eq_ok_iff, finish_eq_ok_iff, ofParts?_eq_some_iff]
  refine ⟨(), by omega, _, _, ⟨l.year, rfl, rfl⟩, (), _, rfl, _, _, ⟨l.month, rfl, rfl⟩, (), _, rfl,
    _, _, ⟨l.day, rfl, rfl⟩, ⟨l.civil.dayNumber, by omega, by omega⟩, ⟨h.isValid, rfl⟩, (), _,
    ⟨l.mark, l.isMark, rfl⟩, _, _, ⟨l.hour, rfl, rfl⟩, (), _, rfl, _, _, ⟨l.minute, rfl, rfl⟩, (), _,
    rfl, _, _, ⟨l.second, rfl, rfl⟩, _, _, hfraction, time, hclock, _, [],
    ⟨l.offset, (List.append_nil _).symm, h.minutes_lt, rfl⟩, (), rfl, (), by omega, ?_,
    hnanos.trans hkept.symm⟩
  rw [hseconds, seconds, htime]
  rfl

theorem read_eq_ok_iff : (read s = .ok t ∧ t.time.isLeap = false) ↔ ∃ l : InstantLiteral, s = l.text ∧
    l.IsInstant ∧ t.seconds = l.seconds ∧ t.time.nanos = l.fraction.nanos := by
  constructor
  · rintro ⟨h, hleap⟩
    exact of_read h hleap
  · rintro ⟨l, rfl, h, hseconds, hnanos⟩
    refine ⟨read_text h hseconds hnanos, TimeOfDay.isLeap_eq_false_iff.2 ?_⟩
    rw [hnanos]
    exact l.fraction.nanos_lt

end Instant

end CqlWire
