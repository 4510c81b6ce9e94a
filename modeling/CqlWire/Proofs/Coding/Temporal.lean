import CqlWire.Proofs.Calendar.Writing
import CqlWire.Proofs.Coding.Failure
import CqlWire.Proofs.Coding.Scalar

/-!
# Timestamps and times as literals

The literal of a timestamp is read back if its year has four digits, and is refused otherwise
(`parse_format_timestamp`).

Of any other literal, the fraction is read up to its ninth digit (`parse_keeps_nine_digits`). A
timestamp is refused for what is finer than a millisecond within these digits. The digits behind them
are dropped, and if one of them is not zero, then the result is not what is written.
-/

namespace CqlWire

namespace Coding

open Calendar

variable {text : List Char} {t : Instant}

/-! ## Reading timestamps -/

theorem readSigned_of_colon (bits : Nat) {s : List Char} (h : ':' ∈ s) :
    ∃ e, readSigned bits s = .error e := by
  cases hread : readSigned bits s with
  | error e => exact ⟨e, rfl⟩
  | ok n =>
    obtain ⟨sign, digits, rfl, -, hdigits, -⟩ := readSigned_eq_ok_iff.1 hread
    rcases List.mem_append.1 h with h | h
    · rcases Sign.of_mem_text h with h | h <;> cases h
    · cases hdigits _ h

/-- What is no integer is read as date and time, of which whole milliseconds are accepted. -/
theorem parse_timestamp_eq {e : IntegerError} (h : readSigned 64 (bareText text) = .error e) :
    timestamp.parse text =
      (orRefuse (.scalar .timestamp) text CalendarError.message (Instant.read (bareText text)) >>=
        fun t => (inexactMillis? t).elim (.ok t)
          fun reason => .error (refuse (.scalar .timestamp) text reason)) := by
  show parseTimestamp text = _
  simp only [parseTimestamp, h]
  refine congrArg _ (funext fun t => ?_)
  cases inexactMillis? t <;> rfl

theorem parse_timestamp_of_read (hcolon : ':' ∈ bareText text)
    (hread : Instant.read (bareText text) = .ok t) : timestamp.parse text =
      (inexactMillis? t).elim (.ok t)
        fun reason => .error (refuse (.scalar .timestamp) text reason) := by
  obtain ⟨e, he⟩ := readSigned_of_colon 64 hcolon
  rw [parse_timestamp_eq he, hread]
  rfl

/-- A timestamp is read from an integer, its milliseconds, or from date and time. -/
theorem of_parse_timestamp (h : timestamp.parse text = .ok t) : inexactMillis? t = none ∧
    (readSigned 64 (bareText text) = .ok t.millis ∨ Instant.read (bareText text) = .ok t) := by
  cases hinteger : readSigned 64 (bareText text) with
  | ok millis =>
    replace h : parseTimestamp text = .ok t := h
    simp only [parseTimestamp, hinteger] at h
    split at h
    · rename_i t' ht
      cases h
      obtain ⟨hmillis, hexact⟩ := Instant.ofMillis?_eq_some_iff.1 ht
      exact ⟨inexactMillis?_eq_none_iff.2 hexact, .inl (by rw [hmillis])⟩
    · cases h
  | error e =>
    rw [parse_timestamp_eq hinteger, bind_eq_ok_iff] at h
    obtain ⟨t', hread, h⟩ := h
    rw [orRefuse_eq_ok_iff] at hread
    cases hexact : inexactMillis? t' with
    | none =>
      rw [hexact] at h
      cases h
      exact ⟨hexact, .inr hread⟩
    | some reason =>
      rw [hexact] at h
      cases h

/-! ## Reading back -/

theorem inexactMillis?_of_encode {bytes : Option Bytes} (h : timestamp.encode t = .ok bytes) :
    inexactMillis? t = none := by
  cases hreason : inexactMillis? t with
  | none => rfl
  | some reason =>
    simp only [timestamp, hreason] at h
    cases h

theorem parse_format_of_exact (h : inexactMillis? t = none) :
    timestamp.parse (timestamp.format t) =
      if 0 ≤ t.date.civil.year ∧ t.date.civil.year ≤ 9999 then .ok t
      else .error
        (refuse timestamp.type (timestamp.format t) "input contains invalid characters") := by
  obtain ⟨hleap, hwhole⟩ := inexactMillis?_eq_none_iff.1 h
  have hformat : timestamp.format t = Text.quote (t.toText .millis "Z") := by
    simp only [timestamp, h, Option.isNone_none, if_true]
  have hbare : bareText (timestamp.format t) = t.toText .millis "Z" := by
    rw [bareText, hformat, Text.unquote?_quote, Option.getD_some]
  -- a colon keeps the text from being read as an integer
  have hcolon : ':' ∈ bareText (timestamp.format t) := by
    rw [hbare]
    exact Instant.colon_mem_toText .millis "Z" t
  split
  · rename_i hyear
    have hread : Instant.read (bareText (timestamp.format t)) = .ok t := by
      rw [hbare, Instant.read_toText hyear hleap hwhole]
    rw [parse_timestamp_of_read hcolon hread, h]
    rfl
  · rename_i hyear
    obtain ⟨e, he⟩ := readSigned_of_colon 64 hcolon
    rw [parse_timestamp_eq he, hbare, Instant.read_toText_of_year hyear]
    rfl

/-- A timestamp is read from its literal if its year is from 0 to 9999, and otherwise the literal is
refused. These years are the milliseconds from 0000-01-01T00:00:00Z to before
10000-01-01T00:00:00Z. -/
theorem parse_format_timestamp {bytes : Option Bytes} (h : timestamp.encode t = .ok bytes) :
    timestamp.parse (timestamp.format t) =
      (if 0 ≤ t.date.civil.year ∧ t.date.civil.year ≤ 9999 then .ok t
      else .error (refuse timestamp.type (timestamp.format t) "input contains invalid characters")) ∧
    ((0 ≤ t.date.civil.year ∧ t.date.civil.year ≤ 9999) ↔
      -62167219200000 ≤ t.millis ∧ t.millis < 253402300800000) := by
  have hexact := inexactMillis?_of_encode h
  refine ⟨parse_format_of_exact hexact, ?_⟩
  have hnanos := TimeOfDay.isLeap_eq_false_iff.1 (inexactMillis?_eq_none_iff.1 hexact).1
  have hclock : t.time.seconds < 86400 := t.time.seconds_lt
  have hmillis : t.millis = (t.date.days * (86400 : Nat) + t.time.seconds) * 1000 +
    (t.time.nanos / 1000000 : Nat) := rfl
  rw [Date.civil, Civil.year_ofDays_iff, hmillis]
  omega

/-- The last millisecond of the year 9999 is read back. -/
theorem parse_format_last_of_four_digits :
    let t : Instant :=
      ⟨⟨2932896, by decide, by decide⟩, ⟨86399, 999000000, by decide, by decide, by decide⟩⟩
    timestamp.encode t = .ok (some [0x00, 0x00, 0xE6, 0x77, 0xD2, 0x1F, 0xDB, 0xFF]) ∧
      timestamp.parse (timestamp.format t) = .ok t := by
  intro t
  have hstored : timestamp.encode t =
      .ok (some [0x00, 0x00, 0xE6, 0x77, 0xD2, 0x1F, 0xDB, 0xFF]) := by decide
  obtain ⟨hparse, hyear⟩ := parse_format_timestamp hstored
  have hin := hyear.2 (by decide)
  exact ⟨hstored, hparse.trans (if_pos hin)⟩

/-- The millisecond behind it is stored as well, but its literal has a year with a sign, which is
refused. -/
theorem first_of_five_digits_is_refused :
    let t : Instant := ⟨⟨2932897, by decide, by decide⟩, ⟨0, 0, by decide, by decide, by decide⟩⟩
    timestamp.encode t = .ok (some [0x00, 0x00, 0xE6, 0x77, 0xD2, 0x1F, 0xDC, 0x00]) ∧
      timestamp.parse (timestamp.format t) ≠ .ok t := by
  intro t
  refine ⟨by decide, ?_⟩
  rw [parse_format_of_exact (by decide), if_neg (by decide)]
  exact nofun

/-! ## Digits of a fraction -/

theorem parse_time_iff {t : TimeOfDay} :
    time.parse text = .ok t ↔ TimeOfDay.read (bareText text) = .ok t ∧ t.isLeap = false := by
  simp only [time, bind_eq_ok_iff, orRefuse_eq_ok_iff]
  constructor
  · rintro ⟨t', hread, h⟩
    split at h
    · cases h
    · rename_i hleap
      cases h
      exact ⟨hread, Bool.eq_false_of_not_eq_true hleap⟩
  · rintro ⟨hread, hleap⟩
    refine ⟨t, hread, if_neg ?_⟩
    rw [hleap]
    exact Bool.false_ne_true

/-- The literal of a time of a clock is read as its number, rounded down to the nanosecond. -/
theorem parse_time_of_literal {l : ClockLiteral} (htext : bareText text = l.text)
    (hl : l.IsClockTime) : ∃ t, time.parse text = .ok t ∧ t.number = toNanosecond l.number := by
  obtain ⟨t, hparts⟩ := l.exists_time hl
  obtain ⟨-, hnumber⟩ := l.eq_toNanosecond_iff.2 hparts
  refine ⟨t, parse_time_iff.2 (TimeOfDay.read_eq_ok_iff.2 ⟨l, htext, hl, hparts⟩), hnumber⟩

/-- The literal of an instant is read as its number, rounded down to the nanosecond, unless the digits
that are kept are finer than a millisecond. -/
theorem parse_timestamp_of_literal {l : InstantLiteral} (htext : bareText text = l.text)
    (hl : l.IsInstant) :
    ((∀ c ∈ (l.fraction.digits.take 9).drop 3, c = '0') →
      ∃ t, timestamp.parse text = .ok t ∧ t.number = toNanosecond l.number) ∧
    (¬(∀ c ∈ (l.fraction.digits.take 9).drop 3, c = '0') → timestamp.parse text =
      .error (refuse (.scalar .timestamp) text "sub-millisecond precision is not representable")) := by
  obtain ⟨t, hparts⟩ := l.exists_instant hl
  obtain ⟨hleap, hnumber⟩ := l.eq_toNanosecond_iff.2 hparts
  have hread : Instant.read (bareText text) = .ok t := by
    rw [htext]
    exact Instant.read_text hl hparts.1 hparts.2
  have hcolon : ':' ∈ bareText text := by
    rw [htext]
    exact l.colon_mem_text
  rw [← l.fraction.nanos_mod_iff, ← hparts.2, parse_timestamp_of_read hcolon hread]
  constructor
  · intro hwhole
    rw [inexactMillis?_eq_none_iff.2 ⟨hleap, hwhole⟩]
    exact ⟨t, rfl, hnumber⟩
  · intro hfine
    have hreason : inexactMillis? t = some "sub-millisecond precision is not representable" := by
      rw [inexactMillis?, if_neg (by rw [hleap]; exact Bool.false_ne_true), if_pos hfine]
    rw [hreason]
    rfl

/-- What is read as a time is the literal of a time of a clock, and as a timestamp an integer or the
literal of an instant, which has only zeros from the fourth digit of its fraction to the ninth; such a
literal with another digit there is refused. The literals are read up to the ninth digit, so that
the result is what is written if and only if there are only zeros behind it. -/
theorem parse_keeps_nine_digits (text : List Char) :
    (∀ t, time.parse text = .ok t → t.isLeap = false ∧
      ∃ l : ClockLiteral, bareText text = l.text ∧ l.IsClockTime) ∧
    (∀ l : ClockLiteral, bareText text = l.text → l.IsClockTime →
      ∃ t, time.parse text = .ok t ∧ t.number = toNanosecond l.number ∧
        (t.number = l.number ↔ ∀ c ∈ l.fraction.digits.drop 9, c = '0')) ∧
    (∀ t, timestamp.parse text = .ok t → t.time.isLeap = false ∧
      ((∃ millis, readSigned 64 (bareText text) = .ok millis ∧ t.number = millis / 1000) ∨
        ∃ l : InstantLiteral, bareText text = l.text ∧ l.IsInstant ∧
          ∀ c ∈ (l.fraction.digits.take 9).drop 3, c = '0')) ∧
    (∀ l : InstantLiteral, bareText text = l.text → l.IsInstant →
      ((∀ c ∈ (l.fraction.digits.take 9).drop 3, c = '0') →
        ∃ t, timestamp.parse text = .ok t ∧ t.number = toNanosecond l.number ∧
          (t.number = l.number ↔ ∀ c ∈ l.fraction.digits.drop 9, c = '0')) ∧
      (¬(∀ c ∈ (l.fraction.digits.take 9).drop 3, c = '0') → timestamp.parse text =
        .error (refuse (.scalar .timestamp) text "sub-millisecond precision is not representable"))) := by
  refine ⟨fun t h => ?_, fun l htext hl => ?_, fun t h => ?_, fun l htext hl => ⟨fun hwhole => ?_, ?_⟩⟩
  · obtain ⟨hread, hleap⟩ := parse_time_iff.1 h
    obtain ⟨l, htext, hl, -⟩ := TimeOfDay.read_eq_ok_iff.1 ⟨hread, hleap⟩
    exact ⟨hleap, l, htext, hl⟩
  · obtain ⟨t, hparse, hnumber⟩ := parse_time_of_literal htext hl
    refine ⟨t, hparse, hnumber, ?_⟩
    rw [hnumber]
    exact l.toNanosecond_number_iff
  · obtain ⟨hexact, hinteger | hread⟩ := of_parse_timestamp h
    all_goals obtain ⟨hleap, hwhole⟩ := inexactMillis?_eq_none_iff.1 hexact
    · exact ⟨hleap, .inl ⟨_, hinteger, Instant.number_eq_millis hwhole⟩⟩
    · obtain ⟨l, htext, hl, -, hnanos⟩ := Instant.read_eq_ok_iff.1 ⟨hread, hleap⟩
      refine ⟨hleap, .inr ⟨l, htext, hl, ?_⟩⟩
      rwa [← l.fraction.nanos_mod_iff, ← hnanos]
  · obtain ⟨t, hparse, hnumber⟩ := (parse_timestamp_of_literal htext hl).1 hwhole
    refine ⟨t, hparse, hnumber, ?_⟩
    rw [hnumber]
    exact l.toNanosecond_number_iff
  · exact (parse_timestamp_of_literal htext hl).2

/-- Zeros behind the ninth digit do no harm, and an offset is taken away. -/
theorem parse_ten_digits_exactly :
    let text := ['2', '0', '2', '4', '-', '0', '3', '-', '0', '1', 't', '0', '0', ':', '2', '9', ':',
      '5', '9', '.', '5', '0', '0', '0', '0', '0', '0', '0', '0', '0', '+', '0', '1', ':', '3', '0']
    ∃ t, timestamp.parse text = .ok t ∧ t.number = 1709247599.5 := by
  intro text
  let l : InstantLiteral :=
    ⟨.ofNat 4 2024 (by decide) (by decide), .ofNat 2 3 (by decide) (by decide),
      .ofNat 2 1 (by decide) (by decide), 't', .inr (.inl rfl), .ofNat 2 0 (by decide) (by decide),
      .ofNat 2 29 (by decide) (by decide), .ofNat 2 59 (by decide) (by decide),
      ⟨'5' :: List.replicate 9 '0', List.all_eq_true.1 rfl⟩,
      .shifted .east (.ofNat 2 1 (by decide) (by decide)) (.ofNat 2 30 (by decide) (by decide))⟩
  have htext : bareText text = l.text := by decide +kernel
  have hl : l.IsInstant := by
    constructor <;> decide +kernel
  have hkept : ∀ c ∈ (l.fraction.digits.take 9).drop 3, c = '0' :=
    fun _ hc => List.eq_of_mem_replicate (n := 6) hc
  have hdropped : ∀ c ∈ l.fraction.digits.drop 9, c = '0' :=
    fun _ hc => List.eq_of_mem_replicate (n := 1) hc
  obtain ⟨t, hparse, -, hexact⟩ := ((parse_keeps_nine_digits text).2.2.2 l htext hl).1 hkept
  refine ⟨t, hparse, (hexact.2 hdropped).trans ?_⟩
  have hseconds : l.seconds = 1709247599 := by decide +kernel
  have hdigits : Nat.ofDigitChars 10 l.fraction.digits 0 = 5000000000 := by decide +kernel
  rw [InstantLiteral.number, hseconds, Fraction.number, hdigits]
  norm_num [l]

/-- A tenth digit of the fraction is dropped from a timestamp and from a time, so that the result is not
what is written. -/
theorem tenth_digit_is_dropped :
    let instant := ['2', '0', '2', '4', '-', '0', '1', '-', '0', '1', 'T', '0', '0', ':', '0', '0',
      ':', '0', '0', '.', '0', '0', '0', '0', '0', '0', '0', '0', '0', '1', 'Z']
    let clock := ['1', '2', ':', '0', '0', ':', '0', '0', '.', '0', '0', '0', '0', '0', '0', '0', '0',
      '0', '1']
    (∃ (l : InstantLiteral) (t : Instant), bareText instant = l.text ∧ l.IsInstant ∧
      timestamp.parse instant = .ok t ∧ t.number ≠ l.number) ∧
    ∃ (l : ClockLiteral) (t : TimeOfDay), bareText clock = l.text ∧ l.IsClockTime ∧
      time.parse clock = .ok t ∧ t.number ≠ l.number := by
  intro instant clock
  let f : Fraction := ⟨List.replicate 9 '0' ++ ['1'], List.all_eq_true.1 rfl⟩
  have hdropped : ¬∀ c ∈ f.digits.drop 9, c = '0' :=
    fun h => absurd (h '1' List.mem_cons_self) (by decide)
  constructor
  · let l : InstantLiteral :=
      ⟨.ofNat 4 2024 (by decide) (by decide), .ofNat 2 1 (by decide) (by decide),
        .ofNat 2 1 (by decide) (by decide), 'T', .inl rfl, .ofNat 2 0 (by decide) (by decide),
        .ofNat 2 0 (by decide) (by decide), .ofNat 2 0 (by decide) (by decide), f, .universal false⟩
    have htext : bareText instant = l.text := by decide +kernel
    have hl : l.IsInstant := by
      constructor <;> decide +kernel
    obtain ⟨t, hparse, hnumber⟩ := (parse_timestamp_of_literal htext hl).1
      fun _ hc => List.eq_of_mem_replicate (n := 6) hc
    refine ⟨l, t, htext, hl, hparse, ?_⟩
    rw [hnumber]
    exact fun h => hdropped (l.toNanosecond_number_iff.1 h)
  · let zero : LooseNumeral := ⟨[], ['0', '0'], nofun, List.all_eq_true.1 rfl, by decide, by decide⟩
    let l : ClockLiteral :=
      ⟨⟨[], ['1', '2'], nofun, List.all_eq_true.1 rfl, by decide, by decide⟩, zero, zero, f⟩
    have htext : bareText clock = l.text := by decide +kernel
    have hl : l.IsClockTime := by
      constructor <;> decide +kernel
    obtain ⟨t, hparse, hnumber⟩ := parse_time_of_literal htext hl
    refine ⟨l, t, htext, hl, hparse, ?_⟩
    rw [hnumber]
    exact fun h => hdropped (l.toNanosecond_number_iff.1 h)

end Coding

end CqlWire
