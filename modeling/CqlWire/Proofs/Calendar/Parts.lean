import CqlWire.Calendar.TimeOfDay

/-!
# Times and instants by their numbers

A time of day is its seconds and nanoseconds (`TimeOfDay.ofParts?_eq_some_iff`), and an instant is
its seconds since 1970-01-01T00:00:00Z and nanoseconds (`Instant.ofParts?_eq_some_iff`). Outside of leap
seconds the nanoseconds are below one second, and an instant of whole milliseconds is the number of
them (`Instant.ofMillis?_eq_some_iff`).
-/

namespace CqlWire

namespace TimeOfDay

variable {t : TimeOfDay}

theorem isLeap_eq_false_iff : t.isLeap = false ↔ t.nanos < 1000000000 :=
  decide_eq_false_iff_not.trans Nat.not_le

theorem ofParts?_eq_some_iff {seconds nanos : Nat} :
    ofParts? seconds nanos = some t ↔ t.seconds = seconds ∧ t.nanos = nanos := by
  obtain ⟨s, n, hs, hn, hleap⟩ := t
  unfold ofParts?
  constructor
  · intro h
    split at h
    · cases h
      exact ⟨rfl, rfl⟩
    · cases h
  · rintro ⟨rfl, rfl⟩
    exact dif_pos ⟨hs, hn, hleap⟩

end TimeOfDay

theorem Date.ofDays?_eq_some_iff {n : Int} {d : Date} : ofDays? n = some d ↔ d.days = n := by
  refine ⟨days_of_ofDays?, ?_⟩
  rintro rfl
  exact ofDays?_days d

/-- An instant has one date and one time of the day. -/
theorem Instant.ofParts?_eq_some_iff {seconds : Int} {nanos : Nat} {t : Instant} :
    ofParts? seconds nanos = some t ↔ t.seconds = seconds ∧ t.time.nanos = nanos := by
  obtain ⟨date, time⟩ := t
  have hclock : time.seconds < 86400 := time.seconds_lt
  have hparts : ofParts? seconds nanos = some ⟨date, time⟩ ↔
      Date.ofDays? (seconds / secondsPerDay) = some date ∧
        TimeOfDay.ofParts? (seconds % secondsPerDay).toNat nanos = some time := by
    unfold ofParts?
    cases Date.ofDays? (seconds / secondsPerDay) <;>
      cases TimeOfDay.ofParts? (seconds % secondsPerDay).toNat nanos <;> simp
  rw [hparts, Date.ofDays?_eq_some_iff, TimeOfDay.ofParts?_eq_some_iff]
  simp only [Instant.seconds, secondsPerDay]
  omega

/-- An instant of whole milliseconds, outside of leap seconds, has one number of them. -/
theorem Instant.ofMillis?_eq_some_iff {millis : Int} {t : Instant} : ofMillis? millis = some t ↔
    t.millis = millis ∧ t.time.isLeap = false ∧ t.time.nanos % 1000000 = 0 := by
  have hmillis : t.millis = t.seconds * 1000 + (t.time.nanos / 1000000 : Nat) := rfl
  rw [ofMillis?, ofParts?_eq_some_iff, TimeOfDay.isLeap_eq_false_iff, hmillis]
  omega

end CqlWire
