import CqlWire.Proofs.Calendar.Parts
import CqlWire.Proofs.Coding.Storage
import CqlWire.Proofs.Number.TwosComplement
import CqlWire.Proofs.Text.Utf8

/-!
# Scalars are read back

Every coding of a scalar type restores every value of the type as itself (`restores_scalar`,
`restores_decimal`), and so do the two codings of an enumeration (`restores_nominal`,
`restores_ordinal`). All of them have bytes for each value that they store.
-/

namespace CqlWire

namespace Coding

/-! ## Numbers and truth values -/

theorem restores_boolean (b : Bool) : boolean.Restores b b := by
  apply restores_of_bytes rfl
  simp only [boolean, bind_eq_ok_iff, pure_eq_ok_iff]
  refine ⟨_, rfl, ⟨[if b then 1 else 0], rfl⟩, Frame.fixed_eq_ok_iff.2 rfl, ?_⟩
  cases b <;> rfl

theorem restores_integer {s : ScalarType} {width : Nat} {n : Int} (hw : 0 < width)
    (h : fitsSigned (8 * width) n = true) : (integer s width).Restores n n := by
  apply restores_of_bytes rfl
  simp only [integer, bind_eq_ok_iff, pure_eq_ok_iff]
  exact ⟨_, rfl, ⟨_, Bytes.length_ofInt width n⟩, Frame.fixed_eq_ok_iff.2 rfl,
    Bytes.toInt_ofInt_of_fits hw h⟩

theorem restores_varint {n : Int} (h : fitsSigned 128 n = true) : varint.Restores n n := by
  apply restores_of_bytes rfl
  exact bind_eq_ok_iff.2 ⟨_, rfl, decodeVarint_encodeVarint h⟩

theorem restores_floating {s : ScalarType} {f : FloatFormat} {bits : Nat}
    (h : bits < Bytes.capacity f.width) : (floating s f).Restores bits bits := by
  apply restores_of_bytes rfl
  simp only [floating, bind_eq_ok_iff, pure_eq_ok_iff]
  refine ⟨_, rfl, ⟨_, Bytes.length_ofNat f.width bits⟩, Frame.fixed_eq_ok_iff.2 rfl, ?_⟩
  rw [Bytes.toNat_ofNat, Nat.mod_eq_of_lt h]

theorem restores_unscaled {d : UnscaledDecimal} (hu : fitsSigned 128 d.unscaled = true)
    (hs : fitsSigned 32 d.scale = true) : unscaled.Restores d d := by
  apply restores_of_bytes rfl
  have hlen := Bytes.length_ofInt 4 d.scale
  have hvar := List.length_pos_iff.2 (encodeVarint_ne_nil d.unscaled)
  have hscale : Bytes.toInt (Bytes.ofInt 4 d.scale) = d.scale :=
    Bytes.toInt_ofInt_of_fits (by decide) hs
  simp only [unscaled, bind_eq_ok_iff, pure_eq_ok_iff, refuseIf_eq_ok_iff]
  refine ⟨_, rfl, (), ?_, d.unscaled, ?_, ?_⟩
  · rw [List.length_append]
    omega
  · rw [List.drop_left' hlen]
    exact decodeVarint_encodeVarint hu
  · rw [List.take_left' hlen, hscale]

theorem fitsSigned_toUnscaled (d : Decimal) :
    fitsSigned 128 d.toUnscaled.unscaled = true ∧ fitsSigned 32 d.toUnscaled.scale = true := by
  have hm := d.mantissa_lt
  have hs := d.scale_le
  have hp : Nat.pow 2 96 = 79228162514264337593543950336 := rfl
  constructor
  · refine (Bytes.fitsSigned_iff 16 (by decide)).2 ?_
    rw [show Bytes.capacity 16 = 340282366920938463463374607431768211456 from rfl]
    simp only [Decimal.toUnscaled]
    omega
  · refine (Bytes.fitsSigned_iff 4 (by decide)).2 ?_
    rw [Frame.capacity_four]
    simp only [Decimal.toUnscaled]
    omega

theorem restores_decimal (d : Decimal) : decimal.Restores d d := by
  obtain ⟨hu, hs⟩ := fitsSigned_toUnscaled d
  exact restores_mapped (restores_unscaled hu hs) (by rw [Decimal.ofUnscaled?_toUnscaled])

/-! ## Texts and byte strings -/

theorem restores_text (s : List Char) : text.Restores s s := by
  apply restores_of_bytes rfl
  refine bind_eq_ok_iff.2 ⟨_, rfl, ?_⟩
  rw [Utf8.decode_encode]

theorem restores_ascii (s : List Char) : ascii.Restores s s := by
  by_cases h : s.all Text.isAscii = true
  · have hc : ∀ c ∈ s, c.toNat < 128 ∧ (UInt8.ofNat c.toNat).toNat = c.toNat := by
      intro c hc
      have hlt : c.toNat < 128 := of_decide_eq_true (List.all_eq_true.1 h c hc)
      refine ⟨hlt, ?_⟩
      rw [UInt8.toNat_ofNat', Nat.mod_eq_of_lt (by omega)]
    have hall : (s.map fun c => UInt8.ofNat c.toNat).all (· < 0x80) = true := by
      rw [List.all_map, List.all_eq_true]
      intro c hmem
      refine decide_eq_true (UInt8.lt_iff_toNat_lt.2 ?_)
      rw [(hc c hmem).2]
      exact (hc c hmem).1
    have hmap : ((s.map fun c => UInt8.ofNat c.toNat).map fun b => Char.ofNat b.toNat) = s := by
      rw [List.map_map]
      conv_rhs => rw [← List.map_id s]
      refine List.map_congr_left fun c hmem => ?_
      show Char.ofNat (UInt8.ofNat c.toNat).toNat = c
      rw [(hc c hmem).2, Char.ofNat_toNat]
    refine restores_of_bytes (if_pos h) (bind_eq_ok_iff.2 ⟨_, rfl, ?_⟩)
    rw [Utf8.encode_of_isAscii h, if_pos hall, hmap]
  · exact restores_of_error (if_neg h)

theorem restores_blob (bs : Bytes) : blob.Restores bs bs :=
  restores_of_bytes rfl rfl

theorem restores_uuid (u : Uuid) : uuid.Restores u u :=
  restores_of_bytes rfl (bind_eq_ok_iff.2 ⟨_, rfl, Frame.fixed_val u⟩)

theorem restores_timeuuid (u : Uuid) : timeuuid.Restores u u := by
  by_cases h : u.version = 1
  · exact restores_of_bytes (if_pos h) (bind_eq_ok_iff.2 ⟨_, rfl, Frame.fixed_val u⟩)
  · exact restores_of_error (if_neg h)

theorem restores_inet (a : Inet) : inet.Restores a a := by
  apply restores_of_bytes rfl
  refine bind_eq_ok_iff.2 ⟨_, rfl, ?_⟩
  rw [Inet.ofBytes?_bytes]

/-! ## Dates and times -/

theorem inexactMillis?_eq_none_iff {t : Instant} :
    inexactMillis? t = none ↔ t.time.isLeap = false ∧ t.time.nanos % 1000000 = 0 := by
  unfold inexactMillis?
  split
  · rename_i hleap
    exact ⟨nofun, fun h => absurd hleap (by rw [h.1]; exact Bool.false_ne_true)⟩
  · rename_i hleap
    rw [Bool.not_eq_true] at hleap
    split
    · rename_i hwhole
      exact ⟨nofun, fun h => absurd h.2 hwhole⟩
    · rename_i hwhole
      exact iff_of_true rfl ⟨hleap, Decidable.not_not.1 hwhole⟩

theorem fitsSigned_millis (t : Instant) : fitsSigned 64 t.millis = true := by
  have hms : t.millis = (t.date.days * (86400 : Nat) + t.time.seconds) * 1000 +
    (t.time.nanos / 1000000 : Nat) := rfl
  have hlo := t.date.first_le
  have hhi := t.date.le_last
  have hs : t.time.seconds < 86400 := t.time.seconds_lt
  have hn : t.time.nanos < 2 * 1000000000 := t.time.nanos_lt
  refine (Bytes.fitsSigned_iff 8 (by decide)).2 ?_
  rw [show Bytes.capacity 8 = 18446744073709551616 from rfl]
  omega

theorem restores_timestamp (t : Instant) : timestamp.Restores t t := by
  cases h : inexactMillis? t with
  | none =>
    refine restores_of_bytes (by simp only [timestamp, h]; rfl) ?_
    simp only [timestamp, bind_eq_ok_iff]
    refine ⟨_, rfl, ⟨_, Bytes.length_ofInt 8 t.millis⟩, Frame.fixed_eq_ok_iff.2 rfl, ?_⟩
    have hread : Bytes.toInt (Bytes.ofInt 8 t.millis) = t.millis :=
      Bytes.toInt_ofInt_of_fits (by decide) (fitsSigned_millis t)
    rw [hread, Instant.ofMillis?_eq_some_iff.2 ⟨rfl, inexactMillis?_eq_none_iff.1 h⟩]
  | some reason => exact restores_of_error (by simp only [timestamp, h]; rfl)

theorem restores_date (d : Date) : date.Restores d d := by
  have hlo := d.first_le
  have hhi := d.le_last
  have hin : 0 ≤ d.days + dateEpoch ∧ d.days + dateEpoch < 2 * dateEpoch := by
    rw [dateEpoch]
    omega
  have hstored : (Bytes.toNat (Bytes.ofInt 4 (d.days + dateEpoch)) : Int) = d.days + dateEpoch := by
    rw [Bytes.toNat_ofInt, Frame.capacity_four]
    exact Int.emod_eq_of_lt hin.1 hin.2
  refine restores_of_bytes (if_pos hin) ?_
  simp only [date, bind_eq_ok_iff]
  refine ⟨_, rfl, ⟨_, Bytes.length_ofInt 4 _⟩, Frame.fixed_eq_ok_iff.2 rfl, ?_⟩
  rw [hstored, Int.add_sub_cancel, Date.ofDays?_days]

theorem restores_time (t : TimeOfDay) : time.Restores t t := by
  cases h : t.isLeap with
  | true => exact restores_of_error (by simp only [time, h]; rfl)
  | false =>
    have hn := TimeOfDay.isLeap_eq_false_iff.1 h
    have hs : t.seconds < 86400 := t.seconds_lt
    have htotal : Bytes.toInt (Bytes.ofNat 8 (t.seconds * nanosPerSecond + t.nanos)) =
        (t.seconds * 1000000000 + t.nanos : Nat) := by
      rw [Bytes.toInt_eq, Bytes.length_ofNat, Bytes.toNat_ofNat, nanosPerSecond,
        show Bytes.capacity 8 = 18446744073709551616 from rfl, Nat.mod_eq_of_lt (by omega),
        if_pos (by omega)]
    have hparts : TimeOfDay.ofParts? t.seconds t.nanos = some t :=
      TimeOfDay.ofParts?_eq_some_iff.2 ⟨rfl, rfl⟩
    refine restores_of_bytes (by simp only [time, h]; rfl) ?_
    simp only [time, bind_eq_ok_iff]
    refine ⟨_, rfl, ⟨_, Bytes.length_ofNat 8 _⟩, Frame.fixed_eq_ok_iff.2 rfl, ?_⟩
    rw [htotal, if_neg (by omega), Int.toNat_natCast, nanosPerSecond]
    have hquot : (t.seconds * 1000000000 + t.nanos) / 1000000000 = t.seconds := by omega
    have hrem : (t.seconds * 1000000000 + t.nanos) % 1000000000 = t.nanos := by omega
    rw [hquot, hrem, hparts]

/-! ## Enumerations -/

theorem idxOf?_nameOf {e : Enumeration} (h : e.names.Nodup) {index : Nat}
    (hi : index < e.names.length) : e.ofName? (e.nameOf index) = some index := by
  rw [Enumeration.ofName?, Enumeration.nameOf, List.getD_eq_getElem?_getD,
    List.getElem?_eq_getElem hi, Option.getD_some, List.idxOf?_eq_some_iff]
  exact ⟨hi, rfl, fun j hj heq => List.pairwise_iff_getElem.1 h j index (by omega) hi hj heq⟩

theorem restores_nominal {e : Enumeration} (h : e.names.Nodup) {index : Nat}
    (hi : index < e.names.length) : (nominal e).Restores index index := by
  refine restores_mapped (restores_text (e.nameOf index).toList) ?_
  rw [String.ofList_toList, idxOf?_nameOf h hi]

theorem ofOrdinal?_natCast {e : Enumeration} {index : Nat} (hi : index < e.names.length) :
    e.ofOrdinal? index = some index := by
  have hin : 0 ≤ (index : Int) ∧ (index : Int) < e.size := by
    rw [Enumeration.size]
    omega
  rw [Enumeration.ofOrdinal?, if_pos hin, Int.toNat_natCast]

theorem restores_ordinal {e : Enumeration} {index : Nat} (hi : index < e.names.length)
    (hfit : fitsSigned 32 index = true) : (ordinal e).Restores index index := by
  have hint : (integer .int 4).Restores index index := restores_integer (by decide) hfit
  exact restores_mapped hint (by rw [ofOrdinal?_natCast hi])

end Coding

/-! ## Scalar types -/

theorem restores_scalar {s : ScalarType} {v : Value} (h : s.valueType.Holds v) :
    s.coding.Restores v v := by
  have integer : ∀ {s : ScalarType} {width : Nat} {n : Int}, 0 < width →
      fitsSigned (8 * width) n = true →
      ((Coding.integer s width).onValues .int Value.int?).Restores (.int n) (.int n) :=
    fun hw hn => Coding.restores_onValues rfl (Coding.restores_integer hw hn) rfl
  cases s with
  | ascii =>
    obtain ⟨a, rfl⟩ := BaseType.eq_text_of_holds h
    exact Coding.restores_onValues rfl (Coding.restores_ascii a) rfl
  | bigint | counter =>
    obtain ⟨n, rfl, hn⟩ := BaseType.eq_int_of_holds rfl h
    exact integer (by decide) hn
  | blob =>
    obtain ⟨bs, rfl⟩ := BaseType.eq_bytes_of_holds h
    exact Coding.restores_onValues rfl (Coding.restores_blob bs) rfl
  | boolean =>
    obtain ⟨b, rfl⟩ := BaseType.eq_bool_of_holds h
    exact Coding.restores_onValues rfl (Coding.restores_boolean b) rfl
  | date =>
    obtain ⟨d, rfl⟩ := BaseType.eq_date_of_holds h
    exact Coding.restores_onValues rfl (Coding.restores_date d) rfl
  | decimal =>
    obtain ⟨d, rfl, hu, hs⟩ := BaseType.eq_unscaled_of_holds h
    exact Coding.restores_onValues rfl (Coding.restores_unscaled hu hs) rfl
  | double =>
    obtain ⟨bits, rfl, hb⟩ := BaseType.eq_double_of_holds h
    exact Coding.restores_onValues rfl (Coding.restores_floating hb) rfl
  | float =>
    obtain ⟨bits, rfl, hb⟩ := BaseType.eq_float_of_holds h
    exact Coding.restores_onValues rfl (Coding.restores_floating hb) rfl
  | inet =>
    obtain ⟨a, rfl⟩ := BaseType.eq_inet_of_holds h
    exact Coding.restores_onValues rfl (Coding.restores_inet a) rfl
  | int =>
    obtain ⟨n, rfl, hn⟩ := BaseType.eq_int_of_holds rfl h
    exact integer (by decide) hn
  | smallint =>
    obtain ⟨n, rfl, hn⟩ := BaseType.eq_int_of_holds rfl h
    exact integer (by decide) hn
  | text =>
    obtain ⟨a, rfl⟩ := BaseType.eq_text_of_holds h
    exact Coding.restores_onValues rfl (Coding.restores_text a) rfl
  | time =>
    obtain ⟨t, rfl⟩ := BaseType.eq_time_of_holds h
    exact Coding.restores_onValues rfl (Coding.restores_time t) rfl
  | timestamp =>
    obtain ⟨t, rfl⟩ := BaseType.eq_instant_of_holds h
    exact Coding.restores_onValues rfl (Coding.restores_timestamp t) rfl
  | timeuuid =>
    obtain ⟨u, rfl⟩ := BaseType.eq_uuid_of_holds h
    exact Coding.restores_onValues rfl (Coding.restores_timeuuid u) rfl
  | tinyint =>
    obtain ⟨n, rfl, hn⟩ := BaseType.eq_int_of_holds rfl h
    exact integer (by decide) hn
  | uuid =>
    obtain ⟨u, rfl⟩ := BaseType.eq_uuid_of_holds h
    exact Coding.restores_onValues rfl (Coding.restores_uuid u) rfl
  | varint =>
    obtain ⟨n, rfl, hn⟩ := BaseType.eq_int_of_holds rfl h
    exact Coding.restores_onValues rfl (Coding.restores_varint hn) rfl

/-- Scalars have bytes for every value that they store. -/
theorem neverAbsent_scalar (s : ScalarType) : s.coding.NeverAbsent := by
  cases s with
  | ascii =>
    refine Coding.neverAbsent_onValues fun a h => ?_
    simp only [Coding.ascii] at h
    split at h <;> cases h
  | date =>
    refine Coding.neverAbsent_onValues fun d h => ?_
    simp only [Coding.date] at h
    split at h <;> cases h
  | time =>
    refine Coding.neverAbsent_onValues fun t h => ?_
    simp only [Coding.time] at h
    split at h <;> cases h
  | timestamp =>
    refine Coding.neverAbsent_onValues fun t h => ?_
    simp only [Coding.timestamp] at h
    split at h <;> cases h
  | timeuuid =>
    refine Coding.neverAbsent_onValues fun u h => ?_
    simp only [Coding.timeuuid] at h
    split at h <;> cases h
  | _ => exact Coding.neverAbsent_onValues nofun

theorem neverAbsent_enumeration (e : Enumeration) (ordinal : Bool) :
    (if ordinal then Coding.ordinal e else Coding.nominal e).NeverAbsent := by
  cases ordinal
  · exact Coding.neverAbsent_mapped nofun
  · exact Coding.neverAbsent_mapped nofun

end CqlWire
