import CqlWire.Proofs.Coding.Boundary
import CqlWire.Proofs.Coding.Scalar

/-!
# What was read

A value that was read says something about itself. A number is in its range
(`holds_of_decode_scalar`), and what is read as a scalar can be stored as one (`rewrites_scalar`),
time-based UUIDs apart, of which only storing looks at the version (`Coding.exists_encode_timeuuid_iff`).
The elements, entries and fields of what was read are each read from a frame of their own
(`of_decode_elements`, `of_decode_entries`, `of_decode_record`), of which there are at most as many
as a count can say.
-/

namespace CqlWire

/-- Two's complement fits in its bytes. -/
theorem Bytes.fitsSigned_toInt {bs : Bytes} {width : Nat} (hw : 0 < width)
    (h : bs.length ≤ width) : fitsSigned (8 * width) (Bytes.toInt bs) = true := by
  have hlt := Bytes.toNat_lt bs
  have hcap : Bytes.capacity bs.length ≤ Bytes.capacity width := by
    rw [Bytes.capacity_eq_two_pow, Bytes.capacity_eq_two_pow]
    exact Nat.pow_le_pow_right (by decide) (by omega)
  rw [Bytes.fitsSigned_iff width hw, Bytes.toInt_eq]
  split <;> omega

namespace Coding

variable {α β : Type}

/-- What is read has bytes when it is stored. -/
def Rewrites (c : Coding α) : Prop :=
  ∀ b a, c.decode b = .ok a → ∃ bs, c.encode a = .ok (some bs)

theorem rewrites_of_encode {c : Coding α} (h : ∀ a, ∃ bs, c.encode a = .ok (some bs)) :
    c.Rewrites :=
  fun _ a _ => h a

theorem rewrites_onValues {c : Coding α} {toValue : α → Value} {ofValue? : Value → Option α}
    (hof : ∀ a, ofValue? (toValue a) = some a) (h : c.Rewrites) :
    (c.onValues toValue ofValue?).Rewrites := by
  intro b v hv
  obtain ⟨a, ha, rfl⟩ := map_eq_ok_iff.1 hv
  obtain ⟨bs, hbs⟩ := h b a ha
  exact ⟨bs, by simp only [onValues, hof, hbs]⟩

/-! ## Scalars -/

theorem fits_of_decode_integer {s : ScalarType} {width : Nat} (hw : 0 < width) {b : Option Bytes}
    {n : Int} (h : (integer s width).decode b = .ok n) : fitsSigned (8 * width) n = true := by
  simp only [integer, bind_eq_ok_iff, pure_eq_ok_iff] at h
  obtain ⟨_, -, o, -, rfl⟩ := h
  exact Bytes.fitsSigned_toInt hw (Nat.le_of_eq o.2)

theorem fits_of_decodeVarint {type : ColumnType} {bs : Bytes} {n : Int}
    (h : decodeVarint type bs = .ok n) : fitsSigned 128 n = true := by
  unfold decodeVarint at h
  split at h
  · cases h
  split at h
  · cases h
  · rename_i hlen
    cases h
    have hfit : fitsSigned (8 * 16) (Bytes.toInt bs) = true :=
      Bytes.fitsSigned_toInt (by decide) (by omega)
    exact hfit

theorem lt_of_decode_floating {s : ScalarType} {f : FloatFormat} {b : Option Bytes} {bits : Nat}
    (h : (floating s f).decode b = .ok bits) : bits < Bytes.capacity f.width := by
  simp only [floating, bind_eq_ok_iff, pure_eq_ok_iff] at h
  obtain ⟨_, -, o, -, rfl⟩ := h
  have hlt := Bytes.toNat_lt o.1
  rwa [o.2] at hlt

theorem fits_of_decode_unscaled {b : Option Bytes} {d : UnscaledDecimal}
    (h : unscaled.decode b = .ok d) :
    fitsSigned 128 d.unscaled = true ∧ fitsSigned 32 d.scale = true := by
  simp only [unscaled, bind_eq_ok_iff, pure_eq_ok_iff, refuseIf_eq_ok_iff] at h
  obtain ⟨bs, -, -, -, n, hn, rfl⟩ := h
  have hscale : fitsSigned (8 * 4) (Bytes.toInt (bs.take 4)) = true :=
    Bytes.fitsSigned_toInt (by decide) (List.length_take_le 4 bs)
  exact ⟨fits_of_decodeVarint hn, hscale⟩

/-- Bytes below 128 are those of characters of US-ASCII. -/
theorem isAscii_of_bytes {bs : Bytes} (h : bs.all (· < 0x80) = true) :
    (bs.map fun b => Char.ofNat b.toNat).all Text.isAscii = true := by
  rw [List.all_map, List.all_eq_true]
  intro b hb
  have hlt : b < 0x80 := of_decide_eq_true (List.all_eq_true.1 h b hb)
  have hlt' : b.toNat < 128 := UInt8.lt_iff_toNat_lt.1 hlt
  refine decide_eq_true ?_
  rwa [Utf8.toNat_char (by omega)]

theorem rewrites_ascii : ascii.Rewrites := by
  intro b s h
  obtain ⟨bs, -, h⟩ := bind_eq_ok_iff.1 h
  split at h
  · rename_i hall
    cases h
    exact ⟨_, if_pos (isAscii_of_bytes hall)⟩
  · cases h

theorem rewrites_date : date.Rewrites := by
  refine rewrites_of_encode fun d => ?_
  have hlo := d.first_le
  have hhi := d.le_last
  have hin : 0 ≤ d.days + dateEpoch ∧ d.days + dateEpoch < 2 * dateEpoch := by
    rw [dateEpoch]
    omega
  exact ⟨_, if_pos hin⟩

theorem rewrites_time : time.Rewrites := by
  intro b t h
  simp only [time, bind_eq_ok_iff] at h
  obtain ⟨_, -, o, -, h⟩ := h
  split at h
  · rename_i t' ht
    cases h
    split at ht
    · cases ht
    · have hlt : t.nanos < nanosPerSecond := by
        rw [(TimeOfDay.ofParts?_eq_some_iff.1 ht).2]
        exact Nat.mod_lt _ (by decide)
      exact ⟨_, if_neg fun hleap => absurd (of_decide_eq_true hleap) (Nat.not_le.2 hlt)⟩
  · cases h

/-- An instant of a number of milliseconds is in no leap second and has whole milliseconds. -/
theorem inexactMillis?_of_ofMillis? {millis : Int} {t : Instant}
    (h : Instant.ofMillis? millis = some t) : inexactMillis? t = none :=
  inexactMillis?_eq_none_iff.2 (Instant.ofMillis?_eq_some_iff.1 h).2

theorem rewrites_timestamp : timestamp.Rewrites := by
  intro b t h
  simp only [timestamp, bind_eq_ok_iff] at h
  obtain ⟨_, -, o, -, h⟩ := h
  split at h
  · rename_i t' ht
    cases h
    refine ⟨Bytes.ofInt 8 t.millis, ?_⟩
    simp only [timestamp, inexactMillis?_of_ofMillis? ht]
  · cases h

/-- Only UUIDs of version 1 are stored as a `timeuuid`. -/
theorem exists_encode_timeuuid_iff {u : Uuid} :
    (∃ b, timeuuid.encode u = .ok b) ↔ u.version = 1 := by
  simp only [timeuuid]
  split
  · rename_i h
    exact iff_of_true ⟨_, rfl⟩ h
  · rename_i h
    refine iff_of_false ?_ h
    rintro ⟨_, hb⟩
    cases hb

/-! ## Collections -/

/-- Elements are read from frames, and those of a set from frames that hold bytes. -/
theorem of_decodeElements {type : ColumnType} {allowsNull : Bool} {c : Coding α} {count index : Nat}
    {bs rest : Bytes} {as : List α}
    (h : decodeElements type allowsNull c count index bs = .ok (as, rest)) :
    as.length = count ∧
      ∀ a ∈ as, ∃ raw, (raw.isNone → allowsNull) ∧ c.decode raw = .ok a := by
  induction count generalizing index bs as with
  | zero =>
    cases h
    exact ⟨rfl, List.forall_mem_nil _⟩
  | succ count ih =>
    simp only [decodeElements, bind_eq_ok_iff, pure_eq_ok_iff, refuseIf_eq_ok_iff] at h
    obtain ⟨⟨raw, bs⟩, -, -, hnull, a, ha, ⟨as, rest⟩, hrest, heq⟩ := h
    cases heq
    obtain ⟨hlen, has⟩ := ih hrest
    refine ⟨congrArg Nat.succ hlen, List.forall_mem_cons.2 ⟨⟨raw, fun hn => ?_, ha⟩, has⟩⟩
    simpa [hn] using hnull

/-- A collection is stored if its elements are and can be counted. -/
theorem exists_encode_elements {kind : CollectionKind} {frozen : Bool} {c : Coding α} {as : List α}
    (hlen : as.length ≤ Frame.maxLength)
    (h : ∀ a ∈ as, ∃ frame,
      encodeElement (kind.type frozen c.type) kind.allowsNull c a = .ok frame) :
    ∃ b, (elements kind frozen c).encode as = .ok b := by
  obtain ⟨frames, hframes⟩ := exists_mapM_eq_ok h
  have hcount := Frame.writeCount_eq_ok_iff.2 ⟨hlen, rfl⟩
  exact ⟨_, map_eq_ok_iff.2 ⟨_, bind_eq_ok_iff.2 ⟨_, hcount, bind_eq_ok_iff.2
    ⟨frames, hframes, rfl⟩⟩, rfl⟩⟩

theorem of_decode_elements {kind : CollectionKind} {frozen : Bool} {c : Coding α}
    {b : Option Bytes} {as : List α} (h : (elements kind frozen c).decode b = .ok as) :
    as.length ≤ Frame.maxLength ∧
      ∀ a ∈ as, ∃ raw, (raw.isNone → kind.allowsNull) ∧ c.decode raw = .ok a := by
  simp only [elements, bind_eq_ok_iff] at h
  obtain ⟨bs, -, h⟩ := h
  split at h
  · cases h
    exact ⟨Nat.zero_le _, List.forall_mem_nil _⟩
  · simp only [bind_eq_ok_iff, pure_eq_ok_iff] at h
    obtain ⟨⟨count, bs⟩, hcount, ⟨as, rest⟩, has, -, -, rfl⟩ := h
    obtain ⟨hlen, has⟩ := of_decodeElements has
    exact ⟨hlen ▸ Frame.le_maxLength_of_readCount hcount, has⟩

/-- Keys and values are read from frames, and those of keys hold bytes. -/
theorem of_decodeEntries {type : ColumnType} {k : Coding α} {v : Coding β} {count index : Nat}
    {bs rest : Bytes} {es : List (α × β)}
    (h : decodeEntries type k v count index bs = .ok (es, rest)) :
    es.length = count ∧
      ∀ e ∈ es, (∃ bs, k.decode (some bs) = .ok e.1) ∧ ∃ raw, v.decode raw = .ok e.2 := by
  induction count generalizing index bs es with
  | zero =>
    cases h
    exact ⟨rfl, List.forall_mem_nil _⟩
  | succ count ih =>
    simp only [decodeEntries, bind_eq_ok_iff, pure_eq_ok_iff, refuseIf_eq_ok_iff] at h
    obtain ⟨⟨rawKey, bs⟩, -, -, hnull, ⟨rawValue, bs⟩, -, key, hkey, value, hvalue, ⟨es, rest⟩,
      hrest, heq⟩ := h
    cases heq
    obtain ⟨hlen, hes⟩ := ih hrest
    refine ⟨congrArg Nat.succ hlen, List.forall_mem_cons.2 ⟨⟨?_, rawValue, hvalue⟩, hes⟩⟩
    cases rawKey with
    | some raw => exact ⟨raw, hkey⟩
    | none => exact absurd rfl hnull

/-- A map is stored if its entries are and can be counted. -/
theorem exists_encode_entries {k : Coding α} {v : Coding β} {frozen : Bool} {es : List (α × β)}
    (hlen : es.length ≤ Frame.maxLength)
    (h : ∀ e ∈ es, ∃ frame, encodeEntry (.map frozen k.type v.type) k v e = .ok frame) :
    ∃ b, (entries frozen k v).encode es = .ok b := by
  obtain ⟨frames, hframes⟩ := exists_mapM_eq_ok h
  have hcount := Frame.writeCount_eq_ok_iff.2 ⟨hlen, rfl⟩
  exact ⟨_, bind_eq_ok_iff.2 ⟨_, hcount, bind_eq_ok_iff.2 ⟨frames, hframes, rfl⟩⟩⟩

theorem of_decode_entries {k : Coding α} {v : Coding β} {frozen : Bool} {b : Option Bytes}
    {es : List (α × β)} (h : (entries frozen k v).decode b = .ok es) :
    es.length ≤ Frame.maxLength ∧
      ∀ e ∈ es, (∃ bs, k.decode (some bs) = .ok e.1) ∧ ∃ raw, v.decode raw = .ok e.2 := by
  simp only [entries, bind_eq_ok_iff] at h
  obtain ⟨bs, -, h⟩ := h
  split at h
  · cases h
    exact ⟨Nat.zero_le _, List.forall_mem_nil _⟩
  · simp only [bind_eq_ok_iff, pure_eq_ok_iff] at h
    obtain ⟨⟨count, bs⟩, hcount, ⟨es, rest⟩, hes, -, -, rfl⟩ := h
    obtain ⟨hlen, hes⟩ := of_decodeEntries hes
    exact ⟨hlen ▸ Frame.le_maxLength_of_readCount hcount, hes⟩

/-! ## Records -/

/-- A record is stored if the fields that the slots name are. -/
theorem exists_encode_record {typeName : String} (schema : UserType) {slots : List Nat}
    {fields : List (Coding α)} {as : List α} (h : ∀ slot ∈ slots, ∃ raw frame,
      encodeField typeName fields as slot = .ok raw ∧ Frame.write raw = .ok frame) :
    ∃ b, (record typeName schema slots fields).encode as = .ok b := by
  have hslots : ∀ slot ∈ slots, ∃ frame,
      (do Frame.write (← encodeField typeName fields as slot)) = .ok frame := by
    intro slot hslot
    obtain ⟨raw, frame, hraw, hframe⟩ := h slot hslot
    exact ⟨frame, bind_eq_ok_iff.2 ⟨raw, hraw, hframe⟩⟩
  obtain ⟨frames, hframes⟩ := exists_mapM_eq_ok hslots
  exact ⟨_, map_eq_ok_iff.2 ⟨_, bind_eq_ok_iff.2 ⟨frames, hframes, rfl⟩, rfl⟩⟩

/-- Every declared field is read, from absent bytes if no slot names it. -/
theorem of_decode_record {typeName : String} {schema : UserType} {slots : List Nat}
    {fields : List (Coding α)} {b : Option Bytes} {as : List α}
    (h : (record typeName schema slots fields).decode b = .ok as) :
    as.length = fields.length ∧ ∀ i c a, fields[i]? = some c → as[i]? = some a →
      ∃ raw, c.decode raw = .ok a ∧ (i ∉ slots → raw = none) := by
  simp only [record, bind_eq_ok_iff] at h
  obtain ⟨bs, -, ⟨found, rest⟩, hread, -, -, hfields⟩ := h
  have hmap : (fields.zip found).mapM (fun p => p.1.decode p.2) = .ok as := hfields
  obtain ⟨hfound, hout⟩ := getElem?_of_readSlots hread
  rw [List.length_map] at hfound
  have hlen : as.length = fields.length := by
    rw [length_of_mapM_eq_ok hmap, List.length_zip, hfound, Nat.min_self]
  refine ⟨hlen, fun i c a hc ha => ?_⟩
  obtain ⟨hi, -⟩ := List.getElem?_eq_some_iff.1 hc
  have hraw : found[i]? = some found[i] := List.getElem?_eq_getElem (hfound ▸ hi)
  have hpair : (fields.zip found)[i]? = some (c, found[i]) :=
    List.getElem?_zip_eq_some.2 ⟨hc, hraw⟩
  obtain ⟨a', ha', hdecode⟩ := getElem?_of_mapM_eq_ok hmap hpair
  obtain rfl : a = a' := Option.some.inj (ha.symm.trans ha')
  refine ⟨found[i], hdecode, fun hslot => ?_⟩
  have hnone := hout i hslot
  rwa [hraw, List.getElem?_map, hc, Option.map_some, Option.some.injEq] at hnone

end Coding

/-! ## Scalar types -/

/-- What is read as a scalar type is a value of the type. -/
theorem holds_of_decode_scalar {s : ScalarType} {b : Option Bytes} {v : Value}
    (h : s.coding.decode b = .ok v) : s.valueType.Holds v := by
  cases s with
  | bigint | counter | int | smallint | tinyint =>
    obtain ⟨n, hn, rfl⟩ := map_eq_ok_iff.1 h
    have hfit := Coding.fits_of_decode_integer (by decide) hn
    exact hfit
  | varint =>
    obtain ⟨n, hn, rfl⟩ := map_eq_ok_iff.1 h
    obtain ⟨bs, -, hbs⟩ := bind_eq_ok_iff.1 hn
    exact Coding.fits_of_decodeVarint hbs
  | decimal =>
    obtain ⟨d, hd, rfl⟩ := map_eq_ok_iff.1 h
    exact Coding.fits_of_decode_unscaled hd
  | double | float =>
    obtain ⟨bits, hbits, rfl⟩ := map_eq_ok_iff.1 h
    exact Coding.lt_of_decode_floating hbits
  | _ =>
    obtain ⟨a, -, rfl⟩ := map_eq_ok_iff.1 h
    trivial

/-- What is read as a scalar type other than `timeuuid` is stored as some bytes. -/
theorem rewrites_scalar {s : ScalarType} (hs : s ≠ .timeuuid) : s.coding.Rewrites := by
  have total : ∀ {α : Type} {c : Coding α} {toValue : α → Value} {ofValue? : Value → Option α},
      (∀ a, ofValue? (toValue a) = some a) → (∀ a, ∃ bs, c.encode a = .ok (some bs)) →
      (c.onValues toValue ofValue?).Rewrites :=
    fun hof h => Coding.rewrites_onValues hof (Coding.rewrites_of_encode h)
  cases s with
  | ascii => exact Coding.rewrites_onValues (fun _ => rfl) Coding.rewrites_ascii
  | date => exact Coding.rewrites_onValues (fun _ => rfl) Coding.rewrites_date
  | time => exact Coding.rewrites_onValues (fun _ => rfl) Coding.rewrites_time
  | timestamp => exact Coding.rewrites_onValues (fun _ => rfl) Coding.rewrites_timestamp
  | timeuuid => exact absurd rfl hs
  | _ => exact total (fun _ => rfl) fun _ => ⟨_, rfl⟩

/-! ## Enumerations -/

theorem Enumeration.nameOf_of_ofName? {e : Enumeration} {name : String} {index : Nat}
    (h : e.ofName? name = some index) : index < e.names.length ∧ e.nameOf index = name := by
  obtain ⟨hi, hname, -⟩ := List.idxOf?_eq_some_iff.1 h
  refine ⟨hi, ?_⟩
  rw [nameOf, List.getD_eq_getElem?_getD, List.getElem?_eq_getElem hi, Option.getD_some, hname]

/-- The variant at a position is the one that is counted so. -/
theorem Enumeration.ofOrdinal?_eq_some_iff {e : Enumeration} {n : Int} {index : Nat} :
    e.ofOrdinal? n = some index ↔ index < e.names.length ∧ (index : Int) = n := by
  constructor
  · intro h
    unfold ofOrdinal? at h
    split at h
    · rename_i hin
      cases h
      have hsize : n < e.names.length := hin.2
      omega
    · cases h
  · rintro ⟨hi, rfl⟩
    exact Coding.ofOrdinal?_natCast hi

/-- A variant that was read is one of the enumeration, and is read back. -/
theorem restores_of_decode_variant {e : Enumeration} {ordinal : Bool} {b : Option Bytes}
    {index : Nat}
    (h : (if ordinal then Coding.ordinal e else Coding.nominal e).decode b = .ok index) :
    index < e.names.length ∧
      (if ordinal then Coding.ordinal e else Coding.nominal e).Restores index index := by
  cases ordinal with
  | false =>
    obtain ⟨s, -, hs⟩ := bind_eq_ok_iff.1 h
    split at hs
    · rename_i i hi
      cases hs
      obtain ⟨hlt, hname⟩ := Enumeration.nameOf_of_ofName? hi
      refine ⟨hlt, Coding.restores_mapped (Coding.restores_text (e.nameOf index).toList) ?_⟩
      rw [String.ofList_toList, hname, hi]
    · cases hs
  | true =>
    obtain ⟨n, hn, hi⟩ := bind_eq_ok_iff.1 h
    split at hi
    · rename_i i hord
      cases hi
      obtain ⟨hlt, hn'⟩ := Enumeration.ofOrdinal?_eq_some_iff.1 hord
      have hfit := Coding.fits_of_decode_integer (by decide) hn
      rw [← hn'] at hfit
      exact ⟨hlt, Coding.restores_ordinal hlt hfit⟩
    · cases hi

theorem encode_variant (e : Enumeration) (ordinal : Bool) (index : Nat) : ∃ bs,
    (if ordinal then Coding.ordinal e else Coding.nominal e).encode index = .ok (some bs) := by
  cases ordinal <;> exact ⟨_, rfl⟩

end CqlWire
