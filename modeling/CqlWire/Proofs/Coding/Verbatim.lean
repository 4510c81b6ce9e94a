import CqlWire.Proofs.Coding.Reading

/-!
# Bytes that can be told from what was read

Most codings of scalars read no bytes but those that they store: what was read is stored as the very
bytes that it was read from (`Coding.Verbatim`). Other types of values, options, lists and sets keep
this (`verbatim_onValues`, `verbatim_mapped`, `verbatim_option`, `encode_of_decode_elements`), but
for the empty collection, which is read from no bytes as well.
-/

namespace CqlWire

theorem Inet.bytes_of_ofBytes? {bs : Bytes} {a : Inet} (h : Inet.ofBytes? bs = some a) :
    a.bytes = bs := by
  unfold Inet.ofBytes? at h
  split at h
  · cases h
    rfl
  · split at h
    · cases h
      rfl
    · cases h

namespace Bytes

variable {bs : Bytes} {width : Nat}

theorem ofInt_toInt_of_length (h : bs.length = width) : ofInt width (toInt bs) = bs := by
  rw [← h, ofInt_toInt]

theorem ofInt_toNat_of_length (h : bs.length = width) : ofInt width (toNat bs) = bs := by
  have hlt : (toNat bs : Int) < capacity bs.length := by exact_mod_cast toNat_lt bs
  rw [← h, ofInt, Int.emod_eq_of_lt (Int.natCast_nonneg _) hlt, Int.toNat_natCast, ofNat_toNat]

/-- A signed number that is not negative is the unsigned one. -/
theorem toNat_toInt (h : 0 ≤ toInt bs) : (toInt bs).toNat = toNat bs := by
  have hlt := toNat_lt bs
  rw [toInt_eq] at h ⊢
  split at h <;> split <;> omega

end Bytes

namespace Coding

variable {α β : Type}

/-- What is read, also from absent bytes, is stored as what it was read from. -/
def Verbatim (c : Coding α) : Prop :=
  ∀ b a, c.decode b = .ok a → c.encode a = .ok b

/-! ## Numbers -/

theorem verbatim_integer (s : ScalarType) (width : Nat) : (integer s width).Verbatim := by
  intro b n h
  simp only [integer, bind_eq_ok_iff, pure_eq_ok_iff, Frame.require_eq_ok_iff,
    Frame.fixed_eq_ok_iff] at h
  obtain ⟨bs, rfl, o, rfl, rfl⟩ := h
  show Except.ok (some (Bytes.ofInt width (Bytes.toInt o.1))) = _
  rw [Bytes.ofInt_toInt_of_length o.2]

theorem verbatim_floating (s : ScalarType) (f : FloatFormat) : (floating s f).Verbatim := by
  intro b bits h
  simp only [floating, bind_eq_ok_iff, pure_eq_ok_iff, Frame.require_eq_ok_iff,
    Frame.fixed_eq_ok_iff] at h
  obtain ⟨bs, rfl, o, rfl, rfl⟩ := h
  have hbits := Bytes.ofNat_toNat o.1
  rw [o.2] at hbits
  exact congrArg (Except.ok ∘ some) hbits

/-! ## Texts and byte strings -/

theorem verbatim_text : text.Verbatim := by
  intro b s h
  simp only [text, bind_eq_ok_iff, Frame.require_eq_ok_iff] at h
  obtain ⟨bs, rfl, h⟩ := h
  split at h
  · rename_i s' hs
    cases h
    exact congrArg (Except.ok ∘ some) (Utf8.decode_eq_ok_iff.1 hs)
  · cases h

theorem verbatim_ascii : ascii.Verbatim := by
  intro b s h
  simp only [ascii, bind_eq_ok_iff, Frame.require_eq_ok_iff] at h
  obtain ⟨bs, rfl, h⟩ := h
  split at h
  · rename_i hall
    cases h
    have hbytes : (bs.map fun b => Char.ofNat b.toNat).map (fun c => UInt8.ofNat c.toNat) = bs := by
      rw [List.map_map]
      conv_rhs => rw [← List.map_id bs]
      refine List.map_congr_left fun b hb => ?_
      have hlt : b < 0x80 := of_decide_eq_true (List.all_eq_true.1 hall b hb)
      have hlt' : b.toNat < 128 := UInt8.lt_iff_toNat_lt.1 hlt
      show UInt8.ofNat (Char.ofNat b.toNat).toNat = b
      rw [Utf8.toNat_char (by omega), UInt8.ofNat_toNat]
    have hascii := isAscii_of_bytes hall
    simp only [ascii, if_pos hascii]
    rw [Utf8.encode_of_isAscii hascii, hbytes]
  · cases h

theorem verbatim_blob : blob.Verbatim := by
  intro b bs h
  rw [Frame.require_eq_ok_iff.1 h]
  rfl

theorem verbatim_uuid : uuid.Verbatim := by
  intro b u h
  simp only [uuid, bind_eq_ok_iff, Frame.require_eq_ok_iff, Frame.fixed_eq_ok_iff] at h
  obtain ⟨bs, rfl, rfl⟩ := h
  rfl

theorem verbatim_inet : inet.Verbatim := by
  intro b a h
  simp only [inet, bind_eq_ok_iff, Frame.require_eq_ok_iff] at h
  obtain ⟨bs, rfl, h⟩ := h
  split at h
  · rename_i a' ha
    cases h
    exact congrArg (Except.ok ∘ some) (Inet.bytes_of_ofBytes? ha)
  · cases h

/-! ## Dates and times -/

theorem verbatim_timestamp : timestamp.Verbatim := by
  intro b t h
  simp only [timestamp, bind_eq_ok_iff, Frame.require_eq_ok_iff, Frame.fixed_eq_ok_iff] at h
  obtain ⟨bs, rfl, o, rfl, h⟩ := h
  split at h
  · rename_i t' ht
    cases h
    simp only [timestamp, inexactMillis?_of_ofMillis? ht]
    rw [(Instant.ofMillis?_eq_some_iff.1 ht).1, Bytes.ofInt_toInt_of_length o.2]
  · cases h

theorem verbatim_date : date.Verbatim := by
  intro b d h
  simp only [date, bind_eq_ok_iff, Frame.require_eq_ok_iff, Frame.fixed_eq_ok_iff] at h
  obtain ⟨bs, rfl, o, rfl, h⟩ := h
  split at h
  · rename_i d' hd
    cases h
    have hstored : d.days + dateEpoch = Bytes.toNat o.1 := by
      rw [Date.days_of_ofDays? hd, Int.sub_add_cancel]
    have hlt := Bytes.toNat_lt o.1
    rw [o.2, Frame.capacity_four] at hlt
    have hin : 0 ≤ d.days + dateEpoch ∧ d.days + dateEpoch < 2 * dateEpoch := by
      rw [hstored, dateEpoch]
      omega
    simp only [date, if_pos hin]
    rw [hstored, Bytes.ofInt_toNat_of_length o.2]
  · cases h

theorem verbatim_time : time.Verbatim := by
  intro b t h
  simp only [time, bind_eq_ok_iff, Frame.require_eq_ok_iff, Frame.fixed_eq_ok_iff] at h
  obtain ⟨bs, rfl, o, rfl, h⟩ := h
  split at h
  · rename_i t' ht
    cases h
    split at ht
    · cases ht
    · rename_i hnonneg
      rw [Bytes.toNat_toInt (Int.not_lt.1 hnonneg)] at ht
      obtain ⟨hseconds, hnanos⟩ := TimeOfDay.ofParts?_eq_some_iff.1 ht
      have hleap : ¬t.isLeap = true := by
        intro hleap
        have hle : nanosPerSecond ≤ t.nanos := of_decide_eq_true hleap
        exact absurd (Nat.mod_lt (Bytes.toNat o.1) (by decide)) (Nat.not_lt.2 (hnanos ▸ hle))
      have hbytes := Bytes.ofNat_toNat o.1
      rw [o.2] at hbytes
      simp only [time, if_neg hleap]
      rw [hseconds, hnanos, Nat.div_add_mod', hbytes]
  · cases h

/-! ## Other types of values -/

theorem verbatim_mapped {c : Coding α} {into : α → Except Error β} {out : β → α}
    (hout : ∀ a b, into a = .ok b → out b = a) (h : c.Verbatim) : (c.mapped into out).Verbatim := by
  intro bytes b hb
  obtain ⟨a, ha, hinto⟩ := bind_eq_ok_iff.1 hb
  show c.encode (out b) = _
  rw [hout a b hinto]
  exact h bytes a ha

theorem verbatim_onValues {c : Coding α} {toValue : α → Value} {ofValue? : Value → Option α}
    (hof : ∀ a, ofValue? (toValue a) = some a) (h : c.Verbatim) :
    (c.onValues toValue ofValue?).Verbatim := by
  intro b v hv
  obtain ⟨a, ha, rfl⟩ := map_eq_ok_iff.1 hv
  simp only [onValues, hof]
  exact h b a ha

theorem verbatim_option {c : Coding α} (h : c.Verbatim) : c.option.Verbatim := by
  intro b a? ha
  cases b with
  | none =>
    cases ha
    rfl
  | some bs =>
    obtain ⟨a, hdecode, rfl⟩ := map_eq_ok_iff.1 ha
    exact h (some bs) a hdecode

/-! ## Lists and sets -/

/-- The bytes that elements were read from are the frames that they are stored in. -/
theorem frames_of_decodeElements {type : ColumnType} {allowsNull : Bool} {c : Coding α}
    (hc : c.Verbatim) {count index : Nat} {bs rest : Bytes} {as : List α}
    (h : decodeElements type allowsNull c count index bs = .ok (as, rest)) :
    as.length = count ∧ ∃ frames, as.mapM (encodeElement type allowsNull c) = .ok frames ∧
      frames.flatten ++ rest = bs := by
  induction count generalizing index bs as with
  | zero =>
    cases h
    exact ⟨rfl, [], rfl, rfl⟩
  | succ count ih =>
    simp only [decodeElements, bind_eq_ok_iff, pure_eq_ok_iff, refuseIf_eq_ok_iff] at h
    obtain ⟨⟨raw, bs'⟩, hread, -, hnull, a, ha, ⟨as, rest⟩, hrest, heq⟩ := h
    cases heq
    obtain ⟨frame, hframe, rfl⟩ := Frame.read_eq_ok_iff.1 hread
    obtain ⟨hlen, frames, hframes, rfl⟩ := ih hrest
    refine ⟨congrArg Nat.succ hlen, frame :: frames, mapM_cons_eq_ok_iff.2 ?_, ?_⟩
    · refine ⟨frame, frames, encodeElement_eq_ok_iff.2 ⟨raw, hc raw a ha, fun hn => ?_, hframe⟩,
        hframes, rfl⟩
      simpa [hn] using hnull
    · rw [List.flatten_cons, List.append_assoc]

/-- Elements that were read from bytes are stored as these bytes. -/
theorem encode_of_decode_elements {c : Coding α} (hc : c.Verbatim) {kind : CollectionKind}
    {frozen : Bool} {bs : Bytes} {as : List α}
    (h : (elements kind frozen c).decode (some bs) = .ok as) (hne : bs ≠ []) :
    (elements kind frozen c).encode as = .ok (some bs) := by
  simp only [elements, bind_eq_ok_iff, Frame.require_eq_ok_iff, Option.some.injEq,
    exists_eq_left', List.isEmpty_iff, if_neg hne, pure_eq_ok_iff] at h
  obtain ⟨⟨count, rest⟩, hcount, ⟨as', rest'⟩, has, _, hend, rfl⟩ := h
  obtain ⟨head, hhead, rfl⟩ := Frame.readCount_eq_ok_iff.1 hcount
  obtain rfl : rest' = [] := Frame.expectEnd_eq_ok_iff.1 hend
  obtain ⟨rfl, frames, hframes, hrest⟩ := frames_of_decodeElements hc has
  rw [List.append_nil] at hrest
  refine map_eq_ok_iff.2 ⟨head ++ frames.flatten, ?_, ?_⟩
  · exact bind_eq_ok_iff.2 ⟨head, hhead, bind_eq_ok_iff.2 ⟨frames, hframes, rfl⟩⟩
  · rw [hrest]

end Coding

end CqlWire
