import CqlWire.Codec.Basic
import CqlWire.Proofs.Fallible
import CqlWire.Proofs.Frame

/-!
# What is stored is read back

A coding restores `w` as `v` (`Coding.Restores`) if whatever it stores for `w` it reads as `v`. The
two differ where a value is not stored as a whole. Each way to make a coding of other codings hands
this on: `restores_mapped`, `restores_some`, `restores_onValues`, `restores_elements`,
`restores_entries` and `restores_record`. For options the inner coding has to have bytes for every
value (`Coding.NeverAbsent`), since absent bytes are read as no value.
-/

namespace CqlWire

variable {α β : Type}

namespace Coding

/-- What the coding stores for `w` it reads as `v`. -/
def Restores (c : Coding α) (w v : α) : Prop :=
  ∀ b, c.encode w = .ok b → c.decode b = .ok v

/-- What is stored always has bytes. -/
def NeverAbsent (c : Coding α) : Prop :=
  ∀ a, c.encode a ≠ .ok none

theorem restores_of_bytes {c : Coding α} {w v : α} {bs : Bytes} (he : c.encode w = .ok (some bs))
    (hd : c.decode (some bs) = .ok v) : c.Restores w v := by
  intro b hb
  rw [he] at hb
  cases hb
  exact hd

/-- What is not stored restores anything. -/
theorem restores_of_error {c : Coding α} {w v : α} {e : Error} (h : c.encode w = .error e) :
    c.Restores w v := by
  intro b hb
  rw [h] at hb
  cases hb

/-! ## Other types of values -/

theorem restores_mapped {c : Coding α} {into : α → Except Error β} {out : β → α} {w v : β} {a : α}
    (h : c.Restores (out w) a) (hv : into a = .ok v) : (c.mapped into out).Restores w v := by
  intro b hb
  exact bind_eq_ok_iff.2 ⟨a, h b hb, hv⟩

theorem neverAbsent_mapped {c : Coding α} {into : α → Except Error β} {out : β → α}
    (h : c.NeverAbsent) : (c.mapped into out).NeverAbsent :=
  fun v => h (out v)

theorem restores_none (c : Coding α) : c.option.Restores none none := by
  intro b hb
  cases hb
  rfl

/-- A value that is there is restored if bytes are stored for it. -/
theorem restores_some_of_ne {c : Coding α} {w v : α} (hc : c.encode w ≠ .ok none)
    (h : c.Restores w v) : c.option.Restores (some w) (some v) := by
  intro b hb
  cases b with
  | none => exact absurd hb hc
  | some bs => exact map_eq_ok_iff.2 ⟨v, h (some bs) hb, rfl⟩

theorem restores_some {c : Coding α} {w v : α} (hc : c.NeverAbsent) (h : c.Restores w v) :
    c.option.Restores (some w) (some v) :=
  restores_some_of_ne (hc w) h

theorem restores_onValues {c : Coding α} {toValue : α → Value} {ofValue? : Value → Option α}
    {w v : Value} {a u : α} (hw : ofValue? w = some a) (h : c.Restores a u) (hv : toValue u = v) :
    (c.onValues toValue ofValue?).Restores w v := by
  intro b hb
  simp only [onValues, hw] at hb
  exact map_eq_ok_iff.2 ⟨u, h b hb, hv⟩

theorem neverAbsent_onValues {c : Coding α} {toValue : α → Value} {ofValue? : Value → Option α}
    (h : c.NeverAbsent) : (c.onValues toValue ofValue?).NeverAbsent := by
  intro v hv
  simp only [onValues] at hv
  split at hv
  · exact h _ hv
  · cases hv

/-! ## Lists and sets -/

/-- An element is stored by the frame of its bytes, and only a list stores an absent one. -/
theorem encodeElement_eq_ok_iff {type : ColumnType} {allowsNull : Bool} {c : Coding α} {a : α}
    {frame : Bytes} : encodeElement type allowsNull c a = .ok frame ↔
      ∃ raw, c.encode a = .ok raw ∧ (raw.isNone → allowsNull) ∧ Frame.write raw = .ok frame := by
  simp only [encodeElement, bind_eq_ok_iff]
  constructor
  · rintro ⟨raw, hr, hf⟩
    refine ⟨raw, hr, ?_⟩
    cases raw with
    | some bs => exact ⟨nofun, hf⟩
    | none =>
      dsimp only at hf
      split at hf
      · rename_i ha
        exact ⟨fun _ => ha, hf⟩
      · cases hf
  · rintro ⟨raw, hr, ha, hf⟩
    refine ⟨raw, hr, ?_⟩
    cases raw with
    | some bs => exact hf
    | none =>
      dsimp only
      rw [if_pos (ha rfl), hf]

/-- The frames of elements, whatever follows them, are read as the elements. -/
theorem decodeElements_frames {type : ColumnType} {allowsNull : Bool} {c : Coding α}
    {ws us : List α} {frames : List Bytes} (h : List.Forall₂ c.Restores ws us)
    (hf : ws.mapM (encodeElement type allowsNull c) = .ok frames) (index : Nat) (rest : Bytes) :
    decodeElements type allowsNull c us.length index (frames.flatten ++ rest) = .ok (us, rest) := by
  induction h generalizing frames index with
  | nil =>
    rw [mapM_nil_eq_ok_iff.1 hf]
    rfl
  | @cons w u ws us hu _ ih =>
    obtain ⟨frame, frames, hw, hws, rfl⟩ := mapM_cons_eq_ok_iff.1 hf
    obtain ⟨raw, hr, ha, hframe⟩ := encodeElement_eq_ok_iff.1 hw
    have hnull : ¬(raw.isNone && !allowsNull) = true := by
      cases hn : raw.isNone
      · simp
      · simp [ha hn]
    simp only [List.length_cons, decodeElements, List.flatten_cons, List.append_assoc]
    simp only [bind_eq_ok_iff, pure_eq_ok_iff]
    refine ⟨(raw, frames.flatten ++ rest), Frame.read_write hframe _, ?_⟩
    dsimp only
    refine ⟨(), refuseIf_eq_ok_iff.2 hnull, u, hu raw hr, ?_⟩
    exact ⟨(us, rest), ih hws (index + 1), rfl⟩

theorem restores_elements {c : Coding α} {kind : CollectionKind} {frozen : Bool} {ws us : List α}
    (h : List.Forall₂ c.Restores ws us) : (elements kind frozen c).Restores ws us := by
  intro b hb
  obtain ⟨bs, hbs, rfl⟩ := map_eq_ok_iff.1 hb
  simp only [encodeElements, bind_eq_ok_iff, pure_eq_ok_iff] at hbs
  obtain ⟨count, hc, frames, hf, rfl⟩ := hbs
  have hlen : 4 ≤ count.length := Nat.le_of_eq (Frame.length_of_writeCount hc).symm
  have hne := Frame.not_isEmpty_append hlen frames.flatten
  rw [h.length_eq] at hc
  have hframes := decodeElements_frames h hf 0 []
  rw [List.append_nil] at hframes
  simp only [elements, bind_eq_ok_iff, Frame.require_eq_ok_iff, Option.some.injEq,
    exists_eq_left', if_neg hne]
  refine ⟨(us.length, frames.flatten), Frame.readCount_eq_ok_iff.2 ⟨count, hc, rfl⟩, ?_⟩
  exact ⟨(us, []), hframes, (), Frame.expectEnd_eq_ok_iff.2 rfl, rfl⟩

theorem neverAbsent_elements (kind : CollectionKind) (frozen : Bool) (c : Coding α) :
    (elements kind frozen c).NeverAbsent := by
  intro as h
  obtain ⟨bs, -, hbs⟩ := map_eq_ok_iff.1 h
  cases hbs

/-! ## Maps -/

/-- An entry is stored by two frames, of which that of the key holds bytes. -/
theorem encodeEntry_eq_ok_iff {type : ColumnType} {k : Coding α} {v : Coding β} {e : α × β}
    {bs : Bytes} : encodeEntry type k v e = .ok bs ↔
      ∃ rawKey rawValue key value, k.encode e.1 = .ok (some rawKey) ∧ v.encode e.2 = .ok rawValue ∧
        Frame.write (some rawKey) = .ok key ∧ Frame.write rawValue = .ok value ∧
          key ++ value = bs := by
  simp only [encodeEntry, bind_eq_ok_iff]
  constructor
  · rintro ⟨raw, hk, h⟩
    cases raw with
    | none => cases h
    | some rawKey =>
      simp only [bind_eq_ok_iff, pure_eq_ok_iff] at h
      obtain ⟨key, hkey, rawValue, hv, value, hvalue, h⟩ := h
      exact ⟨rawKey, rawValue, key, value, hk, hv, hkey, hvalue, h⟩
  · rintro ⟨rawKey, rawValue, key, value, hk, hv, hkey, hvalue, h⟩
    refine ⟨some rawKey, hk, ?_⟩
    simp only [bind_eq_ok_iff, pure_eq_ok_iff]
    exact ⟨key, hkey, rawValue, hv, value, hvalue, h⟩

/-- The frames of entries, whatever follows them, are read as the entries. -/
theorem decodeEntries_frames {type : ColumnType} {k : Coding α} {v : Coding β}
    {ws us : List (α × β)} {frames : List Bytes}
    (h : List.Forall₂ (fun w u => k.Restores w.1 u.1 ∧ v.Restores w.2 u.2) ws us)
    (hf : ws.mapM (encodeEntry type k v) = .ok frames) (index : Nat) (rest : Bytes) :
    decodeEntries type k v us.length index (frames.flatten ++ rest) = .ok (us, rest) := by
  induction h generalizing frames index with
  | nil =>
    rw [mapM_nil_eq_ok_iff.1 hf]
    rfl
  | @cons w u ws us hu _ ih =>
    obtain ⟨frame, frames, hw, hws, rfl⟩ := mapM_cons_eq_ok_iff.1 hf
    obtain ⟨rawKey, rawValue, key, value, hk, hv, hkey, hvalue, rfl⟩ := encodeEntry_eq_ok_iff.1 hw
    simp only [List.length_cons, decodeEntries, List.flatten_cons, List.append_assoc]
    simp only [bind_eq_ok_iff, pure_eq_ok_iff]
    refine ⟨(some rawKey, value ++ (frames.flatten ++ rest)), Frame.read_write hkey _, ?_⟩
    dsimp only
    refine ⟨(), refuseIf_eq_ok_iff.2 nofun, (rawValue, frames.flatten ++ rest),
      Frame.read_write hvalue _, ?_⟩
    dsimp only
    refine ⟨u.1, hu.1 _ hk, u.2, hu.2 _ hv, ?_⟩
    exact ⟨(us, rest), ih hws (index + 1), rfl⟩

theorem restores_entries {k : Coding α} {v : Coding β} {frozen : Bool} {ws us : List (α × β)}
    (h : List.Forall₂ (fun w u => k.Restores w.1 u.1 ∧ v.Restores w.2 u.2) ws us) :
    (entries frozen k v).Restores ws us := by
  intro b hb
  simp only [entries, bind_eq_ok_iff, pure_eq_ok_iff] at hb
  obtain ⟨count, hc, frames, hf, rfl⟩ := hb
  have hlen : 4 ≤ count.length := Nat.le_of_eq (Frame.length_of_writeCount hc).symm
  have hne := Frame.not_isEmpty_append hlen frames.flatten
  rw [h.length_eq] at hc
  have hframes := decodeEntries_frames h hf 0 []
  rw [List.append_nil] at hframes
  simp only [entries, bind_eq_ok_iff, Frame.require_eq_ok_iff, Option.some.injEq,
    exists_eq_left', if_neg hne]
  refine ⟨(us.length, frames.flatten), Frame.readCount_eq_ok_iff.2 ⟨count, hc, rfl⟩, ?_⟩
  exact ⟨(us, []), hframes, (), Frame.expectEnd_eq_ok_iff.2 rfl, rfl⟩

theorem neverAbsent_entries (frozen : Bool) (k : Coding α) (v : Coding β) :
    (entries frozen k v).NeverAbsent := by
  intro es h
  simp only [entries, bind_eq_ok_iff, pure_eq_ok_iff] at h
  obtain ⟨_, -, _, -, h⟩ := h
  cases h

/-! ## Records -/

theorem encodeField_eq_ok {typeName : String} {fields : List (Coding α)} {as : List α} {index : Nat}
    {raw : Option Bytes} (h : encodeField typeName fields as index = .ok raw) :
    ∃ c a, fields[index]? = some c ∧ as[index]? = some a ∧ c.encode a = .ok raw := by
  unfold encodeField at h
  split at h
  · rename_i c a hc ha
    exact ⟨c, a, hc, ha, h⟩
  · cases h

/-- The frames of the fields of the type are read into the declared fields that they hold; the
others stay as they are. -/
theorem readSlots_encodeSlots (type : ColumnType) {typeName : String} {fields : List (Coding α)}
    {as : List α} {slots : List Nat} {bs : Bytes}
    (h : encodeSlots typeName fields as slots = .ok bs) (values : List (Option Bytes)) :
    ∃ found, readSlots type slots bs values = .ok (found, []) ∧ found.length = values.length ∧
      ∀ i < values.length,
        (i ∈ slots → ∃ raw, encodeField typeName fields as i = .ok raw ∧ found[i]? = some raw) ∧
        (i ∉ slots → found[i]? = values[i]?) := by
  induction slots generalizing bs values with
  | nil =>
    simp only [encodeSlots, bind_eq_ok_iff, pure_eq_ok_iff] at h
    obtain ⟨frames, hf, rfl⟩ := h
    rw [mapM_nil_eq_ok_iff.1 hf]
    exact ⟨values, rfl, rfl, fun i _ => ⟨nofun, fun _ => rfl⟩⟩
  | cons slot slots ih =>
    simp only [encodeSlots, bind_eq_ok_iff, pure_eq_ok_iff] at h
    obtain ⟨frames, hf, rfl⟩ := h
    obtain ⟨frame, frames, hslot, hslots, rfl⟩ := mapM_cons_eq_ok_iff.1 hf
    obtain ⟨raw, hraw, hframe⟩ := bind_eq_ok_iff.1 hslot
    have hrest : encodeSlots typeName fields as slots = .ok frames.flatten := by
      simp only [encodeSlots, bind_eq_ok_iff, pure_eq_ok_iff]
      exact ⟨frames, hslots, rfl⟩
    obtain ⟨found, hread, hlen, hfound⟩ := ih hrest (values.set slot raw)
    have hne := Frame.not_isEmpty_append (Frame.four_le_length_of_write hframe) frames.flatten
    rw [List.length_set] at hlen hfound
    refine ⟨found, ?_, hlen, fun i hi => ⟨fun hmem => ?_, fun hmem => ?_⟩⟩
    · simp only [readSlots, List.flatten_cons, if_neg hne, Frame.read_write hframe]
      exact hread
    · -- Of several slots for one field, the last is the one that is read.
      by_cases ht : i ∈ slots
      · exact (hfound i hi).1 ht
      · obtain rfl : i = slot := (List.mem_cons.1 hmem).resolve_right ht
        refine ⟨raw, hraw, ?_⟩
        rw [(hfound i hi).2 ht, List.getElem?_set_self hi]
    · rw [List.mem_cons, not_or] at hmem
      rw [(hfound i hi).2 hmem.2, List.getElem?_set_ne (Ne.symm hmem.1)]

/-- A field that the type has is restored, and any other one is read from absent bytes. -/
theorem restores_record {typeName : String} {schema : UserType} {slots : List Nat}
    {fields : List (Coding α)} {ws us : List α} (hlen : fields.length = us.length)
    (h : ∀ i c u, fields[i]? = some c → us[i]? = some u →
      (i ∈ slots → ∀ w, ws[i]? = some w → c.Restores w u) ∧
        (i ∉ slots → c.decode none = .ok u)) :
    (record typeName schema slots fields).Restores ws us := by
  intro b hb
  obtain ⟨bs, hbs, rfl⟩ := map_eq_ok_iff.1 hb
  obtain ⟨found, hread, hfl, hfound⟩ :=
    readSlots_encodeSlots (.user schema) hbs (fields.map fun _ => none)
  rw [List.length_map] at hfl hfound
  simp only [record, bind_eq_ok_iff, Frame.require_eq_ok_iff, Option.some.injEq,
    exists_eq_left']
  refine ⟨(found, []), hread, (), refuseIf_eq_ok_iff.2 (by simp), ?_⟩
  rw [mapM_eq_ok_iff, List.forall₂_iff_get]
  refine ⟨by simp [hfl, hlen], fun i hi hu => ?_⟩
  rw [List.length_zip, hfl, Nat.min_self] at hi
  have hc : fields[i]? = some fields[i] := List.getElem?_eq_getElem hi
  have hus : us[i]? = some us[i] := List.getElem?_eq_getElem hu
  simp only [List.get_eq_getElem, List.getElem_zip]
  obtain ⟨hin, hout⟩ := h i _ _ hc hus
  by_cases hi' : i ∈ slots
  · obtain ⟨raw, hraw, hfi⟩ := (hfound i hi).1 hi'
    obtain ⟨c, w, hc', hw, hencode⟩ := encodeField_eq_ok hraw
    rw [hc, Option.some.injEq] at hc'
    rw [List.getElem?_eq_getElem (hfl ▸ hi), Option.some.injEq] at hfi
    rw [hfi]
    exact hin hi' w hw raw (hc' ▸ hencode)
  · have hfi := (hfound i hi).2 hi'
    rw [List.getElem?_eq_getElem (hfl ▸ hi), List.getElem?_map, hc, Option.map_some,
      Option.some.injEq] at hfi
    rw [hfi]
    exact hout hi'

theorem neverAbsent_record (typeName : String) (schema : UserType) (slots : List Nat)
    (fields : List (Coding α)) : (record typeName schema slots fields).NeverAbsent := by
  intro as h
  obtain ⟨bs, -, hbs⟩ := map_eq_ok_iff.1 h
  cases hbs

end Coding

end CqlWire
