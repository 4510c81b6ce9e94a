import CqlWire.Proofs.Coding.Storage

/-!
# Records that stop at the end of a frame

The bytes of a record may stop at the end of any frame (`Frame.IsFrame`). What is read up to there
is what is read where the frames of absent values follow (`readSlots_frames`), and bytes that do not
stop at such a place are refused (`frames_of_readSlots`, `exists_of_readSlots_eq_error`); so it is
with the record as a whole (`decode_record_append_nulls`, `decode_record_eq_error`). A type with
further fields therefore reads what a type without them reads (`decode_record_of_extended`).
-/

namespace CqlWire

namespace Frame

/-- Four bytes that hold the length of what follows, or -1 and nothing follows. -/
def IsFrame (bs : Bytes) : Prop :=
  ∃ head body, head ++ body = bs ∧ head.length = 4 ∧
    (Bytes.toInt head = body.length ∨ Bytes.toInt head = -1 ∧ body = [])

/-- Frames, one after another, and no more than `count`. -/
def AreFrames (count : Nat) (frames : List Bytes) : Prop :=
  (∀ f ∈ frames, IsFrame f) ∧ frames.length ≤ count

/-- The frames of so many absent values. -/
def nulls (count : Nat) : Bytes := (List.replicate count [0xFF, 0xFF, 0xFF, 0xFF]).flatten

theorem write_none : write none = .ok [0xFF, 0xFF, 0xFF, 0xFF] := rfl

/-- Frames are what values are written as. -/
theorem isFrame_iff {bs : Bytes} : IsFrame bs ↔ ∃ raw, write raw = .ok bs := by
  constructor
  · rintro ⟨head, body, rfl, hl, hn | ⟨hn, rfl⟩⟩
    · obtain ⟨hle, he⟩ := eq_ofNat_four hl (by omega)
      rw [hn, Int.toNat_natCast] at hle he
      exact ⟨some body, write_some_eq_ok_iff.2 ⟨hle, by rw [he]⟩⟩
    · refine ⟨none, write_none_eq_ok_iff.2 ?_⟩
      rw [← hn, ← hl, Bytes.ofInt_toInt, List.append_nil]
  · rintro ⟨raw, hw⟩
    cases raw with
    | none =>
      obtain rfl := write_none_eq_ok_iff.1 hw
      have hn : Bytes.toInt (Bytes.ofInt 4 (-1)) = -1 :=
        Bytes.toInt_ofInt (by rw [capacity_four]; decide) (by rw [capacity_four]; decide)
      exact ⟨_, [], List.append_nil _, Bytes.length_ofInt 4 (-1), .inr ⟨hn, rfl⟩⟩
    | some body =>
      obtain ⟨hle, rfl⟩ := write_some_eq_ok_iff.1 hw
      exact ⟨_, body, rfl, Bytes.length_ofNat 4 _, .inl (toInt_ofNat_four hle)⟩

theorem four_le_length_of_isFrame {bs : Bytes} (h : IsFrame bs) : 4 ≤ bs.length := by
  obtain ⟨raw, hw⟩ := isFrame_iff.1 h
  exact four_le_length_of_write hw

/-- Bytes that do not start with a frame are refused as malformed. -/
theorem exists_of_read_eq_error {type : ColumnType} {bs : Bytes} {e : Error}
    (h : read type bs = .error e) : ∃ reason, e = .decode type.toText reason := by
  unfold read at h
  split at h
  · cases h
    exact ⟨_, rfl⟩
  · dsimp only at h
    split at h
    · cases h
    · split at h
      · cases h
        exact ⟨_, rfl⟩
      · split at h
        · cases h
          exact ⟨_, rfl⟩
        · cases h

end Frame

open CqlWire.Frame (IsFrame AreFrames nulls)

namespace Coding

variable {α : Type} {type : ColumnType} {slots : List Nat} {bs rest : Bytes}
  {values found : List (Option Bytes)}

/-! ## Frames for slots -/

theorem readSlots_nil (type : ColumnType) (slots : List Nat) (values : List (Option Bytes)) :
    readSlots type slots [] values = .ok (values, []) := by
  cases slots <;> rfl

/-- A frame is read into its slot. -/
theorem readSlots_cons {raw : Option Bytes} {frame : Bytes} (h : Frame.write raw = .ok frame)
    (type : ColumnType) (slot : Nat) (slots : List Nat) (bs : Bytes)
    (values : List (Option Bytes)) : readSlots type (slot :: slots) (frame ++ bs) values =
      readSlots type slots bs (values.set slot raw) := by
  have hne := Frame.not_isEmpty_append (Frame.four_le_length_of_write h) bs
  rw [readSlots, if_neg hne, Frame.read_write h]
  rfl

/-- Absent values that are read into slots without values change nothing. -/
theorem readSlots_nulls (habsent : ∀ slot ∈ slots, values.set slot none = values) :
    readSlots type slots (nulls slots.length) values = .ok (values, []) := by
  induction slots with
  | nil => rfl
  | cons slot slots ih =>
    obtain ⟨hslot, hslots⟩ := List.forall_mem_cons.1 habsent
    rw [nulls, List.length_cons, List.replicate_succ, List.flatten_cons,
      readSlots_cons Frame.write_none, hslot]
    exact ih hslots

/-- Where frames stop, absent values are read: it makes no difference whether they are there. -/
theorem readSlots_frames (type : ColumnType) {frames : List Bytes}
    (h : AreFrames slots.length frames) (hnodup : slots.Nodup)
    (habsent : ∀ slot ∈ slots, values.set slot none = values) :
    ∃ found, readSlots type slots frames.flatten values = .ok (found, []) ∧
      readSlots type slots (frames.flatten ++ nulls (slots.length - frames.length)) values =
        .ok (found, []) := by
  induction slots generalizing frames values with
  | nil =>
    obtain rfl := List.length_eq_zero_iff.1 (Nat.le_zero.1 h.2)
    exact ⟨values, rfl, rfl⟩
  | cons slot slots ih =>
    cases frames with
    | nil => exact ⟨values, readSlots_nil .., readSlots_nulls habsent⟩
    | cons frame frames =>
      obtain ⟨hframe, hframes⟩ := List.forall_mem_cons.1 h.1
      obtain ⟨raw, hraw⟩ := Frame.isFrame_iff.1 hframe
      obtain ⟨hout, hnodup⟩ := List.nodup_cons.1 hnodup
      -- What is read for this slot is out of the way of the others.
      have habsent' : ∀ s ∈ slots, (values.set slot raw).set s none = values.set slot raw := by
        intro s hs
        have hne : slot ≠ s := fun heq => hout (heq ▸ hs)
        rw [List.set_comm _ _ hne, habsent s (List.mem_cons_of_mem _ hs)]
      obtain ⟨found, hshort, hlong⟩ := ih ⟨hframes, Nat.le_of_succ_le_succ h.2⟩ hnodup habsent'
      refine ⟨found, ?_, ?_⟩
      · rw [List.flatten_cons, readSlots_cons hraw, hshort]
      · rw [List.flatten_cons, List.append_assoc, readSlots_cons hraw, List.length_cons,
          List.length_cons, Nat.add_sub_add_right, hlong]

/-- What is read is frames, one for each slot at most. -/
theorem frames_of_readSlots (h : readSlots type slots bs values = .ok (found, rest)) :
    ∃ frames, AreFrames slots.length frames ∧ frames.flatten ++ rest = bs := by
  induction slots generalizing bs values with
  | nil =>
    cases h
    exact ⟨[], ⟨List.forall_mem_nil _, Nat.le_refl 0⟩, rfl⟩
  | cons slot slots ih =>
    unfold readSlots at h
    split at h
    · cases h
      exact ⟨[], ⟨List.forall_mem_nil _, Nat.zero_le _⟩, rfl⟩
    · obtain ⟨⟨raw, bs'⟩, hread, hslots⟩ := bind_eq_ok_iff.1 h
      obtain ⟨frame, hframe, rfl⟩ := Frame.read_eq_ok_iff.1 hread
      obtain ⟨frames, ⟨hframes, hlen⟩, rfl⟩ := ih hslots
      refine ⟨frame :: frames, ⟨?_, Nat.succ_le_succ hlen⟩, ?_⟩
      · exact List.forall_mem_cons.2 ⟨Frame.isFrame_iff.2 ⟨raw, hframe⟩, hframes⟩
      · rw [List.flatten_cons, List.append_assoc]

theorem exists_of_readSlots_eq_error {e : Error} (h : readSlots type slots bs values = .error e) :
    ∃ reason, e = .decode type.toText reason := by
  induction slots generalizing bs values with
  | nil => cases h
  | cons slot slots ih =>
    unfold readSlots at h
    split at h
    · cases h
    · rcases bind_eq_error_iff.1 h with h | ⟨⟨raw, bs'⟩, -, h⟩
      · exact Frame.exists_of_read_eq_error h
      · exact ih h

/-- Further slots read nothing where the bytes are at their end. -/
theorem readSlots_append (h : readSlots type slots bs values = .ok (found, []))
    (more : List Nat) (type' : ColumnType) :
    readSlots type' (slots ++ more) bs values = .ok (found, []) := by
  induction slots generalizing bs values with
  | nil =>
    cases h
    exact readSlots_nil ..
  | cons slot slots ih =>
    unfold readSlots at h
    rw [List.cons_append, readSlots]
    split at h
    · rename_i hempty
      cases h
      rw [if_pos hempty]
    · rename_i hne
      obtain ⟨⟨raw, bs'⟩, hread, hslots⟩ := bind_eq_ok_iff.1 h
      have hread' : Frame.read type' bs = .ok (raw, bs') :=
        Frame.read_eq_ok_iff.2 (Frame.read_eq_ok_iff.1 hread)
      rw [if_neg hne, hread']
      exact ih hslots

/-- Fields that no slot names are not read. -/
theorem getElem?_of_readSlots (h : readSlots type slots bs values = .ok (found, rest)) :
    found.length = values.length ∧ ∀ i, i ∉ slots → found[i]? = values[i]? := by
  induction slots generalizing bs values with
  | nil =>
    cases h
    exact ⟨rfl, fun _ _ => rfl⟩
  | cons slot slots ih =>
    unfold readSlots at h
    split at h
    · cases h
      exact ⟨rfl, fun _ _ => rfl⟩
    · obtain ⟨⟨raw, bs'⟩, -, hslots⟩ := bind_eq_ok_iff.1 h
      obtain ⟨hlen, hfound⟩ := ih hslots
      rw [List.length_set] at hlen
      refine ⟨hlen, fun i hi => ?_⟩
      rw [List.mem_cons, not_or] at hi
      rw [hfound i hi.2, List.getElem?_set_ne (Ne.symm hi.1)]

/-! ## Records -/

section

variable {typeName : String} {schema schema' : UserType} {fields fields' : List (Coding α)}

theorem decode_record_some (typeName : String) (schema : UserType) (slots : List Nat)
    (fields : List (Coding α)) (bs : Bytes) :
    (record typeName schema slots fields).decode (some bs) =
      (readSlots (.user schema) slots bs (fields.map fun _ => none) >>= fun p =>
        refuseIf (!p.2.isEmpty) (.decode (ColumnType.user schema).toText
          s!"{p.2.length} bytes left after {slots.length} schema fields") >>= fun _ =>
        (fields.zip p.1).mapM fun q => q.1.decode q.2) :=
  rfl

/-- A record whose bytes stop at the end of a frame is read as if absent values followed. -/
theorem decode_record_append_nulls (hnodup : slots.Nodup) {frames : List Bytes}
    (h : AreFrames slots.length frames) :
    (record typeName schema slots fields).decode (some frames.flatten) =
      (record typeName schema slots fields).decode
        (some (frames.flatten ++ nulls (slots.length - frames.length))) := by
  have habsent : ∀ slot ∈ slots, (fields.map fun _ => (none : Option Bytes)).set slot none =
      fields.map fun _ => none := by
    intro slot _
    rw [List.map_const', List.set_replicate_self]
  obtain ⟨found, hshort, hlong⟩ := readSlots_frames (.user schema) h hnodup habsent
  rw [decode_record_some, decode_record_some, hshort, hlong]

/-- A record whose bytes are no frames, or too many of them, is refused as malformed. -/
theorem decode_record_eq_error (typeName : String) (schema : UserType) (fields : List (Coding α))
    (h : ¬∃ frames, AreFrames slots.length frames ∧ frames.flatten = bs) : ∃ reason,
    (record typeName schema slots fields).decode (some bs) =
      .error (.decode (ColumnType.user schema).toText reason) := by
  rw [decode_record_some]
  cases hread : readSlots (.user schema) slots bs (fields.map fun _ => none) with
  | error e =>
    obtain ⟨reason, rfl⟩ := exists_of_readSlots_eq_error hread
    exact ⟨reason, rfl⟩
  | ok p =>
    obtain ⟨found, rest⟩ := p
    cases rest with
    | nil =>
      obtain ⟨frames, hframes, heq⟩ := frames_of_readSlots hread
      rw [List.append_nil] at heq
      exact absurd ⟨frames, hframes, heq⟩ h
    | cons b rest => exact ⟨_, rfl⟩

/-- What is read for the first fields of a type is read alike for a type that has them first. -/
theorem decode_record_of_extended (more : List Nat) (hlen : fields.length = fields'.length)
    (h : ∀ i c c', fields[i]? = some c → fields'[i]? = some c' →
      (i ∈ slots → c = c') ∧ (i ∉ slots → c.decode none = c'.decode none))
    {bytes : Option Bytes} {as : List α}
    (hread : (record typeName schema slots fields).decode bytes = .ok as) :
    (record typeName schema' (slots ++ more) fields').decode bytes = .ok as := by
  obtain ⟨bs, hbs, -⟩ := bind_eq_ok_iff.1 hread
  obtain rfl := Frame.require_eq_ok_iff.1 hbs
  rw [decode_record_some] at hread ⊢
  obtain ⟨⟨found, rest⟩, hslots, hread⟩ := bind_eq_ok_iff.1 hread
  obtain ⟨_, hend, hread⟩ := bind_eq_ok_iff.1 hread
  obtain rfl : rest = [] := by simpa using refuseIf_eq_ok_iff.1 hend
  have hsame : (fields'.map fun _ => (none : Option Bytes)) = fields.map fun _ => none := by
    rw [List.map_const', List.map_const', hlen]
  rw [hsame, readSlots_append hslots more (.user schema')]
  obtain ⟨hfound, hout⟩ := getElem?_of_readSlots hslots
  rw [List.length_map] at hfound
  refine Eq.trans (Eq.symm ?_) hread
  refine mapM_eq_of_forall₂ (P := fun q q' => q.1.decode q.2 = q'.1.decode q'.2)
    (fun _ _ h => h) (List.forall₂_iff_get.2 ⟨?_, fun i hi hi' => ?_⟩)
  · rw [List.length_zip, List.length_zip, hlen]
  · rw [List.length_zip, hfound, Nat.min_self] at hi
    have hc : fields[i]? = some fields[i] := List.getElem?_eq_getElem hi
    have hc' : fields'[i]? = some fields'[i] := List.getElem?_eq_getElem (hlen ▸ hi)
    obtain ⟨hin, hout'⟩ := h i _ _ hc hc'
    simp only [List.get_eq_getElem, List.getElem_zip]
    by_cases hslot : i ∈ slots
    · rw [hin hslot]
    · have hnone := hout i hslot
      rw [List.getElem?_eq_getElem (hfound ▸ hi), List.getElem?_map, hc, Option.map_some,
        Option.some.injEq] at hnone
      rw [hnone, hout' hslot]

end

end Coding

end CqlWire
