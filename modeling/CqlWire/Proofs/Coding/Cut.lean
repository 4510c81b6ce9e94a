import CqlWire.Proofs.Coding.Boundary

/-!
# Collections that are cut or go on

The bytes of a collection say how many there are of them: the count says how many frames follow, and
each frame how many bytes. So where they are cut, within the count, within a frame or between two
frames, the reader finds too few of them (`exists_of_decodeElements_cut`,
`exists_of_decodeEntries_cut`), and where more follow it finds too many. Either way they are refused
as malformed (`Coding.Sealed`, `sealed_elements`, `sealed_entries`), if all that stands before the
cut can be read. Only the cut in front of all bytes is read, as the empty collection.
-/

namespace CqlWire

/-- The first bytes of two parts end within the first part, or behind it. -/
theorem cut_append {γ : Type} {p as bs : List γ} (h : p <+: as ++ bs) :
    (p <+: as ∧ p ≠ as) ∨ ∃ q, q <+: bs ∧ as ++ q = p := by
  rcases List.prefix_or_prefix_of_prefix h (List.prefix_append as bs) with hp | ⟨q, rfl⟩
  · by_cases heq : p = as
    · exact .inr ⟨[], List.nil_prefix, by rw [heq, List.append_nil]⟩
    · exact .inl ⟨hp, heq⟩
  · exact .inr ⟨q, (List.prefix_append_right_inj as).1 h, rfl⟩

namespace Frame

theorem exists_of_readCount_eq_error {type : ColumnType} {bs : Bytes} {e : Error}
    (h : readCount type bs = .error e) : ∃ reason, e = .decode type.toText reason := by
  unfold readCount at h
  split at h
  · cases h
    exact ⟨_, rfl⟩
  · dsimp only at h
    split at h
    · cases h
      exact ⟨_, rfl⟩
    · cases h

/-- A count that is cut is refused. -/
theorem exists_of_readCount_cut (type : ColumnType) {p : Bytes} (h : p.length < 4) :
    ∃ reason, readCount type p = .error (.decode type.toText reason) := by
  cases hread : readCount type p with
  | error e =>
    obtain ⟨reason, rfl⟩ := exists_of_readCount_eq_error hread
    exact ⟨reason, rfl⟩
  | ok r =>
    obtain ⟨head, hw, rfl⟩ := readCount_eq_ok_iff.1 hread
    have hlen := length_of_writeCount hw
    rw [List.length_append] at h
    omega

/-- A frame that is cut is refused. -/
theorem exists_of_read_cut (type : ColumnType) {raw : Option Bytes} {frame p : Bytes}
    (hw : write raw = .ok frame) (hp : p <+: frame) (hne : p ≠ frame) :
    ∃ reason, read type p = .error (.decode type.toText reason) := by
  cases hread : read type p with
  | error e =>
    obtain ⟨reason, rfl⟩ := exists_of_read_eq_error hread
    exact ⟨reason, rfl⟩
  | ok r =>
    obtain ⟨head, hw', rfl⟩ := read_eq_ok_iff.1 hread
    obtain ⟨more, rfl⟩ := hp
    -- What was read from the first bytes is read from the whole frame, which leaves nothing.
    have hwhole : read type (head ++ r.2 ++ more ++ []) = .ok (raw, []) := read_write hw []
    rw [List.append_nil, List.append_assoc, read_write hw'] at hwhole
    have hrest : r.2 ++ more = [] := congrArg Prod.snd (Except.ok.inj hwhole)
    have hmore : more = [] := (List.append_eq_nil_iff.1 hrest).2
    exact absurd (by rw [hmore, List.append_nil]) hne

theorem exists_of_expectEnd (type : ColumnType) {bs : Bytes} (h : bs ≠ []) :
    ∃ reason, expectEnd type bs = .error (.decode type.toText reason) := by
  cases bs with
  | nil => exact absurd rfl h
  | cons b bs => exact ⟨_, rfl⟩

end Frame

namespace Coding

variable {α β : Type}

/-- Neither the first of the bytes alone nor the bytes with more behind them are read. -/
structure Sealed (c : Coding α) (bs : Bytes) : Prop where
  cut : ∀ p, p <+: bs → p ≠ [] → p ≠ bs →
    ∃ reason, c.decode (some p) = .error (.decode c.type.toText reason)
  extended : ∀ more, more ≠ [] →
    ∃ reason, c.decode (some (bs ++ more)) = .error (.decode c.type.toText reason)

theorem sealed_onValues {c : Coding α} {bs : Bytes} (h : c.Sealed bs) (toValue : α → Value)
    (ofValue? : Value → Option α) : (c.onValues toValue ofValue?).Sealed bs where
  cut p hp hne hne' := by
    obtain ⟨reason, herror⟩ := h.cut p hp hne hne'
    exact ⟨reason, map_eq_error_iff.2 herror⟩
  extended more hmore := by
    obtain ⟨reason, herror⟩ := h.extended more hmore
    exact ⟨reason, map_eq_error_iff.2 herror⟩

/-- A coding that reads a count and then as many parts is sealed where its parts are. -/
theorem sealed_of_counted {c : Coding (List α)} (read : Nat → Bytes → Except Error (List α × Bytes))
    (hdecode : ∀ bs, bs ≠ [] → c.decode (some bs) = (Frame.readCount c.type bs >>= fun p =>
      read p.1 p.2 >>= fun q => Frame.expectEnd c.type q.2 >>= fun _ => pure q.1))
    {us : List α} {count body : Bytes} (hc : Frame.writeCount us.length = .ok count)
    (hcut : ∀ p, p <+: body → p ≠ body →
      ∃ reason, read us.length p = .error (.decode c.type.toText reason))
    (hwhole : ∀ more, read us.length (body ++ more) = .ok (us, more)) :
    c.Sealed (count ++ body) := by
  have hlen := Frame.length_of_writeCount hc
  have hcount : ∀ rest, Frame.readCount c.type (count ++ rest) = .ok (us.length, rest) :=
    fun rest => Frame.readCount_eq_ok_iff.2 ⟨count, hc, rfl⟩
  constructor
  · intro p hp hne hne'
    rw [hdecode p hne]
    rcases cut_append hp with ⟨hshort, hother⟩ | ⟨q, hq, rfl⟩
    · have hlt : p.length < 4 := by
        have hle := hshort.length_le
        have hdiffers : p.length ≠ count.length := fun heq => hother (hshort.eq_of_length heq)
        omega
      obtain ⟨reason, hread⟩ := Frame.exists_of_readCount_cut c.type hlt
      exact ⟨reason, bind_eq_error_iff.2 (.inl hread)⟩
    · obtain ⟨reason, hread⟩ := hcut q hq fun heq => hne' (by rw [heq])
      refine ⟨reason, bind_eq_error_iff.2 (.inr ⟨_, hcount q, bind_eq_error_iff.2 (.inl hread)⟩)⟩
  · intro more hmore
    have hne : count ++ body ++ more ≠ [] :=
      fun heq => hmore (List.append_eq_nil_iff.1 heq).2
    obtain ⟨reason, hend⟩ := Frame.exists_of_expectEnd c.type hmore
    rw [hdecode _ hne, List.append_assoc]
    refine ⟨reason, bind_eq_error_iff.2 (.inr ⟨_, hcount (body ++ more), ?_⟩)⟩
    exact bind_eq_error_iff.2 (.inr ⟨_, hwhole more, bind_eq_error_iff.2 (.inl hend)⟩)

/-! ## Lists and sets -/

/-- Where the frames of elements are cut, the frame of an element is. -/
theorem exists_of_decodeElements_cut {type : ColumnType} {allowsNull : Bool} {c : Coding α}
    {ws us : List α} {frames : List Bytes} (h : List.Forall₂ c.Restores ws us)
    (hf : ws.mapM (encodeElement type allowsNull c) = .ok frames) (index : Nat) {p : Bytes}
    (hp : p <+: frames.flatten) (hne : p ≠ frames.flatten) :
    ∃ reason, decodeElements type allowsNull c us.length index p =
      .error (.decode type.toText reason) := by
  induction h generalizing frames index p with
  | nil =>
    rw [mapM_nil_eq_ok_iff.1 hf] at hp hne
    exact absurd (List.prefix_nil.1 hp) hne
  | @cons w u ws us hu _ ih =>
    obtain ⟨frame, frames, hw, hws, rfl⟩ := mapM_cons_eq_ok_iff.1 hf
    obtain ⟨raw, hr, ha, hframe⟩ := encodeElement_eq_ok_iff.1 hw
    rw [List.flatten_cons] at hp hne
    rcases cut_append hp with ⟨hshort, hcut⟩ | ⟨q, hq, rfl⟩
    · obtain ⟨reason, hread⟩ := Frame.exists_of_read_cut type hframe hshort hcut
      exact ⟨reason, bind_eq_error_iff.2 (.inl hread)⟩
    · have hne' : q ≠ frames.flatten := fun heq => hne (by rw [heq])
      obtain ⟨reason, hrest⟩ := ih hws (index + 1) hq hne'
      have hnull : ¬(raw.isNone && !allowsNull) = true := by
        cases hn : raw.isNone
        · simp
        · simp [ha hn]
      refine ⟨reason, ?_⟩
      simp only [List.length_cons, decodeElements, bind_eq_error_iff]
      refine .inr ⟨(raw, q), Frame.read_write hframe q, .inr ⟨(), refuseIf_eq_ok_iff.2 hnull, ?_⟩⟩
      exact .inr ⟨u, hu raw hr, .inl hrest⟩

theorem sealed_elements {kind : CollectionKind} {frozen : Bool} {c : Coding α} {ws us : List α}
    (h : List.Forall₂ c.Restores ws us) {bs : Bytes}
    (hb : (elements kind frozen c).encode ws = .ok (some bs)) :
    (elements kind frozen c).Sealed bs := by
  obtain ⟨bs, hbs, heq⟩ := map_eq_ok_iff.1 hb
  cases heq
  simp only [encodeElements, bind_eq_ok_iff, pure_eq_ok_iff] at hbs
  obtain ⟨count, hc, frames, hf, rfl⟩ := hbs
  rw [h.length_eq] at hc
  refine sealed_of_counted (fun n => decodeElements (kind.type frozen c.type) kind.allowsNull c n 0)
    (fun bs hne => ?_) hc ?_ (decodeElements_frames h hf 0)
  · have hnonempty : ¬bs.isEmpty = true := by rwa [List.isEmpty_iff]
    exact if_neg hnonempty
  · exact fun p hp hne => exists_of_decodeElements_cut h hf 0 hp hne

/-! ## Maps -/

/-- Where the frames of entries are cut, the frame of a key or of a value is. -/
theorem exists_of_decodeEntries_cut {type : ColumnType} {k : Coding α} {v : Coding β}
    {ws us : List (α × β)} {frames : List Bytes}
    (h : List.Forall₂ (fun w u => k.Restores w.1 u.1 ∧ v.Restores w.2 u.2) ws us)
    (hf : ws.mapM (encodeEntry type k v) = .ok frames) (index : Nat) {p : Bytes}
    (hp : p <+: frames.flatten) (hne : p ≠ frames.flatten) :
    ∃ reason, decodeEntries type k v us.length index p = .error (.decode type.toText reason) := by
  induction h generalizing frames index p with
  | nil =>
    rw [mapM_nil_eq_ok_iff.1 hf] at hp hne
    exact absurd (List.prefix_nil.1 hp) hne
  | @cons w u ws us hu _ ih =>
    obtain ⟨frame, frames, hw, hws, rfl⟩ := mapM_cons_eq_ok_iff.1 hf
    obtain ⟨rawKey, rawValue, key, value, hk, hv, hkey, hvalue, rfl⟩ := encodeEntry_eq_ok_iff.1 hw
    rw [List.flatten_cons, List.append_assoc] at hp hne
    rcases cut_append hp with ⟨hshort, hcut⟩ | ⟨q, hq, rfl⟩
    · obtain ⟨reason, hread⟩ := Frame.exists_of_read_cut type hkey hshort hcut
      exact ⟨reason, bind_eq_error_iff.2 (.inl hread)⟩
    · simp only [List.length_cons, decodeEntries, bind_eq_error_iff]
      have hreadKey : Frame.read type (key ++ q) = .ok (some rawKey, q) :=
        Frame.read_write hkey q
      have hnull : refuseIf ((some rawKey).isNone = true)
          (Error.decode type.toText s!"null key at entry {index}") = .ok () :=
        refuseIf_eq_ok_iff.2 Bool.false_ne_true
      rcases cut_append hq with ⟨hshort, hcut⟩ | ⟨r, hr, rfl⟩
      · obtain ⟨reason, hread⟩ := Frame.exists_of_read_cut type hvalue hshort hcut
        exact ⟨reason, .inr ⟨_, hreadKey, .inr ⟨_, hnull, .inl hread⟩⟩⟩
      · have hne' : r ≠ frames.flatten := fun heq => hne (by rw [heq])
        obtain ⟨reason, hrest⟩ := ih hws (index + 1) hr hne'
        have hreadValue : Frame.read type (value ++ r) = .ok (rawValue, r) :=
          Frame.read_write hvalue r
        exact ⟨reason, .inr ⟨_, hreadKey, .inr ⟨_, hnull, .inr ⟨_, hreadValue,
          .inr ⟨u.1, hu.1 _ hk, .inr ⟨u.2, hu.2 _ hv, .inl hrest⟩⟩⟩⟩⟩⟩

theorem sealed_entries {k : Coding α} {v : Coding β} {frozen : Bool} {ws us : List (α × β)}
    (h : List.Forall₂ (fun w u => k.Restores w.1 u.1 ∧ v.Restores w.2 u.2) ws us) {bs : Bytes}
    (hb : (entries frozen k v).encode ws = .ok (some bs)) : (entries frozen k v).Sealed bs := by
  simp only [entries, bind_eq_ok_iff, pure_eq_ok_iff] at hb
  obtain ⟨count, hc, frames, hf, heq⟩ := hb
  cases heq
  rw [h.length_eq] at hc
  refine sealed_of_counted (fun n => decodeEntries (.map frozen k.type v.type) k v n 0)
    (fun bs hne => ?_) hc ?_ (decodeEntries_frames h hf 0)
  · have hnonempty : ¬bs.isEmpty = true := by rwa [List.isEmpty_iff]
    exact if_neg hnonempty
  · exact fun p hp hne => exists_of_decodeEntries_cut h hf 0 hp hne

end Coding

end CqlWire
