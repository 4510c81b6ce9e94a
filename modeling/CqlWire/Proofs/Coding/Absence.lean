import CqlWire.Proofs.Coding.Reading
import CqlWire.Proofs.Value.Listing

/-!
# Absent parts of collections

Sets have no absent elements and maps no absent keys. What is written of them stops at the first
such part with its literal (`encode_set_eq_error`, `encode_entries_eq_error`), and what is read of a
part comes from bytes or from a literal that is not NULL (`of_parse_elements`, `of_parse_entries`).
The other parts may be absent: what is stored of a collection is read, if each part is, as what is
read of its parts in turn (`decode_encode_elements`, `decode_encode_entries`).
-/

namespace CqlWire

open Text (isNullLiteral)

variable {ε α β : Type}

/-- A computation of all elements fails as it does at the first element where it fails. -/
theorem mapM_append_eq_error {f : α → Except ε β} {before : List α} {a : α} {e : ε}
    (hbefore : ∀ b ∈ before, ∃ r, f b = .ok r) (ha : f a = .error e) (behind : List α) :
    (before ++ a :: behind).mapM f = .error e := by
  induction before with
  | nil =>
    rw [List.nil_append, List.mapM_cons, ha]
    rfl
  | cons b before ih =>
    obtain ⟨⟨r, hr⟩, hbefore⟩ := List.forall_mem_cons.1 hbefore
    rw [List.cons_append, List.mapM_cons, hr, ih hbefore]
    rfl

/-- A value has a frame unless it is too long for one. -/
theorem Frame.exists_write_iff {raw : Option Bytes} :
    (∃ frame, write raw = .ok frame) ↔ ∀ bs, raw = some bs → bs.length ≤ maxLength := by
  cases raw with
  | none => exact ⟨fun _ => nofun, fun _ => ⟨_, rfl⟩⟩
  | some bs =>
    constructor
    · rintro ⟨frame, hframe⟩ _ ⟨⟩
      exact (write_some_eq_ok_iff.1 hframe).1
    · intro h
      exact ⟨_, write_some_eq_ok_iff.2 ⟨h bs rfl, rfl⟩⟩

namespace Coding

/-- What is stored for `w` fits into a frame. -/
def FitsFrame (c : Coding α) (w : α) : Prop :=
  ∃ raw, c.encode w = .ok raw ∧ ∀ bs, raw = some bs → bs.length ≤ Frame.maxLength

/-- Something is stored for `w`, and that is read as `u`. -/
def Carries (c : Coding α) (w u : α) : Prop :=
  ∃ raw, c.encode w = .ok raw ∧ c.decode raw = .ok u

theorem FitsFrame.exists_frame {c : Coding α} {w : α} (h : c.FitsFrame w) :
    ∃ raw frame, c.encode w = .ok raw ∧ Frame.write raw = .ok frame := by
  obtain ⟨raw, hraw, hfit⟩ := h
  obtain ⟨frame, hframe⟩ := Frame.exists_write_iff.2 hfit
  exact ⟨raw, frame, hraw, hframe⟩

theorem fitsFrame_of_write {c : Coding α} {w : α} {raw : Option Bytes} {frame : Bytes}
    (hraw : c.encode w = .ok raw) (hframe : Frame.write raw = .ok frame) : c.FitsFrame w :=
  ⟨raw, hraw, Frame.exists_write_iff.1 ⟨frame, hframe⟩⟩

/-- Bytes that were stored for a value, in its frame. -/
theorem FitsFrame.exists_some {c : Coding α} {w : α} (h : c.FitsFrame w)
    (hw : c.encode w ≠ .ok none) :
    ∃ bs frame, c.encode w = .ok (some bs) ∧ Frame.write (some bs) = .ok frame := by
  obtain ⟨raw, frame, hraw, hframe⟩ := h.exists_frame
  cases raw with
  | none => exact absurd hraw hw
  | some bs => exact ⟨bs, frame, hraw, hframe⟩

/-! ## Lists and sets -/

section

variable {c : Coding α} {kind : CollectionKind} {frozen : Bool}

/-- What a collection of so many elements stores depends on the frames of the elements only. -/
theorem encode_elements_of_frames {as : List α} (hlen : as.length ≤ Frame.maxLength) {e : Error}
    (h : as.mapM (encodeElement (kind.type frozen c.type) kind.allowsNull c) = .error e) :
    (elements kind frozen c).encode as = .error e := by
  have hcount : Frame.writeCount as.length = .ok (Bytes.ofNat 4 as.length) := if_pos hlen
  simp only [elements, encodeElements, hcount, h]
  rfl

/-- A set is not stored if an element is absent; the first one is to blame. -/
theorem encode_set_eq_error {before behind : List α} {a : α}
    (hlen : (before ++ a :: behind).length ≤ Frame.maxLength)
    (hbefore : ∀ b ∈ before, c.encode b ≠ .ok none ∧ c.FitsFrame b)
    (ha : c.encode a = .ok none) :
    (elements .set frozen c).encode (before ++ a :: behind) =
      .error (reject (.set frozen c.type) (c.format a) nullElement) := by
  refine encode_elements_of_frames hlen (mapM_append_eq_error (fun b hb => ?_) ?_ behind)
  · obtain ⟨hne, hfit⟩ := hbefore b hb
    obtain ⟨bs, frame, hbs, hframe⟩ := hfit.exists_some hne
    exact ⟨frame, encodeElement_eq_ok_iff.2 ⟨some bs, hbs, nofun, hframe⟩⟩
  · rw [encodeElement, ha]
    rfl

/-- The elements of what is stored have frames, and those of a set hold bytes. -/
theorem encode_elements_eq_ok {as : List α} {b : Option Bytes}
    (h : (elements kind frozen c).encode as = .ok b) : as.length ≤ Frame.maxLength ∧
      ∀ a ∈ as, c.FitsFrame a ∧ (c.encode a = .ok none → kind.allowsNull) := by
  obtain ⟨bs, hbs, rfl⟩ := map_eq_ok_iff.1 h
  simp only [encodeElements, bind_eq_ok_iff, pure_eq_ok_iff] at hbs
  obtain ⟨count, hcount, frames, hframes, -⟩ := hbs
  refine ⟨(Frame.writeCount_eq_ok_iff.1 hcount).1, fun a ha => ?_⟩
  obtain ⟨frame, hframe⟩ := exists_eq_ok_of_mapM hframes a ha
  obtain ⟨raw, hraw, hnull, hwrite⟩ := encodeElement_eq_ok_iff.1 hframe
  refine ⟨fitsFrame_of_write hraw hwrite, fun hnone => ?_⟩
  rw [hraw] at hnone
  cases hnone
  exact hnull rfl

/-- A list is stored if there is a frame for each of its elements, absent or not. -/
theorem exists_encode_list_iff {as : List α} :
    (∃ b, (elements .list frozen c).encode as = .ok b) ↔
      as.length ≤ Frame.maxLength ∧ ∀ a ∈ as, c.FitsFrame a := by
  constructor
  · rintro ⟨b, hb⟩
    obtain ⟨hlen, hfit⟩ := encode_elements_eq_ok hb
    exact ⟨hlen, fun a ha => (hfit a ha).1⟩
  · rintro ⟨hlen, hfit⟩
    refine exists_encode_elements hlen fun a ha => ?_
    obtain ⟨raw, frame, hraw, hframe⟩ := (hfit a ha).exists_frame
    exact ⟨frame, encodeElement_eq_ok_iff.2 ⟨raw, hraw, fun _ => rfl, hframe⟩⟩

/-- What is read of the frames of elements, whatever follows them, is read of one after another. -/
theorem forall₂_of_decodeElements {type : ColumnType} {allowsNull : Bool} {ws us : List α}
    {frames : List Bytes} (hf : ws.mapM (encodeElement type allowsNull c) = .ok frames)
    {index : Nat} {rest rest' : Bytes}
    (h : decodeElements type allowsNull c ws.length index (frames.flatten ++ rest) =
      .ok (us, rest')) : List.Forall₂ c.Carries ws us := by
  induction ws generalizing frames index us with
  | nil =>
    cases h
    exact .nil
  | cons w ws ih =>
    obtain ⟨frame, frames, hw, hws, rfl⟩ := mapM_cons_eq_ok_iff.1 hf
    obtain ⟨raw, hraw, -, hframe⟩ := encodeElement_eq_ok_iff.1 hw
    have hread : Frame.read type (frame ++ (frames.flatten ++ rest)) =
        .ok (raw, frames.flatten ++ rest) := Frame.read_write hframe _
    simp only [List.flatten_cons, List.append_assoc, List.length_cons, decodeElements, hread,
      bind_eq_ok_iff, pure_eq_ok_iff, Except.ok.injEq, exists_eq_left'] at h
    obtain ⟨-, -, u, hu, ⟨us, _⟩, hus, heq⟩ := h
    cases heq
    exact .cons ⟨raw, hraw, hu⟩ (ih hws hus)

theorem Carries.restores {w u : α} (h : c.Carries w u) : c.Restores w u := by
  obtain ⟨raw, hraw, hu⟩ := h
  intro b hb
  rw [hraw] at hb
  cases hb
  exact hu

/-- A collection that is stored is read as what its elements are read as, if each of them is. -/
theorem decode_encode_elements {ws us : List α} {b : Option Bytes}
    (hb : (elements kind frozen c).encode ws = .ok b) :
    (elements kind frozen c).decode b = .ok us ↔ List.Forall₂ c.Carries ws us := by
  constructor
  · intro h
    obtain ⟨bs, hbs, rfl⟩ := map_eq_ok_iff.1 hb
    simp only [encodeElements, bind_eq_ok_iff, pure_eq_ok_iff] at hbs
    obtain ⟨count, hcount, frames, hframes, rfl⟩ := hbs
    have hlen : 4 ≤ count.length := Nat.le_of_eq (Frame.length_of_writeCount hcount).symm
    have hne := Frame.not_isEmpty_append hlen frames.flatten
    have hread : Frame.readCount (kind.type frozen c.type) (count ++ frames.flatten) =
        .ok (ws.length, frames.flatten) := Frame.readCount_eq_ok_iff.2 ⟨count, hcount, rfl⟩
    simp only [elements, bind_eq_ok_iff, Frame.require_eq_ok_iff, Option.some.injEq,
      exists_eq_left', if_neg hne, hread, Except.ok.injEq, pure_eq_ok_iff] at h
    obtain ⟨⟨us, rest⟩, hus, -, -, rfl⟩ := h
    rw [← List.append_nil frames.flatten] at hus
    exact forall₂_of_decodeElements hframes hus
  · intro h
    exact restores_elements (h.imp fun _ _ => Carries.restores) b hb

/-- Elements are read of parts of the literal, those of a set of none that is NULL. -/
theorem of_parse_elements {text : List Char} {as : List α}
    (h : (elements kind frozen c).parse text = .ok as) :
    ∀ a ∈ as, ∃ part, (isNullLiteral part → kind.allowsNull) ∧ c.parse part = .ok a := by
  simp only [elements, bind_eq_ok_iff] at h
  obtain ⟨parts, -, hparts⟩ := h
  intro a ha
  obtain ⟨part, -, hpart⟩ := exists_of_forall₂ (mapM_eq_ok_iff.1 hparts) ha
  unfold parseElement at hpart
  split at hpart
  · cases hpart
  · rename_i hallowed
    exact ⟨part, fun hnull => by simpa [hnull] using hallowed, hpart⟩

end

/-! ## Maps -/

section

variable {k : Coding α} {v : Coding β} {frozen : Bool}

theorem encodeEntry_eq_ok {type : ColumnType} {e : α × β}
    (hkey : k.encode e.1 ≠ .ok none ∧ k.FitsFrame e.1) (hvalue : v.FitsFrame e.2) :
    ∃ bs, encodeEntry type k v e = .ok bs := by
  obtain ⟨rawKey, key, hrawKey, hwriteKey⟩ := hkey.2.exists_some hkey.1
  obtain ⟨rawValue, value, hrawValue, hwriteValue⟩ := hvalue.exists_frame
  exact ⟨key ++ value, encodeEntry_eq_ok_iff.2
    ⟨rawKey, rawValue, key, value, hrawKey, hrawValue, hwriteKey, hwriteValue, rfl⟩⟩

/-- A map is not stored if a key is absent; the first one is to blame. -/
theorem encode_entries_eq_error {before behind : List (α × β)} {e : α × β}
    (hlen : (before ++ e :: behind).length ≤ Frame.maxLength)
    (hbefore : ∀ b ∈ before, (k.encode b.1 ≠ .ok none ∧ k.FitsFrame b.1) ∧ v.FitsFrame b.2)
    (he : k.encode e.1 = .ok none) :
    (entries frozen k v).encode (before ++ e :: behind) =
      .error (reject (.map frozen k.type v.type) (k.format e.1) nullKey) := by
  have hcount : Frame.writeCount (before ++ e :: behind).length =
      .ok (Bytes.ofNat 4 (before ++ e :: behind).length) := if_pos hlen
  have hkey : encodeEntry (.map frozen k.type v.type) k v e =
      .error (reject (.map frozen k.type v.type) (k.format e.1) nullKey) := by
    rw [encodeEntry, he]
    rfl
  have hfail := mapM_append_eq_error
    (fun b hb => encodeEntry_eq_ok (hbefore b hb).1 (hbefore b hb).2) hkey behind
  simp only [entries, hcount, hfail]
  rfl

/-- The keys and values of what is stored have frames, and those of keys hold bytes. -/
theorem encode_entries_eq_ok {es : List (α × β)} {b : Option Bytes}
    (h : (entries frozen k v).encode es = .ok b) : es.length ≤ Frame.maxLength ∧
      ∀ e ∈ es, (k.encode e.1 ≠ .ok none ∧ k.FitsFrame e.1) ∧ v.FitsFrame e.2 := by
  simp only [entries, bind_eq_ok_iff, pure_eq_ok_iff] at h
  obtain ⟨count, hcount, frames, hframes, -⟩ := h
  refine ⟨(Frame.writeCount_eq_ok_iff.1 hcount).1, fun e he => ?_⟩
  obtain ⟨frame, hframe⟩ := exists_eq_ok_of_mapM hframes e he
  obtain ⟨rawKey, rawValue, key, value, hk, hv, hkey, hvalue, -⟩ := encodeEntry_eq_ok_iff.1 hframe
  refine ⟨⟨fun hnone => ?_, fitsFrame_of_write hk hkey⟩, fitsFrame_of_write hv hvalue⟩
  rw [hk] at hnone
  cases hnone

/-- A map is stored if there are frames for its keys, of which none is absent, and its values. -/
theorem exists_encode_entries_iff {es : List (α × β)} :
    (∃ b, (entries frozen k v).encode es = .ok b) ↔ es.length ≤ Frame.maxLength ∧
      ∀ e ∈ es, (k.encode e.1 ≠ .ok none ∧ k.FitsFrame e.1) ∧ v.FitsFrame e.2 := by
  constructor
  · rintro ⟨b, hb⟩
    exact encode_entries_eq_ok hb
  · rintro ⟨hlen, hfit⟩
    exact exists_encode_entries hlen fun e he => encodeEntry_eq_ok (hfit e he).1 (hfit e he).2

/-- What is read of the frames of entries, whatever follows them, is read of one after another. -/
theorem forall₂_of_decodeEntries {type : ColumnType} {ws us : List (α × β)}
    {frames : List Bytes} (hf : ws.mapM (encodeEntry type k v) = .ok frames)
    {index : Nat} {rest rest' : Bytes}
    (h : decodeEntries type k v ws.length index (frames.flatten ++ rest) = .ok (us, rest')) :
    List.Forall₂ (fun w u => k.Carries w.1 u.1 ∧ v.Carries w.2 u.2) ws us := by
  induction ws generalizing frames index us with
  | nil =>
    cases h
    exact .nil
  | cons w ws ih =>
    obtain ⟨frame, frames, hw, hws, rfl⟩ := mapM_cons_eq_ok_iff.1 hf
    obtain ⟨rawKey, rawValue, key, value, hk, hv, hkey, hvalue, rfl⟩ := encodeEntry_eq_ok_iff.1 hw
    have hreadKey : Frame.read type (key ++ (value ++ (frames.flatten ++ rest))) =
        .ok (some rawKey, value ++ (frames.flatten ++ rest)) := Frame.read_write hkey _
    have hreadValue : Frame.read type (value ++ (frames.flatten ++ rest)) =
        .ok (rawValue, frames.flatten ++ rest) := Frame.read_write hvalue _
    simp only [List.flatten_cons, List.append_assoc, List.length_cons, decodeEntries, hreadKey,
      bind_eq_ok_iff, pure_eq_ok_iff, Except.ok.injEq, exists_eq_left', hreadValue] at h
    obtain ⟨-, -, key, hkey, value, hvalue, ⟨us, _⟩, hus, heq⟩ := h
    cases heq
    exact .cons ⟨⟨some rawKey, hk, hkey⟩, rawValue, hv, hvalue⟩ (ih hws hus)

/-- A map that is stored is read as what its keys and values are read as, if each of them is. -/
theorem decode_encode_entries {ws us : List (α × β)} {b : Option Bytes}
    (hb : (entries frozen k v).encode ws = .ok b) : (entries frozen k v).decode b = .ok us ↔
      List.Forall₂ (fun w u => k.Carries w.1 u.1 ∧ v.Carries w.2 u.2) ws us := by
  constructor
  · intro h
    simp only [entries, bind_eq_ok_iff, pure_eq_ok_iff] at hb
    obtain ⟨count, hcount, frames, hframes, rfl⟩ := hb
    have hlen : 4 ≤ count.length := Nat.le_of_eq (Frame.length_of_writeCount hcount).symm
    have hne := Frame.not_isEmpty_append hlen frames.flatten
    have hread : Frame.readCount (.map frozen k.type v.type) (count ++ frames.flatten) =
        .ok (ws.length, frames.flatten) := Frame.readCount_eq_ok_iff.2 ⟨count, hcount, rfl⟩
    simp only [entries, bind_eq_ok_iff, Frame.require_eq_ok_iff, Option.some.injEq,
      exists_eq_left', if_neg hne, hread, Except.ok.injEq, pure_eq_ok_iff] at h
    obtain ⟨⟨us, rest⟩, hus, -, -, rfl⟩ := h
    rw [← List.append_nil frames.flatten] at hus
    exact forall₂_of_decodeEntries hframes hus
  · intro h
    exact restores_entries (h.imp fun _ _ hwu => ⟨hwu.1.restores, hwu.2.restores⟩) b hb

/-- Keys are read of parts of the literal that are not NULL. -/
theorem of_parse_entries {text : List Char} {es : List (α × β)}
    (h : (entries frozen k v).parse text = .ok es) :
    ∀ e ∈ es, ∃ part, isNullLiteral part = false ∧ k.parse part = .ok e.1 := by
  simp only [entries, bind_eq_ok_iff] at h
  obtain ⟨parts, -, hparts⟩ := h
  intro e he
  obtain ⟨part, -, hpart⟩ := exists_of_forall₂ (mapM_eq_ok_iff.1 hparts) he
  simp only [parseEntry, bind_eq_ok_iff, pure_eq_ok_iff, refuseIf_eq_ok_iff] at hpart
  obtain ⟨-, hnull, key, hkey, value, -, rfl⟩ := hpart
  exact ⟨part.1, Bool.eq_false_iff.2 hnull, hkey⟩

end

end Coding

end CqlWire
