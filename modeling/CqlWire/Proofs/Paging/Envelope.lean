import CqlWire.Paging.Token
import CqlWire.Proofs.Frame
import CqlWire.Proofs.Text.Utf8

/-!
# Envelopes are read as they were written

A field of an envelope is a frame (`readField_eq_ok_iff`), several are their number and the frames
one after the other (`readCounted_eq_ok_iff`), and so an envelope is read from its own bytes and from
no others (`read_eq_ok_iff_write`). All other bytes are refused as a corrupted state (`read_eq_error`).
-/

namespace CqlWire.Envelope

open CqlWire.Frame (split?)

/-! ## Numbers and fields -/

/-- A field of an envelope is read where a framed value is. -/
theorem readField_eq_ok_iff_read (type : ColumnType) {bs rest : Bytes} {v : Option Bytes} :
    readField bs = .ok (v, rest) ↔ Frame.read type bs = .ok (v, rest) := by
  unfold readField readNumber Frame.read
  cases hs : split? 4 bs with
  | none => exact ⟨nofun, nofun⟩
  | some p =>
    dsimp only
    show (if Bytes.toInt p.1 = -1 then _ else _) = _ ↔ _
    split
    · exact Iff.rfl
    split
    · exact ⟨nofun, nofun⟩
    cases split? (Bytes.toInt p.1).toNat p.2 with
    | none => exact ⟨nofun, nofun⟩
    | some q => exact Iff.rfl

/-- A field is read from its own frame and from no others. -/
theorem readField_eq_ok_iff {bs rest : Bytes} {v : Option Bytes} : readField bs = .ok (v, rest) ↔
    ∃ head, Frame.write v = .ok head ∧ head ++ rest = bs :=
  (readField_eq_ok_iff_read (.scalar .blob)).trans Frame.read_eq_ok_iff

theorem readPresent_eq_ok_iff {what : String} {bs value rest : Bytes} :
    readPresent what bs = .ok (value, rest) ↔ readField bs = .ok (some value, rest) := by
  simp only [readPresent, bind_eq_ok_iff]
  constructor
  · rintro ⟨⟨v, r⟩, hv, h⟩
    cases v with
    | none => cases h
    | some v =>
      cases h
      exact hv
  · intro h
    exact ⟨(some value, rest), h, rfl⟩

/-- As many fields as asked for are read from their frames and from no others. -/
theorem readFields_eq_ok_iff {count : Nat} {bs rest : Bytes} {vs : List (Option Bytes)} :
    readFields count bs = .ok (vs, rest) ↔
      vs.length = count ∧ ∃ head, writeAll vs = .ok head ∧ head ++ rest = bs := by
  induction count generalizing bs vs with
  | zero =>
    constructor
    · intro h
      cases h
      exact ⟨rfl, [], rfl, rfl⟩
    · rintro ⟨hlen, head, hw, rfl⟩
      obtain rfl := List.length_eq_zero_iff.1 hlen
      cases hw
      rfl
  | succ count ih =>
    simp only [readFields, bind_eq_ok_iff, pure_eq_ok_iff]
    constructor
    · rintro ⟨⟨v, r⟩, hv, ⟨us, r'⟩, hus, h⟩
      cases h
      obtain ⟨head, hhead, rfl⟩ := readField_eq_ok_iff.1 hv
      obtain ⟨hlen, tail, htail, rfl⟩ := ih.1 hus
      refine ⟨by rw [List.length_cons, hlen], head ++ tail, ?_, List.append_assoc _ _ _⟩
      simp only [writeAll, bind_eq_ok_iff, pure_eq_ok_iff]
      exact ⟨head, hhead, tail, htail, rfl⟩
    · rintro ⟨hlen, bytes, hw, rfl⟩
      cases vs with
      | nil => cases hlen
      | cons v vs =>
        simp only [writeAll, bind_eq_ok_iff, pure_eq_ok_iff] at hw
        obtain ⟨head, hhead, tail, htail, rfl⟩ := hw
        refine ⟨(v, tail ++ rest), readField_eq_ok_iff.2 ⟨head, hhead, ?_⟩, (vs, rest), ?_, rfl⟩
        · rw [List.append_assoc]
        · exact ih.2 ⟨Nat.succ.inj hlen, tail, htail, rfl⟩

/-- The number of the values is read where a count is. -/
theorem readCount_eq_ok_iff_read (type : ColumnType) {bs rest : Bytes} {n : Nat} :
    readCount bs = .ok (n, rest) ↔ Frame.readCount type bs = .ok (n, rest) := by
  unfold readCount readNumber Frame.readCount
  cases hs : split? 4 bs with
  | none => exact iff_of_false (by rintro ⟨⟩) (by rintro ⟨⟩)
  | some p =>
    show (do refuseIf (Bytes.toInt p.1 < 0) _; _) = _ ↔ (if Bytes.toInt p.1 < 0 then _ else _) = _
    by_cases hn : Bytes.toInt p.1 < 0
    · rw [refuseIf, if_pos hn, if_pos hn]
      exact iff_of_false (by rintro ⟨⟩) (by rintro ⟨⟩)
    · rw [refuseIf, if_neg hn, if_neg hn]
      exact Iff.rfl

/-- The values are read from their number and their frames, and from no other bytes. -/
theorem readCounted_eq_ok_iff {bs rest : Bytes} {vs : List (Option Bytes)} :
    readCounted bs = .ok (vs, rest) ↔ ∃ count values, Frame.writeCount vs.length = .ok count ∧
      writeAll vs = .ok values ∧ count ++ (values ++ rest) = bs := by
  simp only [readCounted, bind_eq_ok_iff, Prod.exists, readFields_eq_ok_iff,
    readCount_eq_ok_iff_read (.scalar .blob), Frame.readCount_eq_ok_iff]
  constructor
  · rintro ⟨_, _, ⟨count, hcount, rfl⟩, rfl, values, hvalues, rfl⟩
    exact ⟨count, values, hcount, hvalues, rfl⟩
  · rintro ⟨count, values, hcount, hvalues, rfl⟩
    exact ⟨vs.length, values ++ rest, ⟨count, hcount, rfl⟩, rfl, values, hvalues, rfl⟩

/-! ## Whole envelopes -/

/-- The parts of an envelope, each with its bytes. -/
theorem write_eq_ok_iff {state : PagingState} {f : Fingerprint} {body : Bytes} :
    write state f = .ok body ↔ ∃ stateFrame queryFrame count values,
      Frame.write (some state.bytes) = .ok stateFrame ∧
      Frame.write (some (Utf8.encode f.query.toList)) = .ok queryFrame ∧
      Frame.writeCount f.values.length = .ok count ∧ writeAll f.values = .ok values ∧
        version :: (stateFrame ++ (queryFrame ++ (count ++ values))) = body := by
  simp only [write, bind_eq_ok_iff, pure_eq_ok_iff, List.append_assoc]
  constructor
  · rintro ⟨a, ha, b, hb, c, hc, d, hd, rfl⟩
    exact ⟨a, b, c, d, ha, hb, hc, hd, rfl⟩
  · rintro ⟨a, b, c, d, ha, hb, hc, hd, rfl⟩
    exact ⟨a, ha, b, hb, c, hc, d, hd, rfl⟩

/-- An envelope is read from its own bytes and from no others. -/
theorem read_eq_ok_iff_write {body : Bytes} {state : PagingState} {f : Fingerprint} :
    read body = .ok (state, f) ↔ write state f = .ok body := by
  simp only [read, bind_eq_ok_iff, pure_eq_ok_iff, refuseIf_eq_ok_iff, Decidable.not_not]
  rw [write_eq_ok_iff]
  constructor
  · rintro ⟨-, hversion, ⟨value, r₁⟩, hstate, ⟨query, r₂⟩, hquery, text, htext,
      ⟨values, r₃⟩, hvalues, -, hend, h⟩
    cases h
    dsimp only at hquery htext hvalues hend
    obtain ⟨stateFrame, hs, hbs⟩ := readField_eq_ok_iff.1 (readPresent_eq_ok_iff.1 hstate)
    obtain ⟨queryFrame, hq, rfl⟩ := readField_eq_ok_iff.1 (readPresent_eq_ok_iff.1 hquery)
    obtain ⟨count, valueFrames, hc, hv, rfl⟩ := readCounted_eq_ok_iff.1 hvalues
    have hr : r₃ = [] := by simpa using hend
    have htext' : Utf8.encode text = query := by
      cases hd : Utf8.decode query with
      | error e =>
        rw [hd] at htext
        cases htext
      | ok text' =>
        rw [hd] at htext
        cases htext
        exact Utf8.decode_eq_ok_iff.1 hd
    refine ⟨stateFrame, queryFrame, count, valueFrames, hs, ?_, hc, hv, ?_⟩
    · rw [String.toList_ofList, htext']
      exact hq
    · rw [hr, List.append_nil] at hbs
      obtain ⟨rest, rfl⟩ := List.head?_eq_some_iff.1 hversion
      rw [hbs, List.tail_cons]
  · rintro ⟨stateFrame, queryFrame, count, values, hs, hq, hc, hv, rfl⟩
    refine ⟨(), rfl, (state.bytes, queryFrame ++ (count ++ values)), ?_, ?_⟩
    · exact readPresent_eq_ok_iff.2 (readField_eq_ok_iff.2 ⟨stateFrame, hs, rfl⟩)
    refine ⟨(Utf8.encode f.query.toList, count ++ values), ?_, f.query.toList, ?_, ?_⟩
    · exact readPresent_eq_ok_iff.2 (readField_eq_ok_iff.2 ⟨queryFrame, hq, rfl⟩)
    · dsimp only
      rw [Utf8.decode_encode]
      rfl
    refine ⟨(f.values, []), readCounted_eq_ok_iff.2 ⟨count, values, hc, hv, ?_⟩, (), ?_, ?_⟩
    · rw [List.append_nil]
    · simp
    · rw [String.ofList_toList]

/-! ## Refusals -/

theorem readNumber_eq_error {bs : Bytes} {e : Error} (h : readNumber bs = .error e) :
    ∃ reason, e = .corruptedState reason := by
  unfold readNumber at h
  split at h
  · cases h
    exact ⟨_, rfl⟩
  · cases h

theorem readField_eq_error {bs : Bytes} {e : Error} (h : readField bs = .error e) :
    ∃ reason, e = .corruptedState reason := by
  rcases bind_eq_error_iff.1 h with h | ⟨⟨n, rest⟩, -, h⟩
  · exact readNumber_eq_error h
  dsimp only at h
  split at h
  · cases h
  split at h
  · cases h
    exact ⟨_, rfl⟩
  split at h
  · cases h
    exact ⟨_, rfl⟩
  · cases h

theorem readFields_eq_error {count : Nat} {bs : Bytes} {e : Error}
    (h : readFields count bs = .error e) : ∃ reason, e = .corruptedState reason := by
  induction count generalizing bs with
  | zero => cases h
  | succ count ih =>
    rcases bind_eq_error_iff.1 h with h | ⟨⟨v, r⟩, -, h⟩
    · exact readField_eq_error h
    rcases bind_eq_error_iff.1 h with h | ⟨⟨vs, r'⟩, -, h⟩
    · exact ih h
    · cases h

theorem readCounted_eq_error {bs : Bytes} {e : Error} (h : readCounted bs = .error e) :
    ∃ reason, e = .corruptedState reason := by
  rcases bind_eq_error_iff.1 h with h | ⟨⟨n, rest⟩, -, h⟩
  · rcases bind_eq_error_iff.1 h with h | ⟨⟨n, r⟩, -, h⟩
    · exact readNumber_eq_error h
    rcases bind_eq_error_iff.1 h with h | ⟨_, -, h⟩
    · exact ⟨_, (refuseIf_eq_error_iff.1 h).2.symm⟩
    · cases h
  · exact readFields_eq_error h

theorem readPresent_eq_error {what : String} {bs : Bytes} {e : Error}
    (h : readPresent what bs = .error e) : ∃ reason, e = .corruptedState reason := by
  rcases bind_eq_error_iff.1 h with h | ⟨⟨v, rest⟩, -, h⟩
  · exact readField_eq_error h
  cases v with
  | none =>
    cases h
    exact ⟨_, rfl⟩
  | some v => cases h

/-- Bytes that are no envelope are refused as a corrupted state. -/
theorem read_eq_error {body : Bytes} {e : Error} (h : read body = .error e) :
    ∃ reason, e = .corruptedState reason := by
  rcases bind_eq_error_iff.1 h with h | ⟨_, -, h⟩
  · exact ⟨_, (refuseIf_eq_error_iff.1 h).2.symm⟩
  rcases bind_eq_error_iff.1 h with h | ⟨_, -, h⟩
  · exact readPresent_eq_error h
  rcases bind_eq_error_iff.1 h with h | ⟨⟨query, _⟩, -, h⟩
  · exact readPresent_eq_error h
  rcases bind_eq_error_iff.1 h with h | ⟨_, -, h⟩
  · cases hd : Utf8.decode query with
    | ok text =>
      rw [hd] at h
      cases h
    | error refusal =>
      rw [hd] at h
      cases h
      exact ⟨_, rfl⟩
  rcases bind_eq_error_iff.1 h with h | ⟨_, -, h⟩
  · exact readCounted_eq_error h
  rcases bind_eq_error_iff.1 h with h | ⟨_, -, h⟩
  · exact ⟨_, (refuseIf_eq_error_iff.1 h).2.symm⟩
  · cases h

end CqlWire.Envelope
