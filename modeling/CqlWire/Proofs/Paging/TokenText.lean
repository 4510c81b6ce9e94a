import CqlWire.Proofs.Paging.Base64
import CqlWire.Proofs.Paging.Token

/-!
# Tokens as text

The text of a token is read as the bytes that it was made of (`ofToken_of_toToken`). So a safe token
gives its state back to its own statement and tells any other statement the first difference
(`ofToken_safe_of_toToken`). Safe tokens are made of every state and statement whose parts fit in
frames (`exists_toToken_safe`). Of either kind, a text that is read for a statement is, but for white
space around it, the token of the state that it gives (`toToken_of_ofToken`).
-/

namespace CqlWire

/-- The state fits in a frame. -/
def PagingState.IsFrameable (state : PagingState) : Prop :=
  state.bytes.length ≤ Frame.maxLength

/-- The query and each value fit in frames, and the number of values can be written as a count. -/
structure Fingerprint.IsFrameable (f : Fingerprint) : Prop where
  query : (Utf8.encode f.query.toList).length ≤ Frame.maxLength
  count : f.values.length ≤ Frame.maxLength
  values : ∀ bs, some bs ∈ f.values → bs.length ≤ Frame.maxLength

namespace Envelope

theorem exists_writeAll {values : List (Option Bytes)}
    (h : ∀ bs, some bs ∈ values → bs.length ≤ Frame.maxLength) :
    ∃ bytes, writeAll values = .ok bytes := by
  induction values with
  | nil => exact ⟨[], rfl⟩
  | cons v values ih =>
    obtain ⟨rest, hrest⟩ := ih fun bs hbs => h bs (List.mem_cons_of_mem v hbs)
    have hv : ∃ head, Frame.write v = .ok head := by
      cases v with
      | none => exact ⟨_, rfl⟩
      | some bs => exact ⟨_, Frame.write_some_eq_ok_iff.2 ⟨h bs List.mem_cons_self, rfl⟩⟩
    obtain ⟨head, hhead⟩ := hv
    exact ⟨head ++ rest, by simp only [writeAll, hhead, hrest]; rfl⟩

/-- What fits in frames has an envelope. -/
theorem exists_write {state : PagingState} {f : Fingerprint} (hs : state.IsFrameable)
    (hf : f.IsFrameable) : ∃ body, write state f = .ok body := by
  obtain ⟨values, hvalues⟩ := exists_writeAll hf.values
  exact ⟨_, write_eq_ok_iff.2 ⟨_, _, _, values, Frame.write_some_eq_ok_iff.2 ⟨hs, rfl⟩,
    Frame.write_some_eq_ok_iff.2 ⟨hf.query, rfl⟩, Frame.writeCount_eq_ok_iff.2 ⟨hf.count, rfl⟩,
    hvalues, rfl⟩⟩

end Envelope

namespace TokenKind

variable {mac : Mac} {key : Bytes} {kind : TokenKind} {state : PagingState} {f : Fingerprint}
  {token : List Char}

/-- The text of a token is read as the bytes that it was made of. -/
theorem ofToken_of_toToken (h : kind.toToken mac state f = .ok token) : ∃ bytes,
    kind.serialize mac state f = .ok bytes ∧
      ∀ actual, kind.ofToken mac token actual = kind.deserialize mac bytes actual := by
  simp only [toToken, bind_eq_ok_iff, pure_eq_ok_iff] at h
  obtain ⟨bytes, hbytes, rfl⟩ := h
  refine ⟨bytes, hbytes, fun actual => ?_⟩
  rw [ofToken, Base64.trim_encode, Base64.decode_encode]

/-- A safe token gives its state, or the first difference between the statements. -/
theorem ofToken_safe_of_toToken {recorded : Fingerprint}
    (h : (TokenKind.safe key).toToken mac state recorded = .ok token) :
    (TokenKind.safe key).ofToken mac token f =
      match recorded.mismatch? f with
      | some difference => .error (.statementMismatch difference)
      | none => .ok state := by
  obtain ⟨bytes, hbytes, hread⟩ := ofToken_of_toToken h
  exact (hread f).trans (deserialize_of_serialize hbytes)

/-- What fits in frames has a safe token. -/
theorem exists_toToken_safe (mac : Mac) (key : Bytes) (hs : state.IsFrameable)
    (hf : f.IsFrameable) : ∃ token, (TokenKind.safe key).toToken mac state f = .ok token := by
  obtain ⟨body, hbody⟩ := Envelope.exists_write hs hf
  have hbytes : (TokenKind.safe key).serialize mac state f = .ok (body ++ (mac key body).1) :=
    serialize_safe_eq_ok_iff.2 ⟨body, hbody, rfl⟩
  refine ⟨Base64.encode (body ++ (mac key body).1), ?_⟩
  simp only [toToken, bind_eq_ok_iff, pure_eq_ok_iff]
  exact ⟨_, hbytes, rfl⟩

/-! ## The tokens that are read -/

theorem toToken_eq_ok_iff : kind.toToken mac state f = .ok token ↔
    ∃ bytes, kind.serialize mac state f = .ok bytes ∧ Base64.encode bytes = token := by
  simp only [toToken, bind_eq_ok_iff, pure_eq_ok_iff]

/-- A text is read as the bytes that it is the symbols of. -/
theorem ofToken_eq_ok_iff : kind.ofToken mac token f = .ok state ↔
    ∃ bytes, Base64.encode bytes = Text.trim token ∧ kind.deserialize mac bytes f = .ok state := by
  simp only [← Base64.decode_eq_ok_iff]
  unfold ofToken
  cases Base64.decode (Text.trim token) with
  | ok bytes =>
    constructor
    · intro h
      exact ⟨bytes, rfl, h⟩
    · rintro ⟨_, heq, h⟩
      obtain rfl := Except.ok.inj heq
      exact h
  | error e =>
    constructor
    · intro h
      cases h
    · rintro ⟨_, heq, -⟩
      cases heq

/-- Bytes were signed in a safe token, or are refused as corrupted. -/
theorem signed_or_corrupted (mac : Mac) (key bytes : Bytes) (f : Fingerprint) :
    (∃ state recorded, (TokenKind.safe key).serialize mac state recorded = .ok bytes) ∨
      ∃ reason, (TokenKind.safe key).deserialize mac bytes f = .error (.corruptedState reason) := by
  by_cases hsigned : ∃ state recorded,
      (TokenKind.safe key).serialize mac state recorded = .ok bytes
  · exact .inl hsigned
  · exact .inr (deserialize_of_unsigned fun s r hs => hsigned ⟨s, r, hs⟩)

/-- Bytes that give a state to a statement are those that were made of the two. -/
theorem serialize_of_deserialize {bytes : Bytes} (h : kind.deserialize mac bytes f = .ok state) :
    kind.serialize mac state f = .ok bytes := by
  cases kind with
  | simple =>
    rw [deserialize] at h
    split at h
    · cases h
    · rw [← Except.ok.inj h]
      rfl
  | safe key =>
    rcases signed_or_corrupted mac key bytes f with ⟨s, r, hs⟩ | ⟨reason, hrefused⟩
    · rw [deserialize_of_serialize hs] at h
      split at h
      · cases h
      · rename_i hsame
        rw [← Except.ok.inj h, ← Fingerprint.mismatch?_eq_none_iff.1 hsame]
        exact hs
    · rw [hrefused] at h
      cases h

/-- A text that is read is the token of the state that it gives. -/
theorem toToken_of_ofToken (h : kind.ofToken mac token f = .ok state) :
    kind.toToken mac state f = .ok (Text.trim token) := by
  obtain ⟨bytes, htoken, hbytes⟩ := ofToken_eq_ok_iff.1 h
  exact toToken_eq_ok_iff.2 ⟨bytes, serialize_of_deserialize hbytes, htoken⟩

/-- Safe tokens that are read are those that were made for the statement. -/
theorem ofToken_safe_eq_ok_iff : (TokenKind.safe key).ofToken mac token f = .ok state ↔
    (TokenKind.safe key).toToken mac state f = .ok (Text.trim token) := by
  constructor
  · exact toToken_of_ofToken
  · intro h
    obtain ⟨bytes, hbytes, htoken⟩ := toToken_eq_ok_iff.1 h
    refine ofToken_eq_ok_iff.2 ⟨bytes, htoken, ?_⟩
    rw [deserialize_of_serialize hbytes, Fingerprint.mismatch?_eq_none_iff.2 rfl]

/-- A token is refused as corrupted or as one of another statement. -/
theorem ofToken_eq_error {e : Error} (h : kind.ofToken mac token f = .error e) :
    (∃ reason, e = .corruptedState reason) ∨ ∃ m, e = .statementMismatch m := by
  unfold ofToken at h
  split at h
  · rename_i bytes _
    cases kind with
    | simple =>
      rw [deserialize] at h
      split at h
      · exact .inl ⟨_, (Except.error.inj h).symm⟩
      · cases h
    | safe key =>
      rcases signed_or_corrupted mac key bytes f with ⟨s, r, hs⟩ | ⟨reason, hrefused⟩
      · rw [deserialize_of_serialize hs] at h
        split at h
        · exact .inr ⟨_, (Except.error.inj h).symm⟩
        · cases h
      · rw [hrefused] at h
        exact .inl ⟨reason, (Except.error.inj h).symm⟩
  · exact .inl ⟨_, (Except.error.inj h).symm⟩

end TokenKind

end CqlWire
