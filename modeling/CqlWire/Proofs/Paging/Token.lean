import CqlWire.Proofs.Paging.Envelope

/-!
# Safe tokens are read as they were signed

A fingerprint differs from another one in a component (`Fingerprint.DiffersFirstIn`) if all before
it agree, and `mismatch?` finds that component (`mismatch?_eq_some_iff`) or none if the two are
equal (`mismatch?_eq_none_iff`). A token has the bytes of one envelope (`serialize_safe_eq_ok_iff`),
so that exactly the tokens that were signed are read (`deserialize_safe_iff`), whatever the
signatures are.
-/

namespace CqlWire

namespace Fingerprint

/-! ## The first difference -/

/-- The first component in which the recorded fingerprint differs from the actual one: the query,
or else the number of values, or else the first value that is another. -/
def DiffersFirstIn (recorded actual : Fingerprint) : Mismatch → Prop
  | .queryText expected found =>
    recorded.query ≠ actual.query ∧ expected = recorded.query ∧ found = actual.query
  | .parameterCount expected found =>
    recorded.query = actual.query ∧ recorded.values.length ≠ actual.values.length ∧
      expected = recorded.values.length ∧ found = actual.values.length
  | .parameter index =>
    recorded.query = actual.query ∧ recorded.values.length = actual.values.length ∧
      index < recorded.values.length ∧ recorded.values[index]? ≠ actual.values[index]? ∧
        ∀ j < index, recorded.values[j]? = actual.values[j]?

theorem firstDifference?_eq_none_iff {index : Nat} {as bs : List (Option Bytes)}
    (h : as.length = bs.length) : firstDifference? index (as.zip bs) = none ↔ as = bs := by
  induction as generalizing index bs with
  | nil =>
    rw [List.length_nil, eq_comm, List.length_eq_zero_iff] at h
    subst h
    exact ⟨fun _ => rfl, fun _ => rfl⟩
  | cons a as ih =>
    cases bs with
    | nil => cases h
    | cons b bs =>
      rw [List.zip_cons_cons, firstDifference?]
      by_cases hab : a = b
      · rw [if_pos hab, ih (Nat.succ.inj h), List.cons_eq_cons]
        exact ⟨fun h => ⟨hab, h⟩, fun h => h.2⟩
      · rw [if_neg hab]
        exact ⟨nofun, fun h => absurd (List.cons_eq_cons.1 h).1 hab⟩

theorem firstDifference?_eq_some_iff {index i : Nat} {as bs : List (Option Bytes)}
    (h : as.length = bs.length) : firstDifference? index (as.zip bs) = some i ↔
      ∃ k < as.length, i = index + k ∧ as[k]? ≠ bs[k]? ∧ ∀ j < k, as[j]? = bs[j]? := by
  induction as generalizing index bs with
  | nil =>
    constructor
    · intro h
      cases h
    · rintro ⟨k, hk, -⟩
      cases hk
  | cons a as ih =>
    cases bs with
    | nil => cases h
    | cons b bs =>
      rw [List.zip_cons_cons, firstDifference?]
      by_cases hab : a = b
      · rw [if_pos hab, ih (Nat.succ.inj h)]
        constructor
        · rintro ⟨k, hk, rfl, hne, heq⟩
          refine ⟨k + 1, Nat.succ_lt_succ hk, by omega, hne, fun j hj => ?_⟩
          cases j with
          | zero => exact congrArg some hab
          | succ j => exact heq j (by omega)
        · rintro ⟨k, hk, rfl, hne, heq⟩
          cases k with
          | zero => exact absurd (congrArg some hab) hne
          | succ k =>
            exact ⟨k, Nat.lt_of_succ_lt_succ hk, by omega, hne, fun j hj => heq (j + 1) (by omega)⟩
      · rw [if_neg hab]
        constructor
        · intro h
          cases h
          refine ⟨0, Nat.succ_pos _, rfl, fun heq => hab (Option.some.inj heq), nofun⟩
        · rintro ⟨k, -, rfl, -, heq⟩
          cases k with
          | zero => rfl
          | succ k => exact absurd (Option.some.inj (heq 0 (Nat.succ_pos k))) hab

/-- The first difference is found. -/
theorem mismatch?_eq_some_iff {recorded actual : Fingerprint} {m : Mismatch} :
    recorded.mismatch? actual = some m ↔ recorded.DiffersFirstIn actual m := by
  unfold mismatch?
  by_cases hq : recorded.query = actual.query
  · rw [if_neg (not_not_intro hq)]
    by_cases hl : recorded.values.length = actual.values.length
    · rw [if_neg (not_not_intro hl), Option.map_eq_some_iff]
      constructor
      · rintro ⟨i, hi, rfl⟩
        obtain ⟨k, hk, rfl, hne, heq⟩ := (firstDifference?_eq_some_iff hl).1 hi
        rw [Nat.zero_add]
        exact ⟨hq, hl, hk, hne, heq⟩
      · intro h
        cases m with
        | queryText => exact absurd hq h.1
        | parameterCount => exact absurd hl h.2.1
        | parameter index =>
          obtain ⟨-, -, hk, hne, heq⟩ := h
          exact ⟨index, (firstDifference?_eq_some_iff hl).2
            ⟨index, hk, (Nat.zero_add index).symm, hne, heq⟩, rfl⟩
    · rw [if_pos hl]
      constructor
      · intro h
        cases h
        exact ⟨hq, hl, rfl, rfl⟩
      · intro h
        cases m with
        | queryText => exact absurd hq h.1
        | parameterCount expected found =>
          obtain ⟨-, -, rfl, rfl⟩ := h
          rfl
        | parameter => exact absurd h.2.1 hl
  · rw [if_pos hq]
    constructor
    · intro h
      cases h
      exact ⟨hq, rfl, rfl⟩
    · intro h
      cases m with
      | queryText expected found =>
        obtain ⟨-, rfl, rfl⟩ := h
        rfl
      | parameterCount => exact absurd h.1 hq
      | parameter => exact absurd h.1 hq

theorem mismatch?_eq_none_iff {recorded actual : Fingerprint} :
    recorded.mismatch? actual = none ↔ recorded = actual := by
  rw [show recorded = actual ↔ recorded.query = actual.query ∧ recorded.values = actual.values by
    cases recorded; cases actual; simp]
  unfold mismatch?
  by_cases hq : recorded.query = actual.query
  · rw [if_neg (not_not_intro hq)]
    by_cases hl : recorded.values.length = actual.values.length
    · rw [if_neg (not_not_intro hl), Option.map_eq_none_iff, firstDifference?_eq_none_iff hl]
      exact ⟨fun h => ⟨hq, h⟩, fun h => h.2⟩
    · rw [if_pos hl]
      exact ⟨nofun, fun h => absurd (congrArg List.length h.2) hl⟩
  · rw [if_pos hq]
    exact ⟨nofun, fun h => absurd h.1 hq⟩

end Fingerprint

namespace TokenKind

/-! ## Tokens -/

variable {mac : Mac} {key b : Bytes} {state : PagingState} {f : Fingerprint}

/-- A safe token is an envelope with its signature. -/
theorem serialize_safe_eq_ok_iff : (TokenKind.safe key).serialize mac state f = .ok b ↔
    ∃ body, Envelope.write state f = .ok body ∧ body ++ (mac key body).1 = b := by
  simp only [serialize, bind_eq_ok_iff, pure_eq_ok_iff]

/-- The bytes of a token are cut in one way into an envelope and its signature. -/
theorem signed_iff {body : Bytes} : body ++ (mac key body).1 = b ↔ tagLength ≤ b.length ∧
    b.take (b.length - tagLength) = body ∧
      (mac key (b.take (b.length - tagLength))).1 = b.drop (b.length - tagLength) := by
  have hmac : (mac key body).1.length = tagLength := (mac key body).2
  constructor
  · rintro rfl
    have hlen : (body ++ (mac key body).1).length - tagLength = body.length := by
      rw [List.length_append, hmac, Nat.add_sub_cancel]
    rw [hlen, List.take_left' rfl, List.drop_left' rfl, List.length_append, hmac]
    exact ⟨Nat.le_add_left _ _, rfl, rfl⟩
  · rintro ⟨hlen, rfl, htag⟩
    rw [htag, List.take_append_drop]

theorem length_of_write {body : Bytes} (h : Envelope.write state f = .ok body) :
    1 ≤ body.length := by
  obtain ⟨_, _, _, _, -, -, -, -, rfl⟩ := Envelope.write_eq_ok_iff.1 h
  rw [List.length_cons]
  omega

/-- A token was made of one state for one statement only. -/
theorem serialize_safe_inj {state' : PagingState} {f' : Fingerprint}
    (h : (TokenKind.safe key).serialize mac state f = .ok b)
    (h' : (TokenKind.safe key).serialize mac state' f' = .ok b) : state = state' ∧ f = f' := by
  obtain ⟨body, hw, hb⟩ := serialize_safe_eq_ok_iff.1 h
  obtain ⟨body', hw', hb'⟩ := serialize_safe_eq_ok_iff.1 h'
  obtain rfl : body = body' := (signed_iff.1 hb).2.1.symm.trans (signed_iff.1 hb').2.1
  have heq := (Envelope.read_eq_ok_iff_write.2 hw).symm.trans (Envelope.read_eq_ok_iff_write.2 hw')
  cases heq
  exact ⟨rfl, rfl⟩

/-- A token that was signed gives its state or the first difference between the statements. -/
theorem deserialize_of_serialize {recorded : Fingerprint}
    (h : (TokenKind.safe key).serialize mac state recorded = .ok b) :
    (TokenKind.safe key).deserialize mac b f =
      match recorded.mismatch? f with
      | some difference => .error (.statementMismatch difference)
      | none => .ok state := by
  obtain ⟨body, hw, hb⟩ := serialize_safe_eq_ok_iff.1 h
  obtain ⟨hlen, hbody, htag⟩ := signed_iff.1 hb
  have hshort : ¬b.length < 1 + tagLength := by
    have hone := length_of_write hw
    have hcut := congrArg List.length hbody
    rw [List.length_take] at hcut
    omega
  have hread := Envelope.read_eq_ok_iff_write.2 hw
  rw [← hbody] at hread
  simp only [deserialize, refuseIf, if_neg hshort, htag, ne_eq, not_true_eq_false, if_false, hread]
  rfl

/-- Bytes that were never signed are refused as a corrupted state. -/
theorem deserialize_of_unsigned
    (h : ∀ state recorded, (TokenKind.safe key).serialize mac state recorded ≠ .ok b) :
    ∃ reason, (TokenKind.safe key).deserialize mac b f = .error (.corruptedState reason) := by
  cases hd : (TokenKind.safe key).deserialize mac b f with
  | ok state =>
    simp only [deserialize, bind_eq_ok_iff, refuseIf_eq_ok_iff, Decidable.not_not] at hd
    obtain ⟨-, hshort, -, htag, ⟨s, r⟩, hread, -⟩ := hd
    have hwrite := Envelope.read_eq_ok_iff_write.1 hread
    refine absurd (serialize_safe_eq_ok_iff.2 ⟨_, hwrite, ?_⟩) (h s r)
    exact signed_iff.2 ⟨by omega, rfl, htag⟩
  | error e =>
    simp only [deserialize, bind_eq_error_iff, refuseIf_eq_error_iff, refuseIf_eq_ok_iff,
      Decidable.not_not] at hd
    rcases hd with ⟨-, rfl⟩ | ⟨-, hshort, ⟨-, rfl⟩ | ⟨-, htag, hread | ⟨⟨s, r⟩, hread, -⟩⟩⟩
    · exact ⟨_, rfl⟩
    · exact ⟨_, rfl⟩
    · obtain ⟨reason, rfl⟩ := Envelope.read_eq_error hread
      exact ⟨reason, rfl⟩
    · refine absurd (serialize_safe_eq_ok_iff.2 ⟨_, Envelope.read_eq_ok_iff_write.1 hread, ?_⟩)
        (h s r)
      exact signed_iff.2 ⟨by omega, rfl, htag⟩

/-- A safe token gives a state to the statement that it was signed for, tells any other statement
its first difference from that one, and all bytes that were never signed are corrupted. -/
theorem deserialize_safe_iff (mac : Mac) (key b : Bytes) (f : Fingerprint) :
    (∀ state, (TokenKind.safe key).deserialize mac b f = .ok state ↔
      (TokenKind.safe key).serialize mac state f = .ok b) ∧
    (∀ m, (TokenKind.safe key).deserialize mac b f = .error (.statementMismatch m) ↔
      ∃ state recorded, (TokenKind.safe key).serialize mac state recorded = .ok b ∧
        recorded.mismatch? f = some m) ∧
    (∀ recorded m, recorded.mismatch? f = some m ↔ Fingerprint.DiffersFirstIn recorded f m) ∧
    ((∃ state, (TokenKind.safe key).deserialize mac b f = .ok state) ∨
      (∃ m, (TokenKind.safe key).deserialize mac b f = .error (.statementMismatch m)) ∨
      ∃ reason, (TokenKind.safe key).deserialize mac b f = .error (.corruptedState reason)) ∧
    (∀ state recorded state' recorded',
      ((TokenKind.safe key).serialize mac state recorded = .ok b ∧
        (TokenKind.safe key).serialize mac state' recorded' = .ok b) ↔
      ((TokenKind.safe key).serialize mac state recorded = .ok b ∧
        state' = state ∧ recorded' = recorded)) := by
  have inj : ∀ state recorded state' recorded',
      ((TokenKind.safe key).serialize mac state recorded = .ok b ∧
        (TokenKind.safe key).serialize mac state' recorded' = .ok b) ↔
      ((TokenKind.safe key).serialize mac state recorded = .ok b ∧
        state' = state ∧ recorded' = recorded) := by
    intro s r s' r'
    constructor
    · rintro ⟨h, h'⟩
      exact ⟨h, serialize_safe_inj h' h⟩
    · rintro ⟨h, rfl, rfl⟩
      exact ⟨h, h⟩
  by_cases hsigned : ∃ state recorded, (TokenKind.safe key).serialize mac state recorded = .ok b
  · obtain ⟨s, r, hs⟩ := hsigned
    have hd := deserialize_of_serialize (f := f) hs
    refine ⟨fun state => ?_, fun m => ?_, fun _ _ => Fingerprint.mismatch?_eq_some_iff, ?_, inj⟩
    · rw [hd]
      constructor
      · intro h
        split at h
        · cases h
        · rename_i hnone
          cases h
          rwa [← Fingerprint.mismatch?_eq_none_iff.1 hnone]
      · intro h
        obtain ⟨rfl, rfl⟩ := serialize_safe_inj hs h
        rw [Fingerprint.mismatch?_eq_none_iff.2 rfl]
    · rw [hd]
      constructor
      · intro h
        split at h
        · rename_i difference hsome
          cases h
          exact ⟨s, r, hs, hsome⟩
        · cases h
      · rintro ⟨state, recorded, h, hm⟩
        obtain ⟨rfl, rfl⟩ := serialize_safe_inj hs h
        rw [hm]
    · rw [hd]
      cases r.mismatch? f with
      | none => exact .inl ⟨s, rfl⟩
      | some m => exact .inr (.inl ⟨m, rfl⟩)
  · have hnone : ∀ state recorded, (TokenKind.safe key).serialize mac state recorded ≠ .ok b :=
      fun state recorded h => hsigned ⟨state, recorded, h⟩
    obtain ⟨reason, hd⟩ := deserialize_of_unsigned (f := f) hnone
    refine ⟨fun state => ?_, fun m => ?_, fun _ _ => Fingerprint.mismatch?_eq_some_iff,
      .inr (.inr ⟨reason, hd⟩), inj⟩
    · rw [hd]
      exact ⟨nofun, fun h => absurd h (hnone state f)⟩
    · rw [hd]
      refine ⟨fun h => ?_, ?_⟩
      · cases h
      · rintro ⟨state, recorded, h, -⟩
        exact absurd h (hnone state recorded)

end TokenKind

end CqlWire
