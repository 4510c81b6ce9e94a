import CqlWire.Proofs.Paging.Run
import CqlWire.Proofs.Paging.Spelling

/-!
# Simple tokens that lead back

A simple token is the cursor alone, and every cursor has one (`exportToken_simple`). It is read for
any statement as the cursor that it was made of, unless that is empty (`resume_simple`): empty bytes
are made into a token and refused when they come back. So what a pager exports in a run leads back
to where it was exactly if the paging state that came with the last page was not empty
(`resumed_iff_cursor_not_empty`), and a run in which pagers are resumed from their simple tokens goes
on as it would without (`after_reopened_simple`), also where the token of an empty cursor is refused.
-/

namespace CqlWire.Pager

variable {mac : Mac} {p q : Pager}

/-- The refusal of an empty token. -/
def emptyToken : Error := .corruptedState "empty paging state"

/-- Every cursor is exported, without a look at its bytes. -/
theorem exportToken_simple (mac : Mac) (p : Pager) : p.exportToken mac .simple =
    .ok (p.state.cursor?.map fun cursor => Base64.encode cursor.bytes) := by
  obtain ⟨f, state⟩ := p
  cases state <;> rfl

/-- The bytes of a token are the cursor of any statement, and there has to be one. -/
theorem resume_simple (mac : Mac) (f : Fingerprint) (cursor : PagingState) :
    resume mac .simple f (Base64.encode cursor.bytes) =
      if cursor.bytes = [] then .error emptyToken else .ok ⟨f, .hasCursor cursor⟩ := by
  obtain ⟨bytes⟩ := cursor
  rw [resume, TokenKind.ofToken, Base64.trim_encode, Base64.decode_encode]
  cases bytes <;> rfl

/-! ## Runs with resumed pagers -/

/-- Where a pager can be resumed from its own token, it is the same pager. -/
theorem eq_of_reopened (h : p.reopened mac .simple = .ok q) : q = p := by
  simp only [reopened, exportToken_simple, bind_eq_ok_iff] at h
  obtain ⟨token?, htoken, h⟩ := h
  obtain ⟨f, state⟩ := p
  cases state with
  | noCursor | exhausted =>
    cases htoken
    exact (pure_eq_ok_iff.1 h).symm
  | hasCursor cursor =>
    cases htoken
    have hread := resume_simple mac f cursor
    split at hread
    · cases h.symm.trans hread
    · exact Except.ok.inj (h.symm.trans hread)

/-- Resumed or refused, the pager that is in use afterwards is the same. -/
theorem step_reopened_simple (mac : Mac) (p : Pager) (action : Action) :
    (p.step (reopened mac .simple) action).2 = (p.step .ok action).2 := by
  cases action with
  | record next => rfl
  | reopen =>
    rw [step, step, run_replace_of_ok (show (.ok p : Except Error Pager) = .ok p from rfl)]
    cases h : p.reopened mac .simple with
    | ok q =>
      rw [run_replace_of_ok h]
      exact eq_of_reopened h
    | error e =>
      rw [run_replace_of_error h]
      rfl

theorem after_reopened_simple (mac : Mac) (p : Pager) (actions : List Action) :
    p.after (reopened mac .simple) actions = p.after .ok actions := by
  simp only [after, step_reopened_simple]

/-- A run that ends at a cursor recorded it last. -/
theorem getLast?_pages_of_hasCursor {f : Fingerprint} {actions : List Action}
    {cursor : PagingState} (h : ((start f).after .ok actions).state = .hasCursor cursor) :
    (pages actions).getLast? = some (some cursor) := by
  by_cases hpages : none ∈ pages actions
  · rw [state_after_of_mem_pages hpages] at h
    cases h
  · have hstart : (start f).state = .ofCursor none := rfl
    rw [state_after_of_not_mem_pages hpages hstart, Option.or_none] at h
    cases hlast : (pages actions).getLast?.join with
    | none =>
      rw [hlast] at h
      cases h
    | some last =>
      rw [hlast] at h
      cases h
      exact Option.join_eq_some_iff.1 hlast

/-- After any run a token is exported exactly where there is a cursor. The cursor is the paging state
that was recorded last; for every statement, the token gives it back if it is not empty, and is
refused if it is. -/
theorem resumed_iff_cursor_not_empty (mac : Mac) (f g : Fingerprint) (actions : List Action) :
    let p := (start f).after (reopened mac .simple) actions
    (∃ token?, p.exportToken mac .simple = .ok token? ∧
      (token?.isSome ↔ ∃ cursor, p.state = .hasCursor cursor)) ∧
    ∀ token, p.exportToken mac .simple = .ok (some token) → ∃ cursor,
      p.state = .hasCursor cursor ∧ (pages actions).getLast? = some (some cursor) ∧
        (cursor.bytes ≠ [] → resume mac .simple g token = .ok ⟨g, .hasCursor cursor⟩) ∧
        (cursor.bytes = [] → resume mac .simple g token = .error emptyToken) := by
  intro p
  have hp : p = (start f).after .ok actions := after_reopened_simple mac _ _
  rw [exportToken_simple]
  refine ⟨⟨_, rfl, ?_⟩, fun token htoken => ?_⟩
  · cases p.state with
    | noCursor | exhausted => exact ⟨nofun, nofun⟩
    | hasCursor cursor => exact ⟨fun _ => ⟨cursor, rfl⟩, fun _ => rfl⟩
  · obtain ⟨cursor, hcursor, rfl⟩ := Option.map_eq_some_iff.1 (Except.ok.inj htoken)
    have hstate : p.state = .hasCursor cursor := by
      cases h : p.state <;> rw [h] at hcursor <;> cases hcursor
      rfl
    refine ⟨cursor, hstate, getLast?_pages_of_hasCursor (hp ▸ hstate), fun hne => ?_, fun h => ?_⟩
    · rw [resume_simple, if_neg hne]
    · rw [resume_simple, if_pos h]

/-- Two pages, the first with an empty paging state from whose token no pager is resumed. -/
theorem resumed_iff_cursor_not_empty_second :
    let f : Fingerprint := ⟨"SELECT a", []⟩
    let g : Fingerprint := ⟨"SELECT b", [none]⟩
    let actions : List Action := [.record (some ⟨[]⟩), .reopen, .record (some ⟨[1, 2]⟩), .reopen]
    let p := (start f).after (reopened Mac.hmacSha256 .simple) actions
    p.exportToken Mac.hmacSha256 .simple = .ok (some "AQI".toList) ∧
      resume Mac.hmacSha256 .simple g "AQI".toList = .ok ⟨g, .hasCursor ⟨[1, 2]⟩⟩ := by
  intro f g actions p
  have hp : p = ⟨f, .hasCursor ⟨[1, 2]⟩⟩ := after_reopened_simple Mac.hmacSha256 (start f) actions
  have htoken : p.exportToken Mac.hmacSha256 .simple = .ok (some "AQI".toList) := by
    have hsymbols : Base64.encode [1, 2] = "AQI".toList := by decide +kernel
    rw [hp, exportToken_simple, ← hsymbols]
    rfl
  obtain ⟨cursor, hstate, -, hresume, -⟩ :=
    (resumed_iff_cursor_not_empty Mac.hmacSha256 f g actions).2 _ htoken
  obtain rfl : ⟨[1, 2]⟩ = cursor :=
    PageState.hasCursor.inj ((congrArg Pager.state hp).symm.trans hstate)
  exact ⟨htoken, hresume (by decide)⟩

/-- A paging state without bytes comes with a page: its simple token is refused for the statement
that it was made for, while its safe token leads back to the cursor. -/
theorem exported_token_refused :
    let f : Fingerprint := ⟨"SELECT a", []⟩
    let p := (start f).after (reopened Mac.hmacSha256 .simple) [.record (some ⟨[]⟩)]
    p.exportToken Mac.hmacSha256 .simple = .ok (some []) ∧ p.state = .hasCursor ⟨[]⟩ ∧
      resume Mac.hmacSha256 .simple f [] = .error emptyToken ∧
      ¬(∃ q, resume Mac.hmacSha256 .simple f [] = .ok q ∧ q.state = .hasCursor ⟨[]⟩) ∧
      p.reopened Mac.hmacSha256 .builtin = .ok p := by
  intro f p
  have hrefused : resume Mac.hmacSha256 .simple f [] = .error emptyToken := rfl
  have hframeable : p.IsFrameable := by
    refine ⟨⟨by decide, by decide, nofun⟩, fun state hstate => ?_⟩
    cases hstate
    exact Nat.zero_le _
  refine ⟨rfl, rfl, hrefused, ?_, reopened_eq Mac.hmacSha256 builtinKey hframeable⟩
  rintro ⟨q, hq, -⟩
  cases hrefused.symm.trans hq

end CqlWire.Pager
