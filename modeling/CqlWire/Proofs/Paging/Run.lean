import CqlWire.Paging.Pager
import CqlWire.Proofs.Paging.TokenText

/-!
# Runs of pagers

A program records page after page, and may at any time go on with a pager that is resumed from the
token of the one it had. `Pager.trace` is all that it can learn on the way. As long as everything
fits in frames (`Pager.IsFrameable`, which every step keeps up), a resumed pager is the pager itself
(`reopened_eq`), so that a run does not show where pagers were resumed (`trace_reopened`). The state
after a run is told by the pages that were recorded (`state_after_of_mem_pages`,
`state_after_of_not_mem_pages`).
-/

namespace CqlWire

/-- The state before the last page, at a cursor if there is one yet. -/
def PageState.ofCursor : Option PagingState → PageState
  | none => .noCursor
  | some state => .hasCursor state

namespace Pager

/-! ## Runs -/

/-- What a program does with a pager. -/
inductive Action where
  /-- Records the paging state that came with a page. -/
  | record (next : Option PagingState)
  /-- Goes on with another pager, which is resumed from the token of this one. -/
  | reopen
deriving DecidableEq, Repr

/-- The paging states that the actions of a run record. -/
def pages : List Action → List (Option PagingState)
  | [] => []
  | .record next :: actions => next :: pages actions
  | .reopen :: actions => pages actions

/-- The pager that is resumed from the exported token for the same statement. A pager without a
cursor has no token and stays in use. -/
def reopened (mac : Mac) (kind : TokenKind) (p : Pager) : Except Error Pager := do
  match ← p.exportToken mac kind with
  | some token => resume mac kind p.fingerprint token
  | none => return p

/-- Goes on with another pager, if there is one. -/
def replace (reopen : Pager → Except Error Pager) : EStateM Error Pager Unit := do
  match reopen (← get) with
  | .ok q => set q
  | .error e => throw e

/-- The answer to an action, and the pager after it. -/
def step (reopen : Pager → Except Error Pager) (p : Pager) : Action → Except Error Unit × Pager
  | .record next => answered ((record next).run p)
  | .reopen => answered ((replace reopen).run p)

/-- The pager after a run. -/
def after (reopen : Pager → Except Error Pager) (p : Pager) (actions : List Action) : Pager :=
  actions.foldl (fun p action => (p.step reopen action).2) p

/-- What a program can learn of a pager. -/
structure View where
  state : PageState
  isExhausted : Bool
  request : Except Error (Option PagingState)
  token : Except Error (Option (List Char))

/-- What a program can learn of the pager. -/
def view (mac : Mac) (kind : TokenKind) (p : Pager) : View :=
  ⟨p.state, p.isExhausted, p.nextRequest, p.exportToken mac kind⟩

/-- The answers of a run, each with what can be learned of the pager after it. -/
def trace (mac : Mac) (kind : TokenKind) (reopen : Pager → Except Error Pager) :
    Pager → List Action → List (Except Error Unit × View)
  | _, [] => []
  | p, action :: actions =>
    let answered := p.step reopen action
    (answered.1, answered.2.view mac kind) :: trace mac kind reopen answered.2 actions

/-! ## Resumed pagers -/

/-- The statement and the cursor fit in frames. -/
structure IsFrameable (p : Pager) : Prop where
  fingerprint : p.fingerprint.IsFrameable
  cursor : ∀ state, p.state = .hasCursor state → state.IsFrameable

variable {mac : Mac} {key : Bytes} {p : Pager}

/-- A token is exported exactly where there is a cursor. -/
theorem exists_exportToken (mac : Mac) (key : Bytes) (h : p.IsFrameable) :
    ∃ token?, p.exportToken mac (.safe key) = .ok token? ∧
      (token?.isSome ↔ ∃ state, p.state = .hasCursor state) := by
  obtain ⟨f, state⟩ := p
  cases state with
  | noCursor => exact ⟨none, rfl, ⟨nofun, nofun⟩⟩
  | exhausted => exact ⟨none, rfl, ⟨nofun, nofun⟩⟩
  | hasCursor state =>
    obtain ⟨token, htoken⟩ :=
      TokenKind.exists_toToken_safe mac key (h.cursor state rfl) h.fingerprint
    exact ⟨some token, map_eq_ok_iff.2 ⟨token, htoken, rfl⟩, fun _ => ⟨state, rfl⟩, fun _ => rfl⟩

/-- A pager that is resumed from its own token is the pager itself. -/
theorem reopened_eq (mac : Mac) (key : Bytes) (h : p.IsFrameable) :
    p.reopened mac (.safe key) = .ok p := by
  obtain ⟨f, state⟩ := p
  cases state with
  | noCursor => rfl
  | exhausted => rfl
  | hasCursor state =>
    obtain ⟨token, htoken⟩ :=
      TokenKind.exists_toToken_safe mac key (h.cursor state rfl) h.fingerprint
    have hread : (TokenKind.safe key).ofToken mac token f = .ok state := by
      rw [TokenKind.ofToken_safe_of_toToken htoken, Fingerprint.mismatch?_eq_none_iff.2 rfl]
    have hexport : exportToken mac (.safe key) ⟨f, .hasCursor state⟩ = .ok (some token) :=
      map_eq_ok_iff.2 ⟨token, htoken, rfl⟩
    simp only [reopened, bind_eq_ok_iff]
    refine ⟨some token, hexport, ?_⟩
    simp only [resume, bind_eq_ok_iff, pure_eq_ok_iff]
    exact ⟨state, hread, rfl⟩

/-! ## One step -/

theorem run_replace_of_ok {reopen : Pager → Except Error Pager} {q : Pager} (h : reopen p = .ok q) :
    (replace reopen).run p = .ok () q := by
  rw [replace, EStateM.run_bind, EStateM.run_get]
  dsimp only
  rw [h]
  rfl

theorem run_replace_of_error {reopen : Pager → Except Error Pager} {e : Error}
    (h : reopen p = .error e) : (replace reopen).run p = .error e p := by
  rw [replace, EStateM.run_bind, EStateM.run_get]
  dsimp only
  rw [h]
  rfl

theorem step_reopened (mac : Mac) (key : Bytes) (h : p.IsFrameable) (action : Action) :
    p.step (reopened mac (.safe key)) action = p.step .ok action := by
  cases action with
  | record next => rfl
  | reopen => rw [step, run_replace_of_ok (reopened_eq mac key h), step, run_replace_of_ok rfl]

/-- After the last page nothing can be recorded, and the pager stays as it is. -/
theorem run_record_of_exhausted (h : p.state = .exhausted) (next : Option PagingState) :
    (record next).run p = .error .pagingExhausted p := by
  obtain ⟨f, state⟩ := p
  cases h
  rfl

/-- Before the last page every page is recorded. -/
theorem run_record_of_ne (h : p.state ≠ .exhausted) (next : Option PagingState) :
    (record next).run p = .ok () { p with state := next.elim .exhausted .hasCursor } := by
  obtain ⟨f, state⟩ := p
  cases state with
  | exhausted => exact absurd rfl h
  | noCursor => cases next <;> rfl
  | hasCursor state => cases next <;> rfl

theorem isFrameable_step (h : p.IsFrameable) {action : Action}
    (ha : ∀ state, action = .record (some state) → state.IsFrameable) :
    (p.step .ok action).2.IsFrameable := by
  cases action with
  | reopen => exact h
  | record next =>
    rw [step]
    by_cases hstate : p.state = .exhausted
    · rwa [run_record_of_exhausted hstate]
    · rw [run_record_of_ne hstate]
      refine ⟨h.fingerprint, fun state hcursor => ?_⟩
      cases next with
      | none => cases hcursor
      | some next =>
        cases hcursor
        exact ha state rfl

/-! ## Whole runs -/

section

variable {actions : List Action}

/-- Wherever pagers are resumed, the pager after the run is the same. -/
theorem after_reopened (mac : Mac) (key : Bytes) (h : p.IsFrameable)
    (ha : ∀ state, .record (some state) ∈ actions → state.IsFrameable) :
    p.after (reopened mac (.safe key)) actions = p.after .ok actions ∧
      (p.after .ok actions).IsFrameable := by
  induction actions generalizing p with
  | nil => exact ⟨rfl, h⟩
  | cons action actions ih =>
    have hstep := isFrameable_step h fun state hs => ha state (hs ▸ List.mem_cons_self)
    have hrest := ih hstep fun state hs => ha state (List.mem_cons_of_mem _ hs)
    simp only [after, List.foldl_cons, step_reopened mac key h]
    exact hrest

/-- Wherever pagers are resumed, the same is learned on the way. -/
theorem trace_reopened (mac : Mac) (key : Bytes) (kind : TokenKind) (h : p.IsFrameable)
    (ha : ∀ state, .record (some state) ∈ actions → state.IsFrameable) :
    trace mac kind (reopened mac (.safe key)) p actions = trace mac kind .ok p actions := by
  induction actions generalizing p with
  | nil => rfl
  | cons action actions ih =>
    have hstep := isFrameable_step h fun state hs => ha state (hs ▸ List.mem_cons_self)
    have hrest := ih hstep fun state hs => ha state (List.mem_cons_of_mem _ hs)
    simp only [trace, step_reopened mac key h, hrest]

/-- Once the last page is recorded, nothing leads on. -/
theorem state_after_of_exhausted (h : p.state = .exhausted) (actions : List Action) :
    (p.after .ok actions).state = .exhausted := by
  induction actions generalizing p with
  | nil => exact h
  | cons action actions ih =>
    cases action with
    | reopen => exact ih h
    | record next =>
      refine ih ?_
      simp only [step, run_record_of_exhausted h, answered, h]

/-- A run in which a page was the last one ends exhausted. -/
theorem state_after_of_mem_pages (h : none ∈ pages actions) :
    (p.after .ok actions).state = .exhausted := by
  induction actions generalizing p with
  | nil => cases h
  | cons action actions ih =>
    cases action with
    | reopen => exact ih h
    | record next =>
      by_cases hstate : p.state = .exhausted
      · exact state_after_of_exhausted hstate _
      rcases List.mem_cons.1 h with rfl | hrest
      · refine state_after_of_exhausted ?_ actions
        simp only [step, run_record_of_ne hstate, answered, Option.elim]
      · exact ih hrest

/-- Before the last page, the state is the cursor that was recorded last. -/
theorem state_after_of_not_mem_pages (h : none ∉ pages actions) {cursor : Option PagingState}
    (hp : p.state = .ofCursor cursor) :
    (p.after .ok actions).state = .ofCursor ((pages actions).getLast?.join.or cursor) := by
  induction actions generalizing p cursor with
  | nil => exact hp
  | cons action actions ih =>
    cases action with
    | reopen => exact ih h hp
    | record next =>
      obtain ⟨hnext, hrest⟩ := not_or.1 (mt List.mem_cons.2 h)
      obtain ⟨state, rfl⟩ := Option.ne_none_iff_exists'.1 (Ne.symm hnext)
      have hne : p.state ≠ .exhausted := by
        rw [hp]
        cases cursor <;> nofun
      have hstep : (p.step .ok (.record (some state))).2.state = .ofCursor (some state) := by
        simp only [step, run_record_of_ne hne, answered, Option.elim, PageState.ofCursor]
      refine (ih hrest hstep).trans (congrArg PageState.ofCursor ?_)
      rw [pages, List.getLast?_cons]
      cases hlast : (pages actions).getLast? with
      | none => rfl
      | some last =>
        cases last with
        | none => exact absurd (List.mem_of_getLast? hlast) hrest
        | some last => rfl

end

/-- A run does not show where pagers were resumed from their tokens. After any run a token is
exported exactly where there is a cursor; the next request takes the paging state that was recorded
last; and once there is no further page, nothing more is recorded or requested. -/
theorem reopening_leaves_no_trace (mac : Mac) (key : Bytes) {f : Fingerprint}
    (hf : f.IsFrameable) {actions : List Action}
    (ha : ∀ state, .record (some state) ∈ actions → state.IsFrameable) :
    let kind := TokenKind.safe key
    let p := (start f).after (reopened mac kind) actions
    trace mac kind (reopened mac kind) (start f) actions = trace mac kind .ok (start f) actions ∧
      (∃ token?, p.exportToken mac kind = .ok token? ∧
        (token?.isSome ↔ ∃ state, p.state = .hasCursor state)) ∧
      (none ∉ pages actions → p.nextRequest = .ok (pages actions).getLast?.join) ∧
      (none ∈ pages actions → p.nextRequest = .error .pagingExhausted ∧
        ∀ next, (record next).run p = .error .pagingExhausted p) := by
  intro kind p
  have hstart : (start f).IsFrameable := ⟨hf, nofun⟩
  obtain ⟨hafter, hframeable⟩ := after_reopened mac key hstart ha
  have hp : p = (start f).after .ok actions := hafter
  refine ⟨trace_reopened mac key kind hstart ha, ?_, fun hpages => ?_, fun hpages => ?_⟩
  · rw [hp]
    exact exists_exportToken mac key hframeable
  · have hstate : p.state = .ofCursor (pages actions).getLast?.join := by
      have hcursor : (start f).state = .ofCursor none := rfl
      rw [hp, state_after_of_not_mem_pages hpages hcursor, Option.or_none]
    rw [nextRequest, hstate]
    cases (pages actions).getLast?.join <;> rfl
  · have hstate : p.state = .exhausted := by
      rw [hp, state_after_of_mem_pages hpages]
    exact ⟨by rw [nextRequest, hstate], run_record_of_exhausted hstate⟩

/-- A run of three pages, the second with an empty paging state, that goes on after the last one;
pagers are resumed before, between and after the pages. -/
theorem reopening_leaves_no_trace_empty :
    let f : Fingerprint := ⟨"SELECT a", [some [1], none, some []]⟩
    let kind := TokenKind.safe builtinKey
    let reopen := reopened Mac.hmacSha256 kind
    let actions : List Action := [.reopen, .record (some ⟨[1, 2]⟩), .reopen, .record (some ⟨[]⟩),
      .reopen, .reopen, .record none, .reopen, .record (some ⟨[3]⟩)]
    f.IsFrameable ∧ (∀ state, .record (some state) ∈ actions → state.IsFrameable) ∧
      trace Mac.hmacSha256 kind reopen (start f) actions =
        trace Mac.hmacSha256 kind .ok (start f) actions ∧
      ((start f).after reopen actions).nextRequest = .error .pagingExhausted ∧
      ((start f).after reopen (actions.take 6)).nextRequest = .ok (some ⟨[]⟩) := by
  intro f kind reopen actions
  have hf : f.IsFrameable := by
    refine ⟨by decide, by decide, fun bs hbs => ?_⟩
    have hall : ∀ v ∈ f.values, ∀ bs, v = some bs → bs.length ≤ Frame.maxLength := by
      simp [f, Frame.maxLength]
    exact hall _ hbs bs rfl
  have ha : ∀ state, .record (some state) ∈ actions → state.IsFrameable := by
    simp [actions, PagingState.IsFrameable, Frame.maxLength]
  have ha' : ∀ state, .record (some state) ∈ actions.take 6 → state.IsFrameable :=
    fun state hs => ha state (List.mem_of_mem_take hs)
  obtain ⟨htrace, -, -, hlast⟩ := reopening_leaves_no_trace Mac.hmacSha256 _ hf ha
  obtain ⟨-, -, hnext, -⟩ := reopening_leaves_no_trace Mac.hmacSha256 _ hf ha'
  exact ⟨hf, ha, htrace, (hlast (by decide)).1, hnext (by decide)⟩

end Pager

end CqlWire
