import CqlWire.Paging.Token

/-!
# Pagers

A pager follows one statement from page to page. It begins without a cursor, has one as long as
there are more rows, and is exhausted after the last page; from there nothing leads on.

* `PageState.advance`: the step that a fetched page makes;
* `Pager.record`, `Pager.nextRequest`: a page that was fetched, and what to send for the next one;
* `Pager.exportToken`, `Pager.resume`: the cursor as a token, and a pager that goes on from a token.
-/

namespace CqlWire

/-- Where a statement is in the stream of its pages. -/
inductive PageState where
  | noCursor
  | hasCursor (state : PagingState)
  | exhausted
deriving DecidableEq, Repr

namespace PageState

/-- The state after a page that came with the given paging state. -/
def advance : PageState → Option PagingState → Except Error PageState
  | .exhausted, _ => .error .pagingExhausted
  | _, some next => .ok (.hasCursor next)
  | _, none => .ok .exhausted

/-- The cursor, if there is one. -/
def cursor? : PageState → Option PagingState
  | .hasCursor state => some state
  | _ => none

end PageState

/-- The paging of one statement. -/
structure Pager where
  fingerprint : Fingerprint
  state : PageState
deriving DecidableEq, Repr

namespace Pager

/-- The pager of a statement of which no page was fetched. -/
def start (f : Fingerprint) : Pager := ⟨f, .noCursor⟩

/-- Whether the last page was fetched. -/
def isExhausted (p : Pager) : Bool := p.state = .exhausted

/-- Records the paging state that came with a page. The state of the pager is taken out while it
advances, and is put back where nothing leads on. -/
def record (next : Option PagingState) : EStateM Error Pager Unit := do
  let p ← get
  set { p with state := .exhausted }
  match p.state.advance next with
  | .ok state => set { p with state }
  | .error e =>
    set p
    throw e

/-- The state to send with the next request; none for the first page. -/
def nextRequest (p : Pager) : Except Error (Option PagingState) :=
  match p.state with
  | .noCursor => .ok none
  | .hasCursor state => .ok (some state)
  | .exhausted => .error .pagingExhausted

/-- The token of the next page, if there is a cursor. -/
def exportToken (mac : Mac) (kind : TokenKind) (p : Pager) : Except Error (Option (List Char)) :=
  match p.state.cursor? with
  | none => .ok none
  | some state => some <$> kind.toToken mac state p.fingerprint

/-- The pager that goes on from a token. -/
def resume (mac : Mac) (kind : TokenKind) (f : Fingerprint) (token : List Char) :
    Except Error Pager := do
  return ⟨f, .hasCursor (← kind.ofToken mac token f)⟩

end Pager

end CqlWire
