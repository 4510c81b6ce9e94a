import CqlWire.Paging.Pager
import CqlWire.Proofs.Paging.TokenText

/-!
# One spelling for each token

A pager that is resumed from a text exports that text again, less the white space around it
(`Pager.exportToken_of_resume`). So there is one spelling for each state of a statement, and what is
kept about tokens can be kept by their text (`Pager.resumed_by_one_spelling`).
-/

namespace CqlWire.Pager

open Text (trim)

variable {mac : Mac} {kind : TokenKind} {f : Fingerprint} {text : List Char} {p : Pager}

theorem resume_eq_ok_iff : resume mac kind f text = .ok p ↔
    ∃ state, kind.ofToken mac text f = .ok state ∧ p = ⟨f, .hasCursor state⟩ := by
  simp only [resume, bind_eq_ok_iff, pure_eq_ok_iff, eq_comm (a := p)]

/-- A pager exports the text that it was resumed from. -/
theorem exportToken_of_resume (h : resume mac kind f text = .ok p) :
    p.exportToken mac kind = .ok (some (trim text)) := by
  obtain ⟨state, hstate, rfl⟩ := resume_eq_ok_iff.1 h
  exact map_eq_ok_iff.2 ⟨trim text, TokenKind.toToken_of_ofToken hstate, rfl⟩

/-- A pager that is resumed from a text is at a cursor and exports the same text, and the safe tokens
that are read are those that were made for the statement. Two texts that a statement is resumed from,
and that differ not only in white space around them, lead to different states. A text that no pager
is resumed from is refused as corrupted or as a token of another statement. -/
theorem resumed_by_one_spelling (mac : Mac) (kind : TokenKind) (f : Fingerprint)
    (text : List Char) :
    (∀ p, resume mac kind f text = .ok p →
      (∃ state, p = ⟨f, .hasCursor state⟩) ∧ p.exportToken mac kind = .ok (some (trim text))) ∧
    (∀ key state, (TokenKind.safe key).ofToken mac text f = .ok state ↔
      (TokenKind.safe key).toToken mac state f = .ok (trim text)) ∧
    (∀ text' p p', resume mac kind f text = .ok p → resume mac kind f text' = .ok p' →
      trim text ≠ trim text' → p.state ≠ p'.state) ∧
    ∀ e, resume mac kind f text = .error e →
      (∃ reason, e = .corruptedState reason) ∨ ∃ m, e = .statementMismatch m := by
  refine ⟨fun p h => ?_, fun key state => TokenKind.ofToken_safe_eq_ok_iff,
    fun text' p p' h h' hne hstate => ?_, fun e h => ?_⟩
  · obtain ⟨state, -, hp⟩ := resume_eq_ok_iff.1 h
    exact ⟨⟨state, hp⟩, exportToken_of_resume h⟩
  · -- Pagers of one statement in the same state are one pager, which has one token.
    obtain ⟨state, -, hp⟩ := resume_eq_ok_iff.1 h
    obtain ⟨state', -, hp'⟩ := resume_eq_ok_iff.1 h'
    have hsame : p = p' := by
      rw [hp, hp'] at hstate ⊢
      exact congrArg (Pager.mk f) hstate
    have htoken := exportToken_of_resume h
    rw [hsame, exportToken_of_resume h'] at htoken
    exact hne (Option.some.inj (Except.ok.inj htoken)).symm
  · rcases bind_eq_error_iff.1 h with h | ⟨state, -, h⟩
    · exact TokenKind.ofToken_eq_error h
    · cases h

/-- Two tokens, the first with white space around it, and a text with a bit in its last symbol that
stands for nothing. -/
theorem resumed_by_one_spelling_blank :
    let f : Fingerprint := ⟨"SELECT a", [none]⟩
    resume Mac.hmacSha256 .simple f " AQI\n".toList = .ok ⟨f, .hasCursor ⟨[1, 2]⟩⟩ ∧
      exportToken Mac.hmacSha256 .simple ⟨f, .hasCursor ⟨[1, 2]⟩⟩ = .ok (some "AQI".toList) ∧
      resume Mac.hmacSha256 .simple f "AQIA".toList = .ok ⟨f, .hasCursor ⟨[1, 2, 0]⟩⟩ ∧
      trim " AQI\n".toList ≠ trim "AQIA".toList ∧
      (PageState.hasCursor ⟨[1, 2]⟩ ≠ .hasCursor ⟨[1, 2, 0]⟩) ∧
      ∃ e, resume Mac.hmacSha256 .simple f "AQJ".toList = .error e ∧
        ((∃ reason, e = .corruptedState reason) ∨ ∃ m, e = .statementMismatch m) := by
  intro f
  have hpadded : resume Mac.hmacSha256 .simple f " AQI\n".toList =
      .ok ⟨f, .hasCursor ⟨[1, 2]⟩⟩ := by rfl
  have hother : resume Mac.hmacSha256 .simple f "AQIA".toList =
      .ok ⟨f, .hasCursor ⟨[1, 2, 0]⟩⟩ := by rfl
  have hunused : ∃ e, resume Mac.hmacSha256 .simple f "AQJ".toList = .error e := ⟨_, rfl⟩
  have hne : trim " AQI\n".toList ≠ trim "AQIA".toList := by decide
  obtain ⟨hexport, -, hstates, -⟩ :=
    resumed_by_one_spelling Mac.hmacSha256 .simple f " AQI\n".toList
  obtain ⟨e, he⟩ := hunused
  obtain ⟨-, -, -, hrefused⟩ := resumed_by_one_spelling Mac.hmacSha256 .simple f "AQJ".toList
  exact ⟨hpadded, (hexport _ hpadded).2, hother, hne, hstates _ _ _ hpadded hother hne, e, he,
    hrefused e he⟩

end CqlWire.Pager
