import CqlWire.Literal.Term
import CqlWire.Proofs.Text.Quoted

/-!
# The grammar of terms

`Group` holds of the texts that may stand between two brackets, and `Pieces` of the mixtures of
quoted strings, bracket groups and bare characters; a term (`IsTerm`) is such a mixture without
white space at its ends. A reader that goes on behind such a text goes on from its end
(`groupSpan_append`, `pieces_append`): inside of it nothing divides a literal.
-/

namespace CqlWire.Literal

open Text (quote doubleQuotes IsTight isWordChar)

/-- A character that stands for itself inside of a group. -/
def isInner (c : Char) : Bool :=
  !(c == '\x27' || (closer? c).isSome || isCloser c)

/-- What may stand between two brackets. -/
inductive Group : List Char → Prop where
  | nil : Group []
  | inner {c : Char} {r : List Char} (hc : isInner c = true) (hr : Group r) : Group (c :: r)
  | quoted (s : List Char) {r : List Char} (hr : Group r) : Group (quote s ++ r)
  | group {o c : Char} {b r : List Char} (hc : closer? o = some c) (hb : Group b) (hr : Group r) :
    Group (o :: (b ++ c :: r))

/-- Quoted strings, bracket groups and bare characters in any mixture. -/
inductive Pieces : List Char → Prop where
  | nil : Pieces []
  | bare {c : Char} {r : List Char} (hc : isBare c = true) (hr : Pieces r) : Pieces (c :: r)
  | quoted (s : List Char) {r : List Char} (hr : Pieces r) : Pieces (quote s ++ r)
  | group {o c : Char} {b r : List Char} (hc : closer? o = some c) (hb : Group b) (hr : Pieces r) :
    Pieces (o :: (b ++ c :: r))

/-- A term, without white space at its ends. -/
structure IsTerm (t : List Char) : Prop where
  pieces : Pieces t
  nonempty : t ≠ []
  tight : IsTight t

/-! ## Characters -/

theorem isInner_of_isBare {c : Char} (h : isBare c = true) : isInner c = true := by
  simp only [isBare, isInner, Bool.not_eq_true', Bool.or_eq_false_iff] at h ⊢
  exact ⟨⟨h.1.1.2, h.1.2⟩, h.2⟩

theorem eq_of_isCloser {c : Char} (h : isCloser c = true) : c = '\x7d' ∨ c = ']' ∨ c = ')' := by
  simp only [isCloser, Bool.or_eq_true, beq_iff_eq] at h
  rcases h with (rfl | rfl) | rfl
  · exact .inl rfl
  · exact .inr (.inl rfl)
  · exact .inr (.inr rfl)

theorem eq_of_closer? {o c : Char} (h : closer? o = some c) :
    o = '\x7b' ∧ c = '\x7d' ∨ o = '[' ∧ c = ']' ∨ o = '(' ∧ c = ')' := by
  unfold closer? at h
  split at h
  · cases h
    exact .inl ⟨rfl, rfl⟩
  · cases h
    exact .inr (.inl ⟨rfl, rfl⟩)
  · cases h
    exact .inr (.inr ⟨rfl, rfl⟩)
  · cases h

theorem isCloser_of_closer? {o c : Char} (h : closer? o = some c) : isCloser c = true := by
  rcases eq_of_closer? h with ⟨-, rfl⟩ | ⟨-, rfl⟩ | ⟨-, rfl⟩ <;> rfl

/-! ## Quoted strings -/

theorem quotedSpan_cons {c : Char} (h : c ≠ '\x27') (r : List Char) :
    quotedSpan (c :: r) = (quotedSpan r).map fun p => (c :: p.1, p.2) := by
  rw [quotedSpan]
  · rw [if_neg h]
  · exact fun _ hc _ => h hc

theorem quotedSpan_close {r : List Char} (h : r.head? ≠ some '\x27') :
    quotedSpan ('\x27' :: r) = some (['\x27'], r) := by
  rw [quotedSpan]
  · rw [if_pos rfl]
  · rintro r' - rfl
    exact h rfl

/-- The inside of a quoted string is read over. -/
theorem quotedSpan_append (s r : List Char) : quotedSpan (doubleQuotes s ++ r) =
    (quotedSpan r).map fun p => (doubleQuotes s ++ p.1, p.2) := by
  induction s with
  | nil =>
    cases h : quotedSpan r <;> simp [doubleQuotes, h]
  | cons c s ih =>
    by_cases hc : c = '\x27'
    · subst hc
      show (quotedSpan (doubleQuotes s ++ r)).map _ = _
      rw [ih, Option.map_map]
      rfl
    · rw [Text.doubleQuotes_cons hc, List.cons_append, quotedSpan_cons hc, ih, Option.map_map]
      rfl

/-- A quoted string ends at its closing quote unless another one follows. -/
theorem quotedSpan_doubleQuotes (s : List Char) {r : List Char} (h : r.head? ≠ some '\x27') :
    quotedSpan (doubleQuotes s ++ '\x27' :: r) = some (doubleQuotes s ++ ['\x27'], r) := by
  rw [quotedSpan_append, quotedSpan_close h, Option.map_some]

/-- A quoted string that another one follows is read together with it. -/
theorem quotedSpan_doubleQuotes_quote (s : List Char) {r t u : List Char}
    (h : quotedSpan r = some (t, u)) : quotedSpan (doubleQuotes s ++ '\x27' :: '\x27' :: r) =
      some (doubleQuotes s ++ '\x27' :: '\x27' :: t, u) := by
  have htwo : quotedSpan ('\x27' :: '\x27' :: r) = some ('\x27' :: '\x27' :: t, u) := by
    show (quotedSpan r).map _ = _
    rw [h, Option.map_some]
  rw [quotedSpan_append, htwo, Option.map_some]

/-! ## Groups -/

section

variable {close : Char} {outer r : List Char}

theorem groupSpan_close : groupSpan (close :: outer) (close :: r) =
    (groupSpan outer r).map fun p => (close :: p.1, p.2) := by
  rw [groupSpan, if_pos rfl]

theorem groupSpan_inner {c : Char} (hclose : isCloser close = true) (hc : isInner c = true) :
    groupSpan (close :: outer) (c :: r) =
      (groupSpan (close :: outer) r).map fun p => (c :: p.1, p.2) := by
  simp only [isInner, Bool.not_eq_true', Bool.or_eq_false_iff, beq_eq_false_iff_ne,
    Option.isSome_eq_false_iff, Option.isNone_iff_eq_none] at hc
  obtain ⟨⟨hquote, hopen⟩, hcloser⟩ := hc
  have hne : c ≠ close := by
    rintro rfl
    rw [hclose] at hcloser
    cases hcloser
  rw [groupSpan, if_neg hne, if_neg hquote]
  simp only [hopen, hcloser]
  rfl

theorem groupSpan_open {o c : Char} (hclose : isCloser close = true) (ho : closer? o = some c) :
    groupSpan (close :: outer) (o :: r) =
      (groupSpan (c :: close :: outer) r).map fun p => (o :: p.1, p.2) := by
  have hne : o ≠ close ∧ o ≠ '\x27' := by
    rcases eq_of_closer? ho with ⟨rfl, -⟩ | ⟨rfl, -⟩ | ⟨rfl, -⟩ <;>
      rcases eq_of_isCloser hclose with rfl | rfl | rfl <;> decide
  rw [groupSpan, if_neg hne.1, if_neg hne.2]
  simp only [ho]

theorem groupSpan_quote {t u : List Char} (hclose : isCloser close = true)
    (h : quotedSpan r = some (t, u)) : groupSpan (close :: outer) ('\x27' :: r) =
      (groupSpan (close :: outer) u).map fun p => ('\x27' :: t ++ p.1, p.2) := by
  have hne : '\x27' ≠ close := by
    rcases eq_of_isCloser hclose with rfl | rfl | rfl <;> decide
  rw [groupSpan, if_neg hne, if_pos rfl]
  split
  · rename_i hnone
    rw [h] at hnone
    cases hnone
  · rename_i t' u' hsome
    rw [h] at hsome
    cases hsome
    rfl

theorem groupSpan_unclosed (hclose : isCloser close = true) (h : quotedSpan r = none) :
    groupSpan (close :: outer) ('\x27' :: r) = none := by
  have hne : '\x27' ≠ close := by
    rcases eq_of_isCloser hclose with rfl | rfl | rfl <;> decide
  rw [groupSpan, if_neg hne, if_pos rfl]
  split
  · rfl
  · rename_i hsome
    rw [h] at hsome
    cases hsome

theorem quote_append (s r : List Char) :
    quote s ++ r = '\x27' :: (doubleQuotes s ++ '\x27' :: r) := by
  rw [quote, List.cons_append, List.cons_append, List.append_assoc]
  rfl

/-- What can be read goes on to be read behind a quoted string. -/
theorem groupSpan_quote_append (s : List Char) {t u : List Char} (hclose : isCloser close = true)
    (h : groupSpan (close :: outer) r = some (t, u)) :
    groupSpan (close :: outer) (quote s ++ r) = some (quote s ++ t, u) := by
  -- A quote right behind the string is the second of a pair, and the string goes on.
  by_cases hq : r.head? = some '\x27'
  · obtain ⟨r', rfl⟩ := List.head?_eq_some_iff.1 hq
    cases hspan : quotedSpan r' with
    | none =>
      rw [groupSpan_unclosed hclose hspan] at h
      cases h
    | some p =>
      rw [groupSpan_quote hclose hspan] at h
      obtain ⟨v, hv, rfl⟩ := append_of_map_cons h
      rw [quote_append, groupSpan_quote hclose (quotedSpan_doubleQuotes_quote s hspan), hv,
        Option.map_some, quote_append]
      simp
  · rw [quote_append, groupSpan_quote hclose (quotedSpan_doubleQuotes s hq), h, Option.map_some,
      quote_append]
    simp

/-- What can be read goes on to be read behind the inside of a group. -/
theorem groupSpan_append {b t u : List Char} (hb : Group b) (hclose : isCloser close = true)
    (h : groupSpan (close :: outer) r = some (t, u)) :
    groupSpan (close :: outer) (b ++ r) = some (b ++ t, u) := by
  induction hb generalizing close outer r t u with
  | nil => exact h
  | inner hc _ ih => rw [List.cons_append, groupSpan_inner hclose hc, ih hclose h]; rfl
  | quoted s _ ih =>
    rw [List.append_assoc, List.append_assoc]
    exact groupSpan_quote_append s hclose (ih hclose h)
  | @group o c b r' ho _ _ ihb ihr =>
    have hinner : groupSpan (c :: close :: outer) (c :: (r' ++ r)) = some (c :: (r' ++ t), u) := by
      rw [groupSpan_close, ihr hclose h, Option.map_some]
    rw [List.cons_append, List.append_assoc, List.cons_append, groupSpan_open hclose ho,
      ihb (isCloser_of_closer? ho) hinner, Option.map_some]
    simp

end

/-! ## Pieces -/

/-- Texts that begin no piece, as those behind a term do. -/
def Stops (r : List Char) : Prop :=
  ∀ c, r.head? = some c → c = ',' ∨ c = ':' ∨ isCloser c = true

theorem piece?_of_stops {r : List Char} (h : Stops r) : piece? r = none := by
  cases r with
  | nil => rfl
  | cons c r =>
    rcases h c rfl with rfl | rfl | hc
    · rfl
    · rfl
    · rcases eq_of_isCloser hc with rfl | rfl | rfl <;> rfl

theorem pieces_of_piece? {s t r : List Char} (h : piece? s = some (t, r)) :
    pieces s = (t ++ (pieces r).1, (pieces r).2) := by
  rw [pieces]
  split
  · rename_i hnone
    rw [h] at hnone
    cases hnone
  · rename_i hsome
    rw [h] at hsome
    cases hsome
    rfl

theorem pieces_of_none {s : List Char} (h : piece? s = none) : pieces s = ([], s) := by
  rw [pieces]
  split
  · rfl
  · rename_i hsome
    rw [h] at hsome
    cases hsome

theorem piece?_quote {r t u : List Char} (h : quotedSpan r = some (t, u)) :
    piece? ('\x27' :: r) = some ('\x27' :: t, u) := by
  rw [piece?, if_pos rfl, h, Option.map_some]

theorem piece?_group {o c : Char} {b r : List Char} (ho : closer? o = some c) (hb : Group b) :
    piece? (o :: (b ++ c :: r)) = some (o :: (b ++ [c]), r) := by
  have hne : o ≠ '\x27' := by
    rcases eq_of_closer? ho with ⟨rfl, -⟩ | ⟨rfl, -⟩ | ⟨rfl, -⟩ <;> decide
  have hend : groupSpan [c] (c :: r) = some ([c], r) := by
    rw [groupSpan_close, groupSpan, Option.map_some]
  rw [piece?, if_neg hne]
  simp only [ho]
  rw [groupSpan_append hb (isCloser_of_closer? ho) hend, Option.map_some]

theorem piece?_bare {c : Char} {r : List Char} (hc : isBare c = true) :
    piece? (c :: r) = some ([c], r) := by
  have hs := hc
  simp only [isBare, Bool.not_eq_true', Bool.or_eq_false_iff, beq_eq_false_iff_ne,
    Option.isSome_eq_false_iff, Option.isNone_iff_eq_none] at hs
  obtain ⟨⟨⟨-, hquote⟩, hopen⟩, -⟩ := hs
  rw [piece?, if_neg hquote]
  simp only [hopen, hc, if_true]

/-- What can be read goes on to be read behind a quoted string. -/
theorem pieces_quote_append (s : List Char) {r t u : List Char} (h : pieces r = (t, u))
    (hr : r.head? = some '\x27' → piece? r ≠ none) : pieces (quote s ++ r) = (quote s ++ t, u) := by
  by_cases hq : r.head? = some '\x27'
  · have hsome := hr hq
    obtain ⟨r', rfl⟩ := List.head?_eq_some_iff.1 hq
    cases hspan : quotedSpan r' with
    | none =>
      rw [piece?, if_pos rfl, hspan] at hsome
      exact absurd rfl hsome
    | some p =>
      rw [pieces_of_piece? (piece?_quote hspan)] at h
      obtain ⟨rfl, rfl⟩ := Prod.mk.inj h
      rw [quote_append,
        pieces_of_piece? (piece?_quote (quotedSpan_doubleQuotes_quote s hspan)), quote_append]
      simp
  · rw [quote_append, pieces_of_piece? (piece?_quote (quotedSpan_doubleQuotes s hq)), h,
      quote_append]
    simp

/-- Pieces are read to their end, where no other piece begins. -/
theorem pieces_append {t r : List Char} (ht : Pieces t) (hr : Stops r) :
    pieces (t ++ r) = (t, r) := by
  induction ht with
  | nil => exact pieces_of_none (piece?_of_stops hr)
  | bare hc _ ih =>
    rw [List.cons_append, pieces_of_piece? (piece?_bare hc), ih]
    rfl
  | @quoted s r' _ ih =>
    rw [List.append_assoc, pieces_quote_append s ih fun hq => ?_]
    intro hnone
    rw [pieces_of_none hnone] at ih
    cases ih
    rcases hr _ hq with hc | hc | hc <;> exact absurd hc (by decide)
  | group ho hb _ ih =>
    rw [List.cons_append, List.append_assoc, List.cons_append,
      pieces_of_piece? (piece?_group ho hb), ih]
    simp

theorem pieces_of_stops {r : List Char} (h : Stops r) : pieces r = ([], r) :=
  pieces_of_none (piece?_of_stops h)

/-! ## Making terms -/

theorem Group.append {a b : List Char} (ha : Group a) (hb : Group b) : Group (a ++ b) := by
  induction ha with
  | nil => exact hb
  | inner hc _ ih => exact .inner hc ih
  | quoted s _ ih =>
    rw [List.append_assoc]
    exact .quoted s ih
  | group ho hg _ _ ih =>
    rw [List.cons_append, List.append_assoc, List.cons_append]
    exact .group ho hg ih

theorem Pieces.append {a b : List Char} (ha : Pieces a) (hb : Pieces b) : Pieces (a ++ b) := by
  induction ha with
  | nil => exact hb
  | bare hc _ ih => exact .bare hc ih
  | quoted s _ ih =>
    rw [List.append_assoc]
    exact .quoted s ih
  | group ho hg _ ih =>
    rw [List.cons_append, List.append_assoc, List.cons_append]
    exact .group ho hg ih

theorem pieces_of_isBare {t : List Char} (h : ∀ c ∈ t, isBare c = true) : Pieces t := by
  induction t with
  | nil => exact .nil
  | cons c t ih =>
    obtain ⟨hc, ht⟩ := List.forall_mem_cons.1 h
    exact .bare hc (ih ht)

/-- What may stand in a term may stand in a group. -/
theorem group_of_pieces {t : List Char} (h : Pieces t) : Group t := by
  induction h with
  | nil => exact .nil
  | bare hc _ ih => exact .inner (isInner_of_isBare hc) ih
  | quoted s _ ih => exact .quoted s ih
  | group ho hb _ ih => exact .group ho hb ih

theorem isBare_of_isWordChar {c : Char} (h : isWordChar c = true) : isBare c = true := by
  cases hb : isBare c with
  | true => rfl
  | false =>
    simp only [isBare, isCloser, Bool.not_eq_false', Bool.or_eq_true, beq_iff_eq,
      Option.isSome_iff_exists] at hb
    rcases hb with (((rfl | rfl) | rfl) | ⟨d, hd⟩) | (rfl | rfl) | rfl
    · cases h
    · cases h
    · cases h
    · rcases eq_of_closer? hd with ⟨rfl, -⟩ | ⟨rfl, -⟩ | ⟨rfl, -⟩ <;> cases h
    · cases h
    · cases h
    · cases h

/-- Bare characters without white space at their ends are a term. -/
theorem isTerm_of_isBare {t : List Char} (hne : t ≠ []) (h : ∀ c ∈ t, isBare c = true)
    (ht : IsTight t) : IsTerm t :=
  ⟨pieces_of_isBare h, hne, ht⟩

/-- A word is a term. -/
theorem isTerm_word {t : List Char} (hne : t ≠ []) (h : ∀ c ∈ t, isWordChar c = true) :
    IsTerm t :=
  isTerm_of_isBare hne (fun c hc => isBare_of_isWordChar (h c hc)) (Text.isTight_of_word h)

theorem isTerm_quote (s : List Char) : IsTerm (quote s) := by
  refine ⟨?_, List.cons_ne_nil _ _, Text.isTight_quote s⟩
  rw [← List.append_nil (quote s)]
  exact .quoted s .nil

/-- A bracket group is a term. -/
theorem isTerm_group {o c : Char} {b : List Char} (ho : closer? o = some c) (hb : Group b) :
    IsTerm (o :: b ++ [c]) := by
  refine ⟨.group ho hb .nil, List.cons_ne_nil _ _, ?_⟩
  rcases eq_of_closer? ho with ⟨rfl, rfl⟩ | ⟨rfl, rfl⟩ | ⟨rfl, rfl⟩ <;>
    exact Text.isTight_cons_concat (by decide) (by decide) b

end CqlWire.Literal
