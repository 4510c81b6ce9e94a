import CqlWire.Proofs.Literal.Reading
import Mathlib.Algebra.Ring.Parity

/-!
# String literals and their quotes

A text is put in quotes by writing each of its quotes twice, which leaves runs of quotes of even
length only, and every text with such runs is made so (`doubleQuotes_halveQuotes`). A string literal
may be read in two steps: the quoted string is read up to the first quote that is not one of a pair,
and then each pair is made one quote, from left to right. That is what reading it at once gives
(`unquoteSpan?_eq_some_iff`).
-/

namespace CqlWire.Literal

open Text (quote unquote? doubleQuotes trim)

/-! ## Pairs of quotes -/

/-- The text with a single quote for every pair of quotes, from left to right. -/
def halveQuotes : List Char → List Char
  | [] => []
  | '\x27' :: '\x27' :: r => '\x27' :: halveQuotes r
  | c :: r => c :: halveQuotes r

theorem halveQuotes_cons {c : Char} (h : c ≠ '\x27') (r : List Char) :
    halveQuotes (c :: r) = c :: halveQuotes r := by
  rw [halveQuotes]
  exact fun _ hc _ => h hc

theorem halveQuotes_doubleQuotes (s : List Char) : halveQuotes (doubleQuotes s) = s := by
  induction s with
  | nil => rfl
  | cons c s ih =>
    by_cases hc : c = '\x27'
    · subst hc
      show '\x27' :: halveQuotes (doubleQuotes s) = _
      rw [ih]
    · rw [Text.doubleQuotes_cons hc, halveQuotes_cons hc, ih]

/-- Every run of quotes, from where none stands before it to where none follows, has even length. -/
def HasEvenQuotes (u : List Char) : Prop :=
  ∀ a n b, u = a ++ (List.replicate n '\x27' ++ b) → a.getLast? ≠ some '\x27' →
    b.head? ≠ some '\x27' → Even n

theorem hasEvenQuotes_nil : HasEvenQuotes [] := by
  intro a n b h _ _
  have hrun := (List.append_eq_nil_iff.1 (List.append_eq_nil_iff.1 h.symm).2).1
  rw [(List.replicate_eq_nil_iff _).1 hrun]
  exact Even.zero

/-- Runs are not changed by another character in front. -/
theorem hasEvenQuotes_cons {c : Char} (hc : c ≠ '\x27') (r : List Char) :
    HasEvenQuotes (c :: r) ↔ HasEvenQuotes r := by
  have hlast : ∀ a, (c :: a).getLast? ≠ some '\x27' ↔ a.getLast? ≠ some '\x27' := by
    intro a
    cases a with
    | nil => simp [hc]
    | cons d a => rw [List.getLast?_cons_cons]
  constructor
  · rintro h a n b rfl ha hb
    exact h (c :: a) n b rfl ((hlast a).2 ha) hb
  · intro h a n b heq ha hb
    cases a with
    | nil =>
      cases n with
      | zero => exact Even.zero
      | succ n =>
        cases heq
        exact absurd rfl hc
    | cons d a =>
      cases heq
      exact h a n b rfl ((hlast a).1 ha) hb

/-- The run at the beginning is longer by two, or begins anew. -/
theorem hasEvenQuotes_pair (r : List Char) :
    HasEvenQuotes ('\x27' :: '\x27' :: r) ↔ HasEvenQuotes r := by
  constructor
  · rintro h a n b rfl ha hb
    cases a with
    | nil =>
      have htwo : Even (n + 2) := h [] (n + 2) b rfl nofun hb
      exact (Nat.even_add.1 htwo).2 even_two
    | cons d a =>
      refine h ('\x27' :: '\x27' :: d :: a) n b rfl ?_ hb
      rwa [List.getLast?_cons_cons, List.getLast?_cons_cons]
  · intro h a n b heq ha hb
    match a, n with
    | [], 0 => exact Even.zero
    | [], 1 =>
      cases heq
      exact absurd rfl hb
    | [], n + 2 =>
      cases heq
      exact (h [] n b rfl nofun hb).add even_two
    | [d], n =>
      obtain ⟨rfl, -⟩ := List.cons.inj heq
      exact absurd rfl ha
    | d :: e :: [], n =>
      cases heq
      exact absurd rfl ha
    | d :: e :: f :: a, n =>
      cases heq
      exact h (f :: a) n b rfl ha hb

theorem hasEvenQuotes_doubleQuotes (s : List Char) : HasEvenQuotes (doubleQuotes s) := by
  induction s with
  | nil => exact hasEvenQuotes_nil
  | cons c s ih =>
    by_cases hc : c = '\x27'
    · subst hc
      exact (hasEvenQuotes_pair _).2 ih
    · rw [Text.doubleQuotes_cons hc]
      exact (hasEvenQuotes_cons hc _).2 ih

theorem doubleQuotes_halveQuotes {u : List Char} (h : HasEvenQuotes u) :
    doubleQuotes (halveQuotes u) = u := by
  fun_induction halveQuotes u with
  | case1 => rfl
  | case2 r ih =>
    show '\x27' :: '\x27' :: doubleQuotes (halveQuotes r) = _
    rw [ih ((hasEvenQuotes_pair r).1 h)]
  | case3 c r hnot ih =>
    have hc : c ≠ '\x27' := by
      rintro rfl
      have hodd : Even 1 := h [] 1 r rfl nofun fun hr => by
        obtain ⟨r', rfl⟩ := List.head?_eq_some_iff.1 hr
        exact hnot r' rfl rfl
      exact absurd hodd (by decide)
    rw [Text.doubleQuotes_cons hc, ih ((hasEvenQuotes_cons hc r).1 h)]

/-! ## Reading in two steps -/

/-- The text of a string literal, read in two steps: the quoted string, which is the whole text
without the white space at its ends, and then the pairs of quotes inside of it. -/
def unquoteSpan? (t : List Char) : Option (List Char) :=
  if (trim t).head? = some '\x27' then
    (quotedSpan (trim t).tail).bind fun p =>
      if p.2 = [] then some (halveQuotes p.1.dropLast) else none
  else none

theorem unquoteSpan?_eq_some_iff {t s : List Char} :
    unquoteSpan? t = some s ↔ trim t = quote s := by
  constructor
  · intro h
    obtain ⟨hhead, h⟩ := Option.ite_none_right_eq_some.1 h
    obtain ⟨r, htrim⟩ := List.head?_eq_some_iff.1 hhead
    obtain ⟨⟨span, rest⟩, hspan, hread⟩ := Option.bind_eq_some_iff.1 h
    obtain ⟨rfl, hread⟩ : rest = [] ∧ some (halveQuotes span.dropLast) = some s :=
      Option.ite_none_right_eq_some.1 hread
    obtain ⟨u, rfl⟩ := exists_of_quotedSpan hspan
    rw [List.dropLast_concat, halveQuotes_doubleQuotes] at hread
    cases hread
    have happend := (append_of_quotedSpan hspan).1
    rw [List.append_nil, htrim, List.tail_cons] at happend
    rw [htrim, ← happend, quote, List.cons_append]
  · intro h
    have hspan : quotedSpan (trim t).tail = some (doubleQuotes s ++ ['\x27'], []) := by
      rw [h]
      exact quotedSpan_doubleQuotes s (by decide)
    rw [unquoteSpan?, hspan, Option.bind_some, if_pos rfl, List.dropLast_concat,
      halveQuotes_doubleQuotes, h, quote, List.cons_append, List.head?_cons, if_pos rfl]

theorem unquoteSpan?_eq (t : List Char) : unquoteSpan? t = unquote? t :=
  Option.ext fun _ => unquoteSpan?_eq_some_iff.trans Text.unquote?_eq_some_iff.symm

theorem isSome_unquote?_iff {t : List Char} : (unquote? t).isSome ↔
    ∃ u, trim t = '\x27' :: u ++ ['\x27'] ∧ HasEvenQuotes u := by
  rw [Option.isSome_iff_exists]
  constructor
  · rintro ⟨s, hs⟩
    exact ⟨doubleQuotes s, Text.unquote?_eq_some_iff.1 hs, hasEvenQuotes_doubleQuotes s⟩
  · rintro ⟨u, htrim, hu⟩
    refine ⟨halveQuotes u, Text.unquote?_eq_some_iff.2 ?_⟩
    rw [quote, doubleQuotes_halveQuotes hu, htrim]

/-- **Unquoting inverts quoting on its image.** A text is read from its string literal, with any
white space around it, and from nothing else, whether at once or in two steps. What is accepted are
the texts between two quotes in which all runs of quotes have even length. -/
theorem unquote_inverts_quote (t s : List Char) :
    (unquote? t = some s ↔ trim t = quote s) ∧
    unquote? (quote s) = some s ∧
    unquoteSpan? t = unquote? t ∧
    ((unquote? t).isSome ↔ ∃ u, trim t = '\x27' :: u ++ ['\x27'] ∧ HasEvenQuotes u) :=
  ⟨Text.unquote?_eq_some_iff, Text.unquote?_quote s, unquoteSpan?_eq t, isSome_unquote?_iff⟩

end CqlWire.Literal
