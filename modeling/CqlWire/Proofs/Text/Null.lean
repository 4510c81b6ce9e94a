import CqlWire.Proofs.Text.Trim

/-!
# The literal of an absent value

NULL has sixteen spellings, and a literal is NULL if it is one of them with blanks around it
(`isNullLiteral_iff`). A literal that has a digit, a sign, a quote or a bracket anywhere is not
(`isNullLiteral_of_mem_of_not_blank`).
-/

namespace CqlWire.Text

/-- The word NULL in every mixture of capital and small letters. -/
def nullSpellings : List (List Char) :=
  ['N', 'n'].flatMap fun a => ['U', 'u'].flatMap fun b => ['L', 'l'].flatMap fun c =>
    ['L', 'l'].map fun d => [a, b, c, d]

/-- The two cases of a letter. -/
theorem mem_of_toAsciiLower {c l : Char} (h : toAsciiLower c = l) : c ∈ [toAsciiUpper l, l] := by
  rw [← h]
  exact toAsciiLower_induction (P := fun c l => c ∈ [toAsciiUpper l, l])
    (fun _ => List.mem_cons_of_mem _ List.mem_cons_self) (by decide) c

theorem isNullLiteral_iff {t : List Char} : isNullLiteral t = true ↔ trim t ∈ nullSpellings := by
  rw [isNullLiteral, eqIgnoreCase, beq_iff_eq]
  constructor
  · intro h
    have hword : nullWord.map toAsciiLower = ['n', 'u', 'l', 'l'] := rfl
    simp only [hword, List.map_eq_cons_iff, List.map_eq_nil_iff] at h
    obtain ⟨a, _, ht, ha, b, _, rfl, hb, c, _, rfl, hc, d, _, rfl, hd, rfl⟩ := h
    rw [ht, nullSpellings]
    refine List.mem_flatMap.2 ⟨a, mem_of_toAsciiLower ha, ?_⟩
    refine List.mem_flatMap.2 ⟨b, mem_of_toAsciiLower hb, ?_⟩
    refine List.mem_flatMap.2 ⟨c, mem_of_toAsciiLower hc, ?_⟩
    exact List.mem_map.2 ⟨d, mem_of_toAsciiLower hd, rfl⟩
  · intro h
    have hall : ∀ s ∈ nullSpellings, s.map toAsciiLower = nullWord.map toAsciiLower := by decide
    exact hall (trim t) h

/-! ## What is not NULL -/

theorem isNullLiteral_of_mem_of_not_blank {c : Char} {s : List Char} (h : c ∈ s)
    (hb : isBlank c = false) (hc : c.toNat < 65 ∨ 122 < c.toNat) : isNullLiteral s = false :=
  isNullLiteral_of_mem_trim (mem_trim h hb) hc

/-- A literal with a digit, a sign or a point is not NULL. -/
theorem isNullLiteral_of_isWordChar {c : Char} {s : List Char} (h : c ∈ s)
    (hw : isWordChar c = true) (hc : c.toNat < 65) : isNullLiteral s = false :=
  isNullLiteral_of_mem_of_not_blank h (isBlank_of_isWordChar hw) (.inl hc)

theorem isNullLiteral_quote (s : List Char) : isNullLiteral (quote s) = false :=
  isNullLiteral_of_mem (isTight_quote s) List.mem_cons_self (by decide)

/-! ## Reading -/

/-- NULL is not a quoted text. -/
theorem unquote?_of_isNullLiteral {t : List Char} (h : isNullLiteral t = true) :
    unquote? t = none := by
  cases hu : unquote? t with
  | none => rfl
  | some s =>
    have hmem : '\x27' ∈ trim t := by
      rw [unquote?_eq_some_iff.1 hu]
      exact List.mem_cons_self
    rw [isNullLiteral_of_mem_trim hmem (by decide)] at h
    cases h

end CqlWire.Text
