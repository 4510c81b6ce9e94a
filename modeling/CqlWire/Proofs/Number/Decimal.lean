import CqlWire.Proofs.Number.UnscaledLiteral
import CqlWire.Proofs.Text.Quoted

/-!
# Decimals are read as they were written

The text of a decimal is a literal (`exists_literal`): it has an exponent for a scale below zero and
a point for one above, so that it is read with its scale (`read_toText`). The least scale is an
exception: its exponent is out of range (`read_toText_least`).
-/

namespace CqlWire.UnscaledDecimal

open Text (isAsciiDigit isWordChar trim)

/-! ## The characters of a literal -/

/-- The digits of a number with as many zeros in front as its fraction needs. -/
def padded (d : UnscaledDecimal) : List Char :=
  let digits := decimalDigits d.unscaled.natAbs
  List.replicate (d.scale.toNat + 1 - digits.length) '0' ++ digits

theorem length_padded (d : UnscaledDecimal) : d.scale.toNat < d.padded.length := by
  rw [padded, List.length_append, List.length_replicate]
  omega

theorem toText_of_pos {d : UnscaledDecimal} (h : 0 < d.scale) : d.toText =
    ((if d.unscaled < 0 then ['-'] else []) ++
      d.padded.take (d.padded.length - d.scale.toNat)) ++
        '.' :: d.padded.drop (d.padded.length - d.scale.toNat) := by
  rw [toText, if_neg (by omega), if_neg (by omega)]
  rfl

theorem toText_of_neg {d : UnscaledDecimal} (h : d.scale < 0) :
    d.toText = decimalText d.unscaled ++ 'E' :: '+' :: decimalDigits (-d.scale).toNat := by
  rw [toText, if_neg (by omega), if_pos h, List.append_assoc,
    decimalText_of_nonneg (show 0 ≤ -d.scale by omega)]
  rfl

theorem isWordChar_of_mem_toText {d : UnscaledDecimal} {c : Char} (h : c ∈ d.toText) :
    isWordChar c = true := by
  have hpadded : ∀ c ∈ d.padded, isWordChar c = true := fun c hc =>
    Text.isWordChar_of_isAsciiDigit (isAsciiDigit_of_mem_zeros hc)
  rcases Int.lt_trichotomy d.scale 0 with hs | hs | hs
  · rw [toText_of_neg hs, List.mem_append, List.mem_cons, List.mem_cons] at h
    rcases h with h | rfl | rfl | h
    · exact isWordChar_of_mem_decimalText h
    · rfl
    · rfl
    · exact Text.isWordChar_of_isAsciiDigit (isAsciiDigit_of_mem_decimalDigits h)
  · rw [toText, if_pos hs] at h
    exact isWordChar_of_mem_decimalText h
  · rw [toText_of_pos hs, List.mem_append, List.mem_append, List.mem_cons] at h
    rcases h with (h | h) | rfl | h
    · split at h
      · rw [List.mem_singleton.1 h]
        rfl
      · cases h
    · exact hpadded c (List.mem_of_mem_take h)
    · rfl
    · exact hpadded c (List.mem_of_mem_drop h)

/-- The literal has a digit, a minus sign or a point. -/
theorem exists_mem_toText (d : UnscaledDecimal) : ∃ c ∈ d.toText, c.toNat < 65 := by
  obtain ⟨c, hc⟩ := List.exists_mem_of_ne_nil _ (decimalText_ne_nil d.unscaled)
  rcases Int.lt_trichotomy d.scale 0 with hs | hs | hs
  · rw [toText_of_neg hs]
    exact ⟨c, List.mem_append_left _ hc, lt_of_mem_decimalText hc⟩
  · rw [toText, if_pos hs]
    exact ⟨c, hc, lt_of_mem_decimalText hc⟩
  · rw [toText_of_pos hs]
    exact ⟨'.', List.mem_append_right _ List.mem_cons_self, by decide⟩

/-! ## The literal of a decimal -/

/-- The text of a decimal is a literal of its integer. A scale above zero is the number of its
fraction digits, and one below zero its exponent. -/
theorem exists_literal (d : UnscaledDecimal) : ∃ l : UnscaledLiteral, d.toText = l.text ∧
    l.integer = d.unscaled ∧ l.fraction.length = d.scale.toNat ∧
    l.exponent = (-d.scale).toNat := by
  have hdigits : ∀ c ∈ decimalDigits d.unscaled.natAbs ++ [], isAsciiDigit c = true := by
    rw [List.append_nil]
    exact fun c hc => isAsciiDigit_of_mem_decimalDigits hc
  have hne : decimalDigits d.unscaled.natAbs ++ [] ≠ [] :=
    List.append_ne_nil_of_left_ne_nil (decimalDigits_ne_nil _) _
  have hinteger : (Sign.ofInt d.unscaled).factor *
      Nat.ofDigitChars 10 (decimalDigits d.unscaled.natAbs ++ []) 0 = d.unscaled := by
    rw [List.append_nil, ofDigitChars_decimalDigits, Sign.factor_ofInt_mul]
  have hplain : decimalText d.unscaled =
      (Sign.ofInt d.unscaled).text ++ decimalDigits d.unscaled.natAbs ++ [] := by
    rw [decimalText_eq, Sign.text_ofInt, List.append_nil]
  rcases Int.lt_trichotomy d.scale 0 with hneg | hzero | hpos
  · have hexponent : (-d.scale).toNat = (1 : Int) *
        Nat.ofDigitChars 10 (decimalDigits (-d.scale).toNat) 0 := by
      rw [ofDigitChars_decimalDigits, Int.one_mul]
    refine ⟨⟨Sign.ofInt d.unscaled, decimalDigits d.unscaled.natAbs, none,
      some ⟨'E', .plus, decimalDigits (-d.scale).toNat, rfl,
        fun c hc => isAsciiDigit_of_mem_decimalDigits hc, decimalDigits_ne_nil _⟩, hdigits, hne⟩,
      ?_, hinteger, ?_, hexponent.symm⟩
    · rw [toText_of_neg hneg, hplain]
      rfl
    · rw [Int.toNat_of_nonpos (Int.le_of_lt hneg)]
      rfl
  · refine ⟨⟨Sign.ofInt d.unscaled, decimalDigits d.unscaled.natAbs, none, none, hdigits, hne⟩,
      ?_, hinteger, ?_, ?_⟩
    · rw [toText, if_pos hzero, hplain]
      exact (List.append_nil _).symm
    · rw [hzero]
      rfl
    · rw [hzero]
      rfl
  · have hlen := length_padded d
    have htext := toText_of_pos hpos
    have hcut := List.take_append_drop (d.padded.length - d.scale.toNat) d.padded
    have hcount : (d.padded.drop (d.padded.length - d.scale.toNat)).length = d.scale.toNat := by
      rw [List.length_drop]
      omega
    generalize d.padded.take (d.padded.length - d.scale.toNat) = whole at htext hcut
    generalize d.padded.drop (d.padded.length - d.scale.toNat) = fraction at htext hcut hcount
    have hdigits : ∀ c ∈ whole ++ fraction, isAsciiDigit c = true := by
      rw [hcut]
      exact fun c hc => isAsciiDigit_of_mem_zeros hc
    have hne : whole ++ fraction ≠ [] := by
      rw [hcut]
      exact List.ne_nil_of_length_pos (by omega)
    have hinteger : (Sign.ofInt d.unscaled).factor *
        Nat.ofDigitChars 10 (whole ++ fraction) 0 = d.unscaled := by
      rw [hcut, padded, ofDigitChars_zeros, Sign.factor_ofInt_mul]
    refine ⟨⟨Sign.ofInt d.unscaled, whole, some fraction, none, hdigits, hne⟩, ?_, hinteger, hcount,
      ?_⟩
    · rw [htext, ← Sign.text_ofInt]
      exact (List.append_nil _).symm
    · rw [Int.toNat_of_nonpos (show -d.scale ≤ 0 by omega)]
      rfl

/-! ## Reading -/

theorem fitsSigned_scale_iff {n : Int} :
    fitsSigned 32 n = true ↔ -2147483648 ≤ n ∧ n ≤ 2147483647 := by
  rw [fitsSigned, Bool.and_eq_true, decide_eq_true_iff, decide_eq_true_iff]
  exact Iff.rfl

/-- The literal stands in the text as it is: there is no white space around it. -/
theorem exists_literal_of_trim (d : UnscaledDecimal) : ∃ l : UnscaledLiteral,
    trim d.toText = l.text ∧ l.toUnscaled = d ∧ l.fraction.length = d.scale.toNat ∧
    l.exponent = (-d.scale).toNat := by
  obtain ⟨l, htext, hinteger, hcount, hexponent⟩ := exists_literal d
  have hscale : l.scale = d.scale := by
    rw [UnscaledLiteral.scale, hcount, hexponent]
    omega
  refine ⟨l, ?_, ?_, hcount, hexponent⟩
  · rw [Text.trim_of_isTight (Text.isTight_of_word fun c hc => isWordChar_of_mem_toText hc), htext]
  · rw [UnscaledLiteral.toUnscaled, hinteger, hscale]

/-- A decimal is read from its literal, with its scale, unless the scale is the least one. -/
theorem read_toText {d : UnscaledDecimal} (hu : fitsSigned 128 d.unscaled = true)
    (hs : fitsSigned 32 d.scale = true) (hleast : d.scale ≠ -2147483648) :
    read d.toText = .ok d := by
  obtain ⟨l, htext, rfl, hcount, hexponent⟩ := exists_literal_of_trim d
  obtain ⟨hlo, hhi⟩ := fitsSigned_scale_iff.1 hs
  refine l.read_text htext hu ?_ ?_ hs
  · rw [hexponent]
    exact fitsSigned_scale_iff.2 (by omega)
  · rw [hcount]
    exact fitsSigned_scale_iff.2 (by omega)

/-- The literal of a decimal with the least scale is refused: its exponent is the magnitude of the
scale, which is no number of 32 bits. -/
theorem read_toText_least {d : UnscaledDecimal} (hleast : d.scale = -2147483648) :
    read d.toText = .error .exponent := by
  obtain ⟨l, htext, -, -, hexponent⟩ := exists_literal_of_trim d
  refine l.read_text_of_exponent htext ?_
  rw [hexponent, hleast]
  decide

end CqlWire.UnscaledDecimal
