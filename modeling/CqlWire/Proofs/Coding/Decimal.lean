import CqlWire.Proofs.Coding.Failure
import CqlWire.Proofs.Coding.Scalar
import CqlWire.Proofs.Number.Decimal

/-!
# Decimals as literals and as bytes

The coding of decimals reads exactly the literals whose integer, number of fraction digits and scale
are in range, as that integer with that scale, which make up the number that the literal writes
(`parse_unscaled_eq_ok_iff`). What it writes for a decimal it reads as the same decimal, unless the
scale is the least one, and the bytes of any decimal are read as the same one
(`parse_format_unscaled_iff`).
-/

namespace CqlWire.Coding

open Text (trim)

variable {text : List Char} {d : UnscaledDecimal}

theorem parse_unscaled_iff_read :
    unscaled.parse text = .ok d ↔ UnscaledDecimal.read text = .ok d :=
  orRefuse_eq_ok_iff

/-! ## Literals -/

/-- A text of a length of 32 bits has no more than that many fraction digits. -/
theorem fitsSigned_length_fraction {l : UnscaledLiteral} (htext : trim text = l.text)
    (hlength : text.length ≤ 2147483647) : fitsSigned 32 l.fraction.length = true := by
  have hfraction := l.length_fraction_le
  have htrim := Text.length_trim_le text
  rw [htext] at htrim
  exact UnscaledDecimal.fitsSigned_scale_iff.2 (by omega)

/-- What is read from a text is the integer of all digits of the literal that stands in it, white
space around it aside, with the number of fraction digits less the exponent as the scale. The
integer has to fit in 128 bits, and the exponent and the scale in 32. The number of fraction digits
has to fit in 32 bits itself, as it does in every text of at most 2147483647 characters. The integer
at the scale is the number that the literal writes; its sign counts for the fraction as well. -/
theorem parse_unscaled_eq_ok_iff :
    (∀ (text : List Char) (d : UnscaledDecimal), unscaled.parse text = .ok d ↔
      ∃ l : UnscaledLiteral, trim text = l.text ∧ fitsSigned 128 l.integer = true ∧
        fitsSigned 32 l.exponent = true ∧ fitsSigned 32 l.fraction.length = true ∧
        fitsSigned 32 l.scale = true ∧ d = l.toUnscaled) ∧
    (∀ (text : List Char) (d : UnscaledDecimal), text.length ≤ 2147483647 →
      (unscaled.parse text = .ok d ↔
        ∃ l : UnscaledLiteral, trim text = l.text ∧ fitsSigned 128 l.integer = true ∧
          fitsSigned 32 l.exponent = true ∧ fitsSigned 32 l.scale = true ∧ d = l.toUnscaled)) ∧
    ∀ l : UnscaledLiteral, l.toUnscaled.unscaled = l.integer ∧ l.toUnscaled.scale = l.scale ∧
      l.toUnscaled.number = l.number := by
  refine ⟨fun text d => ?_, fun text d hlength => ?_, fun l => ⟨rfl, rfl, l.number_toUnscaled⟩⟩
  · rw [parse_unscaled_iff_read, UnscaledDecimal.read_eq_ok_iff]
  · rw [parse_unscaled_iff_read, UnscaledDecimal.read_eq_ok_iff]
    constructor
    · rintro ⟨l, htext, hinteger, hexponent, -, hscale, rfl⟩
      exact ⟨l, htext, hinteger, hexponent, hscale, rfl⟩
    · rintro ⟨l, htext, hinteger, hexponent, hscale, rfl⟩
      exact ⟨l, htext, hinteger, hexponent, fitsSigned_length_fraction htext hlength, hscale, rfl⟩

/-- A literal without a digit in front of its point keeps its sign. -/
theorem parse_unscaled_negative_fraction :
    unscaled.parse [' ', '-', '.', '5', 'e', '3'] = .ok ⟨-5, -2⟩ ∧
      UnscaledDecimal.number ⟨-5, -2⟩ = -500 := by
  let e : ExponentPart :=
    ⟨'e', .absent, ['3'], rfl, List.forall_mem_singleton.2 rfl, List.cons_ne_nil _ _⟩
  let l : UnscaledLiteral :=
    ⟨.minus, [], some ['5'], some e, List.forall_mem_singleton.2 rfl, List.cons_ne_nil _ _⟩
  constructor
  · refine (parse_unscaled_eq_ok_iff.2.1 _ _ (by decide)).2 ⟨l, rfl, ?_, ?_, ?_, ?_⟩ <;> decide
  · rw [UnscaledDecimal.number]
    norm_num

/-- Zeros behind a point, and an exponent that makes the scale one less than their number. -/
def pointedZeros (count : Nat) : UnscaledLiteral where
  sign := .absent
  whole := ['0']
  fraction? := some (List.replicate count '0')
  exponent? := some ⟨'e', .absent, ['1'], rfl, List.forall_mem_singleton.2 rfl, List.cons_ne_nil _ _⟩
  isDigit := fun c hc => by
    rcases List.mem_append.1 hc with hc | hc
    · rw [List.mem_singleton.1 hc]
      rfl
    · rw [List.eq_of_mem_replicate hc]
      rfl
  ne_nil := List.cons_ne_nil _ _

theorem text_pointedZeros (count : Nat) :
    (pointedZeros count).text = '0' :: '.' :: (List.replicate count '0' ++ ['e', '1']) := rfl

theorem trim_text_pointedZeros (count : Nat) :
    trim (pointedZeros count).text = (pointedZeros count).text := by
  have hlast : (pointedZeros count).text =
      '0' :: ('.' :: (List.replicate count '0' ++ ['e'])) ++ ['1'] := by
    rw [text_pointedZeros, List.cons_append, List.cons_append, List.append_assoc]
    rfl
  rw [hlast]
  exact Text.trim_of_isTight (Text.isTight_cons_concat rfl rfl _)

theorem toUnscaled_pointedZeros (count : Nat) :
    (pointedZeros count).toUnscaled = ⟨0, count - 1⟩ := by
  have hinteger : (pointedZeros count).integer = 0 := by
    show 1 * (Nat.ofDigitChars 10 (List.replicate (count + 1) '0') 0 : Int) = 0
    rw [Nat.ofDigitChars_replicate_zero, Nat.mul_zero]
    rfl
  have hscale : (pointedZeros count).scale = count - 1 := by
    show ((List.replicate count '0').length : Int) - 1 = _
    rw [List.length_replicate]
  rw [UnscaledLiteral.toUnscaled, hinteger, hscale]

/-- Zeros that are too many to be counted in 32 bits are refused, whatever the scale would be. -/
theorem parse_pointedZeros {count : Nat} (h : ¬fitsSigned 32 count = true) :
    unscaled.parse (pointedZeros count).text =
      .error (refuse unscaled.type (pointedZeros count).text "scale out of range") := by
  have hinteger : (pointedZeros count).integer = 0 :=
    congrArg UnscaledDecimal.unscaled (toUnscaled_pointedZeros count)
  have hrefused : UnscaledDecimal.read (pointedZeros count).text = .error .scale := by
    refine (pointedZeros count).read_text_of_count (trim_text_pointedZeros count) ?_ rfl ?_
    · rw [hinteger]
      decide
    · show ¬fitsSigned 32 (List.replicate count '0').length = true
      rwa [List.length_replicate]
  show orRefuse _ _ _ (UnscaledDecimal.read (pointedZeros count).text) = _
  rw [hrefused]
  rfl

/-- So not every literal is read whose integer, exponent and scale are in range. -/
theorem not_parse_iff_of_pointedZeros {count : Nat} (h : ¬fitsSigned 32 count = true)
    (hscale : fitsSigned 32 (count - 1) = true) :
    ¬(unscaled.parse (pointedZeros count).text = .ok ⟨0, count - 1⟩ ↔
      ∃ l : UnscaledLiteral, trim (pointedZeros count).text = l.text ∧
        fitsSigned 128 l.integer = true ∧ fitsSigned 32 l.exponent = true ∧
        fitsSigned 32 l.scale = true ∧ ⟨0, count - 1⟩ = l.toUnscaled) := by
  have hparts := toUnscaled_pointedZeros count
  obtain ⟨hinteger, hs⟩ := UnscaledDecimal.mk.inj hparts
  intro hiff
  have hread := hiff.2 ⟨pointedZeros count, trim_text_pointedZeros count, ?_, rfl, ?_, hparts.symm⟩
  · cases (parse_pointedZeros h).symm.trans hread
  · rw [hinteger]
    decide
  · rwa [hs]

/-- A literal of 2³¹ fraction digits is refused, although its scale would be in range. -/
theorem long_fraction_is_refused :
    let text : List Char := '0' :: '.' :: (List.replicate 2147483648 '0' ++ ['e', '1'])
    let d : UnscaledDecimal := ⟨0, 2147483647⟩
    unscaled.parse text = .error (refuse unscaled.type text "scale out of range") ∧
      ¬(unscaled.parse text = .ok d ↔
        ∃ l : UnscaledLiteral, trim text = l.text ∧ fitsSigned 128 l.integer = true ∧
          fitsSigned 32 l.exponent = true ∧ fitsSigned 32 l.scale = true ∧ d = l.toUnscaled) := by
  have hcount : ¬fitsSigned 32 (2147483648 : Nat) = true := by decide
  have hscale : ((2147483648 : Nat) : Int) - 1 = 2147483647 := rfl
  have hrefused := parse_pointedZeros hcount
  have hnot := not_parse_iff_of_pointedZeros hcount (by rw [hscale]; decide)
  rw [text_pointedZeros] at hrefused
  rw [text_pointedZeros, hscale] at hnot
  exact ⟨hrefused, hnot⟩

/-! ## What is written -/

/-- A decimal that columns can hold is read from its literal with its scale, unless the scale is the
least one of 32 bits: that literal is refused for its exponent, which is the magnitude of the scale.
From its bytes every such decimal is read. -/
theorem parse_format_unscaled_iff {d : UnscaledDecimal} (hu : fitsSigned 128 d.unscaled = true)
    (hs : fitsSigned 32 d.scale = true) :
    (unscaled.parse (unscaled.format d) = .ok d ↔ d.scale ≠ -2147483648) ∧
    (d.scale = -2147483648 → unscaled.parse (unscaled.format d) =
      .error (refuse unscaled.type (unscaled.format d) "invalid exponent")) ∧
    ∃ bytes, unscaled.encode d = .ok (some bytes) ∧ unscaled.decode (some bytes) = .ok d := by
  have hleast : d.scale = -2147483648 → unscaled.parse (unscaled.format d) =
      .error (refuse unscaled.type (unscaled.format d) "invalid exponent") := by
    intro hscale
    show orRefuse _ d.toText _ (UnscaledDecimal.read d.toText) = _
    rw [UnscaledDecimal.read_toText_least hscale]
    rfl
  refine ⟨⟨?_, ?_⟩, hleast, ?_⟩
  · intro hread hscale
    rw [hleast hscale] at hread
    cases hread
  · intro hscale
    exact parse_unscaled_iff_read.2 (UnscaledDecimal.read_toText hu hs hscale)
  · exact ⟨_, rfl, restores_unscaled hu hs _ rfl⟩

/-- The greatest scale is read back, with as many zeros as there are fraction digits. -/
theorem parse_format_greatest_scale :
    let d : UnscaledDecimal := ⟨-170141183460469231731687303715884105728, 2147483647⟩
    unscaled.parse (unscaled.format d) = .ok d := by
  intro d
  exact (parse_format_unscaled_iff (d := d) (by decide) (by decide)).1.2 (by decide)

/-- The least scale is not: its exponent is refused. -/
theorem least_scale_is_refused :
    let d : UnscaledDecimal := ⟨1, -2147483648⟩
    fitsSigned 128 d.unscaled = true ∧ fitsSigned 32 d.scale = true ∧
      unscaled.parse (unscaled.format d) ≠ .ok d := by
  intro d
  refine ⟨by decide, by decide, fun hread => ?_⟩
  have hrefused : UnscaledDecimal.read d.toText = .error .exponent :=
    UnscaledDecimal.read_toText_least rfl
  cases hrefused.symm.trans (parse_unscaled_iff_read.1 hread)

end CqlWire.Coding
