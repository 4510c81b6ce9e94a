import CqlWire.Proofs.Coding.Literal
import CqlWire.Proofs.Coding.Reading
import CqlWire.Proofs.Number.Representable

/-!
# Decimals of 96 bits are read exactly or not at all

The coding of decimals of 96 bits reads what the coding of unscaled decimals reads, and then converts
it (`decode_decimal_iff`, `parse_decimal_iff`). So the number is never another one
(`decimal_keeps_number`).

It is refused more often than it has to be: a number that a decimal of 96 bits denotes is refused at
a scale beyond 28 or below -38, and if its integer has more than 96 bits
(`decode_decimal_iff_representable`), as zero is at the scale -39 (`representable_is_refused`).
-/

namespace CqlWire.Coding

variable {d : UnscaledDecimal} {x : Decimal}

/-- The conversion succeeds with the decimal that it gives. -/
theorem convert_eq_ok_iff :
    (match Decimal.ofUnscaled? d with
      | some x => .ok x
      | none => .error (decimalTooLarge d) : Except Error Decimal) = .ok x ↔
    Decimal.ofUnscaled? d = some x := by
  cases Decimal.ofUnscaled? d with
  | none => exact ⟨nofun, nofun⟩
  | some y => rw [Except.ok.injEq, Option.some.injEq]

theorem decode_decimal_iff {bytes : Option Bytes} : decimal.decode bytes = .ok x ↔
    ∃ d, unscaled.decode bytes = .ok d ∧ Decimal.ofUnscaled? d = some x :=
  bind_eq_ok_iff.trans (exists_congr fun _ => and_congr_right fun _ => convert_eq_ok_iff)

theorem parse_decimal_iff {text : List Char} : decimal.parse text = .ok x ↔
    ∃ d, unscaled.parse text = .ok d ∧ Decimal.ofUnscaled? d = some x :=
  bind_eq_ok_iff.trans (exists_congr fun _ => and_congr_right fun _ => convert_eq_ok_iff)

/-- What is read as a decimal of 96 bits, from bytes or from a literal, is the decimal that is exactly
the number that stands there, with its scale, or with the scale zero where that is negative. Each
decimal of 96 bits is read from its bytes and from its literal with its integer and its scale. -/
theorem decimal_keeps_number :
    (∀ (bytes : Option Bytes) (x : Decimal), decimal.decode bytes = .ok x ↔
      ∃ d, unscaled.decode bytes = .ok d ∧ -38 ≤ d.scale ∧ x.scale = d.scale.toNat ∧
        x.number = d.number) ∧
    (∀ (text : List Char) (x : Decimal), decimal.parse text = .ok x ↔
      ∃ d, unscaled.parse text = .ok d ∧ -38 ≤ d.scale ∧ x.scale = d.scale.toNat ∧
        x.number = d.number) ∧
    ∀ x : Decimal,
      (∃ bytes, decimal.encode x = .ok (some bytes) ∧ decimal.decode (some bytes) = .ok x) ∧
      decimal.parse (decimal.format x) = .ok x := by
  refine ⟨fun bytes x => ?_, fun text x => ?_, fun x => ⟨?_, ?_⟩⟩
  · rw [decode_decimal_iff]
    exact exists_congr fun d => and_congr_right fun _ => UnscaledDecimal.ofUnscaled?_eq_some_iff_number
  · rw [parse_decimal_iff]
    exact exists_congr fun d => and_congr_right fun _ => UnscaledDecimal.ofUnscaled?_eq_some_iff_number
  · exact ⟨_, rfl, restores_decimal x _ rfl⟩
  · exact (reparses_decimal x _ rfl).parse_format

/-! ## What is refused -/

/-- The bytes of an unscaled decimal are read as what it is converted to. -/
theorem decode_decimal_of_unscaled {bytes : Bytes} (h : unscaled.decode (some bytes) = .ok d) :
    decimal.decode (some bytes) = .ok x ↔ Decimal.ofUnscaled? d = some x := by
  rw [decode_decimal_iff]
  constructor
  · rintro ⟨d', hd', hx⟩
    rw [h] at hd'
    cases hd'
    exact hx
  · exact fun hx => ⟨d, h, hx⟩

theorem decode_decimal_of_none {bytes : Bytes} (h : unscaled.decode (some bytes) = .ok d)
    (hnone : Decimal.ofUnscaled? d = none) :
    decimal.decode (some bytes) = .error (decimalTooLarge d) := by
  refine bind_eq_error_iff.2 (.inr ⟨d, h, ?_⟩)
  rw [hnone]

/-- The bytes of a decimal that columns can hold are read as a decimal of 96 bits if and only if one
denotes the number, the scale is from -38 to 28, and the integer has 96 bits. If the integer ends in no
zero, or the scale is from -38 to 0, then it is enough that one denotes the number. What is not read
is refused as too large. -/
theorem decode_decimal_iff_representable (hu : fitsSigned 128 d.unscaled = true)
    (hs : fitsSigned 32 d.scale = true) :
    ∃ bytes, unscaled.encode d = .ok (some bytes) ∧
      ((∃ x, decimal.decode (some bytes) = .ok x) ↔
        d.IsRepresentable ∧ -38 ≤ d.scale ∧ d.scale ≤ 28 ∧ d.unscaled.natAbs < 2 ^ 96) ∧
      (¬10 ∣ d.unscaled ∨ (-38 ≤ d.scale ∧ d.scale ≤ 0) →
        ((∃ x, decimal.decode (some bytes) = .ok x) ↔ d.IsRepresentable)) ∧
      ((∃ x, decimal.decode (some bytes) = .ok x) ∨
        decimal.decode (some bytes) = .error (decimalTooLarge d)) := by
  obtain ⟨bytes, hbytes, hread⟩ : ∃ bytes, unscaled.encode d = .ok (some bytes) ∧
      unscaled.decode (some bytes) = .ok d := ⟨_, rfl, restores_unscaled hu hs _ rfl⟩
  have hiff : (∃ x, decimal.decode (some bytes) = .ok x) ↔
      d.IsRepresentable ∧ -38 ≤ d.scale ∧ d.scale ≤ 28 ∧ d.unscaled.natAbs < 2 ^ 96 := by
    rw [← UnscaledDecimal.exists_ofUnscaled?_iff]
    exact exists_congr fun x => decode_decimal_of_unscaled hread
  refine ⟨bytes, hbytes, hiff, fun hbounds => ?_, ?_⟩
  · refine hiff.trans (and_iff_left_of_imp fun hd => ?_)
    rcases hbounds with hten | ⟨hlo, hhi⟩
    · exact UnscaledDecimal.bounds_of_isRepresentable hd hten
    · have hlt := UnscaledDecimal.natAbs_lt_of_isRepresentable hd hhi
      have hgrow := UnscaledDecimal.natAbs_le_natAbs_mul d.unscaled (-d.scale).toNat
      exact ⟨hlo, by omega, Nat.lt_of_le_of_lt hgrow hlt⟩
  · cases hx : Decimal.ofUnscaled? d with
    | some x => exact .inl ⟨x, (decode_decimal_of_unscaled hread).2 hx⟩
    | none => exact .inr (decode_decimal_of_none hread hx)

/-- The greatest integer of 96 bits is read at the greatest scale, with its sign. -/
theorem decode_decimal_greatest :
    let d : UnscaledDecimal := ⟨-79228162514264337593543950335, 28⟩
    fitsSigned 128 d.unscaled = true ∧ fitsSigned 32 d.scale = true ∧
      ∃ bytes, unscaled.encode d = .ok (some bytes) ∧ ∃ x, decimal.decode (some bytes) = .ok x := by
  intro d
  have hu : fitsSigned 128 d.unscaled = true := by decide
  have hs : fitsSigned 32 d.scale = true := by decide
  obtain ⟨bytes, hbytes, -, hiff, -⟩ := decode_decimal_iff_representable hu hs
  refine ⟨hu, hs, bytes, hbytes, (hiff (.inl (by decide))).2 ?_⟩
  refine ⟨⟨-79228162514264337593543950335, 28, by decide, by decide⟩, ?_⟩
  rw [Decimal.number, UnscaledDecimal.number]
  norm_num [d]

/-- Zero is refused at the scale -39, and ten units are refused at the scale 29, although they are one
unit at the scale 28. -/
theorem representable_is_refused :
    let zero : UnscaledDecimal := ⟨0, -39⟩
    let ten : UnscaledDecimal := ⟨10, 29⟩
    zero.IsRepresentable ∧ unscaled.encode zero = .ok (some [0xFF, 0xFF, 0xFF, 0xD9, 0x00]) ∧
      decimal.decode (some [0xFF, 0xFF, 0xFF, 0xD9, 0x00]) = .error (decimalTooLarge zero) ∧
    ten.IsRepresentable ∧ unscaled.encode ten = .ok (some [0x00, 0x00, 0x00, 0x1D, 0x0A]) ∧
      decimal.decode (some [0x00, 0x00, 0x00, 0x1D, 0x0A]) = .error (decimalTooLarge ten) := by
  intro zero ten
  have hzero : unscaled.encode zero = .ok (some [0xFF, 0xFF, 0xFF, 0xD9, 0x00]) := by decide
  have hten : unscaled.encode ten = .ok (some [0x00, 0x00, 0x00, 0x1D, 0x0A]) := by decide
  refine ⟨⟨⟨0, 0, by decide, by decide⟩, ?_⟩, hzero,
    decode_decimal_of_none (restores_unscaled (by decide) (by decide) _ hzero) rfl,
    ⟨⟨1, 28, by decide, by decide⟩, ?_⟩, hten,
    decode_decimal_of_none (restores_unscaled (by decide) (by decide) _ hten) rfl⟩
  · rw [Decimal.number, UnscaledDecimal.number]
    norm_num [zero]
  · rw [Decimal.number, UnscaledDecimal.number]
    norm_num [ten]

end CqlWire.Coding
