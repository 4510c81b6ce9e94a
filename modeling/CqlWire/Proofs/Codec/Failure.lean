import CqlWire.Codec.Basic
import CqlWire.Proofs.Coding.Failure

/-!
# Every direction of a codec fails in its own kind

Whatever tree a codec is, it refuses values with errors of storing and bytes with errors of reading
(`failsInKind_coding`, by induction on the tree). Literals it refuses with errors of parsing, but for
one: where the tree holds a codec of 96-bit decimals, a literal of a decimal that does not fit is
refused as if it were bytes (`fails_in_kind`).
-/

namespace CqlWire

/-- A scalar fails in kind in every direction. -/
theorem failsInKind_scalar (s : ScalarType) : s.coding.FailsInKind Error.OfParsing := by
  cases s with
  | ascii => exact Coding.failsInKind_onValues Coding.failsInKind_ascii _ _
  | bigint | counter | int | smallint | tinyint =>
    exact Coding.failsInKind_onValues (Coding.failsInKind_integer _ _) _ _
  | blob => exact Coding.failsInKind_onValues Coding.failsInKind_blob _ _
  | boolean => exact Coding.failsInKind_onValues Coding.failsInKind_boolean _ _
  | date => exact Coding.failsInKind_onValues Coding.failsInKind_date _ _
  | decimal => exact Coding.failsInKind_onValues Coding.failsInKind_unscaled _ _
  | double | float => exact Coding.failsInKind_onValues (Coding.failsInKind_floating _ _) _ _
  | inet => exact Coding.failsInKind_onValues Coding.failsInKind_inet _ _
  | text => exact Coding.failsInKind_onValues Coding.failsInKind_text _ _
  | time => exact Coding.failsInKind_onValues Coding.failsInKind_time _ _
  | timestamp => exact Coding.failsInKind_onValues Coding.failsInKind_timestamp _ _
  | timeuuid => exact Coding.failsInKind_onValues Coding.failsInKind_timeuuid _ _
  | uuid => exact Coding.failsInKind_onValues Coding.failsInKind_uuid _ _
  | varint => exact Coding.failsInKind_onValues Coding.failsInKind_varint _ _

namespace Codec

mutual

/-- Whether the tree holds a codec of 96-bit decimals. -/
def HasDecimal : Codec → Prop
  | .scalar _ | .enumeration .. => False
  | .decimal => True
  | .shared c | .option c | .elements _ _ _ c => c.HasDecimal
  | .entries _ _ k v => k.HasDecimal ∨ v.HasDecimal
  | .record _ _ _ cs => AnyHasDecimal cs
termination_by structural c => c

/-- Whether one of several trees does. -/
def AnyHasDecimal : List Codec → Prop
  | [] => False
  | c :: cs => c.HasDecimal ∨ AnyHasDecimal cs
termination_by structural cs => cs

end

/-- How a codec refuses a literal, if its tree holds decimals or not. -/
def RefusesLiteral (hasDecimal : Prop) (e : Error) : Prop :=
  e.OfParsing ∨ hasDecimal ∧ e.IsDecimalTooLarge

/-- More decimals, more refusals. -/
theorem refusesLiteral_mono {p q : Prop} (hpq : p → q) (e : Error) (h : RefusesLiteral p e) :
    RefusesLiteral q e :=
  h.imp_right (And.imp_left hpq)

mutual

/-- A codec fails in kind if its parts do. -/
theorem failsInKind_coding (c : Codec) : c.coding.FailsInKind (RefusesLiteral c.HasDecimal) := by
  have literals {p : Prop} (e : Error) (h : e.OfParsing) : RefusesLiteral p e := .inl h
  match c with
  | .scalar s => exact (failsInKind_scalar s).mono literals
  | .decimal =>
    refine Coding.failsInKind_onValues (Coding.failsInKind_decimal.mono fun e h => ?_) _ _
    exact h.imp_right fun h => ⟨trivial, h⟩
  | .enumeration e ordinal =>
    refine Coding.failsInKind_onValues ?_ _ _
    cases ordinal
    · exact (Coding.failsInKind_nominal e).mono literals
    · exact (Coding.failsInKind_ordinal e).mono literals
  | .shared c => exact failsInKind_coding c
  | .option c =>
    exact Coding.failsInKind_onValues (Coding.failsInKind_option (failsInKind_coding c)) _ _
  | .elements kind into frozen c =>
    refine Coding.failsInKind_onValues ?_ _ _
    exact Coding.failsInKind_elements literals kind frozen (failsInKind_coding c)
  | .entries into frozen k v =>
    refine Coding.failsInKind_onValues (Coding.failsInKind_entries literals frozen ?_ ?_) _ _
    · exact (failsInKind_coding k).mono (refusesLiteral_mono .inl)
    · exact (failsInKind_coding v).mono (refusesLiteral_mono .inr)
  | .record header schema slots cs =>
    refine Coding.failsInKind_onValues ?_ _ _
    exact Coding.failsInKind_record literals header.typeName schema slots
      (failsInKind_codings cs)

/-- The same of the fields of a record. -/
theorem failsInKind_codings (cs : List Codec) :
    ∀ c ∈ codings cs, c.FailsInKind (RefusesLiteral (AnyHasDecimal cs)) := by
  match cs with
  | [] => exact List.forall_mem_nil _
  | c :: cs =>
    refine List.forall_mem_cons.2 ⟨?_, fun c' hc' => ?_⟩
    · exact (failsInKind_coding c).mono (refusesLiteral_mono .inl)
    · exact (failsInKind_codings cs c' hc').mono (refusesLiteral_mono .inr)

end

/-- The error of another kind is the one of a 96-bit decimal, which comes up exactly for the literals
of decimals that do not fit. -/
theorem parse_decimal_of_another_kind_iff (text : List Char) :
    (∃ e, Codec.decimal.parse text = .error e ∧ ¬e.OfParsing) ↔
      ∃ d, UnscaledDecimal.read text = .ok d ∧ Decimal.ofUnscaled? d = none := by
  rw [← Coding.parse_decimal_fails_iff]
  refine exists_congr fun e => and_congr_left fun _ => ?_
  exact map_eq_error_iff

/-- Storing fails with a refused value only, whatever the value is; reading, with bytes or without,
fails with a decoding error, an impossible length, an unexpected absence or an unknown variant; and
parsing fails with a refused literal or an unknown variant, in every tree without 96-bit decimals.
A tree with them has one other failure of parsing, a decoding error. A codec of decimals has it
exactly for the literals of the decimals that 96 bits cannot hold. -/
theorem fails_in_kind (c : Codec) :
    (∀ v, FailsOnly Error.OfStoring (c.encode v)) ∧
    (∀ bytes, FailsOnly Error.OfReading (c.decode bytes)) ∧
    (∀ text, FailsOnly (fun e => e.OfParsing ∨ c.HasDecimal ∧ e.IsDecimalTooLarge)
      (c.parse text)) ∧
    ∀ text, (∃ e, Codec.decimal.parse text = .error e ∧ ¬e.OfParsing) ↔
      ∃ d, UnscaledDecimal.read text = .ok d ∧ Decimal.ofUnscaled? d = none := by
  obtain ⟨hencode, hdecode, hparse⟩ := failsInKind_coding c
  exact ⟨hencode, hdecode, hparse, parse_decimal_of_another_kind_iff⟩

/-- A literal that is refused as if it were bytes. -/
theorem decimal_literal_refused_as_bytes :
    Codec.decimal.parse "1e29".toList =
        .error (.decode "decimal" "1E29 does not fit a 96-bit decimal") ∧
      ¬(Error.decode "decimal" "1E29 does not fit a 96-bit decimal").OfParsing :=
  ⟨rfl, id⟩

end Codec

end CqlWire
