import CqlWire.Proofs.Codec.Storage
import CqlWire.Proofs.Coding.Null

/-!
# Absence is a matter of options

A codec that is no option lacks NULL, whatever its parts are (`lacksNull_of_not_isOption`, by cases
on the codec). So an option of such a codec has one value for which absent bytes and NULL stand, and
they stand for nothing else (`hasNull_of_isFlatOption`).
-/

namespace CqlWire

open Text (isNullLiteral)

/-- No scalar has a value for absence. -/
theorem lacksNull_scalar (s : ScalarType) : s.coding.LacksNull := by
  cases s with
  | ascii => exact Coding.lacksNull_onValues Coding.lacksNull_ascii _ _
  | bigint | counter | int | smallint | tinyint =>
    exact Coding.lacksNull_onValues (Coding.lacksNull_integer _ _) _ _
  | blob => exact Coding.lacksNull_onValues Coding.lacksNull_blob _ _
  | boolean => exact Coding.lacksNull_onValues Coding.lacksNull_boolean _ _
  | date => exact Coding.lacksNull_onValues Coding.lacksNull_date _ _
  | decimal => exact Coding.lacksNull_onValues Coding.lacksNull_unscaled _ _
  | double => exact Coding.lacksNull_onValues (Coding.lacksNull_floating _ (.inr rfl)) _ _
  | float => exact Coding.lacksNull_onValues (Coding.lacksNull_floating _ (.inl rfl)) _ _
  | inet => exact Coding.lacksNull_onValues Coding.lacksNull_inet _ _
  | text => exact Coding.lacksNull_onValues Coding.lacksNull_text _ _
  | time => exact Coding.lacksNull_onValues Coding.lacksNull_time _ _
  | timestamp => exact Coding.lacksNull_onValues Coding.lacksNull_timestamp _ _
  | timeuuid => exact Coding.lacksNull_onValues Coding.lacksNull_timeuuid _ _
  | uuid => exact Coding.lacksNull_onValues Coding.lacksNull_uuid _ _
  | varint => exact Coding.lacksNull_onValues Coding.lacksNull_varint _ _

theorem lacksNull_enumeration (e : Enumeration) (ordinal : Bool) :
    (if ordinal then Coding.ordinal e else Coding.nominal e).LacksNull := by
  cases ordinal
  · exact Coding.lacksNull_mapped Coding.lacksNull_text _ _
  · exact Coding.lacksNull_mapped (Coding.lacksNull_integer _ _) _ _

/-- One value is absent: absent bytes and NULL stand for it, and for no other. -/
structure Coding.HasNull (c : Coding Value) : Prop where
  encode_iff : ∀ v, c.encode v = .ok none ↔ v = .absent
  decode_none : c.decode none = .ok .absent
  decode_some : ∀ bs, c.decode (some bs) ≠ .ok .absent
  parse_iff : ∀ text, c.parse text = .ok .absent ↔ isNullLiteral text = true
  format_iff : ∀ v, isNullLiteral (c.format v) = true ↔ v = .absent

/-- Absence is added to a coding that lacks it. -/
theorem Coding.hasNull_option {c : Coding Value} (hc : c.NeverAbsent) (h : c.LacksNull) :
    (c.option.onValues Value.ofOption Value.option?).HasNull where
  encode_iff v := by
    cases v with
    | absent => exact ⟨fun _ => rfl, fun _ => rfl⟩
    | present u => exact ⟨fun he => absurd he (hc u), nofun⟩
    | _ => exact ⟨nofun, nofun⟩
  decode_none := rfl
  decode_some bs he := by
    obtain ⟨o, ho, habsent⟩ := map_eq_ok_iff.1 he
    obtain ⟨u, -, rfl⟩ := map_eq_ok_iff.1 ho
    cases habsent
  parse_iff text := by
    constructor
    · intro he
      obtain ⟨o, ho, habsent⟩ := map_eq_ok_iff.1 he
      simp only [Coding.option] at ho
      split at ho
      · assumption
      · obtain ⟨u, -, rfl⟩ := map_eq_ok_iff.1 ho
        cases habsent
    · intro hnull
      simp only [Coding.onValues, Coding.option, if_pos hnull]
      rfl
  format_iff v := by
    cases v with
    | absent => exact ⟨fun _ => rfl, fun _ => rfl⟩
    | present u =>
      have hnot : isNullLiteral ((c.option.onValues Value.ofOption Value.option?).format
          (.present u)) = false := h.format_ne u
      rw [hnot]
      exact ⟨nofun, nofun⟩
    | _ => exact ⟨nofun, nofun⟩

namespace Codec

/-- An option of what is no option itself, whoever else shares it. -/
def IsFlatOption : Codec → Prop
  | .option c => ¬c.IsOption
  | .shared c => c.IsFlatOption
  | _ => False

theorem lacksNull_of_not_isOption {c : Codec} (h : ¬c.IsOption) : c.coding.LacksNull := by
  match c with
  | .scalar s => exact lacksNull_scalar s
  | .decimal =>
    exact Coding.lacksNull_onValues (Coding.lacksNull_mapped Coding.lacksNull_unscaled _ _) _ _
  | .enumeration e ordinal =>
    exact Coding.lacksNull_onValues (lacksNull_enumeration e ordinal) _ _
  | .shared c => exact lacksNull_of_not_isOption (c := c) h
  | .option c => exact absurd trivial h
  | .elements .. => exact Coding.lacksNull_onValues (Coding.lacksNull_elements _ _ _) _ _
  | .entries .. => exact Coding.lacksNull_onValues (Coding.lacksNull_entries _ _ _) _ _
  | .record .. => exact Coding.lacksNull_onValues (Coding.lacksNull_record _ _ _ _) _ _

theorem hasNull_of_isFlatOption {c : Codec} (h : c.IsFlatOption) : c.coding.HasNull := by
  match c with
  | .option c =>
    exact Coding.hasNull_option (neverAbsent_of_not_isOption h) (lacksNull_of_not_isOption h)
  | .shared c => exact hasNull_of_isFlatOption (c := c) h

/-- Only options know absence. Any other codec stores bytes for every value, refuses absent bytes,
and refuses NULL in whatever case and with whatever blanks around it. An option of what is no option
itself stores, reads and writes its absent value as absent bytes and as NULL, and no other value in
this way. -/
theorem absent_iff_option :
    (∀ c : Codec, ¬c.IsOption → (∀ v, c.encode v ≠ .ok none) ∧
      c.decode none = .error (.unexpectedNull c.type.toText) ∧
      ∀ text, isNullLiteral text = true → ∃ e, c.parse text = .error e) ∧
    ∀ c : Codec, c.IsFlatOption → (∀ v, c.encode v = .ok none ↔ v = .absent) ∧
      (c.decode none = .ok .absent ∧ ∀ bs, c.decode (some bs) ≠ .ok .absent) ∧
      (∀ text, c.parse text = .ok .absent ↔ isNullLiteral text = true) ∧
      ∀ v, isNullLiteral (c.format v) = true ↔ v = .absent := by
  constructor
  · intro c hc
    have h := lacksNull_of_not_isOption hc
    exact ⟨neverAbsent_of_not_isOption hc, h.decode_none, h.parse_null⟩
  · intro c hc
    have h := hasNull_of_isFlatOption hc
    exact ⟨h.encode_iff, ⟨h.decode_none, h.decode_some⟩, h.parse_iff, h.format_iff⟩

/-- A shared list of optional texts, and an option of it. -/
theorem absent_iff_option_shared :
    let names : Codec := .shared (.elements .list .vector true (.option (.scalar .text)))
    let c : Codec := .shared (.option names)
    ¬names.IsOption ∧ names.decode none = .error (.unexpectedNull "frozen<list<text>>") ∧
      (∃ e, names.parse [' ', 'n', 'U', 'L', 'l'] = .error e) ∧
      c.IsFlatOption ∧ c.parse [' ', 'n', 'U', 'L', 'l'] = .ok .absent ∧
      c.decode (some [0, 0, 0, 0]) ≠ .ok .absent ∧
      isNullLiteral (c.format (.present (.sequence [.absent]))) = false := by
  intro names c
  obtain ⟨hlacks, hhas⟩ := absent_iff_option
  have hnames : ¬names.IsOption := id
  have hnull : isNullLiteral [' ', 'n', 'U', 'L', 'l'] = true := by decide
  obtain ⟨-, hnone, hparse⟩ := hlacks names hnames
  obtain ⟨-, ⟨-, hsome⟩, hread, hwritten⟩ := hhas c hnames
  refine ⟨hnames, hnone, hparse _ hnull, hnames, (hread _).2 hnull, hsome _, ?_⟩
  exact Bool.eq_false_iff.2 fun h => nomatch (hwritten _).1 h

end Codec

end CqlWire
