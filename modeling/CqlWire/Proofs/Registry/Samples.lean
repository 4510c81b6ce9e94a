import CqlWire.Proofs.Codec.Storage
import CqlWire.Proofs.Coding.Refusal
import CqlWire.Proofs.Registry.Selection

/-!
# Codecs that were found for a sample

A codec that a registry finds for a sample takes it, and so stores it or refuses it by a rule of the
column type, never for its type (`Registry.encode_or_format_of_resolved`). Writing a literal is
stricter: where a codec with absence was found for a bare sample, the literal is refused, although
the bytes are not. Where every codec is registered behind itself with absence, the codec itself is
found for a bare sample, and every sample has a literal (`Registry.formatSample_ofNullable`).
-/

namespace CqlWire

/-- A sample whose value is one of its type, as a program may see it. -/
def Sample.WellTyped (s : Sample) : Prop :=
  ∀ t, s.type = .stored t → ∃ v, t.Holds v ∧ t.Listing v s.value

namespace Codec

mutual

/-- A value of the type of a codec is refused only for breaking a rule. -/
theorem failsOnly_encode {c : Codec} {v w : Value} (hv : c.valueType.Holds v)
    (hw : c.valueType.Listing v w) : FailsOnly Error.IsRejection (c.coding.encode w) := by
  match c with
  | .scalar s =>
    obtain rfl : v = w := hw
    exact failsOnly_scalar hv
  | .decimal =>
    obtain rfl : v = w := hw
    obtain ⟨d, rfl⟩ := BaseType.eq_decimal_of_holds hv
    exact failsOnly_ok _
  | .enumeration e ordinal =>
    obtain rfl : v = w := hw
    obtain ⟨index, rfl, -⟩ := ValueType.holds_enumeration_iff.1 hv
    cases ordinal <;> exact failsOnly_ok _
  | .shared c => exact failsOnly_encode (c := c) hv hw
  | .option c =>
    rcases ValueType.listing_option_iff.1 hw with ⟨-, rfl⟩ | ⟨a, b, rfl, rfl, hab⟩
    · exact failsOnly_ok _
    · exact failsOnly_encode (c := c) hv hab
  | .elements kind into frozen c =>
    obtain ⟨vs, rfl, -, hvs⟩ := ValueType.holds_sequence_iff.1 hv
    obtain ⟨ws, rfl, -, hseen⟩ := ValueType.elements_of_listing hw
    refine Coding.failsOnly_elements (fun _ h => h) kind frozen fun w hw => ?_
    obtain ⟨v, hv, hvw⟩ := hseen w hw
    exact failsOnly_encode (hvs v hv) hvw
  | .entries into frozen k c =>
    obtain ⟨es, rfl, -, hes⟩ := ValueType.holds_mapping_iff.1 hv
    obtain ⟨fs, rfl, -, hseen⟩ := ValueType.entries_of_listing hw
    refine Coding.failsOnly_entries (fun _ h => h) frozen (fun f hf => ?_) fun f hf => ?_
    · obtain ⟨e, he, hkey, -⟩ := hseen f hf
      exact failsOnly_encode (hes e he).1 hkey
    · obtain ⟨e, he, -, hvalue⟩ := hseen f hf
      exact failsOnly_encode (hes e he).2 hvalue
  | .record header schema slots cs =>
    obtain ⟨vs, rfl, hvs⟩ := ValueType.holds_record_iff.1 hv
    obtain ⟨ws, rfl, hws⟩ := ValueType.listing_record_iff.1 hw
    exact Coding.failsOnly_record (fun _ h => h) header.typeName schema slots
      (failsOnly_encode_fields hvs hws)

/-- The same of the fields of a record. -/
theorem failsOnly_encode_fields {cs : List Codec} {vs ws : List Value}
    (hvs : ValueType.HoldAll (valueTypes cs) vs)
    (hws : ValueType.ListingAll (valueTypes cs) vs ws) :
    ∀ (i : Nat) (c : Coding Value) (w : Value), (codings cs)[i]? = some c → ws[i]? = some w →
      FailsOnly Error.IsRejection (c.encode w) := by
  match cs, vs, ws with
  | [], [], [] => nofun
  | c :: cs, v :: vs, w :: ws =>
    intro i c' w' hc hw
    cases i with
    | zero =>
      obtain rfl : c.coding = c' := Option.some.inj hc
      obtain rfl : w = w' := Option.some.inj hw
      exact failsOnly_encode hvs.1 hws.1
    | succ i => exact failsOnly_encode_fields hvs.2 hws.2 i c' w' hc hw

end

/-! ## Samples -/

theorem neverMistyped_encode_of_holds {c : Codec} {s : Sample} (hs : s.WellTyped)
    (h : c.holds s = true) : NeverMistyped (c.encode s.value) := by
  obtain ⟨v, hv, hw⟩ := hs c.valueType (of_decide_eq_true h)
  exact fun e he => (failsOnly_encode hv hw e he).2

/-- A sample that a codec takes is not refused for its type. -/
theorem neverMistyped_encodeSample {c : Codec} {s : Sample} (hs : s.WellTyped)
    (h : c.acceptsSample s = true) : NeverMistyped (c.encodeSample s) := by
  match c with
  | .shared c => exact neverMistyped_encodeSample (c := c) hs h
  | .option c =>
    unfold encodeSample
    split
    · rename_i hholds
      exact neverMistyped_encode_of_holds hs hholds
    · rename_i hnot
      exact neverMistyped_encodeSample (c := c) hs ((Bool.or_eq_true _ _ ▸ h).resolve_left hnot)
  | .scalar _ | .decimal | .enumeration .. | .elements .. | .entries .. | .record .. =>
    have hholds : Codec.holds _ s = true := h
    simp only [encodeSample, hholds, if_true]
    exact neverMistyped_encode_of_holds hs hholds

/-- A sample that a codec takes is of its type, or of a type within its options. -/
theorem exists_of_acceptsSample {c : Codec} {s : Sample} (h : c.acceptsSample s = true) :
    ∃ (n : Nat) (u : ValueType), s.type = .stored u ∧ c.valueType = ValueType.option^[n] u := by
  match c with
  | .shared c => exact exists_of_acceptsSample (c := c) h
  | .option c =>
    rcases Bool.or_eq_true_iff.1 h with hholds | hinner
    · exact ⟨0, _, of_decide_eq_true hholds, rfl⟩
    · obtain ⟨n, u, hu, ht⟩ := exists_of_acceptsSample (c := c) hinner
      refine ⟨n + 1, u, hu, ?_⟩
      rw [Function.iterate_succ_apply', ← ht]
      rfl
  | .scalar _ | .decimal | .enumeration .. | .elements .. | .entries .. | .record .. =>
    exact ⟨0, _, of_decide_eq_true h, rfl⟩

theorem formatSample_of_holds {c : Codec} {s : Sample} (h : c.holds s = true) :
    c.formatSample s = .ok (c.format s.value) :=
  if_pos h

end Codec

namespace Registry

theorem orNotFound_eq_ok_iff {type valueType : String} {found : Option Codec} {c : Codec} :
    orNotFound type valueType found = .ok c ↔ found = some c := by
  cases found <;> simp [orNotFound]

/-- What a look-up with a sample finds. -/
theorem acceptsSample_of_resolved {r : Registry} {w : ColumnType} {s : Sample} {c : Codec}
    (h : r.resolveFor w (some s) = .ok c ∨ r.resolveSample s = .ok c) :
    c.acceptsSample s = true := by
  rcases h with h | h
  · obtain ⟨_, hselects⟩ := latest?_eq_some_iff.1 (orNotFound_eq_ok_iff.1 h)
    exact (Bool.and_eq_true_iff.1 hselects.fits).2
  · obtain ⟨_, hselects⟩ := latest?_eq_some_iff.1 (orNotFound_eq_ok_iff.1 h)
    exact hselects.fits

/-- A codec that was found for a sample does not refuse to store it for its type. It writes it as a
literal if the sample is of the type that the codec stores; otherwise that type is an option of the
type of the sample, or an option of such an option, and the literal is refused. -/
theorem encode_or_format_of_resolved (r : Registry) (w : ColumnType) {s : Sample}
    (hs : s.WellTyped) {c : Codec}
    (h : r.resolveFor w (some s) = .ok c ∨ r.resolveSample s = .ok c) :
    NeverMistyped (c.encodeSample s) ∧
      ((∃ text, c.formatSample s = .ok text) ↔ s.type = .stored c.valueType) ∧
      (s.type ≠ .stored c.valueType → c.formatSample s = .error c.unexpectedSample ∧
        ∃ (n : Nat) (u : ValueType), s.type = .stored u ∧
          c.valueType = ValueType.option^[n + 1] u) := by
  have haccepts := acceptsSample_of_resolved h
  refine ⟨Codec.neverMistyped_encodeSample hs haccepts, ⟨fun hformat => ?_, fun htype => ?_⟩,
    fun hne => ⟨?_, ?_⟩⟩
  · obtain ⟨text, htext⟩ := hformat
    unfold Codec.formatSample at htext
    split at htext
    · rename_i hholds
      exact of_decide_eq_true hholds
    · cases htext
  · exact ⟨_, Codec.formatSample_of_holds (decide_eq_true htype)⟩
  · have hnot : ¬c.holds s = true := fun hholds => hne (of_decide_eq_true hholds)
    exact if_neg hnot
  · obtain ⟨n, u, hu, ht⟩ := Codec.exists_of_acceptsSample haccepts
    cases n with
    | zero =>
      have heq : c.valueType = u := ht
      exact absurd (heq ▸ hu) hne
    | succ n => exact ⟨n, u, hu, ht⟩

/-- A text outside US-ASCII for a codec with absence twice: it is refused by a rule of the column
type when it is stored, and for its type when it is written. -/
theorem encode_or_format_of_resolved_bare :
    let c : Codec := .option (.shared (.option (.scalar .ascii)))
    let r := withDefaults.register c
    let s : Sample := ⟨.stored (.base .string), .text ['é']⟩
    s.WellTyped ∧ r.resolveFor (.scalar .ascii) (some s) = .ok c ∧
      (∃ e, c.encodeSample s = .error e ∧ ¬e.IsMistyped) ∧
      s.type ≠ .stored c.valueType ∧ c.formatSample s = .error c.unexpectedSample ∧
      c.valueType = ValueType.option^[2] (.base .string) := by
  intro c r s
  have hs : s.WellTyped := by
    intro t ht
    obtain rfl := SampleType.stored.inj ht
    exact ⟨.text ['é'], trivial, rfl⟩
  have hfound : r.resolveFor (.scalar .ascii) (some s) = .ok c := by rfl
  have hne : s.type ≠ .stored c.valueType := by decide
  obtain ⟨hencode, -, hformat⟩ := encode_or_format_of_resolved r (.scalar .ascii) hs (.inl hfound)
  have hstored : ∃ e, c.encodeSample s = .error e := ⟨_, rfl⟩
  obtain ⟨e, he⟩ := hstored
  exact ⟨hs, hfound, ⟨e, he, hencode e he⟩, hne, (hformat hne).1, rfl⟩

/-- A codec with absence that alone was registered is found for a bare number. It stores the number
and writes no literal of it. -/
theorem resolved_without_literal :
    let c : Codec := .option (.scalar .int)
    let r := empty.register c
    let s : Sample := ⟨.stored (.base .int32), .int 5⟩
    s.WellTyped ∧ r.resolveSample s = .ok c ∧ c.encodeSample s = .ok (some [0, 0, 0, 5]) ∧
      c.formatSample s =
        .error (.illegalValue "int" "<erased>" "expected a core::option::Option<i32>") := by
  intro c r s
  have hs : s.WellTyped := by
    intro t ht
    obtain rfl := SampleType.stored.inj ht
    have hfit : fitsSigned 32 5 = true := by decide
    exact ⟨.int 5, hfit, rfl⟩
  exact ⟨hs, by rfl, by rfl, by rfl⟩

/-! ## Every codec behind itself with absence -/

/-- What is found last for a sample is of the type of the sample, if whatever finds a codec with
absence for a sample that the codec itself takes finds the codec itself too. -/
theorem holds_of_selects_ofNullable {cs : List Codec}
    (hcs : ∀ c ∈ cs, c.valueType.isNullable = false) {s : Sample} {p : Codec → Bool}
    (haccepts : ∀ c, p c = true → c.acceptsSample s = true)
    (hinner : ∀ c, p (.option c) = true → c.acceptsSample s = true → p c = true) {i : Nat}
    {c : Codec} (h : (ofNullable cs).Selects p i c) : c.holds s = true := by
  obtain ⟨heven, hodd⟩ := getElem?_ofNullable cs (i / 2)
  rcases Nat.mod_two_eq_zero_or_one i with hmod | hmod
  · rw [show 2 * (i / 2) = i by omega, h.registered] at heven
    obtain ⟨d, hd, rfl⟩ := Option.map_eq_some_iff.1 heven.symm
    rcases Bool.or_eq_true_iff.1 (haccepts _ h.fits) with hholds | hbare
    · exact hholds
    · -- The codec itself would have been found behind.
      have hlater := h.last (2 * (i / 2) + 1) d (by omega) (hodd.trans hd)
      rw [hinner d h.fits hbare] at hlater
      cases hlater
  · rw [show 2 * (i / 2) + 1 = i by omega, h.registered] at hodd
    have hmem : c ∈ cs := List.mem_of_getElem? hodd.symm
    rw [← Codec.acceptsSample_of_not_isNullable (hcs c hmem) s]
    exact haccepts c h.fits

/-- Where every codec is registered behind itself with absence, a sample that a codec is found for
has a literal. -/
theorem formatSample_ofNullable {cs : List Codec}
    (hcs : ∀ c ∈ cs, c.valueType.isNullable = false) (w : ColumnType) {s : Sample} {c : Codec}
    (h : (ofNullable cs).resolveFor w (some s) = .ok c ∨
      (ofNullable cs).resolveSample s = .ok c) :
    c.formatSample s = .ok (c.format s.value) := by
  refine Codec.formatSample_of_holds ?_
  rcases h with h | h
  · obtain ⟨_, hselects⟩ := latest?_eq_some_iff.1 (orNotFound_eq_ok_iff.1 h)
    refine holds_of_selects_ofNullable hcs (fun d hd => ?_) (fun d hd hbare => ?_) hselects
    · exact (Bool.and_eq_true_iff.1 hd).2
    · exact Bool.and_eq_true_iff.2 ⟨(Bool.and_eq_true_iff.1 hd).1, hbare⟩
  · obtain ⟨_, hselects⟩ := latest?_eq_some_iff.1 (orNotFound_eq_ok_iff.1 h)
    exact holds_of_selects_ofNullable hcs (fun _ hd => hd) (fun _ _ hbare => hbare) hselects

end Registry

end CqlWire
