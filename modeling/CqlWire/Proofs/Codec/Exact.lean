import CqlWire.Proofs.Codec.Reread
import CqlWire.Proofs.Coding.Verbatim

/-!
# Codecs that read only what they store

A codec of a scalar type reads a value from the bytes that it stores for it and from no others, but
for the four types in which several byte strings stand for one value or some value is not stored
(`Codec.IsExact`). Enumerations do so too. In a list or a set of these that is held as a plain list,
only the empty one has a second form, no bytes at all (`Codec.decode_eq_ok_iff_encode`).
-/

namespace CqlWire

open Coding (Verbatim)

/-! ## Scalars -/

/-- The scalar types with one form for each value. Any byte but zero is the truth value `true`,
needless bytes may stand in front of a `varint` and a `decimal`, and reading a `timeuuid` does not
look at the version. -/
def ScalarType.IsExact (s : ScalarType) : Prop :=
  s ≠ .boolean ∧ s ≠ .decimal ∧ s ≠ .timeuuid ∧ s ≠ .varint

theorem verbatim_scalar {s : ScalarType} (hs : s.IsExact) : s.coding.Verbatim := by
  obtain ⟨hboolean, hdecimal, htimeuuid, hvarint⟩ := hs
  cases s with
  | ascii => exact Coding.verbatim_onValues (fun _ => rfl) Coding.verbatim_ascii
  | bigint | counter | int | smallint | tinyint =>
    exact Coding.verbatim_onValues (fun _ => rfl) (Coding.verbatim_integer _ _)
  | blob => exact Coding.verbatim_onValues (fun _ => rfl) Coding.verbatim_blob
  | boolean => exact absurd rfl hboolean
  | date => exact Coding.verbatim_onValues (fun _ => rfl) Coding.verbatim_date
  | decimal => exact absurd rfl hdecimal
  | double | float => exact Coding.verbatim_onValues (fun _ => rfl) (Coding.verbatim_floating _ _)
  | inet => exact Coding.verbatim_onValues (fun _ => rfl) Coding.verbatim_inet
  | text => exact Coding.verbatim_onValues (fun _ => rfl) Coding.verbatim_text
  | time => exact Coding.verbatim_onValues (fun _ => rfl) Coding.verbatim_time
  | timestamp => exact Coding.verbatim_onValues (fun _ => rfl) Coding.verbatim_timestamp
  | timeuuid => exact absurd rfl htimeuuid
  | uuid => exact Coding.verbatim_onValues (fun _ => rfl) Coding.verbatim_uuid
  | varint => exact absurd rfl hvarint

/-! ## Enumerations -/

theorem verbatim_enumeration (e : Enumeration) (ordinal : Bool) :
    (if ordinal then Coding.ordinal e else Coding.nominal e).Verbatim := by
  cases ordinal with
  | false =>
    refine Coding.verbatim_mapped (fun s index h => ?_) Coding.verbatim_text
    split at h
    · rename_i i hi
      cases h
      rw [(Enumeration.nameOf_of_ofName? hi).2, String.toList_ofList]
    · cases h
  | true =>
    refine Coding.verbatim_mapped (fun n index h => ?_) (Coding.verbatim_integer _ _)
    split at h
    · rename_i i hi
      cases h
      exact (Enumeration.ofOrdinal?_eq_some_iff.1 hi).2
    · cases h

namespace Codec

/-! ## Codecs -/

/-- Codecs of scalar types with one form for each value, and of enumerations as declarations make
them. -/
def IsExact : Codec → Prop
  | .scalar s => s.IsExact
  | .enumeration e ordinal => e.WellFormed ∧ (ordinal = true → e.FitsOrdinal)
  | _ => False

/-- The containers that hold elements as they come. -/
def HoldsAsListed (into : Container) : Prop :=
  into = .vector ∨ into = .deque

/-- Lists of what a codec stores, where it may be absent, and sets of it, held as plain lists. -/
inductive ListsOf (c : Codec) : Codec → Prop where
  | list {into : Container} (hinto : HoldsAsListed into) (frozen : Bool) :
    ListsOf c (.elements .list into frozen c)
  | options {into : Container} (hinto : HoldsAsListed into) (frozen : Bool) :
    ListsOf c (.elements .list into frozen (.option c))
  | set {into : Container} (hinto : HoldsAsListed into) (frozen : Bool) :
    ListsOf c (.elements .set into frozen c)

variable {c d : Codec} {into : Container} {b b' : Bytes} {v : Value}

theorem verbatim_of_isExact (hc : c.IsExact) : c.coding.Verbatim := by
  match c with
  | .scalar s => exact verbatim_scalar hc
  | .enumeration e ordinal =>
    exact Coding.verbatim_onValues (fun _ => rfl) (verbatim_enumeration e ordinal)

theorem isPlain_of_isExact (hc : c.IsExact) : c.IsPlain ∧ c.NoNestedOption ∧ ¬c.IsOption := by
  match c with
  | .scalar s => exact ⟨trivial, trivial, id⟩
  | .enumeration e ordinal => exact ⟨hc, trivial, id⟩

theorem isPlain_of_listsOf (hc : c.IsExact) (hd : ListsOf c d) : d.IsPlain ∧ d.NoNestedOption := by
  obtain ⟨hplain, hnested, hoption⟩ := isPlain_of_isExact hc
  cases hd with
  | list | set => exact ⟨hplain, hnested⟩
  | options => exact ⟨hplain, hoption, hnested⟩

/-- What a plain codec stores for a value is read as the value. -/
theorem decode_of_isPlain (hc : c.IsPlain) (ho : c.NoNestedOption) (hv : c.valueType.Holds v)
    {bytes : Option Bytes} (h : c.encode v = .ok bytes) : c.decode bytes = .ok v := by
  have hrestores := restores_kept (regular_of_isPlain hc ho) hv (ValueType.listing_refl hv)
  rw [kept_of_isRecordFree (isRecordFree_of_isPlain hc)] at hrestores
  exact hrestores bytes h

/-- No bytes are read as the empty collection. -/
theorem decode_elements_nil (hinto : HoldsAsListed into) (kind : CollectionKind) (frozen : Bool)
    (c : Codec) : (Codec.elements kind into frozen c).decode (some []) = .ok (.sequence []) := by
  rcases hinto with rfl | rfl <;> rfl

/-- Elements that were read from some bytes are stored as these. -/
theorem encode_of_decode_elements (hinto : HoldsAsListed into) (hc : c.coding.Verbatim)
    {kind : CollectionKind} {frozen : Bool}
    (h : (Codec.elements kind into frozen c).decode (some b) = .ok v) (hb : b ≠ []) :
    (Codec.elements kind into frozen c).encode v = .ok (some b) := by
  obtain ⟨us, hus, rfl⟩ := map_eq_ok_iff.1 h
  have hof : into.ofList us = us := by rcases hinto with rfl | rfl <;> rfl
  show (Coding.elements kind frozen c.coding).encode (into.ofList us) = _
  rw [hof]
  exact Coding.encode_of_decode_elements hc hus hb

/-- A list or set is read from what it is stored as, and the empty one also from no bytes. -/
theorem decode_listsOf_iff (hc : c.IsExact) (hd : ListsOf c d) :
    d.decode (some b) = .ok v ↔ d.valueType.Holds v ∧
      (d.encode v = .ok (some b) ∨ b = [] ∧ v = .sequence []) := by
  have hverbatim := verbatim_of_isExact hc
  have hempty : d.decode (some []) = .ok (.sequence []) := by
    cases hd <;> exact decode_elements_nil ‹_› _ _ _
  have hencode : d.decode (some b) = .ok v → b ≠ [] → d.encode v = .ok (some b) := by
    intro h hb
    cases hd with
    | list hinto | set hinto => exact encode_of_decode_elements hinto hverbatim h hb
    | options hinto =>
      have hoption : (Codec.option c).coding.Verbatim :=
        Coding.verbatim_onValues (fun a => by cases a <;> rfl) (Coding.verbatim_option hverbatim)
      exact encode_of_decode_elements hinto hoption h hb
  constructor
  · intro h
    refine ⟨(rereads_of_decode h).holds, ?_⟩
    by_cases hb : b = []
    · subst hb
      exact .inr ⟨rfl, Except.ok.inj (h.symm.trans hempty)⟩
    · exact .inl (hencode h hb)
  · rintro ⟨hv, h | ⟨rfl, rfl⟩⟩
    · obtain ⟨hplain, hnested⟩ := isPlain_of_listsOf hc hd
      exact decode_of_isPlain hplain hnested hv h
    · exact hempty

/-- The byte strings that a value is read from: those that it is stored as, for scalars and
enumerations; and for lists and sets of these no others but, for the empty one, no bytes. So two
byte strings with one value are equal or one of them is empty. -/
theorem decode_eq_ok_iff_encode (hc : c.IsExact) :
    (∀ b v, c.decode (some b) = .ok v ↔ c.valueType.Holds v ∧ c.encode v = .ok (some b)) ∧
    ∀ d, ListsOf c d → ∀ b v,
      (d.decode (some b) = .ok v ↔ d.valueType.Holds v ∧
        (d.encode v = .ok (some b) ∨ b = [] ∧ v = .sequence [])) ∧
      ∀ b', d.decode (some b) = .ok v → d.decode (some b') = .ok v →
        b = b' ∨ b = [] ∨ b' = [] := by
  refine ⟨fun b v => ⟨fun h => ?_, fun h => ?_⟩, fun d hd b v => ?_⟩
  · exact ⟨(rereads_of_decode h).holds, verbatim_of_isExact hc (some b) v h⟩
  · obtain ⟨hplain, hnested, -⟩ := isPlain_of_isExact hc
    exact decode_of_isPlain hplain hnested h.1 h.2
  · refine ⟨decode_listsOf_iff hc hd, fun b' h h' => ?_⟩
    obtain ⟨-, hstored | ⟨hb, -⟩⟩ := (decode_listsOf_iff hc hd).1 h
    · obtain ⟨-, hstored' | ⟨hb', -⟩⟩ := (decode_listsOf_iff hc hd).1 h'
      · have hsame := hstored.symm.trans hstored'
        exact .inl (Option.some.inj (Except.ok.inj hsame))
      · exact .inr (.inr hb')
    · exact .inr (.inl hb)

/-- A time of day, and a list of optional times with one that is absent. -/
theorem decode_eq_ok_iff_encode_times :
    let c : Codec := .scalar .time
    let d : Codec := .elements .list .deque true (.option c)
    let t : TimeOfDay := ⟨0, 258, by decide, by decide, nofun⟩
    let v : Value := .sequence [.present (.time t), .absent]
    let b : Bytes := [0, 0, 0, 2, 0, 0, 0, 8, 0, 0, 0, 0, 0, 0, 1, 2, 255, 255, 255, 255]
    c.IsExact ∧ ListsOf c d ∧ c.decode (some [0, 0, 0, 0, 0, 0, 1, 2]) = .ok (.time t) ∧
      d.decode (some b) = .ok v ∧ ∀ b', d.decode (some b') = .ok v → b' = b := by
  intro c d t v b
  have hc : c.IsExact := ⟨nofun, nofun, nofun, nofun⟩
  have hd : ListsOf c d := .options (.inr rfl) true
  obtain ⟨hscalar, hlists⟩ := decode_eq_ok_iff_encode hc
  have hheld : d.valueType.Holds v :=
    ⟨trivial, List.forall_mem_cons.2 ⟨trivial, List.forall_mem_singleton.2 trivial⟩⟩
  have hstored : d.encode v = .ok (some b) := by decide +kernel
  have htime : c.encode (.time t) = .ok (some [0, 0, 0, 0, 0, 0, 1, 2]) := by decide +kernel
  have hread : d.decode (some b) = .ok v := (hlists d hd b v).1.2 ⟨hheld, .inl hstored⟩
  refine ⟨hc, hd, (hscalar _ _).2 ⟨trivial, htime⟩, hread, fun b' h => ?_⟩
  have hnil : ∀ {bs}, d.decode (some bs) = .ok v → bs ≠ [] := by
    rintro _ hbs rfl
    have hempty := decode_elements_nil (.inr rfl) .list true (.option c)
    have hsame : v = .sequence [] := Except.ok.inj (hbs.symm.trans hempty)
    exact absurd (Value.sequence.inj hsame) (List.cons_ne_nil _ _)
  rcases (hlists d hd b' v).2 b h hread with hsame | hempty | hempty
  · exact hsame
  · exact absurd hempty (hnil h)
  · exact absurd hempty (hnil hread)

end Codec

end CqlWire
