import CqlWire.Proofs.Codec.Storage
import CqlWire.Proofs.Coding.RecordLiteral

/-!
# What a codec writes it reads back

The literals of a codec that is made of exact scalars, and of records whose fields have names that
stand for themselves (`Codec.HasExactLiterals`), are terms at any depth. Each is read as what the
codec leaves of its value (`reparses_kept`), by induction on the codec. A codec without records
(`Codec.IsVerbatim`) leaves the whole value, so quotes, commas, colons and brackets in a text never
move the boundary of an element (`parse_of_encode`). The least scale of a decimal is excluded, since
its literal is out of range for the reader.
-/

namespace CqlWire

open Text (nullWord isNullLiteral)

/-- The first value is part of the second, which may be that value itself. -/
inductive Value.IsPart : Value → Value → Prop where
  | refl (v : Value) : IsPart v v
  | present {u v : Value} (h : IsPart u v) : IsPart u (.present v)
  | element {u v : Value} {vs : List Value} (hv : v ∈ vs) (h : IsPart u v) : IsPart u (.sequence vs)
  | key {u : Value} {e : Value × Value} {es : List (Value × Value)} (he : e ∈ es)
    (h : IsPart u e.1) : IsPart u (.mapping es)
  | value {u : Value} {e : Value × Value} {es : List (Value × Value)} (he : e ∈ es)
    (h : IsPart u e.2) : IsPart u (.mapping es)
  | field {u v : Value} {vs : List Value} (hv : v ∈ vs) (h : IsPart u v) : IsPart u (.record vs)

/-- No decimal in the value has the least scale. -/
def Value.HasWritableScales (v : Value) : Prop :=
  ∀ d, Value.IsPart (.unscaled d) v → d.scale ≠ -2147483648

namespace Value

@[simp] theorem hasWritableScales_unscaled_iff {d : UnscaledDecimal} :
    (Value.unscaled d).HasWritableScales ↔ d.scale ≠ -2147483648 := by
  constructor
  · exact fun h => h d (.refl _)
  · intro h e he
    cases he
    exact h

@[simp] theorem hasWritableScales_text (s : List Char) : (Value.text s).HasWritableScales :=
  fun _ h => nomatch h

@[simp] theorem hasWritableScales_absent : Value.absent.HasWritableScales :=
  fun _ h => nomatch h

@[simp] theorem hasWritableScales_bool (b : Bool) : (Value.bool b).HasWritableScales :=
  fun _ h => nomatch h

@[simp] theorem hasWritableScales_int (n : Int) : (Value.int n).HasWritableScales :=
  fun _ h => nomatch h

@[simp] theorem hasWritableScales_present_iff {v : Value} :
    (Value.present v).HasWritableScales ↔ v.HasWritableScales := by
  constructor
  · exact fun h d hd => h d (.present hd)
  · intro h d hd
    cases hd with
    | present hd => exact h d hd

@[simp] theorem hasWritableScales_sequence_iff {vs : List Value} :
    (Value.sequence vs).HasWritableScales ↔ ∀ v ∈ vs, v.HasWritableScales := by
  constructor
  · exact fun h v hv d hd => h d (.element hv hd)
  · intro h d hd
    cases hd with
    | element hv hd => exact h _ hv d hd

@[simp] theorem hasWritableScales_mapping_iff {es : List (Value × Value)} :
    (Value.mapping es).HasWritableScales ↔
      ∀ e ∈ es, e.1.HasWritableScales ∧ e.2.HasWritableScales := by
  constructor
  · exact fun h e he => ⟨fun d hd => h d (.key he hd), fun d hd => h d (.value he hd)⟩
  · intro h d hd
    cases hd with
    | key he hd => exact (h _ he).1 d hd
    | value he hd => exact (h _ he).2 d hd

@[simp] theorem hasWritableScales_record_iff {vs : List Value} :
    (Value.record vs).HasWritableScales ↔ ∀ v ∈ vs, v.HasWritableScales := by
  constructor
  · exact fun h v hv d hd => h d (.field hv hd)
  · intro h d hd
    cases hd with
    | field hv hd => exact h _ hv d hd

end Value

namespace Codec

/-! ## Exact literals -/

mutual

/-- All scalars of the codec have exact literals, and so do the fields that its records store, whose
names stand for themselves. -/
def HasExactLiterals : Codec → Prop
  | .scalar s => s.IsVerbatim
  | .decimal | .enumeration .. => True
  | .shared c | .option c | .elements _ _ _ c => c.HasExactLiterals
  | .entries _ _ k c => k.HasExactLiterals ∧ c.HasExactLiterals
  | .record _ schema slots cs => Coding.NamesApart schema slots ∧ FieldsHaveExactLiterals slots 0 cs
termination_by structural c => c

/-- The same of the declared fields of a record that slots name. -/
def FieldsHaveExactLiterals (slots : List Nat) : (index : Nat) → List Codec → Prop
  | _, [] => True
  | index, c :: cs =>
    (index ∈ slots → c.HasExactLiterals) ∧ FieldsHaveExactLiterals slots (index + 1) cs
termination_by structural _ cs => cs

end

/-- All scalars of the codec have exact literals. -/
def IsVerbatim : Codec → Prop
  | .scalar s => s.IsVerbatim
  | .decimal | .enumeration .. => True
  | .shared c | .option c | .elements _ _ _ c => c.IsVerbatim
  | .entries _ _ k c => k.IsVerbatim ∧ c.IsVerbatim
  | .record .. => False

theorem reparses_variant {e : Enumeration} {ordinal : Bool}
    (h : (Codec.enumeration e ordinal).Regular) {index : Nat} (hi : index < e.names.length) :
    (if ordinal then Coding.ordinal e else Coding.nominal e).Reparses index index := by
  cases ordinal with
  | false => exact Coding.reparses_nominal h.1.nodup hi
  | true => exact Coding.reparses_ordinal hi (fitsSigned_variant (h.2 rfl) hi)

/-- An option reads NULL as absence. -/
theorem parse_null_of_isOption {c : Codec} (h : c.IsOption) {text : List Char}
    (htext : isNullLiteral text = true) : c.coding.parse text = .ok .absent := by
  match c with
  | .shared c => exact parse_null_of_isOption (c := c) h htext
  | .option c =>
    simp only [coding, Coding.onValues, Coding.option, if_pos htext]
    rfl

mutual

/-- What is written for a value, as a program sees it, is one term that is read as what is left of
the value. -/
theorem reparses_kept {c : Codec} (hc : c.Regular) (hs : c.HasExactLiterals) {v w : Value}
    (hv : c.valueType.Holds v) (hw : c.valueType.Listing v w) (hd : v.HasWritableScales) :
    c.coding.Reparses w (c.kept v) := by
  match c with
  | .scalar s =>
    obtain rfl : v = w := hw
    refine reparses_scalar hs hv fun d hv' => ?_
    subst hv'
    exact Value.hasWritableScales_unscaled_iff.1 hd
  | .decimal =>
    obtain rfl : v = w := hw
    obtain ⟨d, rfl⟩ := BaseType.eq_decimal_of_holds hv
    exact Coding.reparses_onValues rfl (Coding.reparses_decimal d) rfl
  | .enumeration e ordinal =>
    obtain rfl : v = w := hw
    obtain ⟨index, rfl, hi⟩ := ValueType.holds_enumeration_iff.1 hv
    exact Coding.reparses_onValues rfl (reparses_variant hc hi) rfl
  | .shared c => exact reparses_kept (c := c) hc hs hv hw hd
  | .option c =>
    rcases ValueType.listing_option_iff.1 hw with ⟨rfl, rfl⟩ | ⟨a, b, rfl, rfl, hab⟩
    · exact Coding.reparses_onValues rfl (Coding.reparses_none _) rfl
    · have ha := Value.hasWritableScales_present_iff.1 hd
      exact Coding.reparses_onValues rfl (Coding.reparses_some (neverAbsent_of_not_isOption hc.1)
        (reparses_kept hc.2 hs hv hab ha)) rfl
  | .elements kind into frozen c =>
    obtain ⟨vs, rfl, hk, hvs⟩ := ValueType.holds_sequence_iff.1 hv
    obtain ⟨ws, us, rfl, hr, hus⟩ := ValueType.listing_sequence_iff.1 hw
    have helem : ∀ u ∈ us, c.valueType.Holds u ∧ u.HasWritableScales := fun u hu =>
      have hu' : u ∈ vs := hr.perm.mem_iff.1 hu
      ⟨hvs u hu', Value.hasWritableScales_sequence_iff.1 hd u hu'⟩
    have hall : List.Forall₂ c.coding.Reparses ws (us.map c.kept) :=
      List.forall₂_map_right_iff.2 (((List.forall₂_and_left _ _).2 ⟨helem, hus⟩).imp fun u w h =>
        reparses_kept hc.1 hs h.1.1 h.2 h.1.2).flip
    exact Coding.reparses_onValues rfl (Coding.reparses_elements hall)
      (congrArg Value.sequence (ofList_map_kept hc.2 hk hr))
  | .entries into frozen k c =>
    obtain ⟨es, rfl, hk, hes⟩ := ValueType.holds_mapping_iff.1 hv
    obtain ⟨fs, gs, rfl, hr, hgs⟩ := ValueType.listing_mapping_iff.1 hw
    have hentry : ∀ g ∈ gs, (k.valueType.Holds g.1 ∧ c.valueType.Holds g.2) ∧
        g.1.HasWritableScales ∧ g.2.HasWritableScales := fun g hg =>
      have hg' : g ∈ es := hr.perm.mem_iff.1 hg
      ⟨hes g hg', Value.hasWritableScales_mapping_iff.1 hd g hg'⟩
    have hall : List.Forall₂ (fun f g => k.coding.Reparses f.1 g.1 ∧ c.coding.Reparses f.2 g.2)
        fs (gs.map fun g => (k.kept g.1, c.kept g.2)) :=
      List.forall₂_map_right_iff.2 (((List.forall₂_and_left _ _).2 ⟨hentry, hgs⟩).imp fun g f h =>
        ⟨reparses_kept hc.1 hs.1 h.1.1.1 h.2.1 h.1.2.1,
          reparses_kept hc.2.2 hs.2 h.1.1.2 h.2.2 h.1.2.2⟩).flip
    exact Coding.reparses_onValues rfl (Coding.reparses_entries hall) (congrArg Value.mapping
      (MapContainer.ofList_of_reorders (keeps_map_kept hc.2.1 hk) (hr.map _)))
  | .record header schema slots cs =>
    obtain ⟨vs, rfl, hvs⟩ := ValueType.holds_record_iff.1 hv
    obtain ⟨ws, rfl, hws⟩ := ValueType.listing_record_iff.1 hw
    refine Coding.reparses_onValues rfl (Coding.reparses_record hs.1 ?_ fun i c u hi hu => ?_) rfl
    · rw [length_keptFields, length_codings, length_of_holdAll hvs]
    · have := reparsesFields_kept hc hs.2 hvs hws (Value.hasWritableScales_record_iff.1 hd) hi hu
      rwa [Nat.zero_add] at this

/-- The same of the declared fields of a record. -/
theorem reparsesFields_kept {slots : List Nat} {index : Nat} {cs : List Codec}
    (hc : RegularFields slots index cs) (hs : FieldsHaveExactLiterals slots index cs)
    {vs ws : List Value} (hv : ValueType.HoldAll (valueTypes cs) vs)
    (hw : ValueType.ListingAll (valueTypes cs) vs ws) (hd : ∀ v ∈ vs, v.HasWritableScales)
    {i : Nat} {c : Coding Value} {u : Value} (hi : (codings cs)[i]? = some c)
    (hu : (keptFields slots index cs vs)[i]? = some u) :
    (index + i ∈ slots → ∀ w, ws[i]? = some w → c.Reparses w u) ∧
      (index + i ∉ slots → c.parse nullWord = .ok u) := by
  match cs, vs, ws with
  | c :: cs, v :: vs, w :: ws =>
    obtain ⟨hdv, hdvs⟩ := List.forall_mem_cons.1 hd
    cases i with
    | zero =>
      obtain rfl : c.coding = _ := Option.some.inj hi
      obtain rfl : (if index ∈ slots then c.kept v else .absent) = u := Option.some.inj hu
      rw [Nat.add_zero]
      refine ⟨fun hin w' hw' => ?_, fun hout => ?_⟩
      · obtain rfl : w = w' := Option.some.inj hw'
        rw [if_pos hin]
        exact reparses_kept hc.1 (hs.1 hin) hv.1 hw.1 hdv
      · rw [if_neg hout]
        exact parse_null_of_isOption (hc.2.1 hout) rfl
    | succ i =>
      have := reparsesFields_kept hc.2.2 hs.2 hv.2 hw.2 hdvs hi hu
      rwa [Nat.add_right_comm, Nat.add_assoc] at this

end

/-! ## Codecs without records -/

theorem hasExactLiterals_of_isVerbatim {c : Codec} (h : c.IsVerbatim) : c.HasExactLiterals := by
  match c with
  | .scalar s => exact h
  | .decimal | .enumeration .. => trivial
  | .shared c => exact hasExactLiterals_of_isVerbatim (c := c) h
  | .option c => exact hasExactLiterals_of_isVerbatim (c := c) h
  | .elements _ _ _ c => exact hasExactLiterals_of_isVerbatim (c := c) h
  | .entries _ _ k c =>
    exact ⟨hasExactLiterals_of_isVerbatim h.1, hasExactLiterals_of_isVerbatim h.2⟩

/-- What is written for a value, as a program sees it, is one term that is read as the value. -/
theorem reparses_of_isVerbatim {c : Codec} (hc : c.IsPlain) (hs : c.IsVerbatim)
    (ho : c.NoNestedOption) {v w : Value} (hv : c.valueType.Holds v)
    (hw : c.valueType.Listing v w) (hd : v.HasWritableScales) : c.coding.Reparses w v := by
  have h := reparses_kept (regular_of_isPlain hc ho) (hasExactLiterals_of_isVerbatim hs) hv hw hd
  rwa [kept_of_isRecordFree (isRecordFree_of_isPlain hc)] at h

/-- The literal of a value that can be stored is read as the value. Where it stands in a collection
literal it is one term, whatever its texts hold. -/
theorem parse_of_encode {c : Codec} (hc : c.IsPlain) (hs : c.IsVerbatim) (ho : c.NoNestedOption)
    {v w : Value} (hv : c.valueType.Holds v) (hw : c.valueType.Listing v w)
    (hd : v.HasWritableScales) {b : Option Bytes} (hb : c.encode w = .ok b) :
    c.parse (c.format w) = .ok v ∧
      ∀ r, Literal.Stops r → Literal.term? (c.format w ++ r) = some (c.format w, r) := by
  obtain ⟨hterm, hparse, -⟩ := reparses_of_isVerbatim hc hs ho hv hw hd b hb
  exact ⟨hparse, fun r hr => Literal.term?_append hterm.pieces hterm.nonempty hr⟩

/-- A hash map between texts with quotes, separators and brackets and lists of such texts, written
in the order in which its entries came. -/
theorem parse_of_encode_hashed :
    let c : Codec := .entries .hashed false (.scalar .text)
      (.elements .list .vector true (.option (.scalar .text)))
    let v : Value := .mapping
      [(.text "a',".toList, .sequence [.absent, .present (.text "\x7b]:'".toList)]),
        (.text "b:(".toList, .sequence [])]
    let w : Value := .mapping
      [(.text "b:(".toList, .sequence []),
        (.text "a',".toList, .sequence [.absent, .present (.text "\x7b]:'".toList)])]
    let b : Option Bytes := some [0, 0, 0, 2, 0, 0, 0, 3, 98, 58, 40, 0, 0, 0, 4, 0, 0, 0, 0,
      0, 0, 0, 3, 97, 39, 44, 0, 0, 0, 16, 0, 0, 0, 2, 255, 255, 255, 255, 0, 0, 0, 4, 123, 93, 58,
      39]
    c.IsPlain ∧ c.IsVerbatim ∧ c.NoNestedOption ∧ c.valueType.Holds v ∧ c.valueType.Listing v w ∧
      v.HasWritableScales ∧ c.encode w = .ok b ∧
      c.format w = "\x7b'b:(':\x7b\x7d,'a'',':\x7bNULL,'\x7b]:'''\x7d\x7d".toList ∧
      c.parse (c.format w) = .ok v ∧
        ∀ r, Literal.Stops r → Literal.term? (c.format w ++ r) = some (c.format w, r) := by
  intro c v w b
  have hc : c.IsPlain := ⟨trivial, trivial⟩
  have hs : c.IsVerbatim := ⟨trivial, trivial⟩
  have ho : c.NoNestedOption := ⟨trivial, id, trivial⟩
  have hfirst : (ValueType.sequence .vector (.option (.base .string))).Holds
      (.sequence [.absent, .present (.text "\x7b]:'".toList)]) :=
    ⟨trivial, List.forall_mem_cons.2 ⟨trivial, List.forall_mem_singleton.2 trivial⟩⟩
  have hv : c.valueType.Holds v := by
    refine ⟨?_, List.forall_mem_cons.2 ⟨⟨trivial, hfirst⟩, List.forall_mem_singleton.2 ?_⟩⟩
    · refine List.pairwise_pair.2 ?_
      decide
    · exact ⟨trivial, trivial, List.forall_mem_nil _⟩
  have hw : c.valueType.Listing v w :=
    ⟨_, .swap _ _ _, .cons ⟨rfl, ValueType.listing_refl ⟨trivial, List.forall_mem_nil _⟩⟩
      (.cons ⟨rfl, ValueType.listing_refl hfirst⟩ .nil)⟩
  have hd : v.HasWritableScales := by
    refine Value.hasWritableScales_mapping_iff.2 (List.forall_mem_cons.2 ⟨⟨?_, ?_⟩,
      List.forall_mem_singleton.2 ⟨Value.hasWritableScales_text _, ?_⟩⟩)
    · exact Value.hasWritableScales_text _
    · exact Value.hasWritableScales_sequence_iff.2 (List.forall_mem_cons.2
        ⟨Value.hasWritableScales_absent, List.forall_mem_singleton.2
          (Value.hasWritableScales_present_iff.2 (Value.hasWritableScales_text _))⟩)
    · exact Value.hasWritableScales_sequence_iff.2 (List.forall_mem_nil _)
  have hb : c.encode w = .ok b := by rfl
  have hf : c.format w = "\x7b'b:(':\x7b\x7d,'a'',':\x7bNULL,'\x7b]:'''\x7d\x7d".toList := by rfl
  exact ⟨hc, hs, ho, hv, hw, hd, hb, hf, parse_of_encode hc hs ho hv hw hd hb⟩

end Codec

end CqlWire
