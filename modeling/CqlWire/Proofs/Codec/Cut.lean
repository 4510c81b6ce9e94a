import CqlWire.Proofs.Codec.Wired
import CqlWire.Proofs.Coding.Cut

/-!
# Stored collections are neither cut nor extended

Whatever a codec stores for a value it reads as some value (`Codec.exists_restores`): fields that a
schema lacks may be gone from it, and elements of a set that differed in nothing else. So the parts
of a stored collection can be read up to wherever its bytes end, and the reader gets to see that it
is cut or that bytes are left (`Codec.decode_cut_or_extended`).
-/

namespace CqlWire

namespace Codec

mutual

/-- Enumerations that are stored by position have no more variants than positions can be stored. -/
def OrdinalsFit : Codec → Prop
  | .scalar _ | .decimal => True
  | .enumeration e ordinal => ordinal = true → e.FitsOrdinal
  | .shared c | .option c | .elements _ _ _ c => c.OrdinalsFit
  | .entries _ _ k c => k.OrdinalsFit ∧ c.OrdinalsFit
  | .record _ _ _ cs => AllOrdinalsFit cs
termination_by structural c => c

/-- The same of several codecs. -/
def AllOrdinalsFit : List Codec → Prop
  | [] => True
  | c :: cs => c.OrdinalsFit ∧ AllOrdinalsFit cs
termination_by structural cs => cs

end

/-- A list, a set or a map, whoever else shares it. -/
def IsCollection : Codec → Prop
  | .elements .. | .entries .. => True
  | .shared c => c.IsCollection
  | _ => False

theorem exists_restores_variant {e : Enumeration} {ordinal : Bool}
    (ho : ordinal = true → e.FitsOrdinal) {index : Nat} (hi : index < e.names.length) :
    ∃ u, (if ordinal then Coding.ordinal e else Coding.nominal e).Restores index u := by
  cases ordinal with
  | true => exact ⟨index, Coding.restores_ordinal hi (fitsSigned_variant (ho rfl) hi)⟩
  | false =>
    -- Of several variants of one name, the first is read.
    have hname : (e.ofName? (e.nameOf index)).isSome = true := by
      rw [Enumeration.ofName?, List.isSome_idxOf?, Enumeration.nameOf, List.getD_eq_getElem?_getD,
        List.getElem?_eq_getElem hi]
      exact List.getElem_mem hi
    obtain ⟨u, hu⟩ := Option.isSome_iff_exists.1 hname
    refine ⟨u, Coding.restores_mapped (Coding.restores_text (e.nameOf index).toList) ?_⟩
    rw [String.ofList_toList, hu]

/-- The elements of a collection are read, each as some value, if values of their type are. -/
theorem exists_restores_elements {c : Codec}
    (ih : ∀ v w, c.valueType.Holds v → c.valueType.Listing v w → ∃ u, c.coding.Restores w u)
    {into : Container} {v w : Value} (hv : (ValueType.sequence into c.valueType).Holds v)
    (hw : (ValueType.sequence into c.valueType).Listing v w) :
    ∃ ws us, w = .sequence ws ∧ List.Forall₂ c.coding.Restores ws us := by
  obtain ⟨vs, rfl, -, hvs⟩ := ValueType.holds_sequence_iff.1 hv
  obtain ⟨ws, rfl, -, hseen⟩ := ValueType.elements_of_listing hw
  have heach : ∀ w ∈ ws, ∃ u, c.coding.Restores w u := by
    intro w hw
    obtain ⟨g, hg, hgw⟩ := hseen w hw
    exact ih g w (hvs g hg) hgw
  obtain ⟨us, hus⟩ := exists_forall₂ heach
  exact ⟨ws, us, rfl, hus⟩

/-- The same of the keys and values of a map. -/
theorem exists_restores_entries {k c : Codec}
    (ihk : ∀ v w, k.valueType.Holds v → k.valueType.Listing v w → ∃ u, k.coding.Restores w u)
    (ih : ∀ v w, c.valueType.Holds v → c.valueType.Listing v w → ∃ u, c.coding.Restores w u)
    {into : MapContainer} {v w : Value}
    (hv : (ValueType.mapping into k.valueType c.valueType).Holds v)
    (hw : (ValueType.mapping into k.valueType c.valueType).Listing v w) :
    ∃ fs us : List (Value × Value), w = .mapping fs ∧
      List.Forall₂ (fun f u => k.coding.Restores f.1 u.1 ∧ c.coding.Restores f.2 u.2) fs us := by
  obtain ⟨es, rfl, -, hes⟩ := ValueType.holds_mapping_iff.1 hv
  obtain ⟨fs, rfl, -, hseen⟩ := ValueType.entries_of_listing hw
  have heach : ∀ f ∈ fs, ∃ u : Value × Value,
      k.coding.Restores f.1 u.1 ∧ c.coding.Restores f.2 u.2 := by
    intro f hf
    obtain ⟨g, hg, hkey, hvalue⟩ := hseen f hf
    obtain ⟨hk, hv⟩ := hes g hg
    obtain ⟨key, hkey⟩ := ihk g.1 f.1 hk hkey
    obtain ⟨value, hvalue⟩ := ih g.2 f.2 hv hvalue
    exact ⟨(key, value), hkey, hvalue⟩
  obtain ⟨us, hus⟩ := exists_forall₂ heach
  exact ⟨fs, us, rfl, hus⟩

mutual

/-- What is stored for a value is read as some value. -/
theorem exists_restores {c : Codec} (hc : c.Wired) (hn : c.NoNestedOption) (ho : c.OrdinalsFit)
    {v w : Value} (hv : c.valueType.Holds v) (hw : c.valueType.Listing v w) :
    ∃ u, c.coding.Restores w u := by
  match c with
  | .scalar s =>
    obtain rfl : v = w := hw
    exact ⟨v, restores_scalar hv⟩
  | .decimal =>
    obtain rfl : v = w := hw
    obtain ⟨d, rfl⟩ := BaseType.eq_decimal_of_holds hv
    exact ⟨_, Coding.restores_onValues rfl (Coding.restores_decimal d) rfl⟩
  | .enumeration e ordinal =>
    obtain rfl : v = w := hw
    obtain ⟨index, rfl, hi⟩ := ValueType.holds_enumeration_iff.1 hv
    obtain ⟨u, hu⟩ := exists_restores_variant ho hi
    exact ⟨_, Coding.restores_onValues rfl hu rfl⟩
  | .shared c => exact exists_restores (c := c) hc hn ho hv hw
  | .option c =>
    rcases ValueType.listing_option_iff.1 hw with ⟨-, rfl⟩ | ⟨a, b, rfl, rfl, hab⟩
    · exact ⟨_, Coding.restores_onValues rfl (Coding.restores_none _) rfl⟩
    · obtain ⟨u, hu⟩ := exists_restores (c := c) hc hn.2 ho hv hab
      have hsome := Coding.restores_some (neverAbsent_of_not_isOption hn.1) hu
      exact ⟨_, Coding.restores_onValues rfl hsome rfl⟩
  | .elements kind into frozen c =>
    obtain ⟨ws, us, rfl, hus⟩ := exists_restores_elements
      (fun v w hv hw => exists_restores (c := c) hc hn ho hv hw) hv hw
    exact ⟨_, Coding.restores_onValues rfl (Coding.restores_elements hus) rfl⟩
  | .entries into frozen k c =>
    obtain ⟨fs, gs, rfl, hgs⟩ := exists_restores_entries
      (fun v w hv hw => exists_restores (c := k) hc.1 hn.1 ho.1 hv hw)
      (fun v w hv hw => exists_restores (c := c) hc.2 hn.2 ho.2 hv hw) hv hw
    exact ⟨_, Coding.restores_onValues rfl (Coding.restores_entries hgs) rfl⟩
  | .record header schema slots cs =>
    obtain ⟨vs, rfl, hvs⟩ := ValueType.holds_record_iff.1 hv
    obtain ⟨ws, rfl, hws⟩ := ValueType.listing_record_iff.1 hw
    obtain ⟨hlenv, hholds⟩ := holdAll_valueTypes_iff.1 hvs
    obtain ⟨hlenw, hlisting⟩ := listing_of_listingAll hws
    have hfield : ∀ i < (codings cs).length, ∃ u, ∀ c, (codings cs)[i]? = some c →
        (i ∈ slots → ∀ w, ws[i]? = some w → c.Restores w u) ∧
          (i ∉ slots → c.decode none = .ok u) := by
      intro i hi
      rw [length_codings] at hi
      have hget : cs[i]? = some cs[i] := List.getElem?_eq_getElem hi
      have hcoding : (codings cs)[i]? = some cs[i].coding :=
        getElem?_codings_eq_some_iff.2 ⟨cs[i], hget, rfl⟩
      by_cases hin : i ∈ slots
      · have hv : vs[i]? = some vs[i] := List.getElem?_eq_getElem (hlenv ▸ hi)
        have hw : ws[i]? = some ws[i] := List.getElem?_eq_getElem (hlenw ▸ hi)
        obtain ⟨u, hu⟩ := exists_restores_fields hc.2.2 hn ho cs[i] (List.getElem_mem hi)
          (hholds i _ _ hget hv) (hlisting i _ _ _ hget hv hw)
        refine ⟨u, fun c hc' => ⟨fun _ w' hw' => ?_, fun hout => absurd hin hout⟩⟩
        obtain rfl : cs[i].coding = c := Option.some.inj (hcoding.symm.trans hc')
        obtain rfl : ws[i] = w' := Option.some.inj (hw.symm.trans hw')
        exact hu
      · refine ⟨.absent, fun c hc' => ⟨fun h => absurd h hin, fun _ => ?_⟩⟩
        obtain rfl : cs[i].coding = c := Option.some.inj (hcoding.symm.trans hc')
        exact decode_none_of_isOption (hc.2.1 i cs[i] hget hin)
    obtain ⟨us, hlen, hus⟩ := exists_list hfield
    have hrecord : (Coding.record header.typeName schema slots (codings cs)).Restores ws us :=
      Coding.restores_record hlen.symm fun i c u hi hu => hus i u hu c hi
    exact ⟨_, Coding.restores_onValues rfl hrecord rfl⟩

/-- The same of the codecs of the fields of a record. -/
theorem exists_restores_fields {cs : List Codec} (hc : AllWired cs) (hn : NoneNestsOption cs)
    (ho : AllOrdinalsFit cs) : ∀ c ∈ cs, ∀ {v w : Value}, c.valueType.Holds v →
      c.valueType.Listing v w → ∃ u, c.coding.Restores w u := by
  match cs with
  | [] => exact List.forall_mem_nil _
  | c :: cs =>
    exact List.forall_mem_cons.2 ⟨fun hv hw => exists_restores hc.1 hn.1 ho.1 hv hw,
      exists_restores_fields hc.2 hn.2 ho.2⟩

end

/-! ## Collections -/

theorem sealed_of_encode {c : Codec} (hk : c.IsCollection) (hc : c.Wired) (hn : c.NoNestedOption)
    (ho : c.OrdinalsFit) {v w : Value} (hv : c.valueType.Holds v) (hw : c.valueType.Listing v w)
    {bs : Bytes} (hb : c.encode w = .ok (some bs)) : c.coding.Sealed bs := by
  match c with
  | .shared c => exact sealed_of_encode (c := c) hk hc hn ho hv hw hb
  | .elements kind into frozen c =>
    obtain ⟨ws, us, rfl, hus⟩ := exists_restores_elements
      (fun v w hv hw => exists_restores (c := c) hc hn ho hv hw) hv hw
    exact Coding.sealed_onValues (Coding.sealed_elements hus hb) _ _
  | .entries into frozen k c =>
    obtain ⟨fs, gs, rfl, hgs⟩ := exists_restores_entries
      (fun v w hv hw => exists_restores (c := k) hc.1 hn.1 ho.1 hv hw)
      (fun v w hv hw => exists_restores (c := c) hc.2 hn.2 ho.2 hv hw) hv hw
    exact Coding.sealed_onValues (Coding.sealed_entries hgs hb) _ _

/-- A stored list, set or map is refused as malformed where it is cut, unless nothing is left of it,
and where anything is added to it. -/
theorem decode_cut_or_extended {c : Codec} (hc : c.Built) (hk : c.IsCollection)
    (hn : c.NoNestedOption) (ho : c.OrdinalsFit) {v w : Value} (hv : c.valueType.Holds v)
    (hw : c.valueType.Listing v w) {bs : Bytes} (hb : c.encode w = .ok (some bs)) :
    (∀ p, p <+: bs → p ≠ [] → p ≠ bs →
      ∃ reason, c.decode (some p) = .error (.decode c.type.toText reason)) ∧
    ∀ more, more ≠ [] →
      ∃ reason, c.decode (some (bs ++ more)) = .error (.decode c.type.toText reason) :=
  have hsealed := sealed_of_encode hk (wired_of_built hc) hn ho hv hw hb
  ⟨hsealed.cut, hsealed.extended⟩

/-- A map from variants to lists that may lack elements, cut within the frame of the list, and with
a byte behind it. -/
theorem decode_cut_or_extended_nested :
    let c : Codec := .entries .hashed false
      (.enumeration ⟨"Color", "Color", ["Red", "Blue"], ["RED", "BLUE"], true⟩ true)
      (.elements .list .vector false (.option (.scalar .text)))
    let v : Value := .mapping [(.variant 1, .sequence [.present (.text ['a']), .absent])]
    let bs : Bytes := [0, 0, 0, 1, 0, 0, 0, 4, 0, 0, 0, 1,
      0, 0, 0, 13, 0, 0, 0, 2, 0, 0, 0, 1, 97, 255, 255, 255, 255]
    let p : Bytes := [0, 0, 0, 1, 0, 0, 0, 4, 0, 0, 0, 1, 0, 0, 0, 13, 0, 0, 0, 2, 0, 0, 0, 1, 97]
    c.Built ∧ c.IsCollection ∧ c.NoNestedOption ∧ c.OrdinalsFit ∧ c.valueType.Holds v ∧
      c.valueType.Listing v v ∧ c.encode v = .ok (some bs) ∧ (p <+: bs ∧ p ≠ [] ∧ p ≠ bs) ∧
      (∃ reason, c.decode (some p) = .error (.decode c.type.toText reason)) ∧
      ∃ reason, c.decode (some (bs ++ [0])) = .error (.decode c.type.toText reason) := by
  intro c v bs p
  have hbuilt : c.Built := .entries _ _ (.enumeration ⟨by decide, by decide, by decide⟩ true)
    (.elements _ _ _ (.option (.scalar .text)))
  have hn : c.NoNestedOption := ⟨trivial, id, trivial⟩
  have ho : c.OrdinalsFit := ⟨fun _ => show 2 ≤ 2147483648 by decide, trivial⟩
  have hv : c.valueType.Holds v := by
    refine ⟨List.pairwise_singleton _ _, List.forall_mem_singleton.2 ⟨?_, trivial, ?_⟩⟩
    · show 1 < 2
      decide
    · exact List.forall_mem_cons.2 ⟨trivial, List.forall_mem_singleton.2 trivial⟩
  have hw := ValueType.listing_refl hv
  have hb : c.encode v = .ok (some bs) := by rfl
  have hp : p <+: bs ∧ p ≠ [] ∧ p ≠ bs := ⟨⟨[255, 255, 255, 255], rfl⟩, by decide, by decide⟩
  obtain ⟨hcut, hmore⟩ := decode_cut_or_extended hbuilt trivial hn ho hv hw hb
  exact ⟨hbuilt, trivial, hn, ho, hv, hw, hb, hp, hcut p hp.1 hp.2.1 hp.2.2,
    hmore [0] (List.cons_ne_nil _ _)⟩

end Codec

end CqlWire
