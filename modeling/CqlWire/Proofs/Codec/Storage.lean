import CqlWire.Codec.Built
import CqlWire.Proofs.Coding.Scalar
import CqlWire.Proofs.Value.Listing

/-!
# What a codec stores it reads back

A codec does not store the fields of a record that its schema lacks. `Codec.kept` is what is left of
a value. In a regular codec (`Codec.Regular`) every value is stored in a form of its own, so that
what is stored for a value is read as what is left of it (`restores_kept`), by induction on the
codec. A codec without records leaves out nothing (`kept_of_isRecordFree`); it reads every value
back as it was stored (`decode_of_encode`).
-/

namespace CqlWire

/-- The positions of the variants fit in the four bytes that store one. -/
def Enumeration.FitsOrdinal (e : Enumeration) : Prop :=
  e.size ≤ 2147483648

namespace Codec

/-! ## What is left of a value -/

mutual

/-- The value without the fields that are not stored. -/
def kept : Codec → Value → Value
  | .shared c, v => c.kept v
  | .option c, .present v => .present (c.kept v)
  | .elements _ _ _ c, .sequence vs => .sequence (vs.map c.kept)
  | .entries _ _ k c, .mapping es => .mapping (es.map fun e => (k.kept e.1, c.kept e.2))
  | .record _ _ slots cs, .record vs => .record (keptFields slots 0 cs vs)
  | _, v => v
termination_by structural c => c

/-- The declared fields of a record, the first of which has the given index; those that no slot
names are absent. -/
def keptFields (slots : List Nat) : (index : Nat) → List Codec → List Value → List Value
  | index, c :: cs, v :: vs =>
    (if index ∈ slots then c.kept v else .absent) :: keptFields slots (index + 1) cs vs
  | _, _, vs => vs
termination_by structural _ cs => cs

end

/-- No record is part of the codec. -/
def IsRecordFree : Codec → Prop
  | .scalar _ | .decimal | .enumeration .. => True
  | .shared c | .option c | .elements _ _ _ c => c.IsRecordFree
  | .entries _ _ k c => k.IsRecordFree ∧ c.IsRecordFree
  | .record .. => False

theorem kept_of_isRecordFree {c : Codec} (h : c.IsRecordFree) (v : Value) : c.kept v = v := by
  match c with
  | .scalar _ | .decimal | .enumeration .. => rfl
  | .shared c => exact kept_of_isRecordFree (c := c) h v
  | .option c =>
    cases v with
    | present v => exact congrArg Value.present (kept_of_isRecordFree (c := c) h v)
    | _ => rfl
  | .elements _ _ _ c =>
    cases v with
    | sequence vs =>
      refine congrArg Value.sequence ?_
      rw [show c.kept = id from funext (kept_of_isRecordFree (c := c) h), List.map_id]
    | _ => rfl
  | .entries _ _ k c =>
    cases v with
    | mapping es =>
      refine congrArg Value.mapping ?_
      conv_rhs => rw [← List.map_id es]
      refine List.map_congr_left fun e _ => ?_
      rw [kept_of_isRecordFree h.1, kept_of_isRecordFree h.2]
      rfl
    | _ => rfl

theorem map_kept_of_isRecordFree {c : Codec} (h : c.IsRecordFree) (vs : List Value) :
    vs.map c.kept = vs := by
  rw [show c.kept = id from funext (kept_of_isRecordFree h), List.map_id]

/-! ## Regular codecs -/

mutual

/-- Codecs that store every value in a form of its own. Containers that order their elements hold no
records, since two records may be left alike; and what a schema lacks may be absent. -/
def Regular : Codec → Prop
  | .scalar _ | .decimal => True
  | .enumeration e ordinal => e.WellFormed ∧ (ordinal = true → e.FitsOrdinal)
  | .shared c => c.Regular
  | .option c => ¬c.IsOption ∧ c.Regular
  | .elements _ into _ c => c.Regular ∧ (into = .vector ∨ into = .deque ∨ c.IsRecordFree)
  | .entries _ _ k c => k.Regular ∧ k.IsRecordFree ∧ c.Regular
  | .record _ _ slots cs => RegularFields slots 0 cs
termination_by structural c => c

/-- The same of the declared fields of a record. -/
def RegularFields (slots : List Nat) : (index : Nat) → List Codec → Prop
  | _, [] => True
  | index, c :: cs =>
    c.Regular ∧ (index ∉ slots → c.IsOption) ∧ RegularFields slots (index + 1) cs
termination_by structural _ cs => cs

end

/-- Only options store absent bytes. -/
theorem neverAbsent_of_not_isOption {c : Codec} (h : ¬c.IsOption) : c.coding.NeverAbsent := by
  match c with
  | .scalar s => exact neverAbsent_scalar s
  | .decimal => exact Coding.neverAbsent_onValues (Coding.neverAbsent_mapped nofun)
  | .enumeration e ordinal => exact Coding.neverAbsent_onValues (neverAbsent_enumeration e ordinal)
  | .shared c => exact neverAbsent_of_not_isOption (c := c) h
  | .option c => exact absurd trivial h
  | .elements .. => exact Coding.neverAbsent_onValues (Coding.neverAbsent_elements _ _ _)
  | .entries .. => exact Coding.neverAbsent_onValues (Coding.neverAbsent_entries _ _ _)
  | .record .. => exact Coding.neverAbsent_onValues (Coding.neverAbsent_record _ _ _ _)

theorem decode_none_of_isOption {c : Codec} (h : c.IsOption) :
    c.coding.decode none = .ok .absent := by
  match c with
  | .shared c => exact decode_none_of_isOption (c := c) h
  | .option c => rfl

theorem length_keptFields (slots : List Nat) (index : Nat) (cs : List Codec) (vs : List Value) :
    (keptFields slots index cs vs).length = vs.length := by
  induction cs generalizing index vs with
  | nil => rfl
  | cons c cs ih =>
    cases vs with
    | nil => rfl
    | cons v vs => rw [keptFields, List.length_cons, List.length_cons, ih]

theorem length_of_holdAll {cs : List Codec} {vs : List Value}
    (h : ValueType.HoldAll (valueTypes cs) vs) : vs.length = cs.length := by
  induction cs generalizing vs with
  | nil =>
    cases vs with
    | nil => rfl
    | cons v vs => exact h.elim
  | cons c cs ih =>
    cases vs with
    | nil => exact h.elim
    | cons v vs => rw [List.length_cons, List.length_cons, ih h.2]

/-! ## Restoring -/

theorem fitsSigned_variant {e : Enumeration} (h : e.FitsOrdinal) {index : Nat}
    (hi : index < e.names.length) : fitsSigned 32 index = true := by
  have hfit : e.names.length ≤ 2147483648 := h
  refine (Bytes.fitsSigned_iff 4 (by decide)).2 ?_
  rw [Frame.capacity_four]
  omega

theorem restores_variant {e : Enumeration} {ordinal : Bool}
    (h : (Codec.enumeration e ordinal).Regular) {index : Nat} (hi : index < e.names.length) :
    (if ordinal then Coding.ordinal e else Coding.nominal e).Restores index index := by
  cases ordinal with
  | false => exact Coding.restores_nominal h.1.nodup hi
  | true => exact Coding.restores_ordinal hi (fitsSigned_variant (h.2 rfl) hi)

/-- A container that gets what is left of its elements is what is left of the container. -/
theorem ofList_map_kept {into : Container} {c : Codec}
    (hc : into = .vector ∨ into = .deque ∨ c.IsRecordFree) {vs us : List Value}
    (hk : into.Keeps vs) (hr : Reorders into.isHashed vs us) :
    into.ofList (us.map c.kept) = vs.map c.kept := by
  -- Where the container orders its elements, nothing may be left out of them.
  rcases hc with rfl | rfl | hfree
  · exact congrArg (List.map c.kept) hr
  · exact congrArg (List.map c.kept) hr
  · rw [map_kept_of_isRecordFree hfree, map_kept_of_isRecordFree hfree]
    exact Container.ofList_of_reorders hk hr

/-- A collection is restored from what is left of its elements, in whatever order they come. -/
theorem restores_sequence {kind : CollectionKind} {into : Container} {frozen : Bool} {c : Codec}
    (hc : into = .vector ∨ into = .deque ∨ c.IsRecordFree) {vs us ws : List Value}
    (hk : into.Keeps vs) (hr : Reorders into.isHashed vs us)
    (h : List.Forall₂ (fun u w => c.coding.Restores w (c.kept u)) us ws) :
    (Codec.elements kind into frozen c).coding.Restores (.sequence ws)
      (.sequence (vs.map c.kept)) := by
  have hws : List.Forall₂ c.coding.Restores ws (us.map c.kept) :=
    List.forall₂_map_right_iff.2 h.flip
  exact Coding.restores_onValues rfl (Coding.restores_elements hws)
    (congrArg Value.sequence (ofList_map_kept hc hk hr))

/-- A container of entries keeps them in order when nothing is left out of their keys. -/
theorem keeps_map_kept {into : MapContainer} {k c : Codec} (hfree : k.IsRecordFree)
    {es : List (Value × Value)} (hk : into.Keeps es) :
    into.Keeps (es.map fun e => (k.kept e.1, c.kept e.2)) := by
  refine List.pairwise_map.2 (hk.imp fun {a b} hab => ?_)
  rwa [kept_of_isRecordFree hfree, kept_of_isRecordFree hfree]

/-- A map is restored from its keys and what is left of their values, in whatever order they
come. -/
theorem restores_mapping {into : MapContainer} {frozen : Bool} {k c : Codec}
    (hfree : k.IsRecordFree) {es gs fs : List (Value × Value)} (hk : into.Keeps es)
    (hr : Reorders into.isHashed es gs)
    (h : List.Forall₂ (fun g f =>
      k.coding.Restores f.1 (k.kept g.1) ∧ c.coding.Restores f.2 (c.kept g.2)) gs fs) :
    (Codec.entries into frozen k c).coding.Restores (.mapping fs)
      (.mapping (es.map fun e => (k.kept e.1, c.kept e.2))) := by
  have hfs : List.Forall₂ (fun f g => k.coding.Restores f.1 g.1 ∧ c.coding.Restores f.2 g.2) fs
      (gs.map fun g => (k.kept g.1, c.kept g.2)) :=
    List.forall₂_map_right_iff.2 h.flip
  exact Coding.restores_onValues rfl (Coding.restores_entries hfs)
    (congrArg Value.mapping (MapContainer.ofList_of_reorders (keeps_map_kept hfree hk) (hr.map _)))

mutual

/-- What a regular codec stores for a value, as a program sees it, is read as what is left of it. -/
theorem restores_kept {c : Codec} (hc : c.Regular) {v w : Value} (hv : c.valueType.Holds v)
    (hw : c.valueType.Listing v w) : c.coding.Restores w (c.kept v) := by
  match c with
  | .scalar s =>
    obtain rfl : v = w := hw
    exact restores_scalar hv
  | .decimal =>
    obtain rfl : v = w := hw
    obtain ⟨d, rfl⟩ := BaseType.eq_decimal_of_holds hv
    exact Coding.restores_onValues rfl (Coding.restores_decimal d) rfl
  | .enumeration e ordinal =>
    obtain rfl : v = w := hw
    obtain ⟨index, rfl, hi⟩ := ValueType.holds_enumeration_iff.1 hv
    exact Coding.restores_onValues rfl (restores_variant hc hi) rfl
  | .shared c => exact restores_kept (c := c) hc hv hw
  | .option c =>
    rcases ValueType.listing_option_iff.1 hw with ⟨rfl, rfl⟩ | ⟨a, b, rfl, rfl, hab⟩
    · exact Coding.restores_onValues rfl (Coding.restores_none _) rfl
    · exact Coding.restores_onValues rfl (Coding.restores_some (neverAbsent_of_not_isOption hc.1)
        (restores_kept hc.2 hv hab)) rfl
  | .elements kind into frozen c =>
    obtain ⟨vs, rfl, hk, hvs⟩ := ValueType.holds_sequence_iff.1 hv
    obtain ⟨ws, us, rfl, hr, hus⟩ := ValueType.listing_sequence_iff.1 hw
    have hmem : List.Forall₂ (fun u w => c.valueType.Holds u ∧ c.valueType.Listing u w) us ws :=
      (List.forall₂_and_left _ _).2 ⟨fun u hu => hvs u (hr.perm.mem_iff.1 hu), hus⟩
    exact restores_sequence hc.2 hk hr (hmem.imp fun u w h => restores_kept hc.1 h.1 h.2)
  | .entries into frozen k c =>
    obtain ⟨es, rfl, hk, hes⟩ := ValueType.holds_mapping_iff.1 hv
    obtain ⟨fs, gs, rfl, hr, hgs⟩ := ValueType.listing_mapping_iff.1 hw
    have hmem : List.Forall₂ (fun g f => (k.valueType.Holds g.1 ∧ c.valueType.Holds g.2) ∧
        k.valueType.Listing g.1 f.1 ∧ c.valueType.Listing g.2 f.2) gs fs :=
      (List.forall₂_and_left _ _).2 ⟨fun g hg => hes g (hr.perm.mem_iff.1 hg), hgs⟩
    exact restores_mapping hc.2.1 hk hr (hmem.imp fun g f h =>
      ⟨restores_kept hc.1 h.1.1 h.2.1, restores_kept hc.2.2 h.1.2 h.2.2⟩)
  | .record header schema slots cs =>
    obtain ⟨vs, rfl, hvs⟩ := ValueType.holds_record_iff.1 hv
    obtain ⟨ws, rfl, hws⟩ := ValueType.listing_record_iff.1 hw
    refine Coding.restores_onValues rfl (Coding.restores_record ?_ fun i c u hi hu => ?_) rfl
    · rw [length_keptFields, length_codings, length_of_holdAll hvs]
    · have := restoresFields_kept hc hvs hws hi hu
      rwa [Nat.zero_add] at this

/-- The same of the declared fields of a record. -/
theorem restoresFields_kept {slots : List Nat} {index : Nat} {cs : List Codec}
    (hc : RegularFields slots index cs) {vs ws : List Value}
    (hv : ValueType.HoldAll (valueTypes cs) vs) (hw : ValueType.ListingAll (valueTypes cs) vs ws)
    {i : Nat} {c : Coding Value} {u : Value} (hi : (codings cs)[i]? = some c)
    (hu : (keptFields slots index cs vs)[i]? = some u) :
    (index + i ∈ slots → ∀ w, ws[i]? = some w → c.Restores w u) ∧
      (index + i ∉ slots → c.decode none = .ok u) := by
  match cs, vs, ws with
  | c :: cs, v :: vs, w :: ws =>
    cases i with
    | zero =>
      obtain rfl : c.coding = _ := Option.some.inj hi
      obtain rfl : (if index ∈ slots then c.kept v else .absent) = u := Option.some.inj hu
      rw [Nat.add_zero]
      refine ⟨fun hin w' hw' => ?_, fun hout => ?_⟩
      · obtain rfl : w = w' := Option.some.inj hw'
        rw [if_pos hin]
        exact restores_kept hc.1 hv.1 hw.1
      · rw [if_neg hout]
        exact decode_none_of_isOption (hc.2.1 hout)
    | succ i =>
      have := restoresFields_kept hc.2.2 hv.2 hw.2 hi hu
      rwa [Nat.add_right_comm, Nat.add_assoc] at this

end

/-! ## Codecs without records -/

/-- Scalars, enumerations as declarations make them, and what is built of these without records. -/
def IsPlain : Codec → Prop
  | .scalar _ | .decimal => True
  | .enumeration e ordinal => e.WellFormed ∧ (ordinal = true → e.FitsOrdinal)
  | .shared c | .option c | .elements _ _ _ c => c.IsPlain
  | .entries _ _ k c => k.IsPlain ∧ c.IsPlain
  | .record .. => False

theorem isRecordFree_of_isPlain {c : Codec} (h : c.IsPlain) : c.IsRecordFree := by
  match c with
  | .scalar _ | .decimal | .enumeration .. => trivial
  | .shared c => exact isRecordFree_of_isPlain (c := c) h
  | .option c => exact isRecordFree_of_isPlain (c := c) h
  | .elements _ _ _ c => exact isRecordFree_of_isPlain (c := c) h
  | .entries _ _ k c => exact ⟨isRecordFree_of_isPlain h.1, isRecordFree_of_isPlain h.2⟩

theorem regular_of_isPlain {c : Codec} (h : c.IsPlain) (ho : c.NoNestedOption) : c.Regular := by
  match c with
  | .scalar _ | .decimal => trivial
  | .enumeration .. => exact h
  | .shared c => exact regular_of_isPlain (c := c) h ho
  | .option c => exact ⟨ho.1, regular_of_isPlain h ho.2⟩
  | .elements _ _ _ c =>
    exact ⟨regular_of_isPlain h ho, .inr (.inr (isRecordFree_of_isPlain (c := c) h))⟩
  | .entries _ _ k c =>
    exact ⟨regular_of_isPlain h.1 ho.1, isRecordFree_of_isPlain h.1, regular_of_isPlain h.2 ho.2⟩

/-- Whatever is stored for a value is read as the value. -/
theorem decode_of_encode {c : Codec} (hc : c.IsPlain) (ho : c.NoNestedOption) {v w : Value}
    (hv : c.valueType.Holds v) (hw : c.valueType.Listing v w) {b : Option Bytes}
    (hb : c.encode w = .ok b) : c.decode b = .ok v := by
  have h := restores_kept (regular_of_isPlain hc ho) hv hw
  rw [kept_of_isRecordFree (isRecordFree_of_isPlain hc)] at h
  exact h b hb

/-- A hash set of optional variants, stored as a list in the order in which its elements came. -/
theorem decode_of_encode_hashed :
    let c : Codec := .elements .list .hashed false
      (.option (.enumeration ⟨"Color", "Color", ["Red", "Blue"], ["RED", "BLUE"], true⟩ true))
    let v : Value := .sequence [.absent, .present (.variant 1)]
    let w : Value := .sequence [.present (.variant 1), .absent]
    let b : Option Bytes := some [0, 0, 0, 2, 0, 0, 0, 4, 0, 0, 0, 1, 255, 255, 255, 255]
    c.IsPlain ∧ c.NoNestedOption ∧ c.valueType.Holds v ∧ c.valueType.Listing v w ∧
      c.encode w = .ok b ∧ c.decode b = .ok v := by
  intro c v w b
  have hc : c.IsPlain := ⟨⟨by decide, by decide, by decide⟩, fun _ => by
    show 2 ≤ 2147483648
    decide⟩
  have ho : c.NoNestedOption := ⟨id, trivial⟩
  have hv : c.valueType.Holds v := by
    refine ⟨?_, List.forall_mem_cons.2 ⟨trivial, List.forall_mem_singleton.2 ?_⟩⟩
    · show List.Pairwise (fun a b => Value.compare a b = .lt) [.absent, .present (.variant 1)]
      decide
    · show 1 < 2
      decide
  have hw : c.valueType.Listing v w :=
    ⟨[.present (.variant 1), .absent], .swap _ _ _, .cons rfl (.cons trivial .nil)⟩
  have hb : c.encode w = .ok b := by rfl
  exact ⟨hc, ho, hv, hw, hb, decode_of_encode hc ho hv hw hb⟩

end Codec

end CqlWire
