import CqlWire.Proofs.Codec.Storage

/-!
# What is left of a value is a value

What a codec leaves of a value is stored as the same bytes as the value (`encode_kept`), and nothing
more is left out of it (`kept_kept`). It is a value of the same type (`holds_kept`), and a program
sees it as what is left of what the program saw (`listing_kept`).
-/

namespace CqlWire

/-! ## Other values that are stored alike -/

namespace Coding

variable {α β : Type}

/-- Elements that are stored alike make lists that are stored alike. -/
theorem encode_elements_map {c : Coding α} {kind : CollectionKind} {frozen : Bool} {f : α → α}
    {as : List α} {b : Option Bytes}
    (hf : ∀ a ∈ as, ∀ raw, c.encode a = .ok raw → c.encode (f a) = .ok raw)
    (h : (elements kind frozen c).encode as = .ok b) :
    (elements kind frozen c).encode (as.map f) = .ok b := by
  obtain ⟨bs, hbs, rfl⟩ := map_eq_ok_iff.1 h
  simp only [encodeElements, bind_eq_ok_iff, pure_eq_ok_iff] at hbs
  obtain ⟨count, hcount, frames, hframes, rfl⟩ := hbs
  have hall := (List.forall₂_and_left _ _).2 ⟨hf, mapM_eq_ok_iff.1 hframes⟩
  have hframes' : (as.map f).mapM (encodeElement (kind.type frozen c.type) kind.allowsNull c) =
      .ok frames := by
    rw [mapM_eq_ok_iff, List.forall₂_map_left_iff]
    refine hall.imp fun a frame h => ?_
    obtain ⟨raw, hr, hnull, hwrite⟩ := encodeElement_eq_ok_iff.1 h.2
    exact encodeElement_eq_ok_iff.2 ⟨raw, h.1 raw hr, hnull, hwrite⟩
  refine map_eq_ok_iff.2 ⟨_, ?_, rfl⟩
  simp only [encodeElements, bind_eq_ok_iff, pure_eq_ok_iff, List.length_map]
  exact ⟨count, hcount, frames, hframes', rfl⟩

/-- Keys and values that are stored alike make maps that are stored alike. -/
theorem encode_entries_map {k : Coding α} {v : Coding β} {frozen : Bool} {f : α × β → α × β}
    {es : List (α × β)} {b : Option Bytes}
    (hk : ∀ e ∈ es, ∀ raw, k.encode e.1 = .ok raw → k.encode (f e).1 = .ok raw)
    (hv : ∀ e ∈ es, ∀ raw, v.encode e.2 = .ok raw → v.encode (f e).2 = .ok raw)
    (h : (entries frozen k v).encode es = .ok b) :
    (entries frozen k v).encode (es.map f) = .ok b := by
  simp only [entries, bind_eq_ok_iff, pure_eq_ok_iff, List.length_map] at h ⊢
  obtain ⟨count, hcount, frames, hframes, rfl⟩ := h
  have hall := (List.forall₂_and_left _ _).2
    ⟨fun e he => And.intro (hk e he) (hv e he), mapM_eq_ok_iff.1 hframes⟩
  refine ⟨count, hcount, frames, ?_, rfl⟩
  rw [mapM_eq_ok_iff, List.forall₂_map_left_iff]
  refine hall.imp fun e frame h => ?_
  obtain ⟨rawKey, rawValue, key, value, hkey, hvalue, hwk, hwv, rfl⟩ :=
    encodeEntry_eq_ok_iff.1 h.2
  exact encodeEntry_eq_ok_iff.2
    ⟨rawKey, rawValue, key, value, h.1.1 _ hkey, h.1.2 _ hvalue, hwk, hwv, rfl⟩

/-- Records whose fields are stored alike where a slot names them are stored alike. -/
theorem encode_record_of_slots {typeName : String} (schema : UserType) {slots : List Nat}
    {fields : List (Coding α)} {as bs : List α} {b : Option Bytes}
    (hf : ∀ i ∈ slots, ∀ raw, encodeField typeName fields as i = .ok raw →
      encodeField typeName fields bs i = .ok raw)
    (h : (record typeName schema slots fields).encode as = .ok b) :
    (record typeName schema slots fields).encode bs = .ok b := by
  obtain ⟨bytes, hbytes, rfl⟩ := map_eq_ok_iff.1 h
  simp only [encodeSlots, bind_eq_ok_iff, pure_eq_ok_iff] at hbytes
  obtain ⟨frames, hframes, rfl⟩ := hbytes
  have hall := (List.forall₂_and_left _ _).2 ⟨hf, mapM_eq_ok_iff.1 hframes⟩
  refine map_eq_ok_iff.2 ⟨_, ?_, rfl⟩
  simp only [encodeSlots, bind_eq_ok_iff, pure_eq_ok_iff]
  refine ⟨frames, mapM_eq_ok_iff.2 (hall.imp fun i frame h => ?_), rfl⟩
  obtain ⟨raw, hr, hwrite⟩ := bind_eq_ok_iff.1 h.2
  exact bind_eq_ok_iff.2 ⟨raw, h.1 raw hr, hwrite⟩

end Coding

namespace Codec

/-! ## Bytes -/

mutual

/-- What is left of a value is stored as the value is. -/
theorem encode_kept {c : Codec} {v : Value} {b : Option Bytes} (h : c.coding.encode v = .ok b) :
    c.coding.encode (c.kept v) = .ok b := by
  match c with
  | .scalar _ | .decimal | .enumeration .. => exact h
  | .shared c => exact encode_kept (c := c) h
  | .option c =>
    cases v with
    | present v => exact encode_kept (c := c) h
    | _ => exact h
  | .elements kind into frozen c =>
    cases v with
    | sequence vs => exact Coding.encode_elements_map (fun _ _ _ hv => encode_kept (c := c) hv) h
    | _ => exact h
  | .entries into frozen k c =>
    cases v with
    | mapping es =>
      exact Coding.encode_entries_map (fun _ _ _ hk => encode_kept (c := k) hk)
        (fun _ _ _ hv => encode_kept (c := c) hv) h
    | _ => exact h
  | .record header schema slots cs =>
    cases v with
    | record vs =>
      refine Coding.encode_record_of_slots schema (fun i hi raw hraw => ?_) h
      obtain ⟨c, w, hc, hw, hencode⟩ := Coding.encodeField_eq_ok hraw
      obtain ⟨u, hu, hencode'⟩ := encodeFields_kept 0 hc hw (by rwa [Nat.zero_add]) hencode
      simp only [Coding.encodeField, hc, hu]
      exact hencode'
    | _ => exact h

/-- The same of a declared field of a record that a slot names. -/
theorem encodeFields_kept {slots : List Nat} (index : Nat) {cs : List Codec} {vs : List Value}
    {i : Nat} {c : Coding Value} {v : Value} {raw : Option Bytes} (hc : (codings cs)[i]? = some c)
    (hv : vs[i]? = some v) (hi : index + i ∈ slots) (h : c.encode v = .ok raw) :
    ∃ u, (keptFields slots index cs vs)[i]? = some u ∧ c.encode u = .ok raw := by
  match cs, vs with
  | c' :: cs, v' :: vs =>
    cases i with
    | zero =>
      obtain rfl : c'.coding = c := Option.some.inj hc
      obtain rfl : v' = v := Option.some.inj hv
      rw [Nat.add_zero] at hi
      refine ⟨c'.kept v', ?_, encode_kept h⟩
      rw [keptFields, if_pos hi]
      rfl
    | succ i =>
      have hi' : index + 1 + i ∈ slots := by rwa [Nat.add_right_comm, Nat.add_assoc]
      have hc' : (codings cs)[i]? = some c := hc
      have hv' : vs[i]? = some v := hv
      exact encodeFields_kept (index + 1) hc' hv' hi' h
  | [], _ => cases hc
  | _ :: _, [] => cases hv

end

/-! ## Values -/

mutual

/-- Nothing more is left out of what is left. -/
theorem kept_kept (c : Codec) (v : Value) : c.kept (c.kept v) = c.kept v := by
  match c with
  | .scalar _ | .decimal | .enumeration .. => rfl
  | .shared c => exact kept_kept c v
  | .option c =>
    cases v with
    | present v => exact congrArg Value.present (kept_kept c v)
    | _ => rfl
  | .elements _ _ _ c =>
    cases v with
    | sequence vs =>
      refine congrArg Value.sequence ?_
      rw [List.map_map]
      exact List.map_congr_left fun v _ => kept_kept c v
    | _ => rfl
  | .entries _ _ k c =>
    cases v with
    | mapping es =>
      refine congrArg Value.mapping ?_
      rw [List.map_map]
      exact List.map_congr_left fun e _ => congrArg₂ Prod.mk (kept_kept k e.1) (kept_kept c e.2)
    | _ => rfl
  | .record _ _ slots cs =>
    cases v with
    | record vs => exact congrArg Value.record (keptFields_keptFields slots 0 cs vs)
    | _ => rfl

/-- The same of the declared fields of a record. -/
theorem keptFields_keptFields (slots : List Nat) (index : Nat) (cs : List Codec) (vs : List Value) :
    keptFields slots index cs (keptFields slots index cs vs) = keptFields slots index cs vs := by
  match cs, vs with
  | c :: cs, v :: vs =>
    simp only [keptFields, keptFields_keptFields slots (index + 1) cs vs]
    split
    · rw [kept_kept c v]
    · rfl
  | [], _ => rfl
  | _ :: _, [] => rfl

end

theorem holds_absent_of_isOption {c : Codec} (h : c.IsOption) : c.valueType.Holds .absent := by
  match c with
  | .shared c => exact holds_absent_of_isOption (c := c) h
  | .option c => trivial

theorem listing_absent_of_isOption {c : Codec} (h : c.IsOption) :
    c.valueType.Listing .absent .absent := by
  match c with
  | .shared c => exact listing_absent_of_isOption (c := c) h
  | .option c => trivial

mutual

/-- What is left of a value is a value of its type. -/
theorem holds_kept {c : Codec} (hc : c.Regular) {v : Value} (hv : c.valueType.Holds v) :
    c.valueType.Holds (c.kept v) := by
  match c with
  | .scalar _ | .decimal | .enumeration .. => exact hv
  | .shared c => exact holds_kept (c := c) hc hv
  | .option c =>
    rcases ValueType.holds_option_iff.1 hv with rfl | ⟨u, rfl, hu⟩
    · trivial
    · exact holds_kept hc.2 hu
  | .elements kind into frozen c =>
    obtain ⟨vs, rfl, hk, hvs⟩ := ValueType.holds_sequence_iff.1 hv
    refine ⟨?_, List.forall_mem_map.2 fun v hv => holds_kept hc.1 (hvs v hv)⟩
    rcases hc.2 with rfl | rfl | hfree
    · trivial
    · trivial
    · rwa [map_kept_of_isRecordFree hfree]
  | .entries into frozen k c =>
    obtain ⟨es, rfl, hk, hes⟩ := ValueType.holds_mapping_iff.1 hv
    refine ⟨keeps_map_kept hc.2.1 hk, List.forall_mem_map.2 fun e he => ?_⟩
    exact ⟨holds_kept hc.1 (hes e he).1, holds_kept hc.2.2 (hes e he).2⟩
  | .record header schema slots cs =>
    obtain ⟨vs, rfl, hvs⟩ := ValueType.holds_record_iff.1 hv
    exact holdAll_keptFields hc hvs

/-- The same of the declared fields of a record. -/
theorem holdAll_keptFields {slots : List Nat} {index : Nat} {cs : List Codec}
    (hc : RegularFields slots index cs) {vs : List Value}
    (hv : ValueType.HoldAll (valueTypes cs) vs) :
    ValueType.HoldAll (valueTypes cs) (keptFields slots index cs vs) := by
  match cs, vs with
  | [], [] => trivial
  | c :: cs, v :: vs =>
    refine ⟨?_, holdAll_keptFields hc.2.2 hv.2⟩
    split
    · exact holds_kept hc.1 hv.1
    · rename_i hi
      exact holds_absent_of_isOption (hc.2.1 hi)

end

mutual

/-- A program sees what is left of a value as what is left of what it sees. -/
theorem listing_kept {c : Codec} (hc : c.Regular) {v w : Value} (hw : c.valueType.Listing v w) :
    c.valueType.Listing (c.kept v) (c.kept w) := by
  match c with
  | .scalar _ | .decimal | .enumeration .. => exact hw
  | .shared c => exact listing_kept (c := c) hc hw
  | .option c =>
    rcases ValueType.listing_option_iff.1 hw with ⟨rfl, rfl⟩ | ⟨a, b, rfl, rfl, hab⟩
    · trivial
    · exact listing_kept hc.2 hab
  | .elements kind into frozen c =>
    cases v with
    | sequence vs =>
      obtain ⟨ws, us, rfl, hr, hus⟩ := ValueType.listing_sequence_iff.1 hw
      refine ⟨us.map c.kept, hr.map _, ?_⟩
      rw [List.forall₂_map_left_iff, List.forall₂_map_right_iff]
      exact hus.imp fun u w h => listing_kept hc.1 h
    | _ => exact hw.elim
  | .entries into frozen k c =>
    cases v with
    | mapping es =>
      obtain ⟨fs, gs, rfl, hr, hgs⟩ := ValueType.listing_mapping_iff.1 hw
      refine ⟨_, hr.map fun e => (k.kept e.1, c.kept e.2), ?_⟩
      rw [List.forall₂_map_left_iff, List.forall₂_map_right_iff]
      exact hgs.imp fun g f h => ⟨listing_kept hc.1 h.1, listing_kept hc.2.2 h.2⟩
    | _ => exact hw.elim
  | .record header schema slots cs =>
    cases v with
    | record vs =>
      obtain ⟨ws, rfl, hws⟩ := ValueType.listing_record_iff.1 hw
      exact listingAll_keptFields hc hws
    | _ => exact hw.elim

/-- The same of the declared fields of a record. -/
theorem listingAll_keptFields {slots : List Nat} {index : Nat} {cs : List Codec}
    (hc : RegularFields slots index cs) {vs ws : List Value}
    (hw : ValueType.ListingAll (valueTypes cs) vs ws) : ValueType.ListingAll (valueTypes cs)
      (keptFields slots index cs vs) (keptFields slots index cs ws) := by
  match cs, vs, ws with
  | [], [], [] => trivial
  | c :: cs, v :: vs, w :: ws =>
    refine ⟨?_, listingAll_keptFields hc.2.2 hw.2⟩
    split
    · exact listing_kept hc.1 hw.1
    · rename_i hi
      exact listing_absent_of_isOption (hc.2.1 hi)

end

end Codec

end CqlWire
