import CqlWire.Proofs.Codec.LiveStorage
import CqlWire.Proofs.Codec.Wired
import CqlWire.Proofs.Coding.Reading

/-!
# What was read can be written and read again

Reading allows more than writing: integers with needless bytes, truth values of any byte, elements
and keys that are there twice, records that stop early. All of that is gone from the value that was
read. It is a value of its type, and whatever is stored for it is read as the same value
(`Codec.rereads_of_decode`). Something is stored unless a part of the value needs more bytes than a
frame can hold (`Codec.Overflows`) or is a UUID for a `timeuuid` that is not made from the time
(`Codec.HasUntimed`), because only storing looks at the version. There are no other obstacles
(`Codec.exists_encode_of_writable`), and without time-based UUIDs there is only the first
(`Codec.exists_encode_of_decode`).
-/

namespace CqlWire

namespace Codec

mutual

/-- No part of the codec stores time-based UUIDs. -/
def HasNoTimeuuid : Codec → Prop
  | .scalar s => s ≠ .timeuuid
  | .decimal | .enumeration .. => True
  | .shared c | .option c | .elements _ _ _ c => c.HasNoTimeuuid
  | .entries _ _ k c => k.HasNoTimeuuid ∧ c.HasNoTimeuuid
  | .record _ _ _ cs => NoneHasTimeuuid cs
termination_by structural c => c

/-- The same of several codecs. -/
def NoneHasTimeuuid : List Codec → Prop
  | [] => True
  | c :: cs => c.HasNoTimeuuid ∧ NoneHasTimeuuid cs
termination_by structural cs => cs

end

theorem noneHasTimeuuid_iff {cs : List Codec} :
    NoneHasTimeuuid cs ↔ ∀ c ∈ cs, c.HasNoTimeuuid := by
  induction cs with
  | nil => simp [NoneHasTimeuuid]
  | cons c cs ih => simp [NoneHasTimeuuid, ih]

/-! ## Frames that are too small -/

/-- The parts of a value that have frames of their own, with their codecs. -/
def framed : Codec → Value → List (Codec × Value)
  | .shared c, v | .option c, .present v => c.framed v
  | .elements _ _ _ c, .sequence vs => vs.map fun v => (c, v)
  | .entries _ _ k c, .mapping es => es.flatMap fun e => [(k, e.1), (c, e.2)]
  | .record _ _ slots cs, .record vs =>
    slots.filterMap fun slot => do return (← cs[slot]?, ← vs[slot]?)
  | _, _ => []

/-- A part of the value, at any depth, has more bytes than a frame can hold. -/
inductive Overflows : Codec → Value → Prop where
  | here {c : Codec} {v : Value} {part : Codec × Value} {bs : Bytes} (hp : part ∈ c.framed v)
    (hbs : part.1.encode part.2 = .ok (some bs)) (hlong : Frame.maxLength < bs.length) :
    Overflows c v
  | inside {c : Codec} {v : Value} {part : Codec × Value} (hp : part ∈ c.framed v)
    (h : Overflows part.1 part.2) : Overflows c v

/-- What is stored has a frame for each part that needs one. -/
theorem exists_frame_of_encode {c : Codec} {w : Value} {b : Option Bytes} (h : c.encode w = .ok b)
    {part : Codec × Value} (hp : part ∈ c.framed w) :
    ∃ raw frame, part.1.encode part.2 = .ok raw ∧ Frame.write raw = .ok frame := by
  match c with
  | .scalar _ | .decimal | .enumeration .. => cases hp
  | .shared c => exact exists_frame_of_encode (c := c) h hp
  | .option c =>
    cases w with
    | present w => exact exists_frame_of_encode (c := c) h hp
    | _ => cases hp
  | .elements kind into frozen c =>
    cases w with
    | sequence ws =>
      obtain ⟨w, hw, rfl⟩ := List.mem_map.1 hp
      obtain ⟨bs, hbs, -⟩ := map_eq_ok_iff.1 h
      simp only [Coding.encodeElements, bind_eq_ok_iff] at hbs
      obtain ⟨_, -, frames, hframes, -⟩ := hbs
      obtain ⟨frame, hframe⟩ := exists_eq_ok_of_mapM hframes w hw
      obtain ⟨raw, hraw, -, hwrite⟩ := Coding.encodeElement_eq_ok_iff.1 hframe
      exact ⟨raw, frame, hraw, hwrite⟩
    | _ => cases hp
  | .entries into frozen k c =>
    cases w with
    | mapping es =>
      obtain ⟨e, he, hpart⟩ := List.mem_flatMap.1 hp
      obtain ⟨_, -, hbs⟩ := bind_eq_ok_iff.1 h
      obtain ⟨frames, hframes, -⟩ := bind_eq_ok_iff.1 hbs
      obtain ⟨bs, hbs⟩ := exists_eq_ok_of_mapM hframes e he
      obtain ⟨rawKey, rawValue, key, value, hk, hv, hkey, hvalue, -⟩ :=
        Coding.encodeEntry_eq_ok_iff.1 hbs
      simp only [List.mem_cons, List.not_mem_nil, or_false] at hpart
      rcases hpart with rfl | rfl
      · exact ⟨some rawKey, key, hk, hkey⟩
      · exact ⟨rawValue, value, hv, hvalue⟩
    | _ => cases hp
  | .record header schema slots cs =>
    cases w with
    | record ws =>
      obtain ⟨slot, hslot, hpart⟩ := List.mem_filterMap.1 hp
      simp only [Option.bind_eq_bind, Option.bind_eq_some_iff] at hpart
      obtain ⟨c, hc, w, hw, hpart⟩ := hpart
      cases hpart
      obtain ⟨bs, hbs, -⟩ := map_eq_ok_iff.1 h
      obtain ⟨frames, hframes, -⟩ := bind_eq_ok_iff.1 hbs
      obtain ⟨frame, hframe⟩ := exists_eq_ok_of_mapM hframes slot hslot
      obtain ⟨raw, hraw, hwrite⟩ := bind_eq_ok_iff.1 hframe
      obtain ⟨c', w', hc', hw', hencode⟩ := Coding.encodeField_eq_ok hraw
      obtain ⟨d, hd, rfl⟩ := getElem?_codings_eq_some_iff.1 hc'
      obtain rfl : c = d := Option.some.inj (hc.symm.trans hd)
      obtain rfl : w = w' := Option.some.inj (hw.symm.trans hw')
      exact ⟨raw, frame, hencode, hwrite⟩
    | _ => cases hp

/-- What is stored fits in its frames. -/
theorem not_overflows_of_encode {c : Codec} {w : Value} (h : c.Overflows w) {b : Option Bytes} :
    c.encode w ≠ .ok b := by
  intro hb
  induction h generalizing b with
  | here hp hbs hlong =>
    obtain ⟨raw, frame, hraw, hwrite⟩ := exists_frame_of_encode hb hp
    obtain rfl : raw = some _ := Except.ok.inj (hraw.symm.trans hbs)
    exact Nat.not_le.2 hlong (Frame.write_some_eq_ok_iff.1 hwrite).1
  | inside hp _ ih =>
    obtain ⟨raw, -, hraw, -⟩ := exists_frame_of_encode hb hp
    exact ih hraw

/-- Overflowing is a matter of the framed parts alone. -/
theorem overflows_of_framed_eq {c c' : Codec} {w w' : Value} (hsame : c.framed w = c'.framed w')
    (h : c.Overflows w) : c'.Overflows w' := by
  cases h with
  | here hp hbs hlong => exact .here (hsame ▸ hp) hbs hlong
  | inside hp h => exact .inside (hsame ▸ hp) h

/-! ## UUIDs that are not made from the time -/

/-- A part of the value, at any depth, is to be stored as a `timeuuid` and is a UUID of another
version than 1. -/
inductive HasUntimed : Codec → Value → Prop where
  | here {u : Uuid} (hu : u.version ≠ 1) : HasUntimed (.scalar .timeuuid) (.uuid u)
  | shared {c : Codec} {v : Value} (h : HasUntimed c v) : HasUntimed (.shared c) v
  | present {c : Codec} {v : Value} (h : HasUntimed c v) : HasUntimed (.option c) (.present v)
  | inside {c : Codec} {v : Value} {part : Codec × Value} (hp : part ∈ c.framed v)
    (h : HasUntimed part.1 part.2) : HasUntimed c v

/-- What is stored has no such UUID. -/
theorem not_hasUntimed_of_encode {c : Codec} {w : Value} (h : c.HasUntimed w) {b : Option Bytes} :
    c.encode w ≠ .ok b := by
  intro hb
  induction h generalizing b with
  | here hu => exact hu (Coding.exists_encode_timeuuid_iff.1 ⟨b, hb⟩)
  | shared _ ih => exact ih hb
  | present _ ih => exact ih hb
  | inside hp _ ih =>
    obtain ⟨raw, -, hraw, -⟩ := exists_frame_of_encode hb hp
    exact ih hraw

theorem hasNoTimeuuid_of_mem_framed {c : Codec} (hc : c.HasNoTimeuuid) {v : Value}
    {part : Codec × Value} (hp : part ∈ c.framed v) : part.1.HasNoTimeuuid := by
  match c with
  | .scalar _ | .decimal | .enumeration .. => cases hp
  | .shared c => exact hasNoTimeuuid_of_mem_framed (c := c) hc hp
  | .option c =>
    cases v with
    | present v => exact hasNoTimeuuid_of_mem_framed (c := c) hc hp
    | _ => cases hp
  | .elements kind into frozen c =>
    cases v with
    | sequence vs =>
      obtain ⟨v, -, rfl⟩ := List.mem_map.1 hp
      exact hc
    | _ => cases hp
  | .entries into frozen k c =>
    cases v with
    | mapping es =>
      obtain ⟨e, -, hpart⟩ := List.mem_flatMap.1 hp
      simp only [List.mem_cons, List.not_mem_nil, or_false] at hpart
      rcases hpart with rfl | rfl
      · exact hc.1
      · exact hc.2
    | _ => cases hp
  | .record header schema slots cs =>
    cases v with
    | record vs =>
      obtain ⟨slot, -, hpart⟩ := List.mem_filterMap.1 hp
      simp only [Option.bind_eq_bind, Option.bind_eq_some_iff] at hpart
      obtain ⟨d, hd, v, -, hpart⟩ := hpart
      cases hpart
      exact noneHasTimeuuid_iff.1 hc d (List.mem_of_getElem? hd)
    | _ => cases hp

theorem not_hasUntimed_of_hasNoTimeuuid {c : Codec} {v : Value} (h : c.HasUntimed v) :
    ¬c.HasNoTimeuuid := by
  intro hc
  induction h with
  | here => exact hc rfl
  | shared _ ih => exact ih hc
  | present _ ih => exact ih hc
  | inside hp _ ih => exact ih (hasNoTimeuuid_of_mem_framed hc hp)

/-- Nothing keeps the value from being stored. -/
structure Writable (c : Codec) (v : Value) : Prop where
  fits : ¬c.Overflows v
  timed : ¬c.HasUntimed v

theorem Writable.part {c : Codec} {v : Value} (h : c.Writable v) {part : Codec × Value}
    (hp : part ∈ c.framed v) : part.1.Writable part.2 :=
  ⟨fun ho => h.fits (.inside hp ho), fun hu => h.timed (.inside hp hu)⟩

theorem Writable.of_shared {c : Codec} {v : Value} (h : (shared c).Writable v) : c.Writable v :=
  ⟨fun ho => h.fits (overflows_of_framed_eq (c := c) rfl ho), fun hu => h.timed (.shared hu)⟩

theorem Writable.of_present {c : Codec} {v : Value} (h : (option c).Writable (.present v)) :
    c.Writable v :=
  ⟨fun ho => h.fits (overflows_of_framed_eq (c := c) rfl ho), fun hu => h.timed (.present hu)⟩

/-- What is stored was writable. -/
theorem writable_of_encode {c : Codec} {w : Value} {b : Option Bytes} (h : c.encode w = .ok b) :
    c.Writable w :=
  ⟨fun ho => not_overflows_of_encode ho h, fun hu => not_hasUntimed_of_encode hu h⟩

/-! ## Values that were read -/

/-- A value of its type, as which anything stored for it is read. -/
structure Rereads (c : Codec) (v : Value) : Prop where
  holds : c.valueType.Holds v
  restores : ∀ w, c.valueType.Listing v w → c.coding.Restores w v

/-- What is read from bytes is stored as bytes, if at all. -/
theorem encode_ne_none {c : Codec} {bs : Bytes} {v w : Value} (h : c.decode (some bs) = .ok v)
    (hw : c.valueType.Listing v w) : c.encode w ≠ .ok none := by
  match c with
  | .shared c => exact encode_ne_none (c := c) h hw
  | .option c =>
    obtain ⟨o, ho, rfl⟩ := map_eq_ok_iff.1 h
    obtain ⟨u, hu, rfl⟩ := map_eq_ok_iff.1 ho
    rcases ValueType.listing_option_iff.1 hw with ⟨hv, -⟩ | ⟨a, w, ha, rfl, haw⟩
    · cases hv
    · cases ha
      exact encode_ne_none (c := c) hu haw
  | .scalar _ | .decimal | .enumeration .. | .elements .. | .entries .. | .record .. =>
    exact neverAbsent_of_not_isOption id w

mutual

/-- Whatever was read is a value of its type, and is read again from what is stored for it. -/
theorem rereads_of_decode {c : Codec} {b : Option Bytes} {v : Value} (h : c.decode b = .ok v) :
    c.Rereads v := by
  match c with
  | .scalar s =>
    have hv := holds_of_decode_scalar h
    refine ⟨hv, fun w hw => ?_⟩
    obtain rfl : v = w := hw
    exact restores_scalar hv
  | .decimal =>
    obtain ⟨d, -, rfl⟩ := map_eq_ok_iff.1 h
    refine ⟨trivial, fun w hw => ?_⟩
    obtain rfl : _ = w := hw
    exact Coding.restores_onValues rfl (Coding.restores_decimal d) rfl
  | .enumeration e ordinal =>
    obtain ⟨index, hindex, rfl⟩ := map_eq_ok_iff.1 h
    obtain ⟨hlt, hrestores⟩ := restores_of_decode_variant hindex
    refine ⟨hlt, fun w hw => ?_⟩
    obtain rfl : _ = w := hw
    exact Coding.restores_onValues rfl hrestores rfl
  | .shared c =>
    have ih := rereads_of_decode (c := c) h
    exact ⟨ih.holds, ih.restores⟩
  | .option c =>
    obtain ⟨o, ho, rfl⟩ := map_eq_ok_iff.1 h
    cases b with
    | none =>
      cases ho
      refine ⟨trivial, fun w hw => ?_⟩
      rcases ValueType.listing_option_iff.1 hw with ⟨-, rfl⟩ | ⟨a, w, ha, -, -⟩
      · exact Coding.restores_onValues rfl (Coding.restores_none _) rfl
      · cases ha
    | some bs =>
      obtain ⟨u, hu, rfl⟩ := map_eq_ok_iff.1 ho
      have ih := rereads_of_decode (c := c) hu
      refine ⟨ih.holds, fun w hw => ?_⟩
      rcases ValueType.listing_option_iff.1 hw with ⟨hv, -⟩ | ⟨a, w, ha, rfl, haw⟩
      · cases hv
      · cases ha
        exact Coding.restores_onValues rfl
          (Coding.restores_some_of_ne (encode_ne_none hu haw) (ih.restores w haw)) rfl
  | .elements kind into frozen c =>
    obtain ⟨us, hus, rfl⟩ := map_eq_ok_iff.1 h
    obtain ⟨-, hread⟩ := Coding.of_decode_elements hus
    have ih : ∀ u ∈ into.ofList us, c.Rereads u := by
      refine into.forall_mem_ofList fun u hu => ?_
      obtain ⟨raw, -, hraw⟩ := hread u hu
      exact rereads_of_decode hraw
    refine ⟨⟨into.keeps_ofList us, fun u hu => (ih u hu).holds⟩, fun w hw => ?_⟩
    obtain ⟨ws, gs, rfl, hr, hgs⟩ := ValueType.listing_sequence_iff.1 hw
    have hmem : List.Forall₂ (fun g w => c.Rereads g ∧ c.valueType.Listing g w) gs ws :=
      (List.forall₂_and_left _ _).2 ⟨fun g hg => ih g (hr.perm.mem_iff.1 hg), hgs⟩
    have hws : List.Forall₂ c.coding.Restores ws gs :=
      (hmem.imp fun g w hg => hg.1.restores w hg.2).flip
    exact Coding.restores_onValues rfl (Coding.restores_elements hws)
      (congrArg Value.sequence (Container.ofList_of_reorders (into.keeps_ofList us) hr))
  | .entries into frozen k c =>
    obtain ⟨es, hes, rfl⟩ := map_eq_ok_iff.1 h
    obtain ⟨-, hread⟩ := Coding.of_decode_entries hes
    have ih : ∀ e ∈ into.ofList es, k.Rereads e.1 ∧ c.Rereads e.2 := by
      refine into.forall_mem_ofList fun e he => ?_
      obtain ⟨⟨key, hkey⟩, value, hvalue⟩ := hread e he
      exact ⟨rereads_of_decode hkey, rereads_of_decode hvalue⟩
    refine ⟨⟨into.keeps_ofList es, fun e he => ⟨(ih e he).1.holds, (ih e he).2.holds⟩⟩,
      fun w hw => ?_⟩
    obtain ⟨fs, gs, rfl, hr, hgs⟩ := ValueType.listing_mapping_iff.1 hw
    have hmem : List.Forall₂ (fun g f => (k.Rereads g.1 ∧ c.Rereads g.2) ∧
        k.valueType.Listing g.1 f.1 ∧ c.valueType.Listing g.2 f.2) gs fs :=
      (List.forall₂_and_left _ _).2 ⟨fun g hg => ih g (hr.perm.mem_iff.1 hg), hgs⟩
    have hfs : List.Forall₂ (fun f g => k.coding.Restores f.1 g.1 ∧ c.coding.Restores f.2 g.2)
        fs gs := (hmem.imp fun g f hg =>
      ⟨hg.1.1.restores f.1 hg.2.1, hg.1.2.restores f.2 hg.2.2⟩).flip
    exact Coding.restores_onValues rfl (Coding.restores_entries hfs)
      (congrArg Value.mapping (MapContainer.ofList_of_reorders (into.keeps_ofList es) hr))
  | .record header schema slots cs =>
    obtain ⟨vs, hvs, rfl⟩ := map_eq_ok_iff.1 h
    obtain ⟨hlen, hread⟩ := Coding.of_decode_record hvs
    rw [length_codings] at hlen
    have hfield : ∀ {i : Nat} {c : Codec} {v : Value}, cs[i]? = some c → vs[i]? = some v →
        ∃ raw, c.decode raw = .ok v ∧ (i ∉ slots → raw = none) := by
      intro i c v hc hv
      exact hread i c.coding v (getElem?_codings_eq_some_iff.2 ⟨c, hc, rfl⟩) hv
    have ih : ∀ (i : Nat) (c : Codec) (v : Value), cs[i]? = some c → vs[i]? = some v →
        c.Rereads v := by
      intro i c v hc hv
      obtain ⟨raw, hraw, -⟩ := hfield hc hv
      exact rereads_of_decode_fields cs c (List.mem_of_getElem? hc) hraw
    refine ⟨holdAll_valueTypes_iff.2 ⟨hlen, fun i c v hc hv => (ih i c v hc hv).holds⟩,
      fun w hw => ?_⟩
    obtain ⟨ws, rfl, hws⟩ := ValueType.listing_record_iff.1 hw
    refine Coding.restores_onValues rfl (Coding.restores_record ?_ fun i c v hc hv => ?_) rfl
    · rw [length_codings, hlen]
    · obtain ⟨d, hd, rfl⟩ := getElem?_codings_eq_some_iff.1 hc
      refine ⟨fun _ w hw => ?_, fun hout => ?_⟩
      · exact (ih i d v hd hv).restores w ((listing_of_listingAll hws).2 i d v w hd hv hw)
      · obtain ⟨raw, hraw, hnone⟩ := hfield hd hv
        rw [hnone hout] at hraw
        exact hraw

/-- The same of the codecs of the fields of a record. -/
theorem rereads_of_decode_fields (cs : List Codec) : ∀ c ∈ cs, ∀ {b : Option Bytes} {v : Value},
    c.decode b = .ok v → c.Rereads v := by
  match cs with
  | [] => exact List.forall_mem_nil _
  | c :: cs =>
    exact List.forall_mem_cons.2 ⟨fun h => rereads_of_decode h, rereads_of_decode_fields cs⟩

end

/-! ## Storing what was read -/

/-- The parts of a writable value have frames. -/
theorem Writable.exists_frame {c : Codec} {w : Value} (hw : c.Writable w)
    {part : Codec × Value} (hp : part ∈ c.framed w)
    (h : part.1.Writable part.2 → ∃ raw, part.1.encode part.2 = .ok raw) :
    ∃ raw frame, part.1.encode part.2 = .ok raw ∧ Frame.write raw = .ok frame := by
  obtain ⟨raw, hraw⟩ := h (hw.part hp)
  cases raw with
  | none => exact ⟨none, _, hraw, rfl⟩
  | some bs =>
    have hlen : bs.length ≤ Frame.maxLength :=
      Nat.not_lt.1 fun hlong => hw.fits (.here hp hraw hlong)
    exact ⟨some bs, _, hraw, Frame.write_some_eq_ok_iff.2 ⟨hlen, rfl⟩⟩

mutual

/-- What was read can be stored, unless a part of it needs more bytes than a frame can hold or is a
UUID that has to be made from the time and is not. -/
theorem exists_encode_of_writable {c : Codec} (hc : c.Wired) {b : Option Bytes} {v w : Value}
    (h : c.decode b = .ok v) (hw : c.valueType.Listing v w) (hfit : c.Writable w) :
    ∃ b', c.encode w = .ok b' := by
  match c with
  | .scalar s =>
    obtain rfl : v = w := hw
    by_cases hs : s = .timeuuid
    · subst hs
      obtain ⟨u, -, rfl⟩ := map_eq_ok_iff.1 h
      exact Coding.exists_encode_timeuuid_iff.2 (by_contra fun hu => hfit.timed (.here hu))
    · obtain ⟨bs, hbs⟩ := rewrites_scalar hs b v h
      exact ⟨some bs, hbs⟩
  | .decimal =>
    obtain ⟨d, -, rfl⟩ := map_eq_ok_iff.1 h
    obtain rfl : _ = w := hw
    exact ⟨_, rfl⟩
  | .enumeration e ordinal =>
    obtain ⟨index, -, rfl⟩ := map_eq_ok_iff.1 h
    obtain rfl : _ = w := hw
    obtain ⟨bs, hbs⟩ := encode_variant e ordinal index
    exact ⟨some bs, hbs⟩
  | .shared c => exact exists_encode_of_writable (c := c) hc h hw hfit.of_shared
  | .option c =>
    obtain ⟨o, ho, rfl⟩ := map_eq_ok_iff.1 h
    cases b with
    | none =>
      cases ho
      rcases ValueType.listing_option_iff.1 hw with ⟨-, rfl⟩ | ⟨a, w, ha, -, -⟩
      · exact ⟨none, rfl⟩
      · cases ha
    | some bs =>
      obtain ⟨u, hu, rfl⟩ := map_eq_ok_iff.1 ho
      rcases ValueType.listing_option_iff.1 hw with ⟨hv, -⟩ | ⟨a, w, ha, rfl, haw⟩
      · cases hv
      · cases ha
        exact exists_encode_of_writable (c := c) hc hu haw hfit.of_present
  | .elements kind into frozen c =>
    obtain ⟨us, hus, rfl⟩ := map_eq_ok_iff.1 h
    obtain ⟨hlen, hread⟩ := Coding.of_decode_elements hus
    obtain ⟨ws, rfl, hlen', hseen⟩ := ValueType.elements_of_listing hw
    have hcount : ws.length ≤ us.length := hlen' ▸ into.length_ofList_le us
    refine Coding.exists_encode_elements (Nat.le_trans hcount hlen) fun w hw => ?_
    obtain ⟨g, hg, hgw⟩ := hseen w hw
    obtain ⟨source, hsource, hdecode⟩ := into.forall_mem_ofList hread g hg
    have hp : (c, w) ∈ (Codec.elements kind into frozen c).framed (.sequence ws) :=
      List.mem_map.2 ⟨w, hw, rfl⟩
    obtain ⟨raw, frame, hraw, hframe⟩ := hfit.exists_frame hp
      (exists_encode_of_writable (c := c) hc hdecode hgw)
    refine ⟨frame, Coding.encodeElement_eq_ok_iff.2 ⟨raw, hraw, fun hn => ?_, hframe⟩⟩
    -- An element without bytes was read from none, which no set allows.
    cases source with
    | none => exact hsource rfl
    | some bs =>
      rw [Option.isNone_iff_eq_none.1 hn] at hraw
      exact absurd hraw (encode_ne_none hdecode hgw)
  | .entries into frozen k c =>
    obtain ⟨es, hes, rfl⟩ := map_eq_ok_iff.1 h
    obtain ⟨hlen, hread⟩ := Coding.of_decode_entries hes
    obtain ⟨fs, rfl, hlen', hseen⟩ := ValueType.entries_of_listing hw
    have hcount : fs.length ≤ es.length := hlen' ▸ into.length_ofList_le es
    refine Coding.exists_encode_entries (Nat.le_trans hcount hlen) fun f hf => ?_
    obtain ⟨g, hg, hkey, hvalue⟩ := hseen f hf
    obtain ⟨⟨bs, hk⟩, source, hv⟩ := into.forall_mem_ofList
      (P := fun u => ∃ bs, k.decode (some bs) = .ok u) (Q := fun u => ∃ raw, c.decode raw = .ok u)
      hread g hg
    have hparts : ∀ part ∈ [(k, f.1), (c, f.2)],
        part ∈ (Codec.entries into frozen k c).framed (.mapping fs) :=
      fun part hp => List.mem_flatMap.2 ⟨f, hf, hp⟩
    obtain ⟨rawKey, key, hrawKey, hwriteKey⟩ := hfit.exists_frame
      (hparts (k, f.1) List.mem_cons_self) (exists_encode_of_writable hc.1 hk hkey)
    obtain ⟨rawValue, value, hrawValue, hwriteValue⟩ := hfit.exists_frame
      (hparts (c, f.2) (List.mem_cons_of_mem _ List.mem_cons_self))
      (exists_encode_of_writable hc.2 hv hvalue)
    cases rawKey with
    | none => exact absurd hrawKey (encode_ne_none hk hkey)
    | some bs =>
      exact ⟨_, Coding.encodeEntry_eq_ok_iff.2
        ⟨bs, rawValue, key, value, hrawKey, hrawValue, hwriteKey, hwriteValue, rfl⟩⟩
  | .record header schema slots cs =>
    obtain ⟨vs, hvs, rfl⟩ := map_eq_ok_iff.1 h
    obtain ⟨hlen, hread⟩ := Coding.of_decode_record hvs
    rw [length_codings] at hlen
    obtain ⟨ws, rfl, hws⟩ := ValueType.listing_record_iff.1 hw
    obtain ⟨hlen', hlisting⟩ := listing_of_listingAll hws
    refine Coding.exists_encode_record schema fun slot hslot => ?_
    have hlt : slot < cs.length := hc.1 slot hslot
    have hc' : cs[slot]? = some cs[slot] := List.getElem?_eq_getElem hlt
    have hv : vs[slot]? = some vs[slot] := List.getElem?_eq_getElem (hlen ▸ hlt)
    have hw : ws[slot]? = some ws[slot] := List.getElem?_eq_getElem (hlen' ▸ hlt)
    have hcoding : (codings cs)[slot]? = some cs[slot].coding :=
      getElem?_codings_eq_some_iff.2 ⟨cs[slot], hc', rfl⟩
    obtain ⟨source, hdecode, -⟩ := hread slot _ _ hcoding hv
    have hp : (cs[slot], ws[slot]) ∈
        (Codec.record header schema slots cs).framed (.record ws) := by
      refine List.mem_filterMap.2 ⟨slot, hslot, ?_⟩
      rw [hc', hw]
      rfl
    obtain ⟨raw, frame, hraw, hframe⟩ := hfit.exists_frame hp
      (exists_encode_of_writable_fields hc.2.2 cs[slot] (List.getElem_mem hlt) hdecode
        (hlisting slot _ _ _ hc' hv hw))
    refine ⟨raw, frame, ?_, hframe⟩
    simp only [Coding.encodeField, hcoding, hw]
    exact hraw

/-- The same of the codecs of the fields of a record. -/
theorem exists_encode_of_writable_fields {cs : List Codec} (hc : AllWired cs) :
    ∀ c ∈ cs, ∀ {b : Option Bytes} {v w : Value}, c.decode b = .ok v →
      c.valueType.Listing v w → c.Writable w → ∃ b', c.encode w = .ok b' := by
  match cs with
  | [] => exact List.forall_mem_nil _
  | c :: cs =>
    exact List.forall_mem_cons.2 ⟨fun h hw hfit => exists_encode_of_writable hc.1 h hw hfit,
      exists_encode_of_writable_fields hc.2⟩

end

/-- Without time-based UUIDs, only frames keep what was read from being stored. -/
theorem exists_encode_of_decode {c : Codec} (hc : c.Wired) (ht : c.HasNoTimeuuid)
    {b : Option Bytes} {v w : Value} (h : c.decode b = .ok v) (hw : c.valueType.Listing v w)
    (hfit : ¬c.Overflows w) : ∃ b', c.encode w = .ok b' :=
  exists_encode_of_writable hc h hw ⟨hfit, fun hu => not_hasUntimed_of_hasNoTimeuuid hu ht⟩

/-- Whatever is read is a value of its type, which can be stored and read again as the same value
unless some part of it has more bytes than a frame can hold. -/
theorem decode_encode_of_decode {c : Codec} (hc : Built c) (ht : c.HasNoTimeuuid)
    {b : Option Bytes} {v : Value} (h : c.decode b = .ok v) :
    c.valueType.Holds v ∧ ∀ w, c.valueType.Listing v w →
      ((∃ b', c.encode w = .ok b' ∧ c.decode b' = .ok v) ↔ ¬c.Overflows w) := by
  have hread := rereads_of_decode h
  refine ⟨hread.holds, fun w hw => ⟨fun hstored ho => ?_, fun hfit => ?_⟩⟩
  · obtain ⟨b', hb', -⟩ := hstored
    exact not_overflows_of_encode ho hb'
  · obtain ⟨b', hb'⟩ := exists_encode_of_decode (wired_of_built hc) ht h hw hfit
    exact ⟨b', hb', hread.restores w hw b' hb'⟩

/-- A record whose bytes are none that it would be stored as: a truth value of another byte than 1,
a set with one number twice, once with a needless byte, a map with one key twice, a list without
bytes, and no frame for the last field. -/
theorem decode_encode_of_decode_lax :
    let header : RecordHeader := ⟨"Lax", "lax", ["flag", "tags", "names", "items", "note"],
      ["flag", "tags", "names", "items", "note"]⟩
    let t := ValueType.record header [.base .bool, .sequence .ordered (.base .int128),
      .mapping .ordered (.base .int32) (.base .string), .sequence .vector (.base .int32),
      .option (.base .int32)]
    let b : Bytes := [0, 0, 0, 1, 5,
      0, 0, 0, 15, 0, 0, 0, 2, 0, 0, 0, 2, 0, 1, 0, 0, 0, 1, 1,
      0, 0, 0, 30, 0, 0, 0, 2, 0, 0, 0, 4, 0, 0, 0, 1, 0, 0, 0, 1, 97,
        0, 0, 0, 4, 0, 0, 0, 1, 0, 0, 0, 1, 98,
      0, 0, 0, 0]
    let b' : Bytes := [0, 0, 0, 1, 1,
      0, 0, 0, 9, 0, 0, 0, 1, 0, 0, 0, 1, 1,
      0, 0, 0, 17, 0, 0, 0, 1, 0, 0, 0, 4, 0, 0, 0, 1, 0, 0, 0, 1, 98,
      0, 0, 0, 4, 0, 0, 0, 0,
      255, 255, 255, 255]
    let v : Value := .record [.bool true, .sequence [.int 1], .mapping [(.int 1, .text ['b'])],
      .sequence [], .absent]
    Built t.codec ∧ t.codec.HasNoTimeuuid ∧ t.codec.decode (some b) = .ok v ∧
      t.codec.valueType.Holds v ∧ t.codec.valueType.Listing v v ∧
      t.codec.encode v = .ok (some b') ∧ b' ≠ b ∧ ¬t.codec.Overflows v ∧
      t.codec.decode (some b') = .ok v := by
  intro header t b b' v
  have hstorable : t.Storable := by
    refine ⟨⟨by decide, rfl, rfl⟩, trivial, ⟨fun _ => trivial, trivial⟩,
      ⟨trivial, trivial, trivial⟩, ⟨fun _ => trivial, trivial⟩, ⟨rfl, trivial⟩, trivial⟩
  have hbuilt : Built t.codec := .default (ValueType.wellFormed_of_storable hstorable)
  have ht : t.codec.HasNoTimeuuid := ⟨nofun, nofun, ⟨nofun, nofun⟩, nofun, nofun, trivial⟩
  have hv : t.codec.valueType.Holds v := by
    refine ⟨trivial, ⟨List.pairwise_singleton _ _, ?_⟩, ⟨List.pairwise_singleton _ _, ?_⟩, ?_⟩
    · exact List.forall_mem_singleton.2 (show fitsSigned 128 1 = true by decide)
    · exact List.forall_mem_singleton.2 ⟨show fitsSigned 32 1 = true by decide, trivial⟩
    · exact ⟨⟨trivial, List.forall_mem_nil _⟩, trivial, trivial⟩
  have hw := ValueType.listing_refl hv
  have hstored : t.codec.encode v = .ok (some b') := by rfl
  have hback : t.codec.decode (some b') = .ok v :=
    restores_kept (serves_codec hstorable).regular hv hw (some b') hstored
  -- What is read has no decidable equality; that it is stored as the other bytes can be computed.
  have hboth : (t.codec.decode (some b) >>= t.codec.encode) = .ok (some b') := by decide +kernel
  obtain ⟨u, hu, hu'⟩ := bind_eq_ok_iff.1 hboth
  obtain ⟨hheld, hall⟩ := decode_encode_of_decode hbuilt ht hu
  have huw := ValueType.listing_refl hheld
  obtain ⟨again, hagain, hread⟩ :=
    (hall u huw).2 fun ho => not_overflows_of_encode ho hu'
  obtain rfl : again = some b' := Except.ok.inj (hagain.symm.trans hu')
  obtain rfl : u = v := Except.ok.inj (hread.symm.trans hback)
  exact ⟨hbuilt, ht, hu, hheld, huw, hu', by decide,
    fun ho => not_overflows_of_encode ho hu', hread⟩

end Codec

end CqlWire
