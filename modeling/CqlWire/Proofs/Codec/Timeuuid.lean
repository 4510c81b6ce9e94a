import CqlWire.Proofs.Codec.Reread
import CqlWire.Proofs.Coding.Failure

/-!
# Only storing asks whether a UUID is made from the time

The bytes and the literals of a `timeuuid` are read as those of any UUID
(`Coding.decode_timeuuid_iff`, `Coding.parse_timeuuid_iff`), and only UUIDs of version 1 are stored
(`Coding.exists_encode_timeuuid_iff`). So what was read, alone or inside of other values, can be
written back if and only if it fits in its frames and has no UUID of another version where a
`timeuuid` belongs (`Codec.rewritten_iff_timed`).
-/

namespace CqlWire

namespace Coding

/-- A `timeuuid` is read from any sixteen bytes. -/
theorem decode_timeuuid_iff {bs : Bytes} {u : Uuid} :
    timeuuid.decode (some bs) = .ok u ↔ bs = u.1 := by
  simp only [timeuuid, bind_eq_ok_iff, Frame.require_eq_ok_iff, Frame.fixed_eq_ok_iff,
    Option.some.injEq, exists_eq_left']
  exact eq_comm

/-- Every literal of a UUID is one of a `timeuuid`. -/
theorem parse_timeuuid_iff {text : List Char} {u : Uuid} :
    timeuuid.parse text = .ok u ↔ uuid.parse text = .ok u := by
  simp only [timeuuid, uuid, orRefuse_eq_ok_iff]

end Coding

namespace Codec

open Coding (timeuuid uuid)

/-- A `timeuuid` is read from all bytes and literals of UUIDs, and stored for those of version 1.
What a codec has read can be stored, and read again as the same value, if and only if no part of it
has more bytes than a frame can hold and no part of it is a UUID of another version that belongs in a
`timeuuid`. -/
theorem rewritten_iff_timed {c : Codec} (hc : Built c) {b : Option Bytes} {v w : Value}
    (h : c.decode b = .ok v) (hw : c.valueType.Listing v w) (bs : Bytes) (text : List Char)
    (u : Uuid) :
    (timeuuid.decode (some bs) = .ok u ↔ bs = u.1) ∧
    (timeuuid.parse text = .ok u ↔ uuid.parse text = .ok u) ∧
    ((∃ raw, timeuuid.encode u = .ok raw) ↔ u.version = 1) ∧
    ((∃ raw, c.encode w = .ok raw ∧ c.decode raw = .ok v) ↔
      ¬c.Overflows w ∧ ¬c.HasUntimed w) := by
  refine ⟨Coding.decode_timeuuid_iff, Coding.parse_timeuuid_iff,
    Coding.exists_encode_timeuuid_iff, ?_, ?_⟩
  · rintro ⟨raw, hraw, -⟩
    have hwritable := writable_of_encode hraw
    exact ⟨hwritable.fits, hwritable.timed⟩
  · rintro ⟨hfits, htimed⟩
    obtain ⟨raw, hraw⟩ := exists_encode_of_writable (wired_of_built hc) h hw ⟨hfits, htimed⟩
    exact ⟨raw, hraw, (rereads_of_decode h).restores w hw raw hraw⟩

/-- A list of one UUID that is made from the time is read, and stored again. -/
theorem rewritten_list_of_timed :
    let u : Uuid := ⟨[0x51, 0x32, 0xb1, 0x30, 0xae, 0x79, 0x11, 0xee, 0xb5, 0xc5, 0x02, 0x42, 0xac,
      0x12, 0x00, 0x02], rfl⟩
    let c := elements .list .vector false (.scalar .timeuuid)
    let bs : Bytes := [0, 0, 0, 1, 0, 0, 0, 16] ++ u.1
    let v : Value := .sequence [.uuid u]
    Built c ∧ c.decode (some bs) = .ok v ∧ c.valueType.Listing v v ∧
      timeuuid.parse "5132b130-ae79-11ee-b5c5-0242ac120002".toList = .ok u ∧
      (∃ raw, timeuuid.encode u = .ok raw) ∧ ∃ raw, c.encode v = .ok raw ∧ c.decode raw = .ok v := by
  intro u c bs v
  have hbuilt : Built c := .elements .list .vector false (.scalar .timeuuid)
  have hstored : c.encode v = .ok (some bs) := by decide +kernel
  have helement : (scalar .timeuuid).coding.Restores (.uuid u) (.uuid u) :=
    Coding.restores_onValues rfl (Coding.restores_timeuuid u) rfl
  have hlist : c.coding.Restores v v :=
    Coding.restores_onValues rfl (Coding.restores_elements (.cons helement .nil)) rfl
  have hread : c.decode (some bs) = .ok v := hlist (some bs) hstored
  have hlisting := ValueType.listing_refl (rereads_of_decode hread).holds
  have hwritable := writable_of_encode hstored
  obtain ⟨-, hparse, hencode, hback⟩ := rewritten_iff_timed hbuilt hread hlisting bs
    "5132b130-ae79-11ee-b5c5-0242ac120002".toList u
  have hliteral : uuid.parse "5132b130-ae79-11ee-b5c5-0242ac120002".toList = .ok u := by
    decide +kernel
  exact ⟨hbuilt, hread, hlisting, hparse.2 hliteral, hencode.2 (by decide),
    hback.2 ⟨hwritable.fits, hwritable.timed⟩⟩

/-- A UUID of version 4 is read as a `timeuuid`, from bytes and from a literal, and cannot be stored
as one. -/
theorem untimed_is_read :
    let u : Uuid := ⟨[0x55, 0x0e, 0x84, 0x00, 0xe2, 0x9b, 0x41, 0xd4, 0xa7, 0x16, 0x44, 0x66, 0x55,
      0x44, 0x00, 0x00], rfl⟩
    timeuuid.decode (some u.1) = .ok u ∧
      timeuuid.parse "550e8400-e29b-41d4-a716-446655440000".toList = .ok u ∧
      ¬∃ raw, timeuuid.encode u = .ok raw := by
  intro u
  refine ⟨rfl, ?_, ?_⟩
  · rw [Coding.parse_timeuuid_iff]
    decide +kernel
  · rw [Coding.exists_encode_timeuuid_iff]
    decide

end Codec

end CqlWire
