import CqlWire.Proofs.Coding.Reading

/-!
# Integers of the fewest bytes

Bytes stand for a number in two's complement (`Bytes.twosComplement`). A first byte that only repeats
the sign of those behind it is spare, and bytes that repeat a sign can be put in front of others
(`Bytes.toInt_padded`) or taken away again (`Bytes.stripsTo_iff`). So every width writes a number with
the sign in front of its fewest bytes (`Bytes.ofInt_toInt_of_le`), and these are what a `varint` is
stored as, whatever bytes the number was read from (`Coding.encodeVarint_toInt`).
-/

namespace CqlWire

namespace Bytes

/-- The first bit is set. -/
def isNegative : Bytes → Bool
  | [] => false
  | b :: _ => 0x80 ≤ b

/-- The number that the bytes write in two's complement: the unsigned one, less the number of byte
strings of that length if the first bit is set. -/
def twosComplement (bs : Bytes) : Int :=
  if bs.isNegative then bs.toNat - capacity bs.length else bs.toNat

/-- The byte that says no more than the sign of the bytes behind it. -/
def signByte (bs : Bytes) : UInt8 :=
  if bs.isNegative then 0xFF else 0x00

/-- The first byte only repeats the sign of those behind it. -/
def HasSpareByte : Bytes → Prop
  | a :: b :: r => a = signByte (b :: r)
  | _ => False

instance : DecidablePred HasSpareByte
  | [] | [_] => .isFalse id
  | a :: b :: r => inferInstanceAs (Decidable (a = signByte (b :: r)))

/-- What is left of the bytes when spare ones are taken away in front, until the first one counts. -/
structure StripsTo (bs rest : Bytes) : Prop where
  spare : ∃ count, bs = List.replicate count rest.signByte ++ rest
  not_spare : ¬rest.HasSpareByte
  ne_nil : rest ≠ []

/-! ## Signs -/

/-- The first bit is set if the unsigned number is in the upper half. -/
theorem isNegative_iff (bs : Bytes) : bs.isNegative = true ↔ capacity bs.length ≤ bs.toNat * 2 := by
  cases bs with
  | nil => simp [isNegative, toNat]
  | cons b bs =>
    have hlt := toNat_lt bs
    have hb : b.toNat < 256 := b.toNat_lt
    rw [isNegative, decide_eq_true_iff, UInt8.le_iff_toNat_le, toNat_cons, List.length_cons,
      capacity_succ]
    show 128 ≤ b.toNat ↔ _
    generalize toNat bs = n at *
    generalize capacity bs.length = c at *
    constructor
    · intro h
      have hm : 128 * c ≤ b.toNat * c := Nat.mul_le_mul_right c h
      omega
    · intro h
      by_contra hsmall
      have hm : b.toNat * c ≤ 127 * c := Nat.mul_le_mul_right c (by omega)
      omega

theorem toInt_eq_twosComplement (bs : Bytes) : bs.toInt = bs.twosComplement := by
  rw [toInt_eq, twosComplement]
  by_cases h : bs.isNegative = true
  · rw [if_pos h, if_neg (Nat.not_lt.2 ((isNegative_iff bs).1 h))]
  · rw [if_neg h, if_pos (Nat.not_le.1 (mt (isNegative_iff bs).2 h))]

/-- A byte that only repeats the sign has the same sign. -/
theorem signByte_cons_signByte (bs rest : Bytes) : signByte (bs.signByte :: rest) = bs.signByte := by
  unfold signByte
  split <;> rfl

theorem signByte_padded (bs : Bytes) (count : Nat) :
    signByte (List.replicate count bs.signByte ++ bs) = bs.signByte := by
  cases count with
  | zero => rfl
  | succ count => exact signByte_cons_signByte bs _

/-! ## Spare bytes -/

theorem eq_signByte_iff {a b : UInt8} {r : Bytes} :
    a = signByte (b :: r) ↔ (a = 0x00 ∧ b < 0x80) ∨ (a = 0xFF ∧ 0x80 ≤ b) := by
  have hsign : signByte (b :: r) = if 0x80 ≤ b then 0xFF else 0x00 := by
    simp only [signByte, isNegative, decide_eq_true_eq]
  rw [hsign]
  split
  · rename_i h
    have hb : ¬b < 0x80 := UInt8.not_lt.2 h
    simp only [h, hb, and_false, and_true, false_or]
  · rename_i h
    have hb : b < 0x80 := UInt8.not_le.1 h
    simp only [h, hb, and_false, and_true, or_false]

theorem stripSign_of_spare {a b : UInt8} {r : Bytes} (h : a = signByte (b :: r)) :
    stripSign (a :: b :: r) = stripSign (b :: r) :=
  if_pos (eq_signByte_iff.1 h)

theorem stripSign_of_not_spare {bs : Bytes} (h : ¬bs.HasSpareByte) : stripSign bs = bs := by
  match bs with
  | [] => rfl
  | [_] => rfl
  | a :: b :: r => exact if_neg (mt eq_signByte_iff.2 h)

/-- Bytes that repeat the sign are taken away with the rest of the spare ones. -/
theorem stripSign_padded {bs : Bytes} (h : bs ≠ []) (count : Nat) :
    stripSign (List.replicate count bs.signByte ++ bs) = stripSign bs := by
  induction count with
  | zero => rfl
  | succ count ih =>
    rw [List.replicate_succ, List.cons_append, ← ih]
    have hsign := signByte_padded bs count
    cases hrest : List.replicate count bs.signByte ++ bs with
    | nil => exact absurd (List.append_eq_nil_iff.1 hrest).2 h
    | cons b r =>
      rw [hrest] at hsign
      exact stripSign_of_spare hsign.symm

/-- Bytes that repeat the sign do not count. -/
theorem toInt_padded {bs : Bytes} (h : bs ≠ []) (count : Nat) :
    toInt (List.replicate count bs.signByte ++ bs) = toInt bs := by
  rw [← toInt_stripSign, stripSign_padded h, toInt_stripSign]

theorem stripsTo_stripSign {bs : Bytes} (h : bs ≠ []) : bs.StripsTo bs.stripSign := by
  induction bs with
  | nil => exact absurd rfl h
  | cons a bs ih =>
    by_cases hspare : HasSpareByte (a :: bs)
    · cases bs with
      | nil => exact hspare.elim
      | cons b r =>
        have hrest := ih (List.cons_ne_nil b r)
        rw [stripSign_of_spare hspare]
        generalize stripSign (b :: r) = rest at hrest
        obtain ⟨⟨count, hcount⟩, hkept, hne⟩ := hrest
        have hsign : a = rest.signByte := by
          rw [show a = signByte (b :: r) from hspare, hcount, signByte_padded]
        refine ⟨⟨count + 1, ?_⟩, hkept, hne⟩
        rw [List.replicate_succ, List.cons_append, ← hcount, ← hsign]
    · rw [stripSign_of_not_spare hspare]
      exact ⟨⟨0, rfl⟩, hspare, h⟩

/-- There is one way to take the spare bytes away. -/
theorem stripsTo_iff {bs rest : Bytes} : bs.StripsTo rest ↔ bs ≠ [] ∧ bs.stripSign = rest := by
  constructor
  · rintro ⟨⟨count, rfl⟩, hkept, hne⟩
    rw [stripSign_padded hne, stripSign_of_not_spare hkept]
    exact ⟨fun h => hne (List.append_eq_nil_iff.1 h).2, rfl⟩
  · rintro ⟨hne, rfl⟩
    exact stripsTo_stripSign hne

/-- A wider form of a number repeats the sign of a narrower one. -/
theorem ofInt_toInt_of_le {bs : Bytes} (h : bs ≠ []) {width : Nat} (hw : bs.length ≤ width) :
    ofInt width bs.toInt = List.replicate (width - bs.length) bs.signByte ++ bs := by
  have hlen : (List.replicate (width - bs.length) bs.signByte ++ bs).length = width := by
    rw [List.length_append, List.length_replicate]
    omega
  have hpadded := ofInt_toInt (List.replicate (width - bs.length) bs.signByte ++ bs)
  rwa [hlen, toInt_padded h] at hpadded

end Bytes

namespace Coding

/-- A number is stored as the bytes that it is read from, without the spare ones. -/
theorem encodeVarint_toInt {bs : Bytes} (h : bs ≠ []) (hlen : bs.length ≤ 16) :
    encodeVarint bs.toInt = bs.stripSign := by
  rw [encodeVarint, Bytes.ofInt_toInt_of_le h hlen, Bytes.stripSign_padded h]

theorem decodeVarint_eq_ok_iff {type : ColumnType} {bs : Bytes} {n : Int} :
    decodeVarint type bs = .ok n ↔ bs ≠ [] ∧ bs.length ≤ 16 ∧ bs.toInt = n := by
  rw [decodeVarint, ← Nat.not_lt, Ne, ← List.isEmpty_iff]
  by_cases hempty : bs.isEmpty = true
  · rw [if_pos hempty]
    exact iff_of_false (fun h => by cases h) fun h => h.1 hempty
  · rw [if_neg hempty]
    by_cases hlong : 16 < bs.length
    · rw [if_pos hlong]
      exact iff_of_false (fun h => by cases h) fun h => h.2.1 hlong
    · rw [if_neg hlong, Except.ok.injEq]
      exact ⟨fun h => ⟨hempty, hlong, h⟩, fun h => h.2.2⟩

/-- A reader that fills the bytes up to sixteen with their sign reads the same. -/
theorem decodeVarint_eq_filled (type : ColumnType) {bs : Bytes} (h : bs ≠ [])
    (hlen : bs.length ≤ 16) : decodeVarint type bs =
      .ok (Bytes.toInt (List.replicate (16 - bs.length) bs.signByte ++ bs)) :=
  decodeVarint_eq_ok_iff.2 ⟨h, hlen, (Bytes.toInt_padded h _).symm⟩

/-- A number of 128 bits is stored as one to sixteen bytes, and read from them and from no fewer.
One to sixteen bytes are read as their number in two's complement, which is stored as what is left
of them without the spare ones in front. No bytes and more than sixteen are refused. -/
theorem varint_is_exact_and_minimal (type : ColumnType) :
    (∀ n, fitsSigned 128 n = true →
      1 ≤ (encodeVarint n).length ∧ (encodeVarint n).length ≤ 16 ∧
      decodeVarint type (encodeVarint n) = .ok n ∧
      ∀ bs, decodeVarint type bs = .ok n → (encodeVarint n).length ≤ bs.length) ∧
    (∀ bs : Bytes, 1 ≤ bs.length → bs.length ≤ 16 →
      fitsSigned 128 bs.twosComplement = true ∧
      decodeVarint type bs = .ok bs.twosComplement ∧
      ∀ rest, encodeVarint bs.twosComplement = rest ↔ bs.StripsTo rest) ∧
    decodeVarint type [] = .error (.invalidLength type.toText "at least 1" 0) ∧
    ∀ bs : Bytes, 16 < bs.length → decodeVarint type bs =
      .error (.decode type.toText s!"{bs.length}-byte integer overflows 128 bits") := by
  refine ⟨fun n hn => ?_, fun bs hpos hlen => ?_, rfl, fun bs hlong => ?_⟩
  · refine ⟨List.length_pos_iff.2 (encodeVarint_ne_nil n), length_encodeVarint_le n,
      decodeVarint_encodeVarint hn, fun bs hread => ?_⟩
    obtain ⟨hne, hlen, rfl⟩ := decodeVarint_eq_ok_iff.1 hread
    rw [encodeVarint_toInt hne hlen]
    exact Bytes.length_stripSign_le bs
  · have hne : bs ≠ [] := List.length_pos_iff.1 hpos
    have hread : decodeVarint type bs = .ok bs.twosComplement :=
      decodeVarint_eq_ok_iff.2 ⟨hne, hlen, Bytes.toInt_eq_twosComplement bs⟩
    refine ⟨fits_of_decodeVarint hread, hread, fun rest => ?_⟩
    rw [← Bytes.toInt_eq_twosComplement, encodeVarint_toInt hne hlen, Bytes.stripsTo_iff]
    exact ⟨fun h => ⟨hne, h⟩, fun h => h.2⟩
  · have hne : ¬bs.isEmpty = true := by
      rw [List.isEmpty_iff]
      rintro rfl
      cases hlong
    rw [decodeVarint, if_neg hne, if_pos hlong]

/-- The least number of nine bits is stored as two bytes, and read from three as well. -/
theorem varint_is_exact_and_minimal_negative :
    let type : ColumnType := .scalar .varint
    let bs : Bytes := [0xFF, 0xFF, 0x00]
    (fitsSigned 128 (-256) = true ∧ 1 ≤ bs.length ∧ bs.length ≤ 16) ∧
      decodeVarint type (encodeVarint (-256)) = .ok (-256) ∧
      (encodeVarint (-256)).length ≤ bs.length ∧ decodeVarint type bs = .ok (-256) ∧
      encodeVarint (-256) = [0xFF, 0x00] ∧
      decodeVarint type (List.replicate 17 1) =
        .error (.decode "varint" "17-byte integer overflows 128 bits") := by
  intro type bs
  obtain ⟨hstored, hread, -, hlong⟩ := varint_is_exact_and_minimal type
  have hfits : fitsSigned 128 (-256) = true := by decide
  have hvalue : bs.twosComplement = -256 := by decide
  have hstrips : bs.StripsTo [0xFF, 0x00] := ⟨⟨1, rfl⟩, by decide, nofun⟩
  obtain ⟨-, -, hback, hfewest⟩ := hstored (-256) hfits
  obtain ⟨-, hdecode, hencode⟩ := hread bs (by decide) (by decide)
  rw [hvalue] at hdecode hencode
  exact ⟨⟨hfits, by decide, by decide⟩, hback, hfewest bs hdecode, hdecode,
    (hencode [0xFF, 0x00]).2 hstrips, hlong (List.replicate 17 1) (by decide)⟩

end Coding

end CqlWire
