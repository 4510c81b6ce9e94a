import CqlWire.Coding.Text
import CqlWire.Proofs.Fallible
import CqlWire.Proofs.Hexadecimal
import CqlWire.Proofs.Text.Trim

/-!
# Literals of byte strings

A byte string is written as `0x` and two hexadecimal digits for a byte, and read back
(`parse_format_blob`). Its other literals (`IsBlobLiteral`) differ from this one by blanks around and
by capital letters.

The reader takes each two digits for a number, and a number may have a plus sign. So it takes a sign
for zero where it is the first of two (`hexBytes?_eq`). Other texts than literals are read only if
they have such a sign, and all the rest is refused (`parse_blob_iff`).
-/

namespace CqlWire.Coding

open CqlWire.Text (isWordChar isAscii toAsciiLower trim)

/-! ## Pairs of digits -/

/-- The digits with zero for a plus sign that is the first of two. -/
def zeroSigns : List Char → List Char
  | a :: b :: r => (if a = '+' then '0' else a) :: b :: zeroSigns r
  | r => r

theorem zeroSigns_of_not_mem {s : List Char} (h : '+' ∉ s) : zeroSigns s = s := by
  fun_induction zeroSigns s with
  | case1 a b r ih =>
    simp only [List.mem_cons, not_or] at h
    rw [if_neg (Ne.symm h.1), ih h.2.2]
  | case2 r => rfl

theorem length_zeroSigns (s : List Char) : (zeroSigns s).length = s.length := by
  fun_induction zeroSigns s with
  | case1 a b r ih => simp only [List.length_cons, ih]
  | case2 r => rfl

theorem eq_or_mem_zeroSigns {c : Char} {s : List Char} (h : c ∈ s) : c = '+' ∨ c ∈ zeroSigns s := by
  fun_induction zeroSigns s with
  | case1 a b r ih =>
    rw [List.mem_cons, List.mem_cons] at h
    rw [List.mem_cons, List.mem_cons]
    rcases h with rfl | rfl | h
    · by_cases hc : c = '+'
      · exact .inl hc
      · exact .inr (.inl (if_neg hc).symm)
    · exact .inr (.inr (.inl rfl))
    · exact (ih h).imp_right fun hr => .inr (.inr hr)
  | case2 r => exact .inr h

theorem hexByte?_eq (a b : Char) :
    hexByte? a b = do
      let hi ← hexValue? (if a = '+' then '0' else a)
      let lo ← hexValue? b
      return UInt8.ofNat (hi * 16 + lo) := by
  unfold hexByte?
  by_cases ha : a = '+'
  · have hzero : hexValue? '0' = some 0 := rfl
    simp only [if_pos ha, hzero, Option.bind_eq_bind, Option.bind_some, Nat.zero_mul, Nat.zero_add]
  · simp only [if_neg ha]
    cases hexValue? a <;> cases hexValue? b <;> rfl

/-- The reader of pairs takes a sign in the first place for zero. -/
theorem hexBytes?_eq {s : List Char} (heven : s.length % 2 = 0) :
    hexBytes? s = Bytes.ofHex? (zeroSigns s) := by
  fun_induction zeroSigns s with
  | case1 a b r ih =>
    rw [List.length_cons, List.length_cons] at heven
    rw [hexBytes?, Bytes.ofHex?, hexByte?_eq, ih (by omega)]
    simp only [Option.bind_eq_bind, Option.bind_assoc, Option.pure_def, Option.bind_some]
  | case2 r hshort =>
    cases r with
    | nil => rfl
    | cons a r =>
      cases r with
      | nil => cases heven
      | cons b r => exact absurd rfl (hshort a b r)

/-! ## Literals -/

/-- `0x` or `0X` and the digits of the bytes, in either case, with blanks around. -/
def IsBlobLiteral (text : List Char) (bs : Bytes) : Prop :=
  ∃ mark digits, (mark = 'x' ∨ mark = 'X') ∧ trim text = '0' :: mark :: digits ∧
    digits.map toAsciiLower = bs.toHex

theorem blobDigits?_eq_some_iff {s digits : List Char} :
    blobDigits? s = some digits ↔
      ∃ mark, (mark = 'x' ∨ mark = 'X') ∧ s = '0' :: mark :: digits := by
  constructor
  · intro h
    unfold blobDigits? at h
    split at h
    · cases h
      exact ⟨'x', .inl rfl, rfl⟩
    · cases h
      exact ⟨'X', .inr rfl, rfl⟩
    · cases h
  · rintro ⟨mark, rfl | rfl, rfl⟩
    · rfl
    · rfl

/-- Digits and signs are in pairs and of US-ASCII. -/
theorem isAscii_of_zeroSigns {s : List Char} {bs : Bytes}
    (h : (zeroSigns s).map toAsciiLower = bs.toHex) :
    s.all isAscii = true ∧ s.length % 2 = 0 := by
  constructor
  · refine List.all_eq_true.2 fun c hc => ?_
    rcases eq_or_mem_zeroSigns hc with rfl | hmem
    · rfl
    · have hlower : toAsciiLower c ∈ bs.toHex := h ▸ List.mem_map_of_mem hmem
      obtain ⟨n, hn, hdigit⟩ := Bytes.eq_hexDigit_of_mem_toHex hlower
      have hle := toNat_of_hexValue? (hexValue?_eq_some_iff.2 ⟨hn, hdigit⟩)
      exact decide_eq_true (by omega)
  · have hlen := congrArg List.length h
    rw [List.length_map, length_zeroSigns, Bytes.length_toHex] at hlen
    omega

/-- Texts are read as literals are, with zeros for the signs. -/
theorem parse_blob_eq_ok_iff {text : List Char} {bs : Bytes} :
    blob.parse text = .ok bs ↔
      ∃ mark digits, (mark = 'x' ∨ mark = 'X') ∧ trim text = '0' :: mark :: digits ∧
        (zeroSigns digits).map toAsciiLower = bs.toHex := by
  simp only [blob]
  constructor
  · intro h
    split at h
    · cases h
    · rename_i digits hdigits
      obtain ⟨mark, hmark, htrim⟩ := blobDigits?_eq_some_iff.1 hdigits
      refine ⟨mark, digits, hmark, htrim, ?_⟩
      split at h
      · cases h
      · rename_i hcond
        simp only [Bool.or_eq_true, Bool.not_eq_true', bne_iff_ne, not_or, not_not] at hcond
        split at h
        · rename_i hbytes
          cases h
          rw [hexBytes?_eq hcond.2] at hbytes
          exact Bytes.ofHex?_eq_some_iff.1 hbytes
        · cases h
  · rintro ⟨mark, digits, hmark, htrim, hdigits⟩
    obtain ⟨hascii, heven⟩ := isAscii_of_zeroSigns hdigits
    have hbytes := Bytes.ofHex?_eq_some_iff.2 hdigits
    rw [← hexBytes?_eq heven] at hbytes
    simp only [blobDigits?_eq_some_iff.2 ⟨mark, hmark, htrim⟩, hascii, heven, hbytes]
    rfl

/-- A literal has no sign. -/
theorem IsBlobLiteral.not_mem {text : List Char} {bs : Bytes} (h : IsBlobLiteral text bs) :
    '+' ∉ trim text := by
  obtain ⟨mark, digits, hmark, htrim, hdigits⟩ := h
  rw [htrim, List.mem_cons, List.mem_cons, not_or, not_or]
  refine ⟨by decide, ?_, fun hmem => ?_⟩
  · rcases hmark with rfl | rfl
    · decide
    · decide
  · have hsign : '+' ∈ bs.toHex := hdigits ▸ List.mem_map.2 ⟨'+', hmem, rfl⟩
    obtain ⟨n, hn, hdigit⟩ := Bytes.eq_hexDigit_of_mem_toHex hsign
    exact (hexDigit_ne hn).2 hdigit.symm

theorem zeroSigns_of_trim {text digits : List Char} {mark : Char}
    (htrim : trim text = '0' :: mark :: digits) (h : '+' ∉ trim text) :
    zeroSigns digits = digits := by
  rw [htrim] at h
  exact zeroSigns_of_not_mem fun hmem => h (List.mem_cons_of_mem _ (List.mem_cons_of_mem _ hmem))

/-- Literals are the texts without signs that are read. -/
theorem isBlobLiteral_iff {text : List Char} {bs : Bytes} :
    IsBlobLiteral text bs ↔ blob.parse text = .ok bs ∧ '+' ∉ trim text := by
  rw [parse_blob_eq_ok_iff]
  constructor
  · intro h
    have hsign := h.not_mem
    obtain ⟨mark, digits, hmark, htrim, hdigits⟩ := h
    rw [← zeroSigns_of_trim htrim hsign] at hdigits
    exact ⟨⟨mark, digits, hmark, htrim, hdigits⟩, hsign⟩
  · rintro ⟨⟨mark, digits, hmark, htrim, hdigits⟩, hsign⟩
    rw [zeroSigns_of_trim htrim hsign] at hdigits
    exact ⟨mark, digits, hmark, htrim, hdigits⟩

/-- The refusal of a text as a literal, for one of three reasons. -/
def IsBlobRefusal (text : List Char) (e : Error) : Prop :=
  ∃ reason ∈ ["missing 0x prefix", "expected an even number of hex digits",
    IntegerError.invalidDigit.message], e = .illegalArgument "blob" (String.ofList text) reason

theorem failsOnly_parse_blob (text : List Char) :
    FailsOnly (IsBlobRefusal text) (blob.parse text) := by
  simp only [blob]
  split
  · exact failsOnly_error ⟨_, List.mem_cons_self, rfl⟩
  · split
    · exact failsOnly_error ⟨_, List.mem_cons_of_mem _ List.mem_cons_self, rfl⟩
    · split
      · exact failsOnly_ok _
      · exact failsOnly_error
          ⟨_, List.mem_cons_of_mem _ (List.mem_cons_of_mem _ List.mem_cons_self), rfl⟩

theorem isWordChar_of_mem_blob {bs : Bytes} {c : Char} (h : c ∈ blob.format bs) :
    isWordChar c = true := by
  rcases List.mem_cons.1 h with rfl | h
  · rfl
  · rcases List.mem_cons.1 h with rfl | h
    · rfl
    · exact Bytes.isWordChar_of_mem_toHex h

/-- What is written for a byte string is a literal of it. -/
theorem isBlobLiteral_format (bs : Bytes) : IsBlobLiteral (blob.format bs) bs := by
  have htight := Text.isTight_of_word fun c (hc : c ∈ blob.format bs) => isWordChar_of_mem_blob hc
  exact ⟨'x', bs.toHex, .inl rfl, Text.trim_of_isTight htight,
    Bytes.ofHex?_eq_some_iff.1 (Bytes.ofHex?_toHex bs)⟩

theorem parse_format_blob (bs : Bytes) : blob.parse (blob.format bs) = .ok bs :=
  (isBlobLiteral_iff.1 (isBlobLiteral_format bs)).1

/-- Every literal of a byte string is read, and a text is read as a byte string only if it is a
literal of it or has a plus sign in the first place of a pair of digits, where it counts as zero. All
the rest is refused. What is written for a byte string is read back. -/
theorem parse_blob_iff (text : List Char) (bs : Bytes) :
    (IsBlobLiteral text bs ↔ blob.parse text = .ok bs ∧ '+' ∉ trim text) ∧
    (blob.parse text = .ok bs ↔
      ∃ mark digits, (mark = 'x' ∨ mark = 'X') ∧ trim text = '0' :: mark :: digits ∧
        (zeroSigns digits).map toAsciiLower = bs.toHex) ∧
    FailsOnly (IsBlobRefusal text) (blob.parse text) ∧
    blob.parse (blob.format bs) = .ok bs :=
  ⟨isBlobLiteral_iff, parse_blob_eq_ok_iff, failsOnly_parse_blob text, parse_format_blob bs⟩

/-- A sign and a digit are no pair of hexadecimal digits, and they are read as a byte. -/
theorem signed_digit_is_read :
    blob.parse "0x+f".toList = .ok [0x0f] ∧ ¬IsBlobLiteral "0x+f".toList [0x0f] := by
  refine ⟨by decide +kernel, fun h => ?_⟩
  exact h.not_mem (by decide +kernel)

end CqlWire.Coding
