import CqlWire.Text.Ascii
import CqlWire.Text.Utf8

/-!
# UTF-8 is read as it was written

A character has one spelling (`Spelled`): a lead byte that announces its width, and the continuation
bytes that the lead allows. The reader takes exactly the spelled sequences (`decodeFrom_append`,
`spelled_of_decodeFrom`) and the writer makes exactly them (`spelled_utf8EncodeChar`,
`eq_utf8EncodeChar_of_spelled`), so that

* `decode_eq_ok_iff`: a text is read from its own bytes and from no others.

A text of US-ASCII has a byte for each character (`encode_of_isAscii`).
-/

namespace CqlWire.Utf8

open String (utf8EncodeChar)

/-! ## Bytes as numbers -/

theorem width_eq_one_iff {a : UInt8} : width a = 1 ↔ a.toNat < 0x80 := by
  simp only [width, UInt8.lt_iff_toNat_lt, UInt8.toNat_ofNat]
  grind

theorem width_eq_two_iff {a : UInt8} : width a = 2 ↔ 0xC2 ≤ a.toNat ∧ a.toNat < 0xE0 := by
  simp only [width, UInt8.lt_iff_toNat_lt, UInt8.toNat_ofNat]
  grind

theorem width_eq_three_iff {a : UInt8} : width a = 3 ↔ 0xE0 ≤ a.toNat ∧ a.toNat < 0xF0 := by
  simp only [width, UInt8.lt_iff_toNat_lt, UInt8.toNat_ofNat]
  grind

theorem width_eq_four_iff {a : UInt8} : width a = 4 ↔ 0xF0 ≤ a.toNat ∧ a.toNat < 0xF5 := by
  simp only [width, UInt8.lt_iff_toNat_lt, UInt8.toNat_ofNat]
  grind

theorem isTail_iff {b : UInt8} : isTail b = true ↔ 0x80 ≤ b.toNat ∧ b.toNat ≤ 0xBF := by
  simp [isTail, UInt8.le_iff_toNat_le]

theorem isSecond_iff {a b : UInt8} : isSecond a b = true ↔
    0x80 ≤ b.toNat ∧ b.toNat ≤ 0xBF ∧ (a.toNat = 0xE0 → 0xA0 ≤ b.toNat) ∧
      (a.toNat = 0xED → b.toNat ≤ 0x9F) ∧ (a.toNat = 0xF0 → 0x90 ≤ b.toNat) ∧
      (a.toNat = 0xF4 → b.toNat ≤ 0x8F) := by
  simp only [isSecond, isTail, UInt8.le_iff_toNat_le, ← UInt8.toNat_inj, UInt8.toNat_ofNat]
  grind

theorem toNat_of_eq {n : Nat} {b : UInt8} (e : b = UInt8.ofNat n) (h : n < 256) : b.toNat = n := by
  rw [e, UInt8.toNat_ofNat', Nat.mod_eq_of_lt h]

theorem ofNat_of_toNat {n : Nat} {b : UInt8} (h : n = b.toNat) : UInt8.ofNat n = b := by
  rw [h, UInt8.ofNat_toNat]

/-- The numbers that are code points. -/
theorem codePoint_bounds (c : Char) :
    c.toNat < 0xD800 ∨ 0xDFFF < c.toNat ∧ c.toNat < 0x110000 :=
  c.valid

theorem char_of_toNat {n : Nat} {c : Char} (h : n = c.toNat) : Char.ofNat n = c :=
  h ▸ Char.ofNat_toNat c

theorem toNat_char {n : Nat} (h : n < 0xD800 ∨ 0xDFFF < n ∧ n < 0x110000) :
    (Char.ofNat n).toNat = n := by
  rw [Char.ofNat, dif_pos h]
  rfl

/-! ## Spellings -/

/-- The bytes spell the character: a lead byte and as many continuation bytes as it announces. -/
inductive Spelled : Bytes → Char → Prop where
  | one {a : UInt8} (hw : width a = 1) : Spelled [a] (codePoint a 7 [])
  | two {a b : UInt8} (hw : width a = 2) (hb : isTail b = true) : Spelled [a, b] (codePoint a 5 [b])
  | three {a b c : UInt8} (hw : width a = 3) (hb : isSecond a b = true) (hc : isTail c = true) :
    Spelled [a, b, c] (codePoint a 4 [b, c])
  | four {a b c d : UInt8} (hw : width a = 4) (hb : isSecond a b = true) (hc : isTail c = true)
    (hd : isTail d = true) : Spelled [a, b, c, d] (codePoint a 3 [b, c, d])

/-- A spelled character is read as that character. -/
theorem decodeFrom_append {bs : Bytes} {c : Char} (h : Spelled bs c) (index : Nat) (r : Bytes) :
    decodeFrom index (bs ++ r) = (decodeFrom (index + bs.length) r).map (c :: ·) := by
  cases h with
  | one hw => simp only [List.cons_append, List.nil_append, decodeFrom, hw]; rfl
  | two hw hb => simp only [List.cons_append, List.nil_append, decodeFrom, hw, hb, if_true]; rfl
  | three hw hb hc =>
    simp only [List.cons_append, List.nil_append, decodeFrom, hw, hb, hc, Bool.not_true,
      Bool.false_eq_true, if_false]
    rfl
  | four hw hb hc hd =>
    simp only [List.cons_append, List.nil_append, decodeFrom, hw, hb, hc, hd, Bool.not_true,
      Bool.false_eq_true, if_false]
    rfl

/-- What is read without refusal begins with a spelled character. -/
theorem spelled_of_decodeFrom {index : Nat} {bs : Bytes} {s : List Char}
    (h : decodeFrom index bs = .ok s) :
    bs = [] ∧ s = [] ∨ ∃ head c rest s', bs = head ++ rest ∧ s = c :: s' ∧ Spelled head c ∧
      decodeFrom (index + head.length) rest = .ok s' := by
  have mapped : ∀ {x : Except Refusal (List Char)} {c : Char}, x.map (c :: ·) = .ok s →
      ∃ s', s = c :: s' ∧ x = .ok s' := by
    intro x c hx
    cases x with
    | error e => cases hx
    | ok s' => exact ⟨s', (Except.ok.inj hx).symm, rfl⟩
  unfold decodeFrom at h
  split at h
  · exact .inl ⟨rfl, (Except.ok.inj h).symm⟩
  refine .inr ?_
  rename_i a rest
  split at h
  · rename_i hw
    obtain ⟨s', rfl, hs⟩ := mapped h
    exact ⟨[a], _, _, s', rfl, rfl, .one hw, hs⟩
  · rename_i b r hw
    split at h
    · rename_i hb
      obtain ⟨s', rfl, hs⟩ := mapped h
      exact ⟨[a, b], _, _, s', rfl, rfl, .two hw hb, hs⟩
    · cases h
  · rename_i b c r hw
    split at h
    · cases h
    · split at h
      · cases h
      · rename_i hb hc
        obtain ⟨s', rfl, hs⟩ := mapped h
        exact ⟨[a, b, c], _, _, s', rfl, rfl, .three hw (by simpa using hb) (by simpa using hc), hs⟩
  · rename_i b c d r hw
    split at h
    · cases h
    · split at h
      · cases h
      · split at h
        · cases h
        · rename_i hb hc hd
          obtain ⟨s', rfl, hs⟩ := mapped h
          exact ⟨[a, b, c, d], _, _, s', rfl, rfl,
            .four hw (by simpa using hb) (by simpa using hc) (by simpa using hd), hs⟩
  -- the bytes end inside a character, or none begins here
  all_goals repeat' split at h
  all_goals cases h

/-! ## The writer -/

/-- The bytes of a character, by the size of its code point. -/
theorem utf8EncodeChar_cases (c : Char) :
    (c.toNat < 0x80 ∧ utf8EncodeChar c = [UInt8.ofNat c.toNat]) ∨
    (0x80 ≤ c.toNat ∧ c.toNat < 0x800 ∧ utf8EncodeChar c =
      [UInt8.ofNat (c.toNat / 64 + 0xC0), UInt8.ofNat (c.toNat % 64 + 0x80)]) ∨
    (0x800 ≤ c.toNat ∧ c.toNat < 0x10000 ∧ utf8EncodeChar c =
      [UInt8.ofNat (c.toNat / 4096 + 0xE0), UInt8.ofNat (c.toNat / 64 % 64 + 0x80),
        UInt8.ofNat (c.toNat % 64 + 0x80)]) ∨
    (0x10000 ≤ c.toNat ∧ utf8EncodeChar c =
      [UInt8.ofNat (c.toNat / 262144 + 0xF0), UInt8.ofNat (c.toNat / 4096 % 64 + 0x80),
        UInt8.ofNat (c.toNat / 64 % 64 + 0x80), UInt8.ofNat (c.toNat % 64 + 0x80)]) := by
  have hc := codePoint_bounds c
  simp only [utf8EncodeChar, show c.val.toNat = c.toNat from rfl]
  generalize c.toNat = n at hc
  rcases (by omega : n < 0x80 ∨ (0x80 ≤ n ∧ n < 0x800) ∨ (0x800 ≤ n ∧ n < 0x10000) ∨ 0x10000 ≤ n)
    with h | h | h | h
  · refine .inl ⟨h, ?_⟩
    rw [if_pos (by omega)]
  · refine .inr (.inl ⟨h.1, h.2, ?_⟩)
    rw [if_neg (by omega), if_pos (by omega), Nat.mod_eq_of_lt (by omega)]
  · refine .inr (.inr (.inl ⟨h.1, h.2, ?_⟩))
    rw [if_neg (by omega), if_neg (by omega), if_pos (by omega),
      Nat.mod_eq_of_lt (a := n / 4096) (by omega)]
  · refine .inr (.inr (.inr ⟨h, ?_⟩))
    rw [if_neg (by omega), if_neg (by omega), if_neg (by omega),
      Nat.mod_eq_of_lt (a := n / 262144) (by omega)]

/-- The bytes of a character spell it. -/
theorem spelled_utf8EncodeChar (c : Char) : Spelled (utf8EncodeChar c) c := by
  have hc := codePoint_bounds c
  rcases utf8EncodeChar_cases c with ⟨h, e⟩ | ⟨h, h', e⟩ | ⟨h, h', e⟩ | ⟨h, e⟩ <;> rw [e]
  · generalize ha : UInt8.ofNat c.toNat = a
    have va := toNat_of_eq ha.symm (by omega)
    have hp : codePoint a 7 [] = c := char_of_toNat (by simp [va]; omega)
    exact hp ▸ .one (width_eq_one_iff.2 (by omega))
  · generalize ha : UInt8.ofNat (c.toNat / 64 + 0xC0) = a
    generalize hb : UInt8.ofNat (c.toNat % 64 + 0x80) = b
    have va := toNat_of_eq ha.symm (by omega)
    have vb := toNat_of_eq hb.symm (by omega)
    have hp : codePoint a 5 [b] = c := char_of_toNat (by simp [va, vb]; omega)
    exact hp ▸ .two (width_eq_two_iff.2 (by omega)) (isTail_iff.2 (by omega))
  · generalize ha : UInt8.ofNat (c.toNat / 4096 + 0xE0) = a
    generalize hb : UInt8.ofNat (c.toNat / 64 % 64 + 0x80) = b
    generalize hd : UInt8.ofNat (c.toNat % 64 + 0x80) = d
    have va := toNat_of_eq ha.symm (by omega)
    have vb := toNat_of_eq hb.symm (by omega)
    have vd := toNat_of_eq hd.symm (by omega)
    have hp : codePoint a 4 [b, d] = c := char_of_toNat (by simp [va, vb, vd]; omega)
    exact hp ▸ .three (width_eq_three_iff.2 (by omega)) (isSecond_iff.2 (by omega))
      (isTail_iff.2 (by omega))
  · generalize ha : UInt8.ofNat (c.toNat / 262144 + 0xF0) = a
    generalize hb : UInt8.ofNat (c.toNat / 4096 % 64 + 0x80) = b
    generalize hd : UInt8.ofNat (c.toNat / 64 % 64 + 0x80) = d
    generalize hf : UInt8.ofNat (c.toNat % 64 + 0x80) = f
    have va := toNat_of_eq ha.symm (by omega)
    have vb := toNat_of_eq hb.symm (by omega)
    have vd := toNat_of_eq hd.symm (by omega)
    have vf := toNat_of_eq hf.symm (by omega)
    have hp : codePoint a 3 [b, d, f] = c := char_of_toNat (by simp [va, vb, vd, vf]; omega)
    exact hp ▸ .four (width_eq_four_iff.2 (by omega)) (isSecond_iff.2 (by omega))
      (isTail_iff.2 (by omega)) (isTail_iff.2 (by omega))

/-- No other bytes spell a character. -/
theorem eq_utf8EncodeChar_of_spelled {bs : Bytes} {c : Char} (h : Spelled bs c) :
    utf8EncodeChar c = bs := by
  cases h with
  | @one a hw =>
    rw [width_eq_one_iff] at hw
    have hn : (codePoint a 7 []).toNat = a.toNat := by
      rw [codePoint, toNat_char]
      · simpa using hw
      · simp
        omega
    rcases utf8EncodeChar_cases (codePoint a 7 []) with ⟨h, e⟩ | ⟨h, h', e⟩ | ⟨h, h', e⟩ | ⟨h, e⟩
    · rw [e, ofNat_of_toNat hn]
    all_goals omega
  | @two a b hw hb =>
    rw [width_eq_two_iff] at hw
    rw [isTail_iff] at hb
    have hn : (codePoint a 5 [b]).toNat = a.toNat % 32 * 64 + b.toNat % 64 := by
      rw [codePoint, toNat_char]
      · simp
      · simp
        omega
    rcases utf8EncodeChar_cases (codePoint a 5 [b]) with ⟨h, e⟩ | ⟨h, h', e⟩ | ⟨h, h', e⟩ | ⟨h, e⟩
    · omega
    · rw [e, ofNat_of_toNat (b := a) (by omega), ofNat_of_toNat (b := b) (by omega)]
    all_goals omega
  | @three a b d hw hb hd =>
    rw [width_eq_three_iff] at hw
    rw [isSecond_iff] at hb
    rw [isTail_iff] at hd
    have hn : (codePoint a 4 [b, d]).toNat =
        (a.toNat % 16 * 64 + b.toNat % 64) * 64 + d.toNat % 64 := by
      rw [codePoint, toNat_char]
      · simp
      · simp
        omega
    rcases utf8EncodeChar_cases (codePoint a 4 [b, d]) with
      ⟨h, e⟩ | ⟨h, h', e⟩ | ⟨h, h', e⟩ | ⟨h, e⟩
    · omega
    · omega
    · rw [e, ofNat_of_toNat (b := a) (by omega), ofNat_of_toNat (b := b) (by omega),
        ofNat_of_toNat (b := d) (by omega)]
    · omega
  | @four a b d f hw hb hd hf =>
    rw [width_eq_four_iff] at hw
    rw [isSecond_iff] at hb
    rw [isTail_iff] at hd hf
    have hn : (codePoint a 3 [b, d, f]).toNat =
        ((a.toNat % 8 * 64 + b.toNat % 64) * 64 + d.toNat % 64) * 64 + f.toNat % 64 := by
      rw [codePoint, toNat_char]
      · simp
      · simp
        omega
    rcases utf8EncodeChar_cases (codePoint a 3 [b, d, f]) with
      ⟨h, e⟩ | ⟨h, h', e⟩ | ⟨h, h', e⟩ | ⟨h, e⟩
    · omega
    · omega
    · omega
    · rw [e, ofNat_of_toNat (b := a) (by omega), ofNat_of_toNat (b := b) (by omega),
        ofNat_of_toNat (b := d) (by omega), ofNat_of_toNat (b := f) (by omega)]

/-! ## Whole texts -/

theorem encode_cons (c : Char) (s : List Char) :
    encode (c :: s) = utf8EncodeChar c ++ encode s := by
  simp [encode]

/-- Each character has at least one byte. -/
theorem length_le_length_encode (s : List Char) : s.length ≤ (encode s).length := by
  induction s with
  | nil => exact Nat.le_refl 0
  | cons c s ih =>
    have hbytes := String.length_utf8EncodeChar c
    have hpos := c.utf8Size_pos
    rw [encode_cons, List.length_append, List.length_cons]
    omega

theorem decodeFrom_encode (index : Nat) (s : List Char) : decodeFrom index (encode s) = .ok s := by
  induction s generalizing index with
  | nil => rfl
  | cons c s ih =>
    rw [encode_cons, decodeFrom_append (spelled_utf8EncodeChar c), ih]
    rfl

theorem encode_of_decodeFrom {index : Nat} {bs : Bytes} {s : List Char}
    (h : decodeFrom index bs = .ok s) : encode s = bs := by
  induction s generalizing index bs with
  | nil =>
    rcases spelled_of_decodeFrom h with ⟨rfl, -⟩ | ⟨_, _, _, _, _, hs, _⟩
    · rfl
    · cases hs
  | cons c s ih =>
    rcases spelled_of_decodeFrom h with ⟨-, hs⟩ | ⟨head, c', rest, s', rfl, hs, hc, hr⟩
    · cases hs
    · obtain ⟨rfl, rfl⟩ := List.cons.inj hs
      rw [encode_cons, eq_utf8EncodeChar_of_spelled hc, ih hr]

/-- A text is read from its own bytes and from no others. -/
theorem decode_eq_ok_iff {bs : Bytes} {s : List Char} : decode bs = .ok s ↔ encode s = bs :=
  ⟨encode_of_decodeFrom, fun h => h ▸ decodeFrom_encode 0 s⟩

theorem decode_encode (s : List Char) : decode (encode s) = .ok s :=
  decodeFrom_encode 0 s

/-! ## US-ASCII -/

/-- A character of US-ASCII is one byte, that of its number. -/
theorem encode_of_isAscii {s : List Char} (h : s.all Text.isAscii = true) :
    encode s = s.map fun c => UInt8.ofNat c.toNat := by
  induction s with
  | nil => rfl
  | cons c s ih =>
    rw [List.all_cons, Bool.and_eq_true] at h
    have hc : c.toNat < 128 := of_decide_eq_true h.1
    have hu : String.utf8EncodeChar c = [UInt8.ofNat c.toNat] := by
      rw [String.utf8EncodeChar]
      exact if_pos (by show c.toNat ≤ 0x7f; omega)
    rw [encode_cons, ih h.2, hu]
    rfl

end CqlWire.Utf8
