import CqlWire.Proofs.Hexadecimal
import CqlWire.Proofs.Text.Utf8
import CqlWire.Uuid
import Mathlib.Algebra.GroupWithZero.Nat

/-!
# UUIDs are read as they were written

Hyphens between groups of digits are where the text is cut again (`groups_hyphenate`), and the
hyphenated text is longer than the digits alone, so that it is read in the one way that gives the
UUID back (`read_toText`).
-/

namespace CqlWire.Uuid

open Text (isWordChar)

/-! ## Groups -/

theorem groups_append {a : List Char} (h : '-' ∉ a) (r : List Char) :
    groups (a ++ '-' :: r) = a :: groups r := by
  induction a with
  | nil => rfl
  | cons c a ih =>
    rw [List.mem_cons, not_or] at h
    rw [List.cons_append, groups, if_neg (Ne.symm h.1), ih h.2]

theorem groups_of_not_mem {a : List Char} (h : '-' ∉ a) : groups a = [a] := by
  induction a with
  | nil => rfl
  | cons c a ih =>
    rw [List.mem_cons, not_or] at h
    rw [groups, if_neg (Ne.symm h.1), ih h.2]

/-- Digits are cut into groups of the lengths that they were written in. -/
theorem groups_hyphenate {ns : List Nat} (hns : ns ≠ []) {digits : List Char}
    (hlen : digits.length = ns.sum) (h : '-' ∉ digits) :
    (groups (hyphenate ns digits)).map List.length = ns ∧
      (groups (hyphenate ns digits)).flatten = digits := by
  fun_induction hyphenate ns digits with
  | case1 => exact absurd rfl hns
  | case2 n digits =>
    rw [groups_of_not_mem h, List.map_cons, hlen, List.flatten_cons]
    exact ⟨by simp, List.append_nil digits⟩
  | case3 n ns digits hne ih =>
    rw [List.sum_cons] at hlen
    have htake : '-' ∉ digits.take n := fun hm => h (List.mem_of_mem_take hm)
    have hdrop : '-' ∉ digits.drop n := fun hm => h (List.mem_of_mem_drop hm)
    obtain ⟨hlens, hflat⟩ := ih hne (by rw [List.length_drop]; omega) hdrop
    have htaken : (digits.take n).length = n := by
      rw [List.length_take]
      omega
    rw [groups_append htake, List.map_cons, hlens, htaken, List.flatten_cons, hflat,
      List.take_append_drop]
    exact ⟨rfl, rfl⟩

/-- There is a hyphen between each two groups. -/
theorem length_hyphenate {ns : List Nat} (hns : ns ≠ []) (digits : List Char) :
    (hyphenate ns digits).length + 1 = digits.length + ns.length := by
  fun_induction hyphenate ns digits with
  | case1 => exact absurd rfl hns
  | case2 => rfl
  | case3 n ns digits hne ih =>
    have := ih hne
    rw [List.length_drop] at this
    rw [List.length_append, List.length_cons, List.length_take, List.length_cons]
    omega

theorem mem_hyphenate {ns : List Nat} {digits : List Char} {c : Char}
    (h : c ∈ hyphenate ns digits) : c = '-' ∨ c ∈ digits := by
  fun_induction hyphenate ns digits with
  | case1 => cases h
  | case2 => exact .inr h
  | case3 n ns digits hne ih =>
    rcases List.mem_append.1 h with h | h
    · exact .inr (List.mem_of_mem_take h)
    · rcases List.mem_cons.1 h with rfl | h
      · exact .inl rfl
      · exact (ih h).imp_right List.mem_of_mem_drop

/-! ## The text of a UUID -/

theorem isWordChar_of_mem_toText {u : Uuid} {c : Char} (h : c ∈ u.toText) :
    isWordChar c = true := by
  rcases mem_hyphenate h with rfl | h
  · rfl
  · exact Bytes.isWordChar_of_mem_toHex h

theorem length_toHex (u : Uuid) : u.1.toHex.length = 32 := by
  rw [Bytes.length_toHex, u.2]

theorem length_toText (u : Uuid) : u.toText.length = 36 := by
  have h := length_hyphenate (show groupLengths ≠ [] by decide) u.1.toHex
  have hgroups : groupLengths.length = 5 := rfl
  rw [length_toHex, hgroups] at h
  exact Nat.succ.inj h

theorem ofDigits?_toHex (u : Uuid) : ofDigits? u.1.toHex = some u := by
  simp only [ofDigits?, Bytes.ofHex?_toHex, dif_pos u.2]

theorem length_of_ofDigits? {s : List Char} {u : Uuid} (h : ofDigits? s = some u) :
    s.length = 32 := by
  unfold ofDigits? at h
  split at h
  · rename_i bs hbs
    split at h
    · rename_i hlen
      rw [Bytes.length_of_ofHex? hbs, hlen]
    · cases h
  · cases h

theorem ofHyphenated?_toText (u : Uuid) : ofHyphenated? u.toText = some u := by
  have hhyphen : '-' ∉ u.1.toHex := by
    intro h
    obtain ⟨n, hn, he⟩ := Bytes.eq_hexDigit_of_mem_toHex h
    exact (hexDigit_ne hn).1 he.symm
  obtain ⟨hlens, hflat⟩ := groups_hyphenate (show groupLengths ≠ [] by decide)
    (length_toHex u) hhyphen
  show (if (groups (hyphenate groupLengths u.1.toHex)).map List.length = groupLengths then _
    else none) = _
  rw [if_pos hlens]
  show ofDigits? (groups (hyphenate groupLengths u.1.toHex)).flatten = _
  rw [hflat, ofDigits?_toHex]

/-- A UUID is read from its text. -/
theorem read_toText (u : Uuid) : read u.toText = .ok u := by
  have hascii : u.toText.all Text.isAscii = true :=
    List.all_eq_true.2 fun c hc => isAscii_of_isWordChar (isWordChar_of_mem_toText hc)
  have hlen : (Utf8.encode u.toText).length = hyphenatedLength := by
    rw [Utf8.encode_of_isAscii hascii, List.length_map, length_toText]
    rfl
  have hpart : hyphenatedPart? u.toText = some u.toText := if_pos hlen
  have hdigits : ofDigits? u.toText = none := by
    cases h : ofDigits? u.toText with
    | none => rfl
    | some v =>
      have := length_of_ofDigits? h
      rw [length_toText] at this
      cases this
  have hrange : ¬((Utf8.encode u.toText).length = 0 ∨
      maxTextLength < (Utf8.encode u.toText).length) := by
    rw [hlen]
    decide
  rw [read, if_neg hrange, hdigits, hpart]
  simp only [ofHyphenated?_toText]

end CqlWire.Uuid
