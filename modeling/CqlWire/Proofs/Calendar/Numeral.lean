import CqlWire.Calendar.Reader
import CqlWire.Proofs.Fallible
import CqlWire.Proofs.Number.Digits
import Mathlib.Data.List.TakeWhile
import Mathlib.Tactic.Ring

/-!
# Numbers in dates and times

Timestamps have numbers of a fixed width (`Numeral`); dates and times in the plain form have numbers
of one or two digits, which white space may stand in front of (`LooseNumeral`). The readers take such
a number off the front of a text and give its value, whatever follows (`digits_eq_ok_iff`), or whatever
does not go on with a digit (`field_text_append`).
-/

namespace CqlWire

open Text (isAsciiDigit isBlank trimStart)

/-- So many digits write a number below that power of ten. -/
theorem ofDigitChars_lt {cs : List Char} (h : ∀ c ∈ cs, isAsciiDigit c = true) :
    Nat.ofDigitChars 10 cs 0 < 10 ^ cs.length := by
  induction cs with
  | nil => exact Nat.one_pos
  | cons c cs ih =>
    have hc := isAsciiDigit_iff.1 (h c List.mem_cons_self)
    have htail := ih fun d hd => h d (List.mem_cons_of_mem _ hd)
    have hzero : '0'.toNat = 48 := rfl
    have hhead : 10 ^ cs.length * (c.toNat - 48) ≤ 10 ^ cs.length * 9 :=
      Nat.mul_le_mul_left _ (by omega)
    rw [Nat.ofDigitChars_cons, Nat.ofDigitChars_eq_ofDigitChars_zero, hzero, Nat.mul_zero,
      Nat.zero_add, List.length_cons, Nat.pow_succ]
    omega

namespace Calendar

variable {s r : List Char} {n : Nat}

/-- The text does not go on with a digit. -/
def NoDigitAhead (s : List Char) : Prop := ∀ c, s.head? = some c → isAsciiDigit c = false

/-! ## Marks -/

theorem mark_eq_ok_iff {c : Char} {u : Unit} : mark c s = .ok (u, r) ↔ s = c :: r := by
  cases s with
  | nil => exact ⟨nofun, nofun⟩
  | cons d s =>
    rw [mark, ite_eq_ok_iff, Prod.mk.injEq, List.cons.injEq]
    exact and_congr_right fun _ => and_iff_right rfl

theorem finish_eq_ok_iff {u : Unit} : finish s = .ok u ↔ s = [] := by
  rw [finish]
  split
  · exact iff_of_true rfl ‹_›
  · exact iff_of_false nofun ‹_›

/-! ## Numbers of a fixed width -/

/-- Digits, as many as the width is. -/
structure Numeral (width : Nat) where
  digits : List Char
  isDigit : ∀ c ∈ digits, isAsciiDigit c = true
  length_eq : digits.length = width

namespace Numeral

variable {width : Nat}

/-- The number that the digits write. -/
def value (m : Numeral width) : Nat := Nat.ofDigitChars 10 m.digits 0

theorem value_lt (m : Numeral width) : m.value < 10 ^ width := by
  have h := ofDigitChars_lt m.isDigit
  rwa [m.length_eq] at h

end Numeral

theorem foldl_digits (ds : List Char) :
    ds.foldl (fun n c => n * 10 + (c.toNat - 48)) 0 = Nat.ofDigitChars 10 ds 0 := by
  rw [Nat.ofDigitChars_eq_foldl]
  refine congrArg (fun f => List.foldl f 0 ds) ?_
  funext n c
  rw [Nat.mul_comm]
  rfl

/-- A number of a fixed width is read from its digits, whatever follows. -/
theorem digits_eq_ok_iff {width : Nat} : digits width s = .ok (n, r) ↔
    ∃ m : Numeral width, s = m.digits ++ r ∧ n = m.value := by
  simp only [digits, foldl_digits]
  constructor
  · intro h
    split at h
    · rename_i hds
      cases h
      exact ⟨⟨s.take width, List.all_eq_true.1 hds.2, hds.1⟩,
        (List.take_append_drop width s).symm, rfl⟩
    · cases h
  · rintro ⟨⟨ds, hdigits, rfl⟩, rfl, rfl⟩
    rw [List.take_left, List.drop_left, if_pos ⟨rfl, List.all_eq_true.2 hdigits⟩]
    rfl

/-- A text that begins with no digit has no number of a fixed width in front. -/
theorem digits_of_noDigitAhead {width : Nat} (hwidth : width ≠ 0) (h : NoDigitAhead s) :
    digits width s = .error .invalid := by
  refine if_neg ?_
  rintro ⟨hlength, hall⟩
  cases s with
  | nil => exact hwidth (by rw [← hlength, List.take_nil]; rfl)
  | cons c s =>
    obtain ⟨w, rfl⟩ := Nat.exists_eq_succ_of_ne_zero hwidth
    rw [List.take_succ_cons, List.all_cons, h c rfl] at hall
    cases hall

/-! ## Numbers of one or two digits -/

/-- One or two digits, which white space may stand in front of. -/
structure LooseNumeral where
  blanks : List Char
  digits : List Char
  isBlank : ∀ c ∈ blanks, isBlank c = true
  isDigit : ∀ c ∈ digits, isAsciiDigit c = true
  ne_nil : digits ≠ []
  length_le : digits.length ≤ 2

namespace LooseNumeral

/-- The number as it is written. -/
def text (m : LooseNumeral) : List Char := m.blanks ++ m.digits

/-- The number that the digits write. -/
def value (m : LooseNumeral) : Nat := Nat.ofDigitChars 10 m.digits 0

end LooseNumeral

/-- White space is taken away up to the first digit. -/
theorem trimStart_append_digits {blanks ds : List Char} (hblanks : ∀ c ∈ blanks, isBlank c = true)
    (hdigits : ∀ c ∈ ds, isAsciiDigit c = true) (hne : ds ≠ []) :
    trimStart (blanks ++ (ds ++ r)) = ds ++ r := by
  refine Text.dropWhile_append hblanks fun c hc => ?_
  rw [List.head?_append, Option.or_of_isSome (List.isSome_head?.2 hne)] at hc
  exact Text.isBlank_of_isWordChar
    (Text.isWordChar_of_isAsciiDigit (hdigits c (List.mem_of_head? hc)))

/-- Up to eighteen digits write a number of eight bytes. -/
theorem readDigits_of_length_le {ds : List Char} (hdigits : ∀ c ∈ ds, isAsciiDigit c = true)
    (hlength : ds.length ≤ 18) :
    readDigits (maxSigned 64).natAbs .tooLarge 0 ds = .ok (Nat.ofDigitChars 10 ds 0) := by
  have hlimit : (maxSigned 64).natAbs = 9223372036854775807 := rfl
  have hlt := ofDigitChars_lt hdigits
  have hpow : 10 ^ ds.length ≤ 10 ^ 18 := Nat.pow_le_pow_right (by decide) hlength
  exact (readDigits_eq_ok_iff (Nat.zero_le _)).2 ⟨hdigits, rfl, by omega⟩

theorem takeWhile_of_noDigitAhead (h : NoDigitAhead s) : s.takeWhile isAsciiDigit = [] := by
  cases s with
  | nil => rfl
  | cons c s => exact List.takeWhile_cons_of_neg (by rw [h c rfl]; exact Bool.false_ne_true)

/-- Every text is the digits in front of it and a text that does not go on with a digit. -/
theorem exists_digits (s : List Char) : ∃ ds rest, s = ds ++ rest ∧
    (∀ c ∈ ds, isAsciiDigit c = true) ∧ NoDigitAhead rest := by
  refine ⟨s.takeWhile isAsciiDigit, s.dropWhile isAsciiDigit,
    List.takeWhile_append_dropWhile.symm, fun c hc => List.mem_takeWhile_imp hc, fun c hc => ?_⟩
  have hnot := List.head?_dropWhile_not isAsciiDigit s
  rwa [hc] at hnot

/-- The digits in front are read, or as many of them as the width allows. -/
theorem number_front {ds rest : List Char} (width : Option Nat)
    (hdigits : ∀ c ∈ ds, isAsciiDigit c = true) (hne : ds ≠ []) (hrest : NoDigitAhead rest)
    (hlength : (width.elim ds ds.take).length ≤ 18) : number width (ds ++ rest) =
      .ok (Nat.ofDigitChars 10 (width.elim ds ds.take) 0,
        (ds ++ rest).drop (width.elim ds ds.take).length) := by
  have hall : (ds ++ rest).takeWhile isAsciiDigit = ds := by
    rw [List.takeWhile_append_of_pos hdigits, takeWhile_of_noDigitAhead hrest, List.append_nil]
  have hfront : ∀ c ∈ width.elim ds ds.take, isAsciiDigit c = true := by
    cases width with
    | none => exact hdigits
    | some w => exact fun c hc => hdigits c (List.mem_of_mem_take hc)
  have hread := readDigits_of_length_le hfront hlength
  cases ds with
  | nil => exact absurd rfl hne
  | cons c ds =>
    have hc : ¬(!isAsciiDigit c) = true := by
      rw [hdigits c List.mem_cons_self]
      exact Bool.false_ne_true
    rw [List.cons_append] at hall ⊢
    cases width <;>
    · dsimp only [Option.elim] at hread ⊢
      simp only [number, if_neg hc, hall, hread]

/-- Of the digits in front as many are read as the width allows. -/
theorem number_append {width : Nat} {ds rest : List Char}
    (hdigits : ∀ c ∈ ds, isAsciiDigit c = true) (hne : ds ≠ []) (hrest : NoDigitAhead rest)
    (hwidth : width ≤ 18) : number (some width) (ds ++ rest) =
      .ok (Nat.ofDigitChars 10 (ds.take width) 0, ds.drop width ++ rest) := by
  have hlength : (ds.take width).length ≤ 18 := Nat.le_trans (List.length_take_le width ds) hwidth
  have hdrop : (ds ++ rest).drop (ds.take width).length = ds.drop width ++ rest := by
    conv_lhs => rw [← List.take_append_drop width ds, List.append_assoc]
    rw [List.drop_left' (by rw [List.take_append_drop])]
  rw [number_front (some width) hdigits hne hrest hlength]
  simp only [Option.elim, hdrop]

/-- Without a width all digits in front are read. -/
theorem number_append_all {ds rest : List Char} (hdigits : ∀ c ∈ ds, isAsciiDigit c = true)
    (hne : ds ≠ []) (hrest : NoDigitAhead rest) (hlength : ds.length ≤ 18) :
    number none (ds ++ rest) = .ok (Nat.ofDigitChars 10 ds 0, rest) := by
  rw [number_front none hdigits hne hrest hlength]
  simp only [Option.elim, List.drop_left]

theorem number_of_noDigitAhead (width : Option Nat) (h : NoDigitAhead s) :
    ∃ e, number width s = .error e := by
  cases s with
  | nil => exact ⟨_, rfl⟩
  | cons c s => exact ⟨_, if_pos (by rw [h c rfl]; rfl)⟩

/-- A number of limited width is read from the digits in front. -/
theorem number_eq_ok_iff {width : Nat} (hwidth : width ≤ 18) :
    number (some width) s = .ok (n, r) ↔ ∃ ds rest, s = ds ++ rest ∧
      (∀ c ∈ ds, isAsciiDigit c = true) ∧ NoDigitAhead rest ∧ ds ≠ [] ∧
      n = Nat.ofDigitChars 10 (ds.take width) 0 ∧ r = ds.drop width ++ rest := by
  constructor
  · intro h
    obtain ⟨ds, rest, rfl, hdigits, hrest⟩ := exists_digits s
    by_cases hne : ds = []
    · subst hne
      obtain ⟨e, he⟩ := number_of_noDigitAhead (some width) hrest
      rw [List.nil_append, he] at h
      cases h
    · rw [number_append hdigits hne hrest hwidth] at h
      cases h
      exact ⟨ds, rest, rfl, hdigits, hrest, hne, rfl, rfl⟩
  · rintro ⟨ds, rest, rfl, hdigits, hrest, hne, rfl, rfl⟩
    exact number_append hdigits hne hrest hwidth

/-- What is read as a number from `lo` to `hi` stands in front. -/
theorem of_field {lo hi : Nat} (h : field lo hi s = .ok (n, r)) : ∃ m : LooseNumeral,
    s = m.text ++ r ∧ lo ≤ m.value ∧ m.value ≤ hi ∧ n = m.value := by
  simp only [field, bind_eq_ok_iff, Prod.exists] at h
  obtain ⟨m, left, hm, hrange⟩ := h
  obtain ⟨ds, rest, hs, hdigits, -, hne, rfl, rfl⟩ := (number_eq_ok_iff (by decide)).1 hm
  obtain ⟨hin, heq⟩ := ite_eq_ok_iff.1 hrange
  cases heq
  refine ⟨⟨s.takeWhile isBlank, ds.take 2, fun c hc => List.mem_takeWhile_imp hc,
    fun c hc => hdigits c (List.mem_of_mem_take hc), ?_, List.length_take_le 2 ds⟩, ?_, hin.1, hin.2,
    rfl⟩
  · rw [Ne, List.take_eq_nil_iff]
    exact not_or.2 ⟨by decide, hne⟩
  · rw [LooseNumeral.text, List.append_assoc, ← List.append_assoc (ds.take 2),
      List.take_append_drop, ← hs]
    exact List.takeWhile_append_dropWhile.symm

/-- A number from `lo` to `hi` is read if no digit follows it. -/
theorem field_text_append {lo hi : Nat} (m : LooseNumeral) (hlo : lo ≤ m.value) (hhi : m.value ≤ hi)
    (hr : NoDigitAhead r) : field lo hi (m.text ++ r) = .ok (m.value, r) := by
  have hstart : trimStart (m.text ++ r) = m.digits ++ r := by
    rw [LooseNumeral.text, List.append_assoc]
    exact trimStart_append_digits m.isBlank m.isDigit m.ne_nil
  refine bind_eq_ok_iff.2 ⟨(m.value, r), ?_, if_pos ⟨hlo, hhi⟩⟩
  rw [hstart, number_append m.isDigit m.ne_nil hr (by decide), List.take_of_length_le m.length_le,
    List.drop_eq_nil_of_le m.length_le]
  rfl

end Calendar

end CqlWire
