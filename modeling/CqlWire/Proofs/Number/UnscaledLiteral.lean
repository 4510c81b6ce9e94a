import CqlWire.Number.Decimal
import CqlWire.Proofs.Fallible
import CqlWire.Proofs.Number.Digits
import CqlWire.Proofs.Text.Trim
import Mathlib.Algebra.Order.Field.Rat
import Mathlib.Data.List.TakeWhile
import Mathlib.Tactic.FieldSimp
import Mathlib.Tactic.Ring

/-!
# The grammar of decimal literals

An `UnscaledLiteral` is a sign, digits with an optional point among them, and an optional exponent.
It writes a number (`UnscaledLiteral.number`): the integer of all its digits, at a scale that is the
number of its fraction digits less its exponent (`number_toUnscaled`).

Reading cuts a text at its exponent mark and at its point (`read_eq_ok_iff_of_cut`). So what is read
is the integer and the scale of a literal that stands in the text, where these are in range, and
every literal is read where they are (`UnscaledDecimal.read_eq_ok_iff`).
-/

namespace CqlWire

open Text (isAsciiDigit trim)

/-! ## Literals -/

/-- The mark in front of an exponent. -/
def isExponentMark (c : Char) : Bool := c == 'e' || c == 'E'

/-- An exponent with its mark. -/
structure ExponentPart where
  mark : Char
  sign : Sign
  digits : List Char
  isMark : isExponentMark mark = true
  isDigit : ∀ c ∈ digits, isAsciiDigit c = true
  ne_nil : digits ≠ []

namespace ExponentPart

/-- The power of ten. -/
def value (e : ExponentPart) : Int := e.sign.factor * Nat.ofDigitChars 10 e.digits 0

/-- What stands behind the mark. -/
def signed (e : ExponentPart) : List Char := e.sign.text ++ e.digits

/-- The exponent as it is written. -/
def text (e : ExponentPart) : List Char := e.mark :: e.signed

/-- The power of ten is what is read behind the mark, if it is in range. -/
theorem readSigned_signed_iff (e : ExponentPart) {bits : Nat} {n : Int} :
    readSigned bits e.signed = .ok n ↔ n = e.value ∧ fitsSigned bits n = true := by
  obtain ⟨mark, sign, digits, -, hdigits, hne⟩ := e
  cases digits with
  | nil => exact absurd rfl hne
  | cons c cs =>
    have hc := ne_sign_of_isAsciiDigit (hdigits c List.mem_cons_self)
    exact (readSigned_sign_append_iff sign fun _ => hc).trans (and_iff_right hdigits)

end ExponentPart

/-- A decimal literal: a sign, digits with an optional point among them, and an optional exponent.
There may be no digit in front of the point, or none behind it, but not both. -/
structure UnscaledLiteral where
  sign : Sign
  whole : List Char
  /-- The digits behind the point, if there is a point. -/
  fraction? : Option (List Char)
  exponent? : Option ExponentPart
  isDigit : ∀ c ∈ whole ++ fraction?.getD [], isAsciiDigit c = true
  ne_nil : whole ++ fraction?.getD [] ≠ []

namespace UnscaledLiteral

/-- The digits behind the point. -/
def fraction (l : UnscaledLiteral) : List Char := l.fraction?.getD []

/-- The power of ten by which the literal ends, or zero. -/
def exponent (l : UnscaledLiteral) : Int := l.exponent?.elim 0 ExponentPart.value

/-- The literal as it is written, up to the exponent. -/
def mantissa (l : UnscaledLiteral) : List Char :=
  (l.sign.text ++ l.whole) ++ l.fraction?.elim [] ('.' :: ·)

/-- The literal as it is written. -/
def text (l : UnscaledLiteral) : List Char :=
  l.mantissa ++ l.exponent?.elim [] ExponentPart.text

/-- The integer of all digits, without regard to the point. -/
def integer (l : UnscaledLiteral) : Int :=
  l.sign.factor * Nat.ofDigitChars 10 (l.whole ++ l.fraction) 0

/-- The number of fraction digits less the exponent. -/
def scale (l : UnscaledLiteral) : Int := l.fraction.length - l.exponent

/-- The decimal that a column holds for the literal. -/
def toUnscaled (l : UnscaledLiteral) : UnscaledDecimal := ⟨l.integer, l.scale⟩

/-- The number that the literal writes: its digits in front of the point and the fraction behind it,
times a power of ten. -/
def number (l : UnscaledLiteral) : ℚ :=
  l.sign.factor *
    (Nat.ofDigitChars 10 l.whole 0 + Nat.ofDigitChars 10 l.fraction 0 / 10 ^ l.fraction.length) *
      10 ^ l.exponent

end UnscaledLiteral

/-- The number itself. -/
def UnscaledDecimal.number (d : UnscaledDecimal) : ℚ := d.unscaled * 10 ^ (-d.scale)

/-- The integer at the scale is the number that the literal writes. -/
theorem UnscaledLiteral.number_toUnscaled (l : UnscaledLiteral) :
    l.toUnscaled.number = l.number := by
  have hten : (10 : ℚ) ≠ 0 := by norm_num
  have hdigits : (Nat.ofDigitChars 10 (l.whole ++ l.fraction) 0 : ℚ) =
      10 ^ l.fraction.length * Nat.ofDigitChars 10 l.whole 0 +
        Nat.ofDigitChars 10 l.fraction 0 := by
    rw [Nat.ofDigitChars_append, Nat.ofDigitChars_eq_ofDigitChars_zero]
    push_cast
    ring
  have hpower : (10 : ℚ) ^ (-l.scale) = 10 ^ l.exponent / 10 ^ l.fraction.length := by
    rw [scale, neg_sub, zpow_sub₀ hten, zpow_natCast]
  rw [UnscaledDecimal.number, toUnscaled, hpower, integer, Int.cast_mul, Int.cast_natCast, hdigits,
    number]
  field_simp

/-! ## Cutting a text -/

namespace UnscaledDecimal

theorem cutAt_of_forall {p : Char → Bool} {s : List Char} (h : ∀ c ∈ s, p c = false) :
    cutAt p s = (s, none) := by
  have hneg : ∀ c ∈ s, (!p c) = true := fun c hc => by rw [h c hc]; rfl
  rw [cutAt, List.takeWhile_eq_self_iff.2 hneg, List.dropWhile_eq_nil_iff.2 hneg]
  rfl

theorem cutAt_append {p : Char → Bool} {s r : List Char} {c : Char} (h : ∀ c ∈ s, p c = false)
    (hc : p c = true) : cutAt p (s ++ c :: r) = (s, some r) := by
  have hneg : ∀ c ∈ s, (!p c) = true := fun c hc => by rw [h c hc]; rfl
  rw [cutAt, List.takeWhile_append_of_pos hneg, List.dropWhile_append_of_pos hneg]
  simp only [List.takeWhile_cons, List.dropWhile_cons, hc, Bool.not_true, Bool.false_eq_true,
    if_false, List.append_nil, List.tail?_cons]

/-- A text that is cut nowhere is its first part. -/
theorem eq_of_cutAt_none {p : Char → Bool} {s a : List Char} (h : cutAt p s = (a, none)) :
    s = a := by
  obtain ⟨rfl, hrest⟩ := Prod.mk.inj h
  cases hdrop : s.dropWhile (!p ·) with
  | nil =>
    conv_lhs => rw [← List.takeWhile_append_dropWhile (p := (!p ·)) (l := s), hdrop]
    exact List.append_nil _
  | cons c r =>
    rw [hdrop] at hrest
    cases hrest

/-- A text that is cut is its two parts with a character of the kind between them. -/
theorem eq_of_cutAt_some {p : Char → Bool} {s a b : List Char} (h : cutAt p s = (a, some b)) :
    ∃ c, p c = true ∧ s = a ++ c :: b := by
  obtain ⟨rfl, hrest⟩ := Prod.mk.inj h
  cases hdrop : s.dropWhile (!p ·) with
  | nil =>
    rw [hdrop] at hrest
    cases hrest
  | cons c r =>
    rw [hdrop] at hrest
    cases hrest
    have hc : (!p c) = false := Text.head?_dropWhile_eq_false (by rw [hdrop]; rfl)
    refine ⟨c, by simpa using hc, ?_⟩
    conv_lhs => rw [← List.takeWhile_append_dropWhile (p := (!p ·)) (l := s), hdrop]

/-- What the text behind an exponent mark is read as; without a mark the exponent is zero. -/
def ReadsExponent (exponent? : Option (List Char)) (e : Int) : Prop :=
  match exponent? with
  | none => 0 = e
  | some s => readSigned 32 s = .ok e

/-- A literal is read by its parts: its digits in front of the point and behind it, and its
exponent. -/
theorem read_eq_ok_iff_of_cut {text mantissa whole : List Char}
    {exponent? fraction? : Option (List Char)} {d : UnscaledDecimal}
    (hmark : cutAt isExponentMark (trim text) = (mantissa, exponent?))
    (hpoint : cutAt (· == '.') mantissa = (whole, fraction?)) : read text = .ok d ↔
      ∃ e, ReadsExponent exponent? e ∧
        ¬((fraction?.getD []).any fun c => c == '-' || c == '+') = true ∧
        ∃ u, readSigned 128 (whole ++ fraction?.getD []) = .ok u ∧
          (fitsSigned 32 (fraction?.getD []).length = true ∧
            fitsSigned 32 ((fraction?.getD []).length - e) = true) ∧
          ⟨u, (fraction?.getD []).length - e⟩ = d := by
  have hmark' : cutAt (fun c => c == 'e' || c == 'E') (trim text) = (mantissa, exponent?) := hmark
  cases exponent? <;>
    simp only [read, hmark', hpoint, bind_eq_ok_iff, refuseIf_eq_ok_iff, mapError_eq_ok_iff,
      pure_eq_ok_iff, ite_eq_ok_iff, exists_const, ReadsExponent]

/-! ## Reading a literal -/

/-- Neither a sign nor a digit divides a literal. -/
theorem divides_nothing {c : Char} (h : c = '+' ∨ c = '-' ∨ isAsciiDigit c = true) :
    isExponentMark c = false ∧ (c == '.') = false := by
  rcases h with rfl | rfl | h
  · decide
  · decide
  · constructor
    · rw [isExponentMark, Bool.or_eq_false_iff, beq_eq_false_iff_ne, beq_eq_false_iff_ne]
      constructor <;> rintro rfl <;> cases h
    · rw [beq_eq_false_iff_ne]
      rintro rfl
      cases h

end UnscaledDecimal

namespace UnscaledLiteral

open UnscaledDecimal

variable (l : UnscaledLiteral)

/-- In front of the point stand a sign and digits. -/
theorem of_mem_sign_append_whole {c : Char} (h : c ∈ l.sign.text ++ l.whole) :
    c = '+' ∨ c = '-' ∨ isAsciiDigit c = true := by
  rcases List.mem_append.1 h with h | h
  · exact (Sign.of_mem_text h).imp_right .inl
  · exact .inr (.inr (l.isDigit c (List.mem_append_left _ h)))

theorem isDigit_of_mem_fraction {c : Char} (h : c ∈ l.fraction) : isAsciiDigit c = true :=
  l.isDigit c (List.mem_append_right _ h)

/-- A literal has no more fraction digits than characters. -/
theorem length_fraction_le : l.fraction.length ≤ l.text.length := by
  have hmantissa : l.fraction.length ≤ l.mantissa.length := by
    rw [fraction, mantissa, List.length_append]
    cases l.fraction? with
    | none => exact Nat.zero_le _
    | some fraction =>
      show fraction.length ≤ _ + (fraction.length + 1)
      omega
  rw [text, List.length_append]
  omega

/-- Up to the exponent there is no mark of one. -/
theorem isExponentMark_of_mem_mantissa {c : Char} (h : c ∈ l.mantissa) :
    isExponentMark c = false := by
  rw [mantissa, List.mem_append] at h
  rcases h with h | h
  · exact (divides_nothing (l.of_mem_sign_append_whole h)).1
  · cases hfraction : l.fraction? with
    | none =>
      rw [hfraction] at h
      cases h
    | some fraction =>
      rw [hfraction] at h
      rcases List.mem_cons.1 h with rfl | h
      · rfl
      · have hmem : c ∈ l.fraction := by rwa [UnscaledLiteral.fraction, hfraction]
        exact (divides_nothing (.inr (.inr (l.isDigit_of_mem_fraction hmem)))).1

theorem cutAt_text :
    cutAt isExponentMark l.text = (l.mantissa, l.exponent?.map ExponentPart.signed) := by
  have hmantissa : ∀ c ∈ l.mantissa, isExponentMark c = false := fun c hc =>
    l.isExponentMark_of_mem_mantissa hc
  rw [text]
  cases l.exponent? with
  | none => rw [Option.elim_none, List.append_nil, cutAt_of_forall hmantissa, Option.map_none]
  | some e =>
    rw [Option.elim_some, ExponentPart.text, cutAt_append hmantissa e.isMark, Option.map_some]

theorem cutAt_mantissa : cutAt (· == '.') l.mantissa = (l.sign.text ++ l.whole, l.fraction?) := by
  have hwhole : ∀ c ∈ l.sign.text ++ l.whole, (c == '.') = false := fun c hc =>
    (divides_nothing (l.of_mem_sign_append_whole hc)).2
  rw [mantissa]
  cases l.fraction? with
  | none => rw [Option.elim_none, List.append_nil, cutAt_of_forall hwhole]
  | some fraction => exact cutAt_append hwhole (show ('.' == '.') = true from rfl)

/-- A literal whose integer and exponent are in range is read or refused for its scale. -/
theorem read_text_eq {text : List Char} (htext : trim text = l.text)
    (hinteger : fitsSigned 128 l.integer = true) (hexponent : fitsSigned 32 l.exponent = true) :
    UnscaledDecimal.read text =
      if fitsSigned 32 l.fraction.length = true ∧ fitsSigned 32 l.scale = true then .ok l.toUnscaled
      else .error .scale := by
  have hmark : cutAt (fun c => c == 'e' || c == 'E') (trim text) = _ := htext ▸ l.cutAt_text
  have hsign : ¬(l.fraction.any fun c => c == '-' || c == '+') = true := by
    rw [List.any_eq_true]
    rintro ⟨c, hc, hsign⟩
    have hne := ne_sign_of_isAsciiDigit (l.isDigit_of_mem_fraction hc)
    simp only [Bool.or_eq_true, beq_iff_eq] at hsign
    exact hsign.elim hne.2 hne.1
  have hkept : refuseIf _ DecimalError.signInFraction = .ok () := refuseIf_eq_ok_iff.2 hsign
  have hdigits : readSigned 128 (l.sign.text ++ l.whole ++ l.fraction) = .ok l.integer := by
    rw [List.append_assoc]
    exact readSigned_eq_ok_iff.2 ⟨l.sign, _, rfl, l.ne_nil, l.isDigit, rfl, hinteger⟩
  have hfraction : l.fraction?.getD [] = l.fraction := rfl
  rw [exponent] at hexponent
  simp only [UnscaledDecimal.read, hmark, l.cutAt_mantissa, hfraction, hkept, hdigits]
  cases he : l.exponent? with
  | none =>
    have hscale : l.scale = l.fraction.length - 0 := by rw [scale, exponent, he]; rfl
    rw [toUnscaled, hscale]
    rfl
  | some e =>
    rw [he] at hexponent
    have hscale : l.scale = l.fraction.length - e.value := by rw [scale, exponent, he]; rfl
    have hread : readSigned 32 e.signed = .ok e.value :=
      e.readSigned_signed_iff.2 ⟨rfl, hexponent⟩
    simp only [Option.map_some, hread, toUnscaled, hscale]
    rfl

/-- A literal whose parts are in range is read. -/
theorem read_text {text : List Char} (htext : trim text = l.text)
    (hinteger : fitsSigned 128 l.integer = true) (hexponent : fitsSigned 32 l.exponent = true)
    (hcount : fitsSigned 32 l.fraction.length = true) (hscale : fitsSigned 32 l.scale = true) :
    UnscaledDecimal.read text = .ok l.toUnscaled := by
  rw [read_text_eq l htext hinteger hexponent, if_pos ⟨hcount, hscale⟩]

/-- A literal with too many fraction digits is refused, whatever its scale would be. -/
theorem read_text_of_count {text : List Char} (htext : trim text = l.text)
    (hinteger : fitsSigned 128 l.integer = true) (hexponent : fitsSigned 32 l.exponent = true)
    (hcount : ¬fitsSigned 32 l.fraction.length = true) :
    UnscaledDecimal.read text = .error .scale := by
  rw [read_text_eq l htext hinteger hexponent, if_neg fun h => hcount h.1]

/-- A literal whose exponent is out of range is refused for that, whatever its scale would be. -/
theorem read_text_of_exponent {text : List Char} (htext : trim text = l.text)
    (hexponent : ¬fitsSigned 32 l.exponent = true) :
    UnscaledDecimal.read text = .error .exponent := by
  have hmark : cutAt (fun c => c == 'e' || c == 'E') (trim text) = _ := htext ▸ l.cutAt_text
  rw [exponent] at hexponent
  cases he : l.exponent? with
  | none =>
    rw [he] at hexponent
    exact absurd rfl hexponent
  | some e =>
    rw [he] at hexponent hmark
    cases hread : readSigned 32 e.signed with
    | ok n =>
      obtain ⟨rfl, hfit⟩ := e.readSigned_signed_iff.1 hread
      exact absurd hfit hexponent
    | error reason =>
      simp only [UnscaledDecimal.read, hmark, Option.map_some, hread]
      rfl

end UnscaledLiteral

namespace UnscaledDecimal

/-! ## What is read is a literal -/

/-- The exponent of a text that is read, with the mark in front of it. -/
theorem exists_exponent {s mantissa : List Char} {exponent? : Option (List Char)} {e : Int}
    (hmark : cutAt isExponentMark s = (mantissa, exponent?)) (he : ReadsExponent exponent? e) :
    ∃ x? : Option ExponentPart, s = mantissa ++ x?.elim [] ExponentPart.text ∧
      x?.elim 0 ExponentPart.value = e ∧ fitsSigned 32 e = true := by
  cases exponent? with
  | none =>
    obtain rfl : 0 = e := he
    exact ⟨none, by rw [eq_of_cutAt_none hmark]; exact (List.append_nil _).symm, rfl, rfl⟩
  | some t =>
    obtain ⟨mark, isMark, rfl⟩ := eq_of_cutAt_some hmark
    obtain ⟨sign, digits, rfl, hne, hdigits, rfl, hfit⟩ := readSigned_eq_ok_iff.1 he
    exact ⟨some ⟨mark, sign, digits, isMark, hdigits, hne⟩, rfl, rfl, hfit⟩

/-- The text in front of an exponent, with the point where there is one. -/
theorem eq_of_cutAt_point {mantissa whole : List Char} {fraction? : Option (List Char)}
    (hpoint : cutAt (· == '.') mantissa = (whole, fraction?)) :
    mantissa = whole ++ fraction?.elim [] ('.' :: ·) := by
  cases fraction? with
  | none => rw [eq_of_cutAt_none hpoint, Option.elim_none, List.append_nil]
  | some fraction =>
    obtain ⟨c, hc, rfl⟩ := eq_of_cutAt_some hpoint
    rw [beq_iff_eq.1 hc, Option.elim_some]

/-- A sign in front of all digits stands in front of those before the point, since there is none
behind it. -/
theorem exists_whole {sign : Sign} {whole fraction digits : List Char}
    (hsign : ¬(fraction.any fun c => c == '-' || c == '+') = true)
    (heq : whole ++ fraction = sign.text ++ digits) :
    ∃ w, whole = sign.text ++ w ∧ w ++ fraction = digits := by
  rcases List.append_eq_append_iff.1 heq with ⟨t, hsign', hdigits⟩ | ⟨w, hwhole, hdigits⟩
  · cases t with
    | nil =>
      rw [List.append_nil] at hsign'
      exact ⟨[], by rw [hsign', List.append_nil], hdigits⟩
    | cons c t =>
      have hc : c ∈ sign.text := by
        rw [hsign']
        exact List.mem_append_right _ List.mem_cons_self
      refine absurd (List.any_eq_true.2 ⟨c, ?_, ?_⟩) hsign
      · rw [hdigits]
        exact List.mem_append_left _ List.mem_cons_self
      · rw [Bool.or_eq_true, beq_iff_eq, beq_iff_eq]
        exact (Sign.of_mem_text hc).symm
  · exact ⟨w, hwhole, hdigits.symm⟩

/-- What is read is the integer and the scale of the literal that stands in the text, white space
around it aside. Both have to be in range, and so have the exponent and the number of fraction
digits. -/
theorem read_eq_ok_iff {text : List Char} {d : UnscaledDecimal} : read text = .ok d ↔
    ∃ l : UnscaledLiteral, trim text = l.text ∧ fitsSigned 128 l.integer = true ∧
      fitsSigned 32 l.exponent = true ∧ fitsSigned 32 l.fraction.length = true ∧
      fitsSigned 32 l.scale = true ∧ d = l.toUnscaled := by
  constructor
  · intro h
    rcases hmark : cutAt isExponentMark (trim text) with ⟨mantissa, exponent?⟩
    rcases hpoint : cutAt (· == '.') mantissa with ⟨whole, fraction?⟩
    obtain ⟨e, hexponent, hsign, u, hdigits, ⟨hcount, hscale⟩, rfl⟩ :=
      (read_eq_ok_iff_of_cut hmark hpoint).1 h
    obtain ⟨sign, digits, heq, hne, hdigit, rfl, hinteger⟩ := readSigned_eq_ok_iff.1 hdigits
    obtain ⟨w, rfl, rfl⟩ := exists_whole hsign heq
    obtain ⟨x?, htext, rfl, hexponent⟩ := exists_exponent hmark hexponent
    refine ⟨⟨sign, w, fraction?, x?, hdigit, hne⟩, ?_, hinteger, hexponent, hcount, hscale, rfl⟩
    rw [htext, eq_of_cutAt_point hpoint]
    rfl
  · rintro ⟨l, htext, hinteger, hexponent, hcount, hscale, rfl⟩
    exact l.read_text htext hinteger hexponent hcount hscale

end UnscaledDecimal

end CqlWire
