import CqlWire.Proofs.Coding.Literal
import CqlWire.Proofs.Fallible

/-!
# Codings without an absent value

A coding lacks NULL (`Coding.LacksNull`) if it refuses absent bytes and every spelling of NULL, and
writes NULL for no value. No scalar has it: what its reader takes begins otherwise, and what its
writer gives has a digit, a quote or a sign, or is another word. Collections and records stand in
braces (`lacksNull_elements`, `lacksNull_entries`, `lacksNull_record`), whatever is in them.
-/

namespace CqlWire

open Text (isNullLiteral isNullLiteral_iff nullSpellings isWordChar trim quote)

/-! ## Readers -/

/-- The spellings of NULL begin with a letter that stands for nothing else. -/
theorem exists_of_mem_nullSpellings {w : List Char} (h : w ∈ nullSpellings) :
    ∃ r, w = 'N' :: r ∨ w = 'n' :: r := by
  have hall : ∀ w ∈ nullSpellings, w = 'N' :: w.tail ∨ w = 'n' :: w.tail := by decide
  exact ⟨w.tail, hall w h⟩

theorem readSigned_null {w : List Char} (h : w ∈ nullSpellings) (bits : Nat) :
    readSigned bits w = .error .invalidDigit := by
  obtain ⟨r, rfl | rfl⟩ := exists_of_mem_nullSpellings h
  · rfl
  · rfl

theorem enclosed_null {α : Type} (item : Literal.Item α) {text : List Char}
    (h : isNullLiteral text = true) :
    ∃ e, Literal.enclosed item '\x7b' '\x7d' text = .error e := by
  obtain ⟨r, hr⟩ := exists_of_mem_nullSpellings (isNullLiteral_iff.1 h)
  rw [Literal.enclosed]
  rcases hr with hr | hr
  · rw [hr]
    exact ⟨_, rfl⟩
  · rw [hr]
    exact ⟨_, rfl⟩

theorem splitElements_null {text : List Char} (h : isNullLiteral text = true) :
    ∃ e, Literal.splitElements '\x7b' '\x7d' text = .error e := by
  obtain ⟨e, he⟩ := enclosed_null Literal.term? h
  rw [Literal.splitElements, he]
  exact ⟨e, rfl⟩

theorem splitEntries_null {text : List Char} (h : isNullLiteral text = true) :
    ∃ e, Literal.splitEntries '\x7b' '\x7d' text = .error e := by
  obtain ⟨e, he⟩ := enclosed_null Literal.entry? h
  rw [Literal.splitEntries, he]
  exact ⟨e, rfl⟩

theorem exists_of_isOk_eq_false {ε α : Type} {x : Except ε α} (h : x.isOk = false) :
    ∃ e, x = .error e := by
  cases x with
  | ok a => cases h
  | error e => exact ⟨e, rfl⟩

/-! ## Writers -/

theorem isNullLiteral_decimalText (n : Int) : isNullLiteral (decimalText n) = false := by
  obtain ⟨c, hc⟩ := List.exists_mem_of_ne_nil _ (decimalText_ne_nil n)
  exact Text.isNullLiteral_of_isWordChar hc (isWordChar_of_mem_decimalText hc)
    (lt_of_mem_decimalText hc)

/-- There is a digit in every number in positional notation. -/
theorem isNullLiteral_of_digit {c : Char} {s : List Char} (h : c ∈ s)
    (hd : Text.isAsciiDigit c = true) : isNullLiteral s = false := by
  refine Text.isNullLiteral_of_isWordChar h (Text.isWordChar_of_isAsciiDigit hd) ?_
  have := (isAsciiDigit_iff.1 hd).2
  omega

theorem exists_digit_mem_positional (d : Nat) (k : Int) :
    ∃ c ∈ positional d k, Text.isAsciiDigit c = true := by
  unfold positional
  generalize stripZeros (decimalDigits d).length d = stripped
  obtain ⟨c, hc⟩ := List.exists_mem_of_ne_nil _ (decimalDigits_ne_nil stripped.1)
  have hdigit := isAsciiDigit_of_mem_decimalDigits hc
  dsimp only
  split
  · exact ⟨c, List.mem_append_left _ hc, hdigit⟩
  · split
    · exact ⟨'0', List.mem_append_left _ List.mem_cons_self, rfl⟩
    · refine ⟨c, ?_, hdigit⟩
      generalize (decimalDigits stripped.1).length - _ = n
      rw [← List.take_append_drop n (decimalDigits stripped.1), List.mem_append] at hc
      exact List.mem_append.2 (hc.imp_right (List.mem_cons_of_mem _))

theorem isNullLiteral_floatText (f : FloatFormat) (bits : Nat) :
    isNullLiteral (f.toText bits) = false := by
  have hsigned : ∀ (negative : Bool) {s : List Char}, isNullLiteral s = false →
      isNullLiteral (if negative then '-' :: s else s) = false := by
    intro negative s hs
    split
    · exact Text.isNullLiteral_of_isWordChar List.mem_cons_self rfl (by decide)
    · exact hs
  unfold FloatFormat.toText
  dsimp only
  split
  · decide
  · exact hsigned _ (by decide)
  · exact hsigned _ (by decide)
  · obtain ⟨c, hc, hdigit⟩ := exists_digit_mem_positional _ _
    exact hsigned _ (isNullLiteral_of_digit hc hdigit)

namespace Coding

variable {α β : Type}

/-- Absent bytes and NULL are read as no value, and NULL is written for none. -/
structure LacksNull (c : Coding α) : Prop where
  decode_none : c.decode none = .error (.unexpectedNull c.type.toText)
  parse_null : ∀ text, isNullLiteral text = true → ∃ e, c.parse text = .error e
  format_ne : ∀ a, isNullLiteral (c.format a) = false

theorem exists_orRefuse_eq_error {ε : Type} {x : Except ε α} (h : ∃ e, x = .error e)
    (type : ColumnType) (text : List Char) (message : ε → String) :
    ∃ e, orRefuse type text message x = .error e := by
  obtain ⟨e, rfl⟩ := h
  exact ⟨_, rfl⟩

theorem quotedText_null {text : List Char} (h : isNullLiteral text = true) (type : ColumnType) :
    ∃ e, quotedText type text = .error e := by
  rw [quotedText, Text.unquote?_of_isNullLiteral h]
  exact ⟨_, rfl⟩

theorem bareText_null {text : List Char} (h : isNullLiteral text = true) :
    bareText text = trim text := by
  rw [bareText, Text.unquote?_of_isNullLiteral h]
  rfl

/-! ## Scalars -/

theorem lacksNull_integer (s : ScalarType) (width : Nat) : (integer s width).LacksNull where
  decode_none := rfl
  parse_null _ h :=
    exists_orRefuse_eq_error ⟨_, readSigned_null (isNullLiteral_iff.1 h) _⟩ _ _ _
  format_ne := isNullLiteral_decimalText

theorem lacksNull_varint : varint.LacksNull where
  decode_none := rfl
  parse_null _ h :=
    exists_orRefuse_eq_error ⟨_, readSigned_null (isNullLiteral_iff.1 h) _⟩ _ _ _
  format_ne := isNullLiteral_decimalText

theorem lacksNull_floating (s : ScalarType) {f : FloatFormat} (hf : f = .single ∨ f = .double) :
    (floating s f).LacksNull where
  decode_none := rfl
  parse_null text h := by
    have hread : ∀ w ∈ nullSpellings, (FloatFormat.single.read w).isOk = false ∧
        (FloatFormat.double.read w).isOk = false := by decide
    obtain ⟨hsingle, hdouble⟩ := hread _ (isNullLiteral_iff.1 h)
    refine exists_orRefuse_eq_error (exists_of_isOk_eq_false ?_) _ _ _
    rcases hf with rfl | rfl
    · exact hsingle
    · exact hdouble
  format_ne := isNullLiteral_floatText f

theorem lacksNull_unscaled : unscaled.LacksNull where
  decode_none := rfl
  parse_null text h := by
    have hread : ∀ w ∈ nullSpellings, trim w = w ∧ (UnscaledDecimal.read w).isOk = false := by
      decide
    obtain ⟨htrim, hrefused⟩ := hread _ (isNullLiteral_iff.1 h)
    have heq : UnscaledDecimal.read text = UnscaledDecimal.read (trim text) := by
      simp only [UnscaledDecimal.read, htrim]
    exact exists_orRefuse_eq_error (exists_of_isOk_eq_false (heq ▸ hrefused)) _ _ _
  format_ne d := by
    obtain ⟨c, hc, hlt⟩ := UnscaledDecimal.exists_mem_toText d
    exact Text.isNullLiteral_of_isWordChar hc (UnscaledDecimal.isWordChar_of_mem_toText hc) hlt

theorem lacksNull_boolean : boolean.LacksNull where
  decode_none := rfl
  parse_null text h := by
    have hwords : ∀ w ∈ nullSpellings, Text.eqIgnoreCase w "true".toList = false ∧
        Text.eqIgnoreCase w "false".toList = false := by decide
    obtain ⟨htrue, hfalse⟩ := hwords _ (isNullLiteral_iff.1 h)
    simp only [boolean, htrue, hfalse]
    exact ⟨_, rfl⟩
  format_ne b := by
    cases b
    · decide
    · decide

theorem lacksNull_text : text.LacksNull where
  decode_none := rfl
  parse_null _ h := quotedText_null h _
  format_ne := Text.isNullLiteral_quote

theorem lacksNull_ascii : ascii.LacksNull where
  decode_none := rfl
  parse_null _ h := exists_bind_eq_error (quotedText_null h _)
  format_ne := Text.isNullLiteral_quote

theorem lacksNull_blob : blob.LacksNull where
  decode_none := rfl
  parse_null text h := by
    have hdigits : ∀ w ∈ nullSpellings, blobDigits? w = none := by decide
    simp only [blob, hdigits _ (isNullLiteral_iff.1 h)]
    exact ⟨_, rfl⟩
  format_ne bs := Text.isNullLiteral_of_isWordChar List.mem_cons_self rfl (by decide)

theorem readUuid_null {text : List Char} (h : isNullLiteral text = true) :
    ∃ e, Uuid.read (bareText text) = .error e := by
  have hread : ∀ w ∈ nullSpellings, (Uuid.read w).isOk = false := by decide
  rw [bareText_null h]
  exact exists_of_isOk_eq_false (hread _ (isNullLiteral_iff.1 h))

theorem isNullLiteral_uuidText (u : Uuid) : isNullLiteral u.toText = false :=
  Text.isNullLiteral_of_isWordChar (List.mem_append_right _ List.mem_cons_self)
    (show isWordChar '-' = true from rfl) (by decide)

theorem lacksNull_uuid : uuid.LacksNull where
  decode_none := rfl
  parse_null _ h := exists_orRefuse_eq_error (readUuid_null h) _ _ _
  format_ne := isNullLiteral_uuidText

theorem lacksNull_timeuuid : timeuuid.LacksNull where
  decode_none := rfl
  parse_null _ h := exists_orRefuse_eq_error (readUuid_null h) _ _ _
  format_ne := isNullLiteral_uuidText

theorem lacksNull_inet : inet.LacksNull where
  decode_none := rfl
  parse_null text h := by
    have hread : ∀ w ∈ nullSpellings, Inet.read? w = none := by decide
    simp only [inet, bareText_null h, hread _ (isNullLiteral_iff.1 h)]
    exact ⟨_, rfl⟩
  format_ne _ := Text.isNullLiteral_quote _

theorem lacksNull_timestamp : timestamp.LacksNull where
  decode_none := rfl
  parse_null text h := by
    have hread : ∀ w ∈ nullSpellings, (Instant.read w).isOk = false := by decide
    have hw := isNullLiteral_iff.1 h
    show ∃ e, parseTimestamp text = .error e
    rw [parseTimestamp, bareText_null h, readSigned_null hw]
    exact exists_bind_eq_error
      (exists_orRefuse_eq_error (exists_of_isOk_eq_false (hread _ hw)) _ _ _)
  format_ne _ := Text.isNullLiteral_quote _

theorem lacksNull_date : date.LacksNull where
  decode_none := rfl
  parse_null text h := by
    have hread : ∀ w ∈ nullSpellings, (Date.read w).isOk = false := by decide
    refine exists_orRefuse_eq_error (exists_of_isOk_eq_false ?_) _ _ _
    rw [bareText_null h]
    exact hread _ (isNullLiteral_iff.1 h)
  format_ne _ := Text.isNullLiteral_quote _

theorem lacksNull_time : time.LacksNull where
  decode_none := rfl
  parse_null text h := by
    have hread : ∀ w ∈ nullSpellings, (TimeOfDay.read w).isOk = false := by decide
    have hrefused := hread _ (isNullLiteral_iff.1 h)
    rw [← bareText_null h] at hrefused
    exact exists_bind_eq_error
      (exists_orRefuse_eq_error (exists_of_isOk_eq_false hrefused) _ _ _)
  format_ne _ := Text.isNullLiteral_quote _

/-! ## Other types of values -/

theorem lacksNull_mapped {c : Coding α} (h : c.LacksNull) (into : α → Except Error β)
    (out : β → α) : (c.mapped into out).LacksNull where
  decode_none := bind_eq_error_iff.2 (.inl h.decode_none)
  parse_null text hnull := exists_bind_eq_error (h.parse_null text hnull)
  format_ne b := h.format_ne (out b)

theorem lacksNull_onValues {c : Coding α} (h : c.LacksNull) (toValue : α → Value)
    (ofValue? : Value → Option α) : (c.onValues toValue ofValue?).LacksNull where
  decode_none := map_eq_error_iff.2 h.decode_none
  parse_null text hnull := by
    obtain ⟨e, he⟩ := h.parse_null text hnull
    exact ⟨e, map_eq_error_iff.2 he⟩
  format_ne v := by
    simp only [onValues]
    cases ofValue? v with
    | some a => exact h.format_ne a
    | none => rfl

/-! ## Collections and records -/

theorem lacksNull_elements (kind : CollectionKind) (frozen : Bool) (c : Coding α) :
    (elements kind frozen c).LacksNull where
  decode_none := rfl
  parse_null _ h :=
    exists_bind_eq_error (exists_orRefuse_eq_error (splitElements_null h) _ _ _)
  format_ne _ := isNullLiteral_braced _

theorem lacksNull_entries (frozen : Bool) (k : Coding α) (v : Coding β) :
    (entries frozen k v).LacksNull where
  decode_none := rfl
  parse_null _ h :=
    exists_bind_eq_error (exists_orRefuse_eq_error (splitEntries_null h) _ _ _)
  format_ne _ := isNullLiteral_braced _

theorem lacksNull_record (typeName : String) (schema : UserType) (slots : List Nat)
    (fields : List (Coding α)) : (record typeName schema slots fields).LacksNull where
  decode_none := rfl
  parse_null _ h :=
    exists_bind_eq_error (exists_orRefuse_eq_error (splitEntries_null h) _ _ _)
  format_ne _ := isNullLiteral_braced _

end Coding

end CqlWire
