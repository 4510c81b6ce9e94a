import CqlWire.Proofs.Coding.Blob
import CqlWire.Proofs.Coding.Scalar
import CqlWire.Proofs.Literal.Split
import CqlWire.Proofs.Number.Decimal
import CqlWire.Proofs.Text.Null
import CqlWire.Proofs.Uuid

/-!
# What is written is read back

A coding reparses `w` as `v` (`Coding.Reparses`) if, for every `w` that it stores, the literal is
one term, which is read as `v`, and which is NULL only where absent bytes are stored. A term is all
that a collection needs of the literals of its elements, so each way to make a coding of other
codings hands this on: `reparses_mapped`, `reparses_some`, `reparses_onValues`, `reparses_elements`
and `reparses_entries`.
-/

namespace CqlWire

open Text (isNullLiteral isWordChar quote trim unquote? isAscii)
open Literal (IsTerm splitElements_braced splitEntries_braced isTerm_braced isTerm_braced_entries)

namespace Coding

variable {α β : Type}

/-- The literal of `w`, which is stored as the given bytes, is a term and is read as `v`. -/
structure Spells (c : Coding α) (w v : α) (bytes : Option Bytes) : Prop where
  isTerm : IsTerm (c.format w)
  parse_format : c.parse (c.format w) = .ok v
  absent : isNullLiteral (c.format w) = true → bytes = none

/-- What the coding writes for `w`, if it stores `w`, it reads as `v`. -/
def Reparses (c : Coding α) (w v : α) : Prop :=
  ∀ b, c.encode w = .ok b → c.Spells w v b

/-! ## Words and quoted texts -/

/-- A word with a character that stands before the letters is a literal that is no NULL. -/
theorem reparses_of_word {c : Coding α} {w v : α} {d : Char}
    (hword : ∀ d ∈ c.format w, isWordChar d = true) (hmem : d ∈ c.format w) (hd : d.toNat < 65)
    (hparse : c.parse (c.format w) = .ok v) : c.Reparses w v := by
  intro b _
  have hterm := Literal.isTerm_word (List.ne_nil_of_mem hmem) hword
  refine ⟨hterm, hparse, fun hnull => ?_⟩
  rw [Text.isNullLiteral_of_mem hterm.tight hmem (.inl hd)] at hnull
  cases hnull

theorem reparses_of_quote {c : Coding α} {w v : α} {s : List Char} (hformat : c.format w = quote s)
    (hparse : ∀ b, c.encode w = .ok b → c.parse (quote s) = .ok v) : c.Reparses w v := by
  intro b hb
  have hterm := Literal.isTerm_quote s
  have hmem : '\x27' ∈ quote s := List.mem_cons_self
  rw [← hformat] at hterm hmem
  refine ⟨hterm, ?_, fun hnull => ?_⟩
  · rw [hformat]
    exact hparse b hb
  · rw [Text.isNullLiteral_of_mem hterm.tight hmem (by decide)] at hnull
    cases hnull

theorem trim_of_word {s : List Char} (h : ∀ c ∈ s, isWordChar c = true) : trim s = s :=
  Text.trim_of_isTight (Text.isTight_of_word h)

theorem bareText_quote (s : List Char) : bareText (quote s) = s := by
  rw [bareText, Text.unquote?_quote, Option.getD_some]

/-- A word is the text of itself. -/
theorem bareText_of_word {s : List Char} (h : ∀ c ∈ s, isWordChar c = true) : bareText s = s := by
  have hnone : unquote? s = none := by
    cases hu : unquote? s with
    | none => rfl
    | some t =>
      have hq := Text.unquote?_eq_some_iff.1 hu
      rw [trim_of_word h] at hq
      have := h '\x27' (hq ▸ List.mem_cons_self)
      exact absurd this (by decide)
  rw [bareText, hnone, Option.getD_none, trim_of_word h]

/-! ## Numbers and truth values -/

/-- A coding that writes integers in decimal digits. -/
theorem reparses_decimalText {c : Coding Int} {n : Int} {bits : Nat}
    (hformat : c.format = decimalText) (hparse : ∀ s, c.parse s =
      orRefuse c.type s IntegerError.message (readSigned bits (trim s)))
    (h : fitsSigned bits n = true) : c.Reparses n n := by
  have hword : ∀ d ∈ decimalText n, isWordChar d = true := fun d => isWordChar_of_mem_decimalText
  obtain ⟨d, hd⟩ := List.exists_mem_of_ne_nil _ (decimalText_ne_nil n)
  rw [← hformat] at hword hd
  refine reparses_of_word hword hd (lt_of_mem_decimalText (hformat ▸ hd)) ?_
  rw [hparse, trim_of_word hword, hformat, readSigned_decimalText h]
  rfl

theorem reparses_integer {s : ScalarType} {width : Nat} {n : Int}
    (h : fitsSigned (8 * width) n = true) : (integer s width).Reparses n n :=
  reparses_decimalText rfl (fun _ => rfl) h

theorem reparses_varint {n : Int} (h : fitsSigned 128 n = true) : varint.Reparses n n :=
  reparses_decimalText rfl (fun _ => rfl) h

theorem reparses_unscaled {d : UnscaledDecimal} (hu : fitsSigned 128 d.unscaled = true)
    (hs : fitsSigned 32 d.scale = true) (hleast : d.scale ≠ -2147483648) :
    unscaled.Reparses d d := by
  obtain ⟨c, hc, hlt⟩ := UnscaledDecimal.exists_mem_toText d
  refine reparses_of_word (fun _ => UnscaledDecimal.isWordChar_of_mem_toText) hc hlt ?_
  show orRefuse _ d.toText _ (UnscaledDecimal.read d.toText) = _
  rw [UnscaledDecimal.read_toText hu hs hleast]
  rfl

theorem reparses_boolean (b : Bool) : boolean.Reparses b b := by
  intro bytes _
  cases b with
  | true => exact ⟨Literal.isTerm_word (by decide) (List.all_eq_true.1 rfl), by rfl, nofun⟩
  | false => exact ⟨Literal.isTerm_word (by decide) (List.all_eq_true.1 rfl), by rfl, nofun⟩

/-! ## Texts and byte strings -/

theorem quotedText_quote (type : ColumnType) (s : List Char) :
    quotedText type (quote s) = .ok s := by
  rw [quotedText, Text.unquote?_quote]

theorem reparses_text (s : List Char) : text.Reparses s s :=
  reparses_of_quote rfl fun _ _ => quotedText_quote _ s

theorem reparses_ascii (s : List Char) : ascii.Reparses s s := by
  refine reparses_of_quote rfl fun b hb => ?_
  have hascii : s.all isAscii = true := by
    simp only [ascii] at hb
    split at hb
    · assumption
    · cases hb
  simp only [ascii, bind_eq_ok_iff]
  exact ⟨s, quotedText_quote _ s, if_pos hascii⟩

theorem reparses_blob (bs : Bytes) : blob.Reparses bs bs :=
  reparses_of_word (fun _ => isWordChar_of_mem_blob) List.mem_cons_self (by decide)
    (parse_format_blob bs)

/-- A coding that writes UUIDs in groups of digits. -/
theorem reparses_groups {c : Coding Uuid} (u : Uuid) (hformat : c.format = Uuid.toText)
    (hparse : ∀ s, c.parse s = orRefuse c.type s UuidError.message (Uuid.read (bareText s))) :
    c.Reparses u u := by
  have hword : ∀ d ∈ u.toText, isWordChar d = true := fun _ => Uuid.isWordChar_of_mem_toText
  have hyphen : '-' ∈ u.toText := List.mem_append_right _ List.mem_cons_self
  have hread := Uuid.read_toText u
  rw [← hformat] at hword hyphen hread
  refine reparses_of_word hword hyphen (by decide) ?_
  rw [hparse, bareText_of_word hword, hread]
  rfl

theorem reparses_uuid (u : Uuid) : uuid.Reparses u u :=
  reparses_groups u rfl fun _ => rfl

theorem reparses_timeuuid (u : Uuid) : timeuuid.Reparses u u :=
  reparses_groups u rfl fun _ => rfl

/-! ## Other types of values -/

theorem reparses_mapped {c : Coding α} {into : α → Except Error β} {out : β → α} {w v : β} {a : α}
    (h : c.Reparses (out w) a) (hv : into a = .ok v) : (c.mapped into out).Reparses w v := by
  intro b hb
  obtain ⟨hterm, hparse, habsent⟩ := h b hb
  exact ⟨hterm, bind_eq_ok_iff.2 ⟨a, hparse, hv⟩, habsent⟩

theorem reparses_none (c : Coding α) : c.option.Reparses none none := by
  intro b hb
  cases hb
  have hterm : IsTerm Text.nullWord := Literal.isTerm_word (by decide) (List.all_eq_true.1 rfl)
  exact ⟨hterm, by rfl, fun _ => rfl⟩

theorem reparses_some {c : Coding α} {w v : α} (hc : c.NeverAbsent) (h : c.Reparses w v) :
    c.option.Reparses (some w) (some v) := by
  intro b hb
  obtain ⟨hterm, hparse, habsent⟩ := h b hb
  refine ⟨hterm, ?_, habsent⟩
  -- NULL stands only where absent bytes are stored, which `c` never does.
  have hnull : ¬isNullLiteral (c.format w) = true := by
    intro hnull
    obtain rfl := habsent hnull
    exact hc w hb
  show (if isNullLiteral (c.format w) then _ else some <$> c.parse (c.format w)) = _
  rw [if_neg hnull, hparse]
  rfl

theorem reparses_onValues {c : Coding α} {toValue : α → Value} {ofValue? : Value → Option α}
    {w v : Value} {a u : α} (hw : ofValue? w = some a) (h : c.Reparses a u) (hv : toValue u = v) :
    (c.onValues toValue ofValue?).Reparses w v := by
  intro b hb
  simp only [onValues, hw] at hb
  obtain ⟨hterm, hparse, habsent⟩ := h b hb
  have hformat : (c.onValues toValue ofValue?).format w = c.format a := by
    simp only [onValues, hw]
  refine ⟨hformat ▸ hterm, ?_, hformat ▸ habsent⟩
  rw [hformat]
  exact map_eq_ok_iff.2 ⟨u, hparse, hv⟩

theorem reparses_decimal (d : Decimal) : decimal.Reparses d d := by
  obtain ⟨hu, hs⟩ := fitsSigned_toUnscaled d
  have hleast : d.toUnscaled.scale ≠ -2147483648 := by
    simp only [Decimal.toUnscaled]
    omega
  exact reparses_mapped (reparses_unscaled hu hs hleast) (by rw [Decimal.ofUnscaled?_toUnscaled])

theorem reparses_nominal {e : Enumeration} (h : e.names.Nodup) {index : Nat}
    (hi : index < e.names.length) : (nominal e).Reparses index index := by
  refine reparses_mapped (reparses_text (e.nameOf index).toList) ?_
  rw [String.ofList_toList, idxOf?_nameOf h hi]

theorem reparses_ordinal {e : Enumeration} {index : Nat} (hi : index < e.names.length)
    (hfit : fitsSigned 32 index = true) : (ordinal e).Reparses index index := by
  have hint : (integer .int 4).Reparses index index := reparses_integer hfit
  exact reparses_mapped hint (by rw [ofOrdinal?_natCast hi])

/-! ## Collections -/

theorem isNullLiteral_braced (parts : List (List Char)) : isNullLiteral (braced parts) = false :=
  Text.isNullLiteral_of_mem_of_not_blank List.mem_cons_self (by decide) (.inr (by decide))

/-- An element that is stored is one part of the literal. -/
theorem parseElement_format {type : ColumnType} {allowsNull : Bool} {c : Coding α} {w u : α}
    {frame : Bytes} (hw : encodeElement type allowsNull c w = .ok frame) (h : c.Reparses w u)
    (text : List Char) :
    IsTerm (c.format w) ∧ parseElement type allowsNull c text (c.format w) = .ok u := by
  obtain ⟨raw, hr, ha, -⟩ := encodeElement_eq_ok_iff.1 hw
  obtain ⟨hterm, hparse, habsent⟩ := h raw hr
  refine ⟨hterm, ?_⟩
  have hnull : ¬(!allowsNull && isNullLiteral (c.format w)) = true := by
    rw [Bool.and_eq_true, not_and]
    intro hno hnull
    rw [ha (by rw [habsent hnull]; rfl)] at hno
    cases hno
  rw [parseElement, if_neg hnull, hparse]

/-- The literals of the elements are the terms between the braces, and each is read as its own
element. -/
theorem reparses_elements {c : Coding α} {kind : CollectionKind} {frozen : Bool} {ws us : List α}
    (h : List.Forall₂ c.Reparses ws us) : (elements kind frozen c).Reparses ws us := by
  intro b hb
  obtain ⟨bs, hbs, rfl⟩ := map_eq_ok_iff.1 hb
  simp only [encodeElements, bind_eq_ok_iff, pure_eq_ok_iff] at hbs
  obtain ⟨-, -, frames, hframes, -⟩ := hbs
  have hstored := (List.forall₂_and_left _ _).2 ⟨exists_eq_ok_of_mapM hframes, h⟩
  have hpart : List.Forall₂ (fun w u => IsTerm (c.format w) ∧ parseElement (kind.type frozen c.type)
      kind.allowsNull c (braced (ws.map c.format)) (c.format w) = .ok u) ws us :=
    hstored.imp fun w u hwu => by
      obtain ⟨⟨_, hw⟩, hu⟩ := hwu
      exact parseElement_format hw hu _
  obtain ⟨hmem, hparse⟩ := (List.forall₂_and_left ws us).1 hpart
  have hterms : ∀ p ∈ ws.map c.format, IsTerm p := List.forall_mem_map.2 hmem
  have hterm := isTerm_braced fun p hp => Literal.group_of_pieces (hterms p hp).pieces
  refine ⟨hterm, ?_, fun hnull => ?_⟩
  · simp only [elements, bind_eq_ok_iff, splitElements_braced hterms, orRefuse, Except.ok.injEq,
      exists_eq_left']
    rwa [mapM_eq_ok_iff, List.forall₂_map_left_iff]
  · have hformat : (elements kind frozen c).format ws = braced (ws.map c.format) := rfl
    rw [hformat, isNullLiteral_braced] at hnull
    cases hnull

/-- An entry that is stored is one part of the literal. -/
theorem parseEntry_format {type : ColumnType} {k : Coding α} {v : Coding β} {w u : α × β}
    {frame : Bytes} (hw : encodeEntry type k v w = .ok frame)
    (h : k.Reparses w.1 u.1 ∧ v.Reparses w.2 u.2) (text : List Char) :
    (IsTerm (k.format w.1) ∧ IsTerm (v.format w.2)) ∧
      parseEntry type k v text (k.format w.1, v.format w.2) = .ok u := by
  obtain ⟨rawKey, rawValue, -, -, hkey, hvalue, -, -, -⟩ := encodeEntry_eq_ok_iff.1 hw
  obtain ⟨hkterm, hkparse, hkabsent⟩ := h.1 _ hkey
  obtain ⟨hvterm, hvparse, -⟩ := h.2 _ hvalue
  refine ⟨⟨hkterm, hvterm⟩, ?_⟩
  have hnull : ¬isNullLiteral (k.format w.1) = true := fun hnull => nomatch hkabsent hnull
  simp only [parseEntry, bind_eq_ok_iff, pure_eq_ok_iff]
  exact ⟨(), refuseIf_eq_ok_iff.2 hnull, u.1, hkparse, u.2, hvparse, rfl⟩

/-- The literals of the keys and of the values are the pairs of terms between the braces, and each
is read as its own key or value. -/
theorem reparses_entries {k : Coding α} {v : Coding β} {frozen : Bool} {ws us : List (α × β)}
    (h : List.Forall₂ (fun w u => k.Reparses w.1 u.1 ∧ v.Reparses w.2 u.2) ws us) :
    (entries frozen k v).Reparses ws us := by
  intro b hb
  simp only [entries, bind_eq_ok_iff, pure_eq_ok_iff] at hb
  obtain ⟨-, -, frames, hframes, rfl⟩ := hb
  have hstored := (List.forall₂_and_left _ _).2 ⟨exists_eq_ok_of_mapM hframes, h⟩
  have hpart : List.Forall₂ (fun w u => (IsTerm (k.format w.1) ∧ IsTerm (v.format w.2)) ∧
      parseEntry (.map frozen k.type v.type) k v ((entries frozen k v).format ws)
        (k.format w.1, v.format w.2) = .ok u) ws us :=
    hstored.imp fun w u hwu => by
      obtain ⟨⟨_, hw⟩, hu⟩ := hwu
      exact parseEntry_format hw hu _
  obtain ⟨hmem, hparse⟩ := (List.forall₂_and_left ws us).1 hpart
  have hformat : (entries frozen k v).format ws = braced
      ((ws.map fun w => (k.format w.1, v.format w.2)).map fun p => p.1 ++ ':' :: p.2) := by
    rw [List.map_map]
    rfl
  have hparts : ∀ p ∈ ws.map fun w => (k.format w.1, v.format w.2), IsTerm p.1 ∧ IsTerm p.2 :=
    List.forall_mem_map.2 hmem
  have hsplit := splitEntries_braced hparts
  have hterm : IsTerm ((entries frozen k v).format ws) := hformat ▸ isTerm_braced_entries hparts
  refine ⟨hterm, ?_, fun hnull => ?_⟩
  · rw [← hformat] at hsplit
    simp only [entries, bind_eq_ok_iff] at hsplit hparse ⊢
    refine ⟨_, congrArg (orRefuse _ _ _) hsplit, ?_⟩
    rwa [mapM_eq_ok_iff, List.forall₂_map_left_iff]
  · rw [hformat, isNullLiteral_braced] at hnull
    cases hnull

end Coding

/-! ## Scalar types -/

/-- The scalar types whose literals are quoted texts, words of a fixed set, or the digits of an
exact number or of bytes. -/
def ScalarType.IsVerbatim : ScalarType → Prop
  | .date | .double | .float | .inet | .time | .timestamp => False
  | _ => True

theorem reparses_scalar {s : ScalarType} (hs : s.IsVerbatim) {v : Value} (h : s.valueType.Holds v)
    (hleast : ∀ d, v = .unscaled d → d.scale ≠ -2147483648) : s.coding.Reparses v v := by
  have integer : ∀ {s : ScalarType} {width : Nat} {n : Int}, fitsSigned (8 * width) n = true →
      ((Coding.integer s width).onValues .int Value.int?).Reparses (.int n) (.int n) :=
    fun hn => Coding.reparses_onValues rfl (Coding.reparses_integer hn) rfl
  cases s with
  | ascii =>
    obtain ⟨a, rfl⟩ := BaseType.eq_text_of_holds h
    exact Coding.reparses_onValues rfl (Coding.reparses_ascii a) rfl
  | bigint | counter =>
    obtain ⟨n, rfl, hn⟩ := BaseType.eq_int_of_holds rfl h
    exact integer hn
  | blob =>
    obtain ⟨bs, rfl⟩ := BaseType.eq_bytes_of_holds h
    exact Coding.reparses_onValues rfl (Coding.reparses_blob bs) rfl
  | boolean =>
    obtain ⟨b, rfl⟩ := BaseType.eq_bool_of_holds h
    exact Coding.reparses_onValues rfl (Coding.reparses_boolean b) rfl
  | decimal =>
    obtain ⟨d, rfl, hu, hd⟩ := BaseType.eq_unscaled_of_holds h
    exact Coding.reparses_onValues rfl (Coding.reparses_unscaled hu hd (hleast d rfl)) rfl
  | int =>
    obtain ⟨n, rfl, hn⟩ := BaseType.eq_int_of_holds rfl h
    exact integer hn
  | smallint =>
    obtain ⟨n, rfl, hn⟩ := BaseType.eq_int_of_holds rfl h
    exact integer hn
  | text =>
    obtain ⟨a, rfl⟩ := BaseType.eq_text_of_holds h
    exact Coding.reparses_onValues rfl (Coding.reparses_text a) rfl
  | timeuuid =>
    obtain ⟨u, rfl⟩ := BaseType.eq_uuid_of_holds h
    exact Coding.reparses_onValues rfl (Coding.reparses_timeuuid u) rfl
  | tinyint =>
    obtain ⟨n, rfl, hn⟩ := BaseType.eq_int_of_holds rfl h
    exact integer hn
  | uuid =>
    obtain ⟨u, rfl⟩ := BaseType.eq_uuid_of_holds h
    exact Coding.reparses_onValues rfl (Coding.reparses_uuid u) rfl
  | varint =>
    obtain ⟨n, rfl, hn⟩ := BaseType.eq_int_of_holds rfl h
    exact Coding.reparses_onValues rfl (Coding.reparses_varint hn) rfl
  | date | double | float | inet | time | timestamp => exact hs.elim

end CqlWire
