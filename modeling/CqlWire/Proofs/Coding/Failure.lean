import CqlWire.Proofs.Coding.Refusal

/-!
# Kinds of failures

Each direction of a coding has its own kinds of errors: storing refuses values
(`Error.OfStoring`), reading finds bytes that are not what the type has (`Error.OfReading`), and
parsing finds texts that are no literals (`Error.OfParsing`). A caller tells bad bytes from bad
literals by them.

`Coding.FailsInKind P c` says that `c` keeps to these kinds, except that parsing may have others too,
which `P` has to allow. Frames, scalars, enumerations, options, collections and records keep to them
if their parts do. What a mapped coding adds to both reading and parsing has to suit both
(`failsInKind_mapped`): a variant that does not exist does, and a decimal that does not fit in 96
bits does not, because its error is one of reading (`parse_decimal_fails_iff`).
-/

namespace CqlWire

namespace Error

/-- The kinds of the errors of reading bytes. -/
def OfReading : Error → Prop
  | .decode .. | .invalidLength .. | .unexpectedNull .. | .noSuchVariant .. => True
  | _ => False

/-- The kinds of the errors of parsing a literal. -/
def OfParsing : Error → Prop
  | .illegalArgument .. | .noSuchVariant .. => True
  | _ => False

/-- The error of a decimal that 96 bits cannot hold. -/
def IsDecimalTooLarge (e : Error) : Prop :=
  ∃ d, Decimal.ofUnscaled? d = none ∧ e = Coding.decimalTooLarge d

end Error

/-! ## Frames -/

namespace Frame

variable (type : ColumnType)

theorem failsOnly_require (bytes : Option Bytes) :
    FailsOnly Error.OfReading (require type bytes) := by
  cases bytes with
  | none => exact failsOnly_error trivial
  | some bs => exact failsOnly_ok bs

theorem failsOnly_fixed (n : Nat) (bs : Bytes) : FailsOnly Error.OfReading (fixed type n bs) := by
  unfold fixed
  split
  · exact failsOnly_ok _
  · exact failsOnly_error trivial

theorem failsOnly_readCount (bs : Bytes) : FailsOnly Error.OfReading (readCount type bs) := by
  unfold readCount
  split
  · exact failsOnly_error trivial
  · dsimp only
    split
    · exact failsOnly_error trivial
    · exact failsOnly_ok _

theorem failsOnly_read (bs : Bytes) : FailsOnly Error.OfReading (read type bs) := by
  unfold read
  split
  · exact failsOnly_error trivial
  · dsimp only
    split
    · exact failsOnly_ok _
    · split
      · exact failsOnly_error trivial
      · split
        · exact failsOnly_error trivial
        · exact failsOnly_ok _

theorem failsOnly_expectEnd (bs : Bytes) : FailsOnly Error.OfReading (expectEnd type bs) := by
  unfold expectEnd
  split
  · exact failsOnly_ok _
  · exact failsOnly_error trivial

/-- A value of a fixed number of bytes. -/
theorem failsOnly_require_fixed {α : Type} (n : Nat) (bytes : Option Bytes)
    {f : Octets n → Except Error α} (hf : ∀ o, FailsOnly Error.OfReading (f o)) :
    FailsOnly Error.OfReading (do
      let bs ← require type bytes
      let o ← fixed type n bs
      f o) := by
  refine failsOnly_bind (failsOnly_require type bytes) fun bs _ => ?_
  exact failsOnly_bind (failsOnly_fixed type n bs) fun o _ => hf o

end Frame

namespace Coding

variable {α β : Type}

/-- Every direction fails in its own kind; parsing may fail in any way that `P` allows. -/
structure FailsInKind (P : Error → Prop) (c : Coding α) : Prop where
  encode : ∀ a, FailsOnly Error.OfStoring (c.encode a)
  decode : ∀ bytes, FailsOnly Error.OfReading (c.decode bytes)
  parse : ∀ text, FailsOnly P (c.parse text)

theorem FailsInKind.mono {P Q : Error → Prop} {c : Coding α} (h : c.FailsInKind P)
    (hPQ : ∀ e, P e → Q e) : c.FailsInKind Q where
  encode := h.encode
  decode := h.decode
  parse text := failsOnly_mono hPQ (h.parse text)

theorem failsOnly_orRefuse {ε : Type} (type : ColumnType) (text : List Char) (message : ε → String)
    (x : Except ε α) : FailsOnly Error.OfParsing (orRefuse type text message x) := by
  cases x with
  | ok a => exact failsOnly_ok a
  | error e => exact failsOnly_error trivial

theorem orRefuse_eq_ok_iff {ε : Type} {type : ColumnType} {text : List Char}
    {message : ε → String} {x : Except ε α} {a : α} :
    orRefuse type text message x = .ok a ↔ x = .ok a := by
  cases x with
  | ok b => rw [orRefuse, Except.ok.injEq, Except.ok.injEq]
  | error e => simp [orRefuse]

theorem failsOnly_quotedText (type : ColumnType) (text : List Char) :
    FailsOnly Error.OfParsing (quotedText type text) := by
  unfold quotedText
  split
  · exact failsOnly_ok _
  · exact failsOnly_error trivial

/-- A rejection is an error of storing. -/
theorem ofStoring_of_isRejection (e : Error) (h : e.IsRejection) : e.OfStoring :=
  h.1

/-! ## Numbers and truth values -/

theorem failsInKind_integer (s : ScalarType) (width : Nat) :
    (integer s width).FailsInKind Error.OfParsing where
  encode _ := failsOnly_ok _
  decode bytes := Frame.failsOnly_require_fixed _ _ bytes fun _ => failsOnly_ok _
  parse _ := failsOnly_orRefuse _ _ _ _

theorem failsOnly_decodeVarint (type : ColumnType) (bs : Bytes) :
    FailsOnly Error.OfReading (decodeVarint type bs) := by
  unfold decodeVarint
  split
  · exact failsOnly_error trivial
  · split
    · exact failsOnly_error trivial
    · exact failsOnly_ok _

theorem failsInKind_varint : varint.FailsInKind Error.OfParsing where
  encode _ := failsOnly_ok _
  decode bytes :=
    failsOnly_bind (Frame.failsOnly_require _ bytes) fun _ _ => failsOnly_decodeVarint _ _
  parse _ := failsOnly_orRefuse _ _ _ _

theorem failsInKind_floating (s : ScalarType) (f : FloatFormat) :
    (floating s f).FailsInKind Error.OfParsing where
  encode _ := failsOnly_ok _
  decode bytes := Frame.failsOnly_require_fixed _ _ bytes fun _ => failsOnly_ok _
  parse _ := failsOnly_orRefuse _ _ _ _

theorem failsInKind_unscaled : unscaled.FailsInKind Error.OfParsing where
  encode _ := failsOnly_ok _
  decode bytes := by
    refine failsOnly_bind (Frame.failsOnly_require _ bytes) fun bs _ => ?_
    refine failsOnly_bind (failsOnly_refuseIf trivial) fun _ _ => ?_
    exact failsOnly_bind (failsOnly_decodeVarint _ _) fun _ _ => failsOnly_ok _
  parse _ := failsOnly_orRefuse _ _ _ _

theorem failsInKind_boolean : boolean.FailsInKind Error.OfParsing where
  encode _ := failsOnly_ok _
  decode bytes := Frame.failsOnly_require_fixed _ _ bytes fun _ => failsOnly_ok _
  parse text := by
    simp only [boolean]
    split
    · exact failsOnly_ok _
    · split
      · exact failsOnly_ok _
      · exact failsOnly_error trivial

/-! ## Texts and byte strings -/

theorem failsInKind_text : text.FailsInKind Error.OfParsing where
  encode _ := failsOnly_ok _
  decode bytes := by
    refine failsOnly_bind (Frame.failsOnly_require _ bytes) fun bs _ => ?_
    split
    · exact failsOnly_ok _
    · exact failsOnly_error trivial
  parse text := failsOnly_quotedText _ text

theorem failsInKind_ascii : ascii.FailsInKind Error.OfParsing where
  encode s := failsOnly_mono ofStoring_of_isRejection (failsOnly_ascii s)
  decode bytes := by
    refine failsOnly_bind (Frame.failsOnly_require _ bytes) fun bs _ => ?_
    split
    · exact failsOnly_ok _
    · exact failsOnly_error trivial
  parse text := by
    refine failsOnly_bind (failsOnly_quotedText _ text) fun s _ => ?_
    split
    · exact failsOnly_ok _
    · exact failsOnly_error trivial

theorem failsInKind_blob : blob.FailsInKind Error.OfParsing where
  encode _ := failsOnly_ok _
  decode bytes := Frame.failsOnly_require _ bytes
  parse text := by
    simp only [blob]
    split
    · exact failsOnly_error trivial
    · split
      · exact failsOnly_error trivial
      · split
        · exact failsOnly_ok _
        · exact failsOnly_error trivial

theorem failsInKind_uuid : uuid.FailsInKind Error.OfParsing where
  encode _ := failsOnly_ok _
  decode bytes := failsOnly_bind (Frame.failsOnly_require _ bytes) fun _ _ =>
    Frame.failsOnly_fixed _ _ _
  parse _ := failsOnly_orRefuse _ _ _ _

theorem failsInKind_timeuuid : timeuuid.FailsInKind Error.OfParsing where
  encode u := failsOnly_mono ofStoring_of_isRejection (failsOnly_timeuuid u)
  decode bytes := failsOnly_bind (Frame.failsOnly_require _ bytes) fun _ _ =>
    Frame.failsOnly_fixed _ _ _
  parse _ := failsOnly_orRefuse _ _ _ _

theorem failsInKind_inet : inet.FailsInKind Error.OfParsing where
  encode _ := failsOnly_ok _
  decode bytes := by
    refine failsOnly_bind (Frame.failsOnly_require _ bytes) fun bs _ => ?_
    split
    · exact failsOnly_ok _
    · exact failsOnly_error trivial
  parse text := by
    simp only [inet]
    split
    · exact failsOnly_ok _
    · exact failsOnly_error trivial

/-! ## Dates and times -/

theorem failsInKind_timestamp : timestamp.FailsInKind Error.OfParsing where
  encode t := failsOnly_mono ofStoring_of_isRejection (failsOnly_timestamp t)
  decode bytes := by
    refine Frame.failsOnly_require_fixed _ _ bytes fun o => ?_
    dsimp only
    split
    · exact failsOnly_ok _
    · exact failsOnly_error trivial
  parse text := by
    show FailsOnly Error.OfParsing (parseTimestamp text)
    unfold parseTimestamp
    dsimp only
    split
    · split
      · exact failsOnly_ok _
      · exact failsOnly_error trivial
    · refine failsOnly_bind (failsOnly_orRefuse _ _ _ _) fun t _ => ?_
      split
      · exact failsOnly_ok _
      · exact failsOnly_error trivial

theorem failsInKind_date : date.FailsInKind Error.OfParsing where
  encode d := failsOnly_mono ofStoring_of_isRejection (failsOnly_date d)
  decode bytes := by
    refine Frame.failsOnly_require_fixed _ _ bytes fun o => ?_
    dsimp only
    split
    · exact failsOnly_ok _
    · exact failsOnly_error trivial
  parse _ := failsOnly_orRefuse _ _ _ _

theorem failsInKind_time : time.FailsInKind Error.OfParsing where
  encode t := failsOnly_mono ofStoring_of_isRejection (failsOnly_time t)
  decode bytes := by
    refine Frame.failsOnly_require_fixed _ _ bytes fun o => ?_
    dsimp only
    split
    · exact failsOnly_ok _
    · exact failsOnly_error trivial
  parse text := by
    refine failsOnly_bind (failsOnly_orRefuse _ _ _ _) fun t _ => ?_
    split
    · exact failsOnly_error trivial
    · exact failsOnly_ok _

/-! ## Other types of values -/

section

variable {P : Error → Prop}

/-- What is added to reading and to parsing alike has to be an error of both. -/
theorem failsInKind_mapped {c : Coding α} (h : c.FailsInKind P) {into : α → Except Error β}
    (hinto : ∀ a, FailsOnly (fun e => e.OfReading ∧ P e) (into a)) (out : β → α) :
    (c.mapped into out).FailsInKind P where
  encode b := h.encode (out b)
  decode bytes :=
    failsOnly_bind (h.decode bytes) fun a _ => failsOnly_mono (fun _ he => he.1) (hinto a)
  parse text :=
    failsOnly_bind (h.parse text) fun a _ => failsOnly_mono (fun _ he => he.2) (hinto a)

theorem failsInKind_nominal (e : Enumeration) : (nominal e).FailsInKind Error.OfParsing := by
  apply failsInKind_mapped failsInKind_text
  intro s
  split
  · exact failsOnly_ok _
  · exact failsOnly_error ⟨trivial, trivial⟩

theorem failsInKind_ordinal (e : Enumeration) : (ordinal e).FailsInKind Error.OfParsing := by
  apply failsInKind_mapped (failsInKind_integer .int 4)
  intro n
  split
  · exact failsOnly_ok _
  · exact failsOnly_error ⟨trivial, trivial⟩

/-- A decimal is refused with an error of reading, also where a literal is parsed. -/
theorem failsInKind_decimal :
    decimal.FailsInKind fun e => e.OfParsing ∨ e.IsDecimalTooLarge := by
  apply failsInKind_mapped (failsInKind_unscaled.mono fun e h => .inl h)
  intro d
  split
  · exact failsOnly_ok _
  · rename_i hnone
    exact failsOnly_error ⟨trivial, .inr ⟨d, hnone, rfl⟩⟩

/-- Parsing a decimal fails with another kind of error exactly for the literals of the decimals that
do not fit in 96 bits. -/
theorem parse_decimal_fails_iff (text : List Char) :
    (∃ e, decimal.parse text = .error e ∧ ¬e.OfParsing) ↔
      ∃ d, UnscaledDecimal.read text = .ok d ∧ Decimal.ofUnscaled? d = none := by
  constructor
  · rintro ⟨e, he, hkind⟩
    rcases bind_eq_error_iff.1 he with he | ⟨d, hd, he⟩
    · exact absurd (failsInKind_unscaled.parse text e he) hkind
    · refine ⟨d, orRefuse_eq_ok_iff.1 hd, ?_⟩
      split at he
      · cases he
      · assumption
  · rintro ⟨d, hd, hnone⟩
    refine ⟨decimalTooLarge d, bind_eq_error_iff.2 (.inr ⟨d, orRefuse_eq_ok_iff.2 hd, ?_⟩), id⟩
    rw [hnone]

theorem failsInKind_onValues {c : Coding α} (h : c.FailsInKind P) (toValue : α → Value)
    (ofValue? : Value → Option α) : (c.onValues toValue ofValue?).FailsInKind P where
  encode v := by
    cases hv : ofValue? v with
    | some a => exact failsOnly_onValues hv (h.encode a)
    | none =>
      simp only [onValues, hv]
      exact failsOnly_error trivial
  decode bytes := failsOnly_map toValue (h.decode bytes)
  parse text := failsOnly_map toValue (h.parse text)

theorem failsInKind_option {c : Coding α} (h : c.FailsInKind P) : c.option.FailsInKind P where
  encode a := by
    cases a with
    | none => exact failsOnly_ok _
    | some a => exact h.encode a
  decode bytes := by
    cases bytes with
    | none => exact failsOnly_ok _
    | some bs => exact failsOnly_map some (h.decode (some bs))
  parse text := by
    simp only [option]
    split
    · exact failsOnly_ok _
    · exact failsOnly_map some (h.parse text)

end

/-! ## Elements, entries and fields -/

theorem failsOnly_decodeElements (type : ColumnType) (allowsNull : Bool) {c : Coding α}
    (h : ∀ bytes, FailsOnly Error.OfReading (c.decode bytes)) (count index : Nat) (bs : Bytes) :
    FailsOnly Error.OfReading (decodeElements type allowsNull c count index bs) := by
  induction count generalizing index bs with
  | zero => exact failsOnly_ok _
  | succ count ih =>
    refine failsOnly_bind (Frame.failsOnly_read type bs) fun r _ => ?_
    refine failsOnly_bind (failsOnly_refuseIf trivial) fun _ _ => ?_
    refine failsOnly_bind (h r.1) fun a _ => ?_
    exact failsOnly_bind (ih (index + 1) r.2) fun _ _ => failsOnly_ok _

theorem failsOnly_decodeEntries (type : ColumnType) {k : Coding α} {v : Coding β}
    (hk : ∀ bytes, FailsOnly Error.OfReading (k.decode bytes))
    (hv : ∀ bytes, FailsOnly Error.OfReading (v.decode bytes)) (count index : Nat) (bs : Bytes) :
    FailsOnly Error.OfReading (decodeEntries type k v count index bs) := by
  induction count generalizing index bs with
  | zero => exact failsOnly_ok _
  | succ count ih =>
    refine failsOnly_bind (Frame.failsOnly_read type bs) fun r _ => ?_
    refine failsOnly_bind (failsOnly_refuseIf trivial) fun _ _ => ?_
    refine failsOnly_bind (Frame.failsOnly_read type r.2) fun s _ => ?_
    refine failsOnly_bind (hk r.1) fun key _ => ?_
    refine failsOnly_bind (hv s.1) fun value _ => ?_
    exact failsOnly_bind (ih (index + 1) s.2) fun _ _ => failsOnly_ok _

theorem failsOnly_readSlots (type : ColumnType) (slots : List Nat) (bs : Bytes)
    (values : List (Option Bytes)) :
    FailsOnly Error.OfReading (readSlots type slots bs values) := by
  induction slots generalizing bs values with
  | nil => exact failsOnly_ok _
  | cons slot slots ih =>
    unfold readSlots
    split
    · exact failsOnly_ok _
    · exact failsOnly_bind (Frame.failsOnly_read type bs) fun r _ => ih r.2 (values.set slot r.1)

theorem failsOnly_placeLiterals (schema : UserType) (slots : List Nat) (text : List Char)
    (parts : List (List Char × List Char)) (placed : List (Option (List Char))) :
    FailsOnly Error.OfParsing (placeLiterals schema slots text parts placed) := by
  induction parts generalizing placed with
  | nil => exact failsOnly_ok _
  | cons part parts ih =>
    unfold placeLiterals
    split
    · exact failsOnly_error trivial
    · split
      · exact ih _
      · exact ih placed

/-! ## Collections and records -/

section

variable {P : Error → Prop} (literals : ∀ e : Error, e.OfParsing → P e)
include literals

theorem failsInKind_elements (kind : CollectionKind) (frozen : Bool) {c : Coding α}
    (h : c.FailsInKind P) : (elements kind frozen c).FailsInKind P where
  encode as := failsOnly_elements ofStoring_of_isRejection kind frozen fun a _ => h.encode a
  decode bytes := by
    refine failsOnly_bind (Frame.failsOnly_require _ bytes) fun bs _ => ?_
    split
    · exact failsOnly_ok _
    · refine failsOnly_bind (Frame.failsOnly_readCount _ bs) fun r _ => ?_
      refine failsOnly_bind (failsOnly_decodeElements _ _ h.decode r.1 0 r.2) fun r _ => ?_
      exact failsOnly_bind (Frame.failsOnly_expectEnd _ r.2) fun _ _ => failsOnly_ok _
  parse text := by
    refine failsOnly_bind (failsOnly_mono literals (failsOnly_orRefuse _ _ _ _)) fun parts _ => ?_
    refine failsOnly_mapM fun part _ => ?_
    unfold parseElement
    split
    · exact failsOnly_error (literals _ trivial)
    · exact h.parse part

theorem failsInKind_entries (frozen : Bool) {k : Coding α} {v : Coding β} (hk : k.FailsInKind P)
    (hv : v.FailsInKind P) : (entries frozen k v).FailsInKind P where
  encode es := failsOnly_entries ofStoring_of_isRejection frozen (fun e _ => hk.encode e.1)
    fun e _ => hv.encode e.2
  decode bytes := by
    refine failsOnly_bind (Frame.failsOnly_require _ bytes) fun bs _ => ?_
    split
    · exact failsOnly_ok _
    · refine failsOnly_bind (Frame.failsOnly_readCount _ bs) fun r _ => ?_
      refine failsOnly_bind (failsOnly_decodeEntries _ hk.decode hv.decode r.1 0 r.2) fun r _ => ?_
      exact failsOnly_bind (Frame.failsOnly_expectEnd _ r.2) fun _ _ => failsOnly_ok _
  parse text := by
    refine failsOnly_bind (failsOnly_mono literals (failsOnly_orRefuse _ _ _ _)) fun parts _ => ?_
    refine failsOnly_mapM fun part _ => ?_
    refine failsOnly_bind (failsOnly_refuseIf (literals _ trivial)) fun _ _ => ?_
    refine failsOnly_bind (hk.parse part.1) fun key _ => ?_
    exact failsOnly_bind (hv.parse part.2) fun value _ => failsOnly_ok _

theorem failsInKind_record (typeName : String) (schema : UserType) (slots : List Nat)
    {fields : List (Coding α)} (h : ∀ c ∈ fields, c.FailsInKind P) :
    (record typeName schema slots fields).FailsInKind P where
  encode as := failsOnly_record ofStoring_of_isRejection typeName schema slots
    fun i c a hc _ => (h c (List.mem_of_getElem? hc)).encode a
  decode bytes := by
    refine failsOnly_bind (Frame.failsOnly_require _ bytes) fun bs _ => ?_
    refine failsOnly_bind (failsOnly_readSlots _ slots bs _) fun r _ => ?_
    refine failsOnly_bind (failsOnly_refuseIf trivial) fun _ _ => ?_
    exact failsOnly_mapM fun p hp => (h p.1 (List.of_mem_zip hp).1).decode p.2
  parse text := by
    refine failsOnly_bind (failsOnly_mono literals (failsOnly_orRefuse _ _ _ _)) fun parts _ => ?_
    refine failsOnly_bind ?_ fun placed _ => ?_
    · exact failsOnly_mono literals (failsOnly_placeLiterals schema slots text parts _)
    · exact failsOnly_mapM fun p hp => (h p.1 (List.of_mem_zip hp).1).parse (p.2.getD _)

end

end Coding

end CqlWire
