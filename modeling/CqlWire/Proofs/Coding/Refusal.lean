import CqlWire.Codec.Basic
import CqlWire.Proofs.Fallible

/-!
# Refusals of values

A value may be refused for breaking a rule of the column type, as a text outside US-ASCII or an
absent key does, or for being of another type than the coding stores. Both are of the one kind
`Error.OfStoring`. They differ in what they quote or in their reason (`Error.isRejection_of_value`,
`Error.isRejection_of_reason`), and a caller that hands over a value of the right type gets to see
only the first, an `Error.IsRejection`.

Collections and records pass on what their parts refuse and add only rejections of their own and of
their frames. So whatever holds of all rejections and of the refusals of the parts holds of theirs
(`failsOnly_elements`, `failsOnly_entries`, `failsOnly_record`): that the error is of storing, or
that it is not for a value of another type.
-/

namespace CqlWire

namespace Error

/-- The kind of the errors of storing a value. -/
def OfStoring : Error → Prop
  | .illegalValue .. => True
  | _ => False

/-- A value of another type than was expected. -/
def IsMistyped (e : Error) : Prop :=
  ∃ type expected, e = Coding.mistyped type expected

/-- A value that breaks a rule of its type. -/
def IsRejection (e : Error) : Prop :=
  e.OfStoring ∧ ¬e.IsMistyped

theorem isRejection_of_value {type value reason : String} (h : value ≠ "<erased>") :
    (illegalValue type value reason).IsRejection := by
  refine ⟨trivial, ?_⟩
  rintro ⟨_, _, heq⟩
  rw [Coding.mistyped, illegalValue.injEq] at heq
  exact h heq.2.1

theorem isRejection_of_reason {type value reason : String}
    (h : ¬"expected a ".toList <+: reason.toList) :
    (illegalValue type value reason).IsRejection := by
  refine ⟨trivial, ?_⟩
  rintro ⟨_, expected, heq⟩
  rw [Coding.mistyped, illegalValue.injEq] at heq
  rw [heq.2.2, String.toList_append] at h
  exact h (List.prefix_append _ _)

end Error

/-- A computation that does not fail for a value of another type than was expected. -/
def NeverMistyped {α : Type} (x : Except Error α) : Prop :=
  ∀ e, x = .error e → ¬e.IsMistyped

/-! ## Frames -/

namespace Frame

theorem failsOnly_writeCount (n : Nat) : FailsOnly Error.IsRejection (writeCount n) := by
  unfold writeCount
  split
  · exact failsOnly_ok _
  · exact failsOnly_error (Error.isRejection_of_reason (by decide))

theorem failsOnly_write (raw : Option Bytes) : FailsOnly Error.IsRejection (write raw) := by
  cases raw with
  | none => exact failsOnly_ok _
  | some bs => exact failsOnly_bind (failsOnly_writeCount bs.length) fun _ _ => failsOnly_ok _

end Frame

namespace Coding

variable {α β : Type}

/-! ## Scalars -/

theorem failsOnly_ascii (s : List Char) : FailsOnly Error.IsRejection (ascii.encode s) := by
  simp only [ascii]
  split
  · exact failsOnly_ok _
  · exact failsOnly_error (Error.isRejection_of_reason (by decide))

theorem failsOnly_timeuuid (u : Uuid) : FailsOnly Error.IsRejection (timeuuid.encode u) := by
  simp only [timeuuid]
  split
  · exact failsOnly_ok _
  · refine failsOnly_error (Error.isRejection_of_reason fun h => ?_)
    simp only [String.toList_append] at h
    exact absurd (List.cons_prefix_cons.1 h).1 (show 'e' ≠ 'v' by decide)

theorem failsOnly_timestamp (t : Instant) : FailsOnly Error.IsRejection (timestamp.encode t) := by
  simp only [timestamp, inexactMillis?]
  split
  · exact failsOnly_ok _
  · rename_i reason hreason
    refine failsOnly_error (Error.isRejection_of_reason ?_)
    split at hreason
    · cases hreason
      decide
    · split at hreason
      · cases hreason
        decide
      · cases hreason

theorem failsOnly_date (d : Date) : FailsOnly Error.IsRejection (date.encode d) := by
  simp only [date]
  split
  · exact failsOnly_ok _
  · exact failsOnly_error (Error.isRejection_of_reason (by decide))

theorem failsOnly_time (t : TimeOfDay) : FailsOnly Error.IsRejection (time.encode t) := by
  simp only [time]
  split
  · exact failsOnly_error (Error.isRejection_of_reason (by decide))
  · exact failsOnly_ok _

theorem failsOnly_onValues {E : Error → Prop} {c : Coding α} {toValue : α → Value}
    {ofValue? : Value → Option α} {a : α} {v : Value} (hv : ofValue? v = some a)
    (h : FailsOnly E (c.encode a)) : FailsOnly E ((c.onValues toValue ofValue?).encode v) := by
  simp only [onValues, hv]
  exact h

/-! ## Lists, sets and maps -/

section

variable {E : Error → Prop} (rejections : ∀ e : Error, e.IsRejection → E e)
include rejections

theorem failsOnly_encodeElement (type : ColumnType) (allowsNull : Bool) {c : Coding α} {a : α}
    (h : FailsOnly E (c.encode a)) : FailsOnly E (encodeElement type allowsNull c a) := by
  refine failsOnly_bind h fun raw _ => ?_
  cases raw with
  | some bs => exact failsOnly_mono rejections (Frame.failsOnly_write _)
  | none =>
    cases allowsNull
    · exact failsOnly_error (rejections _ (Error.isRejection_of_reason (by decide)))
    · exact failsOnly_mono rejections (Frame.failsOnly_write none)

theorem failsOnly_elements (kind : CollectionKind) (frozen : Bool) {c : Coding α} {as : List α}
    (h : ∀ a ∈ as, FailsOnly E (c.encode a)) :
    FailsOnly E ((elements kind frozen c).encode as) := by
  refine failsOnly_map _ (failsOnly_bind ?_ fun _ _ => ?_)
  · exact failsOnly_mono rejections (Frame.failsOnly_writeCount as.length)
  · refine failsOnly_bind (failsOnly_mapM fun a ha => ?_) fun _ _ => failsOnly_ok _
    exact failsOnly_encodeElement rejections _ _ (h a ha)

theorem failsOnly_encodeEntry (type : ColumnType) {k : Coding α} {v : Coding β} {e : α × β}
    (hk : FailsOnly E (k.encode e.1)) (hv : FailsOnly E (v.encode e.2)) :
    FailsOnly E (encodeEntry type k v e) := by
  have hframe : ∀ raw, FailsOnly E (Frame.write raw) := fun raw =>
    failsOnly_mono rejections (Frame.failsOnly_write raw)
  refine failsOnly_bind hk fun raw _ => ?_
  cases raw with
  | none => exact failsOnly_error (rejections _ (Error.isRejection_of_reason (by decide)))
  | some key =>
    refine failsOnly_bind (hframe _) fun _ _ => ?_
    refine failsOnly_bind hv fun value _ => ?_
    exact failsOnly_bind (hframe value) fun _ _ => failsOnly_ok _

theorem failsOnly_entries (frozen : Bool) {k : Coding α} {v : Coding β} {es : List (α × β)}
    (hk : ∀ e ∈ es, FailsOnly E (k.encode e.1)) (hv : ∀ e ∈ es, FailsOnly E (v.encode e.2)) :
    FailsOnly E ((entries frozen k v).encode es) := by
  refine failsOnly_bind ?_ fun _ _ => ?_
  · exact failsOnly_mono rejections (Frame.failsOnly_writeCount es.length)
  · refine failsOnly_bind (failsOnly_mapM fun e he => ?_) fun _ _ => failsOnly_ok _
    exact failsOnly_encodeEntry rejections _ (hk e he) (hv e he)

end

/-! ## Records -/

theorem isRejection_noSuchField (typeName : String) (count index : Nat) :
    (noSuchField typeName count index).IsRejection := by
  refine Error.isRejection_of_value fun h => ?_
  have hchars := congrArg String.toList h
  rw [String.toList_append] at hchars
  exact absurd (List.cons_eq_cons.1 hchars).1 (show 'f' ≠ '<' by decide)

theorem failsOnly_record {E : Error → Prop} (rejections : ∀ e : Error, e.IsRejection → E e)
    (typeName : String) (schema : UserType) (slots : List Nat) {fields : List (Coding α)}
    {as : List α}
    (h : ∀ (i : Nat) (c : Coding α) (a : α), fields[i]? = some c → as[i]? = some a →
      FailsOnly E (c.encode a)) :
    FailsOnly E ((record typeName schema slots fields).encode as) := by
  have hfield : ∀ index, FailsOnly E (encodeField typeName fields as index) := by
    intro index
    unfold encodeField
    split
    · rename_i c a hc ha
      exact h index c a hc ha
    · exact failsOnly_error (rejections _ (isRejection_noSuchField _ _ _))
  refine failsOnly_map _ (failsOnly_bind (failsOnly_mapM fun index _ => ?_)
    fun _ _ => failsOnly_ok _)
  exact failsOnly_bind (hfield index) fun raw _ =>
    failsOnly_mono rejections (Frame.failsOnly_write raw)

end Coding

/-- A value of a scalar type is refused only for breaking a rule of it. -/
theorem failsOnly_scalar {s : ScalarType} {v : Value} (h : s.valueType.Holds v) :
    FailsOnly Error.IsRejection (s.coding.encode v) := by
  cases s with
  | bigint | counter | int | smallint | tinyint | varint =>
    obtain ⟨n, rfl, -⟩ := BaseType.eq_int_of_holds rfl h
    exact failsOnly_ok _
  | ascii =>
    obtain ⟨a, rfl⟩ := BaseType.eq_text_of_holds h
    exact Coding.failsOnly_onValues rfl (Coding.failsOnly_ascii a)
  | text =>
    obtain ⟨a, rfl⟩ := BaseType.eq_text_of_holds h
    exact failsOnly_ok _
  | blob =>
    obtain ⟨bs, rfl⟩ := BaseType.eq_bytes_of_holds h
    exact failsOnly_ok _
  | boolean =>
    obtain ⟨b, rfl⟩ := BaseType.eq_bool_of_holds h
    exact failsOnly_ok _
  | date =>
    obtain ⟨d, rfl⟩ := BaseType.eq_date_of_holds h
    exact Coding.failsOnly_onValues rfl (Coding.failsOnly_date d)
  | time =>
    obtain ⟨t, rfl⟩ := BaseType.eq_time_of_holds h
    exact Coding.failsOnly_onValues rfl (Coding.failsOnly_time t)
  | timestamp =>
    obtain ⟨t, rfl⟩ := BaseType.eq_instant_of_holds h
    exact Coding.failsOnly_onValues rfl (Coding.failsOnly_timestamp t)
  | decimal =>
    obtain ⟨d, rfl, -⟩ := BaseType.eq_unscaled_of_holds h
    exact failsOnly_ok _
  | double =>
    obtain ⟨bits, rfl, -⟩ := BaseType.eq_double_of_holds h
    exact failsOnly_ok _
  | float =>
    obtain ⟨bits, rfl, -⟩ := BaseType.eq_float_of_holds h
    exact failsOnly_ok _
  | inet =>
    obtain ⟨a, rfl⟩ := BaseType.eq_inet_of_holds h
    exact failsOnly_ok _
  | timeuuid =>
    obtain ⟨u, rfl⟩ := BaseType.eq_uuid_of_holds h
    exact Coding.failsOnly_onValues rfl (Coding.failsOnly_timeuuid u)
  | uuid =>
    obtain ⟨u, rfl⟩ := BaseType.eq_uuid_of_holds h
    exact failsOnly_ok _

end CqlWire
