import CqlWire.Calendar.TimeOfDay
import CqlWire.Inet
import CqlWire.Number.Decimal
import CqlWire.Number.FloatFormat
import CqlWire.Uuid

/-!
# Values

`Value` is a value of any type that can be stored in a column. It does not carry its type: which
values a type has is the matter of `ValueType`. Integers are mathematical, floating point numbers
are their bits, and a collection is the list of its elements in iteration order, whatever holds it.
-/

namespace CqlWire

/-- A value of any type. -/
inductive Value where
  | bool (b : Bool)
  | int (n : Int)
  /-- A floating point number of four bytes, by its bits. -/
  | float (bits : Nat)
  /-- A floating point number of eight bytes, by its bits. -/
  | double (bits : Nat)
  | text (s : List Char)
  | bytes (bs : Bytes)
  | uuid (u : Uuid)
  | instant (t : Instant)
  | date (d : Date)
  | time (t : TimeOfDay)
  | unscaled (d : UnscaledDecimal)
  | decimal (d : Decimal)
  | inet (a : Inet)
  /-- No value, where there may be none. -/
  | absent
  /-- A value, where there may be none. -/
  | present (v : Value)
  /-- The elements of a list or a set. -/
  | sequence (vs : List Value)
  /-- The entries of a map. -/
  | mapping (es : List (Value × Value))
  /-- A variant of an enumeration, by its position. -/
  | variant (index : Nat)
  /-- The fields of a record, in the order of their declaration. -/
  | record (fields : List Value)
deriving Repr

namespace Value

/-! ## Views

What a value holds when it is of a given kind. -/

def bool? : Value → Option Bool | .bool b => some b | _ => none
def int? : Value → Option Int | .int n => some n | _ => none
def float? : Value → Option Nat | .float n => some n | _ => none
def double? : Value → Option Nat | .double n => some n | _ => none
def text? : Value → Option (List Char) | .text s => some s | _ => none
def bytes? : Value → Option Bytes | .bytes bs => some bs | _ => none
def uuid? : Value → Option Uuid | .uuid u => some u | _ => none
def instant? : Value → Option Instant | .instant t => some t | _ => none
def date? : Value → Option Date | .date d => some d | _ => none
def time? : Value → Option TimeOfDay | .time t => some t | _ => none
def unscaled? : Value → Option UnscaledDecimal | .unscaled d => some d | _ => none
def decimal? : Value → Option Decimal | .decimal d => some d | _ => none
def inet? : Value → Option Inet | .inet a => some a | _ => none
def sequence? : Value → Option (List Value) | .sequence vs => some vs | _ => none
def mapping? : Value → Option (List (Value × Value)) | .mapping es => some es | _ => none
def variant? : Value → Option Nat | .variant i => some i | _ => none
def record? : Value → Option (List Value) | .record vs => some vs | _ => none

/-- A value that may be missing, as an option. -/
def option? : Value → Option (Option Value)
  | .absent => some none
  | .present v => some (some v)
  | _ => none

/-- The value of an option. -/
def ofOption : Option Value → Value
  | none => .absent
  | some v => .present v

@[simp] theorem option?_ofOption (o : Option Value) : (ofOption o).option? = some o := by
  cases o <;> rfl

end Value

end CqlWire
