import CqlWire.SortedMap
import CqlWire.Value.Basic

/-!
# The order of values

`Value.compare` orders the values of each type: false before true, numbers by size, texts and byte
strings lexicographically, addresses of version 4 before those of version 6, an absent value before
a present one, and compound values by their parts in turn. Decimals compare as numbers, so two of
them with different scales can be equal. Values of different kinds are ordered by kind.

`Value.same` is equality as programs see it: decimals are compared as numbers, and so are floating
point numbers, of which NaN differs even from itself.
-/

namespace CqlWire

/-- Lexicographic comparison. -/
def compareLists {α : Type} (cmp : α → α → Ordering) : List α → List α → Ordering
  | [], [] => .eq
  | [], _ :: _ => .lt
  | _ :: _, [] => .gt
  | a :: as, b :: bs => (cmp a b).then (compareLists cmp as bs)

/-- Addresses are ordered by version, then by their bytes. -/
def Inet.compare (a b : Inet) : Ordering :=
  (Ord.compare a.bytes.length b.bytes.length).then (compareLists Ord.compare a.bytes b.bytes)

/-- Times are ordered by seconds, then by nanoseconds. -/
def TimeOfDay.compare (a b : TimeOfDay) : Ordering :=
  (Ord.compare a.seconds b.seconds).then (Ord.compare a.nanos b.nanos)

/-- Instants are ordered by date, then by time. -/
def Instant.compare (a b : Instant) : Ordering :=
  (Ord.compare a.date.days b.date.days).then (a.time.compare b.time)

namespace Value

/-- The place of a kind among the kinds of values. -/
def rank : Value → Nat
  | .bool _ => 0
  | .int _ => 1
  | .float _ => 2
  | .double _ => 3
  | .text _ => 4
  | .bytes _ => 5
  | .uuid _ => 6
  | .instant _ => 7
  | .date _ => 8
  | .time _ => 9
  | .unscaled _ => 10
  | .decimal _ => 11
  | .inet _ => 12
  | .absent => 13
  | .present _ => 14
  | .sequence _ => 15
  | .mapping _ => 16
  | .variant _ => 17
  | .record _ => 18

mutual

/-- The order of values. -/
def compare : Value → Value → Ordering
  | .bool a, .bool b => Ord.compare a b
  | .int a, .int b => Ord.compare a b
  | .float a, .float b | .double a, .double b => Ord.compare a b
  | .text a, .text b => compareLists Ord.compare a b
  | .bytes a, .bytes b => compareLists Ord.compare a b
  | .uuid a, .uuid b => compareLists Ord.compare a.1 b.1
  | .instant a, .instant b => a.compare b
  | .date a, .date b => Ord.compare a.days b.days
  | .time a, .time b => a.compare b
  | .unscaled a, .unscaled b =>
    (Ord.compare a.unscaled b.unscaled).then (Ord.compare a.scale b.scale)
  | .decimal a, .decimal b => a.compare b
  | .inet a, .inet b => a.compare b
  | .present a, .present b => a.compare b
  | .sequence as, .sequence bs => compareAll as bs
  | .mapping as, .mapping bs => compareEntries as bs
  | .variant a, .variant b => Ord.compare a b
  | .record as, .record bs => compareAll as bs
  | a, b => Ord.compare a.rank b.rank
termination_by structural a => a

/-- The lexicographic order of lists of values. -/
def compareAll : List Value → List Value → Ordering
  | [], [] => .eq
  | [], _ :: _ => .lt
  | _ :: _, [] => .gt
  | a :: as, b :: bs => (a.compare b).then (compareAll as bs)
termination_by structural as => as

/-- The lexicographic order of lists of entries, of which the key decides first. -/
def compareEntries : List (Value × Value) → List (Value × Value) → Ordering
  | [], [] => .eq
  | [], _ :: _ => .lt
  | _ :: _, [] => .gt
  | (k, v) :: as, (l, w) :: bs => ((k.compare l).then (v.compare w)).then (compareEntries as bs)
termination_by structural as => as

end

/-- Equality of floating point numbers: zero has one value, and NaN differs from everything. -/
def sameFloat (f : FloatFormat) (a b : Nat) : Bool :=
  match f.classify a, f.classify b with
  | .nan, _ | _, .nan => false
  | .finite _ 0 _, .finite _ 0 _ => true
  | x, y => x = y

mutual

/-- Equality as programs see it. -/
def same : Value → Value → Bool
  | .float a, .float b => sameFloat .single a b
  | .double a, .double b => sameFloat .double a b
  | .present a, .present b => a.same b
  | .sequence as, .sequence bs => sameAll as bs
  | .mapping as, .mapping bs => sameEntries as bs
  | .record as, .record bs => sameAll as bs
  | a, b => a.compare b = .eq
termination_by structural a => a

/-- Equality of lists of values, in order. -/
def sameAll : List Value → List Value → Bool
  | [], [] => true
  | a :: as, b :: bs => a.same b && sameAll as bs
  | _, _ => false
termination_by structural as => as

/-- Equality of lists of entries, in order. -/
def sameEntries : List (Value × Value) → List (Value × Value) → Bool
  | [], [] => true
  | (k, v) :: as, (l, w) :: bs => k.same l && v.same w && sameEntries as bs
  | _, _ => false
termination_by structural as => as

end

end Value

end CqlWire
