import CqlWire.Coding.Number
import CqlWire.Coding.Text
import CqlWire.Value.Type

/-!
# Codings of enumerations

A variant is stored by its name as `text` or by its position as `int`. Both codings are those of
the stored type, mapped to the positions of the variants.

* `Enumeration.ofName?`, `Enumeration.ofOrdinal?`: the variant of a name or of a position;
* `Coding.nominal`, `Coding.ordinal`: the codings.
-/

namespace CqlWire

namespace Enumeration

/-- The number of variants. -/
def size (e : Enumeration) : Nat := e.names.length

/-- The stored name of a variant. -/
def nameOf (e : Enumeration) (index : Nat) : String :=
  e.names.getD index ""

/-- The first variant of a stored name. -/
def ofName? (e : Enumeration) (name : String) : Option Nat :=
  e.names.idxOf? name

/-- The variant at a position. -/
def ofOrdinal? (e : Enumeration) (n : Int) : Option Nat :=
  if 0 ≤ n ∧ n < e.size then some n.toNat else none

end Enumeration

namespace Coding

/-- Variants stored by name. -/
def nominal (e : Enumeration) : Coding Nat :=
  text.mapped
    (fun s =>
      match e.ofName? (String.ofList s) with
      | some index => .ok index
      | none => .error (.noSuchVariant e.typeName s!"'{String.ofList s}'"))
    (fun index => (e.nameOf index).toList)

/-- Variants stored by position. -/
def ordinal (e : Enumeration) : Coding Nat :=
  (integer .int 4).mapped
    (fun n =>
      match e.ofOrdinal? n with
      | some index => .ok index
      | none => .error (.noSuchVariant e.typeName s!"ordinal {n} of {e.size}"))
    (fun index => (index : Int))

end Coding

end CqlWire
