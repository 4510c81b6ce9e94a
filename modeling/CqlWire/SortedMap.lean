/-!
# Sorted maps

A sorted map keeps its entries in the order of their keys. The order is any comparison of keys, and
keys that compare as equal are one key, even where they can be told apart otherwise: the map keeps
the key it got first and the value it got last.

* `KeyOrder`: the order of the keys themselves, reversed any number of times;
* `SortedMap.insert`, `SortedMap.erase`, `SortedMap.find?`: the operations, of which the first two
  also give the value that was there before;
* `SortedMap.ofList`: the pairs inserted in turn.
-/

namespace CqlWire

/-- An order of keys: their own, or another order reversed. -/
inductive KeyOrder where
  | natural
  | reversed (order : KeyOrder)
deriving DecidableEq, Repr

/-- The comparison that an order makes of the comparison of the keys themselves. -/
def KeyOrder.compare {κ : Type} (cmp : κ → κ → Ordering) : KeyOrder → κ → κ → Ordering
  | .natural => cmp
  | .reversed order => fun a b => order.compare cmp b a

/-- A map as the list of its entries, in the order of the keys. -/
structure SortedMap (κ ν : Type) where
  entries : List (κ × ν)
deriving DecidableEq, Repr

namespace SortedMap

variable {κ ν : Type}

/-- The map without entries. -/
def empty : SortedMap κ ν := ⟨[]⟩

/-- The number of entries. -/
def size (m : SortedMap κ ν) : Nat := m.entries.length

/-- Whether there is no entry. -/
def isEmpty (m : SortedMap κ ν) : Bool := m.entries.isEmpty

/-- The keys in order. -/
def keys (m : SortedMap κ ν) : List κ := m.entries.map Prod.fst

/-- Puts an entry where its key belongs; an equal key keeps its place and gets the new value. The
value that it had comes with the result. -/
def insertEntry (cmp : κ → κ → Ordering) (key : κ) (value : ν) :
    List (κ × ν) → Option ν × List (κ × ν)
  | [] => (none, [(key, value)])
  | (k, v) :: rest =>
    match cmp k key with
    | .lt =>
      let r := insertEntry cmp key value rest
      (r.1, (k, v) :: r.2)
    | .eq => (some v, (k, value) :: rest)
    | .gt => (none, (key, value) :: (k, v) :: rest)

/-- Takes out the entry of a key. The value that it had comes with the result. -/
def eraseEntry (cmp : κ → κ → Ordering) (key : κ) : List (κ × ν) → Option ν × List (κ × ν)
  | [] => (none, [])
  | (k, v) :: rest =>
    match cmp k key with
    | .lt =>
      let r := eraseEntry cmp key rest
      (r.1, (k, v) :: r.2)
    | .eq => (some v, rest)
    | .gt => (none, (k, v) :: rest)

/-- The value of a key among entries in order. -/
def findEntry? (cmp : κ → κ → Ordering) (key : κ) : List (κ × ν) → Option ν
  | [] => none
  | (k, v) :: rest =>
    match cmp k key with
    | .lt => findEntry? cmp key rest
    | .eq => some v
    | .gt => none

/-- Inserts an entry and gives the value that an equal key had. -/
def insert (cmp : κ → κ → Ordering) (m : SortedMap κ ν) (key : κ) (value : ν) :
    Option ν × SortedMap κ ν :=
  let r := insertEntry cmp key value m.entries
  (r.1, ⟨r.2⟩)

/-- Removes the entry of a key and gives its value. -/
def erase (cmp : κ → κ → Ordering) (m : SortedMap κ ν) (key : κ) : Option ν × SortedMap κ ν :=
  let r := eraseEntry cmp key m.entries
  (r.1, ⟨r.2⟩)

/-- The value of a key. -/
def find? (cmp : κ → κ → Ordering) (m : SortedMap κ ν) (key : κ) : Option ν :=
  findEntry? cmp key m.entries

/-- The map that has got the pairs in turn. -/
def ofList (cmp : κ → κ → Ordering) (pairs : List (κ × ν)) : SortedMap κ ν :=
  pairs.foldl (fun m e => (m.insert cmp e.1 e.2).2) empty

end SortedMap

end CqlWire
