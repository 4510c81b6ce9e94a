import CqlWire.Coding.Collection

/-!
# Collections that are filled and written part by part

A container need not wait for the whole list of its elements: a loop may push each of them into a
builder before it reads the next one (`decodeInto`, `parseInto`). Whatever the builder does, this
comes to reading the whole list and pushing its elements in turn, with the same error if it fails
(`decodeElementsInto_eq`, `decodeEntriesInto_eq`, `parseElementsInto_eq`, `parseEntriesInto_eq`). A
loop that appends each element to what is written (`encodeFrom`) comes to writing them all
(`encode_elements_eq`, `encode_entries_eq`).
-/

namespace CqlWire

variable {ε α β σ π : Type}

/-- Steps that each push their result give what the results give that are pushed afterwards. -/
theorem foldlM_push (f : α → Except ε β) (push : σ → β → σ) (as : List α) (s : σ) :
    as.foldlM (fun s a => push s <$> f a) s = (fun bs => bs.foldl push s) <$> as.mapM f := by
  induction as generalizing s with
  | nil => rfl
  | cons a as ih =>
    rw [List.foldlM_cons, List.mapM_cons]
    cases f a with
    | error e => rfl
    | ok b =>
      refine (ih (push s b)).trans ?_
      cases as.mapM f with
      | error e => rfl
      | ok bs => rfl

namespace Coding

/-! ## Bytes -/

section

variable (read : Nat → Bytes → Except Error (α × Bytes)) (push : σ → α → σ)

/-- Reads so many parts, the first of which has the given index; what is left comes with them. -/
def readAll : (count index : Nat) → Bytes → Except Error (List α × Bytes)
  | 0, _, bs => .ok ([], bs)
  | count + 1, index, bs => do
    let (a, bs) ← read index bs
    let (as, bs) ← readAll count (index + 1) bs
    return (a :: as, bs)

/-- Reads so many parts and pushes each of them before it reads the next one. -/
def fill : (count index : Nat) → σ → Bytes → Except Error (σ × Bytes)
  | 0, _, s, bs => .ok (s, bs)
  | count + 1, index, s, bs => do
    let (a, bs) ← read index bs
    fill count (index + 1) (push s a) bs

theorem fill_eq (count index : Nat) (s : σ) (bs : Bytes) :
    fill read push count index s bs =
      (fun r => (r.1.foldl push s, r.2)) <$> readAll read count index bs := by
  induction count generalizing index s bs with
  | zero => rfl
  | succ count ih =>
    simp only [fill, readAll, ih, map_eq_pure_bind, bind_assoc, pure_bind, List.foldl_cons]

/-- Reads the parts of a collection into a list. -/
def decodeAll (type : ColumnType) (bytes : Option Bytes) : Except Error (List α) := do
  let bs ← Frame.require type bytes
  if bs.isEmpty then return []
  let (count, bs) ← Frame.readCount type bs
  let (as, rest) ← readAll read count 0 bs
  Frame.expectEnd type rest
  return as

/-- Reads the parts of a collection one by one into a builder. -/
def decodeInto (type : ColumnType) (start : σ) (bytes : Option Bytes) : Except Error σ := do
  let bs ← Frame.require type bytes
  if bs.isEmpty then return start
  let (count, bs) ← Frame.readCount type bs
  let (s, rest) ← fill read push count 0 start bs
  Frame.expectEnd type rest
  return s

theorem decodeInto_eq (type : ColumnType) (start : σ) (bytes : Option Bytes) :
    decodeInto read push type start bytes =
      (fun as => as.foldl push start) <$> decodeAll read type bytes := by
  rw [decodeInto, decodeAll, map_eq_pure_bind, bind_assoc]
  refine bind_congr fun bs => ?_
  split
  · rfl
  · simp only [fill_eq, map_eq_pure_bind, bind_assoc, pure_bind]

end

/-- Reads the element with the given index. -/
def readElement (type : ColumnType) (allowsNull : Bool) (c : Coding α) (index : Nat) (bs : Bytes) :
    Except Error (α × Bytes) := do
  let (raw, bs) ← Frame.read type bs
  refuseIf (raw.isNone && !allowsNull) (.decode type.toText s!"null element at index {index}")
  let a ← c.decode raw
  return (a, bs)

/-- Reads the entry with the given index. -/
def readEntry (type : ColumnType) (k : Coding α) (v : Coding β) (index : Nat) (bs : Bytes) :
    Except Error ((α × β) × Bytes) := do
  let (rawKey, bs) ← Frame.read type bs
  refuseIf rawKey.isNone (.decode type.toText s!"null key at entry {index}")
  let (rawValue, bs) ← Frame.read type bs
  let key ← k.decode rawKey
  let value ← v.decode rawValue
  return ((key, value), bs)

theorem decodeElements_eq (type : ColumnType) (allowsNull : Bool) (c : Coding α)
    (count index : Nat) (bs : Bytes) : decodeElements type allowsNull c count index bs =
      readAll (readElement type allowsNull c) count index bs := by
  induction count generalizing index bs with
  | zero => rfl
  | succ count ih => simp only [decodeElements, readAll, readElement, ih, bind_assoc, pure_bind]

theorem decodeEntries_eq (type : ColumnType) (k : Coding α) (v : Coding β) (count index : Nat)
    (bs : Bytes) : decodeEntries type k v count index bs =
      readAll (readEntry type k v) count index bs := by
  induction count generalizing index bs with
  | zero => rfl
  | succ count ih => simp only [decodeEntries, readAll, readEntry, ih, bind_assoc, pure_bind]

/-- Reads the elements of a list or a set one by one into a builder. -/
def decodeElementsInto (kind : CollectionKind) (frozen : Bool) (c : Coding α) (push : σ → α → σ) :
    (start : σ) → Option Bytes → Except Error σ :=
  let type := kind.type frozen c.type
  decodeInto (readElement type kind.allowsNull c) push type

/-- Reads the entries of a map one by one into a builder. -/
def decodeEntriesInto (frozen : Bool) (k : Coding α) (v : Coding β) (push : σ → α × β → σ) :
    (start : σ) → Option Bytes → Except Error σ :=
  let type := ColumnType.map frozen k.type v.type
  decodeInto (readEntry type k v) push type

theorem decodeElementsInto_eq (kind : CollectionKind) (frozen : Bool) (c : Coding α)
    (push : σ → α → σ) (start : σ) (bytes : Option Bytes) :
    decodeElementsInto kind frozen c push start bytes =
      (fun as => as.foldl push start) <$> (elements kind frozen c).decode bytes := by
  rw [decodeElementsInto, decodeInto_eq]
  simp only [elements, decodeAll, decodeElements_eq]

theorem decodeEntriesInto_eq (frozen : Bool) (k : Coding α) (v : Coding β) (push : σ → α × β → σ)
    (start : σ) (bytes : Option Bytes) : decodeEntriesInto frozen k v push start bytes =
      (fun es => es.foldl push start) <$> (entries frozen k v).decode bytes := by
  rw [decodeEntriesInto, decodeInto_eq]
  simp only [entries, decodeAll, decodeEntries_eq]

/-- Writes the number of elements and appends each part as soon as it is encoded. -/
def encodeFrom (encode : α → Except Error Bytes) (as : List α) : Except Error (Option Bytes) := do
  let count ← Frame.writeCount as.length
  some <$> as.foldlM (fun buffer a => (fun bs => buffer ++ bs) <$> encode a) count

theorem encodeFrom_eq (encode : α → Except Error Bytes) (as : List α) :
    encodeFrom encode as = do
      let count ← Frame.writeCount as.length
      let frames ← as.mapM encode
      return some (count ++ frames.flatten) := by
  have happend (count : Bytes) (frames : List Bytes) :
      frames.foldl (fun buffer bs => buffer ++ bs) count = count ++ frames.flatten := by
    simpa using @List.foldl_append_eq_append _ _ frames id count
  refine bind_congr fun count => ?_
  rw [foldlM_push]
  simp only [happend, map_eq_pure_bind, bind_assoc, pure_bind]

theorem encode_elements_eq (kind : CollectionKind) (frozen : Bool) (c : Coding α) (as : List α) :
    (elements kind frozen c).encode as =
      encodeFrom (encodeElement (kind.type frozen c.type) kind.allowsNull c) as := by
  simp only [elements, encodeElements, encodeFrom_eq, map_eq_pure_bind, bind_assoc, pure_bind]

theorem encode_entries_eq (frozen : Bool) (k : Coding α) (v : Coding β) (es : List (α × β)) :
    (entries frozen k v).encode es =
      encodeFrom (encodeEntry (.map frozen k.type v.type) k v) es :=
  (encodeFrom_eq _ es).symm

/-! ## Literals -/

/-- Reads the parts of a literal one by one into a builder. -/
def parseInto (type : ColumnType) (split : List Char → Except Literal.SplitError (List π))
    (read : List Char → π → Except Error α) (push : σ → α → σ) (start : σ) (text : List Char) :
    Except Error σ := do
  let parts ← orRefuse type text Literal.SplitError.message (split text)
  parts.foldlM (fun s part => push s <$> read text part) start

/-- Reads the elements of the literal of a list or a set one by one into a builder. -/
def parseElementsInto (kind : CollectionKind) (frozen : Bool) (c : Coding α) (push : σ → α → σ) :
    (start : σ) → List Char → Except Error σ :=
  let type := kind.type frozen c.type
  parseInto type (Literal.splitElements '\x7b' '\x7d') (parseElement type kind.allowsNull c) push

/-- Reads the entries of the literal of a map one by one into a builder. -/
def parseEntriesInto (frozen : Bool) (k : Coding α) (v : Coding β) (push : σ → α × β → σ) :
    (start : σ) → List Char → Except Error σ :=
  let type := ColumnType.map frozen k.type v.type
  parseInto type (Literal.splitEntries '\x7b' '\x7d') (parseEntry type k v) push

theorem parseElementsInto_eq (kind : CollectionKind) (frozen : Bool) (c : Coding α)
    (push : σ → α → σ) (start : σ) (text : List Char) :
    parseElementsInto kind frozen c push start text =
      (fun as => as.foldl push start) <$> (elements kind frozen c).parse text := by
  simp only [parseElementsInto, parseInto, foldlM_push, elements, map_bind]

theorem parseEntriesInto_eq (frozen : Bool) (k : Coding α) (v : Coding β) (push : σ → α × β → σ)
    (start : σ) (text : List Char) : parseEntriesInto frozen k v push start text =
      (fun es => es.foldl push start) <$> (entries frozen k v).parse text := by
  simp only [parseEntriesInto, parseInto, foldlM_push, entries, map_bind]

end Coding

end CqlWire
