import CqlWire.Proofs.Coding.Filling
import CqlWire.Proofs.SortedMap.Contents
import CqlWire.Proofs.Value.Listing

/-!
# What a container has to do with reading and writing

A codec of collections reads into a container element by element: `Container.push` and
`MapContainer.put` add one, the map with an order of its own at the place that bisection finds. What
a container has got in this way is what it makes of the whole list (`Container.foldl_push`,
`MapContainer.foldl_put`): of equal elements a set has the first one (`Container.mem_foldl_push_iff`),
and of equal keys a map has the first one with the last value (`MapContainer.mem_foldl_put_iff`). So
the container changes nothing about what is read from which bytes and
texts, which are refused, and how its elements are written (`Codec.same_in_any_container`).
-/

namespace CqlWire

/-! ## Builders -/

/-- Adds an element: at the end of a vector or a deque, and to a set if no equal one is there. -/
def Container.push : Container → List Value → Value → List Value
  | .vector, vs, v | .deque, vs, v => vs ++ [v]
  | .ordered, vs, v | .hashed, vs, v => insertDistinct v vs

/-- Adds an entry. An equal key stays and gets the new value. -/
def MapContainer.put : MapContainer → List (Value × Value) → Value × Value → List (Value × Value)
  | .ordered, es, e | .hashed, es, e => (SortedMap.insertEntry Value.compare e.1 e.2 es).2
  | .sorted order, es, e =>
    let place := SortedMap.bisect (order.compare Value.compare) e.1 es 0 es.length
    (SortedMap.insertAt e.1 e.2 es place).2

/-- The elements of a value put into a container in turn. -/
def Container.refill (into : Container) : Value → Value
  | .sequence vs => .sequence (vs.foldl into.push [])
  | v => v

/-- The entries put into a container in turn. -/
def MapContainer.filled (into : MapContainer) (es : List (Value × Value)) : Value :=
  .mapping (es.foldl into.put [])

theorem Container.foldl_push (into : Container) (vs : List Value) :
    vs.foldl into.push [] = into.ofList vs := by
  have behind : vs.foldl (fun vs v => vs ++ [v]) [] = vs := by
    induction vs using List.reverseRecOn with
    | nil => rfl
    | append_singleton vs v ih => rw [List.foldl_concat, ih]
  cases into with
  | vector | deque => exact behind
  | ordered | hashed => rfl

/-- Of equal elements a set has the first one, and it has no others. -/
theorem Container.mem_foldl_push_iff {into : Container} (h : into = .ordered ∨ into = .hashed)
    {vs : List Value} {v : Value} :
    v ∈ vs.foldl into.push [] ↔ vs.find? (fun u => u.compare v == .eq) = some v := by
  have hset : vs.foldl into.push [] =
      (SortedMap.ofList Value.compare (vs.map fun u => (u, ()))).keys := by
    rw [← foldl_insertDistinct_nil]
    rcases h with rfl | rfl <;> rfl
  have hkey : v ∈ (SortedMap.ofList Value.compare (vs.map fun u => (u, ()))).keys ↔
      (v, ()) ∈ (SortedMap.ofList Value.compare (vs.map fun u => (u, ()))).entries := by
    simp only [SortedMap.keys, List.mem_map, Prod.exists, exists_and_right, exists_eq_right]
    exact Unique.exists_iff
  have hfirst (o : Option (Value × Unit)) : o = some (v, ()) ↔ o.map Prod.fst = some v := by
    simp only [Option.map_eq_some_iff, Prod.exists, exists_and_right, exists_eq_right]
    exact (Unique.exists_iff (p := fun x : Unit => o = some (v, x))).symm
  rw [hset, hkey, SortedMap.mem_iff_ofKey?_eq_some (SortedMap.ascending_ofList _), hfirst,
    SortedMap.fst_ofKey?_ofList, SortedMap.ofKey?, List.find?_map, Option.map_map]
  exact Iff.of_eq (congrArg (· = some v) (congrFun Option.map_id _))

namespace MapContainer

variable {into : MapContainer}

/-- Adding an entry is inserting it, whatever way the place is found. -/
theorem put_eq {es : List (Value × Value)} (h : into.Keeps es) (e : Value × Value) :
    into.put es e = (SortedMap.insertEntry (into.order.compare Value.compare) e.1 e.2 es).2 := by
  cases into with
  | ordered | hashed => rfl
  | sorted order => exact congrArg Prod.snd (SortedMap.insertAt_bisect h e.2)

theorem foldl_put (into : MapContainer) (pairs : List (Value × Value)) :
    pairs.foldl into.put [] = into.ofList pairs := by
  induction pairs using List.reverseRecOn with
  | nil => rfl
  | append_singleton pairs p ih =>
    rw [List.foldl_concat, ih, put_eq (keeps_ofList into pairs)]
    exact (SortedMap.entries_ofList_concat pairs p).symm

theorem filled_eq (into : MapContainer) (pairs : List (Value × Value)) :
    into.filled pairs = .mapping (into.ofList pairs) :=
  congrArg Value.mapping (into.foldl_put pairs)

/-- In the order of the keys themselves, bisection makes no difference. -/
theorem filled_ordered (pairs : List (Value × Value)) :
    ordered.filled pairs = (sorted .natural).filled pairs := by
  rw [filled_eq, filled_eq]
  rfl

/-- Of equal keys the first one and the last value are kept, in every order of the keys. -/
theorem mem_foldl_put_iff {pairs : List (Value × Value)} {e : Value × Value} :
    e ∈ pairs.foldl into.put [] ↔
      (SortedMap.ofKey? Value.compare pairs e.1).map Prod.fst = some e.1 ∧
        (SortedMap.ofKey? Value.compare pairs.reverse e.1).map Prod.snd = some e.2 := by
  have hentry (pairs : List (Value × Value)) :
      SortedMap.ofKey? (into.order.compare Value.compare) pairs e.1 =
        SortedMap.ofKey? Value.compare pairs e.1 :=
    SortedMap.ofKey?_congr (fun _ => into.order.compare_eq_eq_iff) pairs
  rw [foldl_put, ofList, SortedMap.mem_ofList_iff, hentry, hentry]

-- The keys 1.0 and 1.00 are equal: the first spelling stays and gets the last value.
example : ordered.filled
    [(.decimal ⟨10, 1, by decide, by decide⟩, .int 1),
      (.decimal ⟨100, 2, by decide, by decide⟩, .int 2)] =
    .mapping [(.decimal ⟨10, 1, by decide, by decide⟩, .int 2)] := by
  rfl

end MapContainer

/-! ## Codecs -/

namespace Codec

section

variable (kind : CollectionKind) (into : Container) (frozen : Bool) (c : Codec)

theorem refill_map (x : Except Error (List Value)) :
    (fun vs => Value.sequence (into.ofList vs)) <$> x =
      into.refill <$> (fun vs => Value.sequence (Container.vector.ofList vs)) <$> x := by
  simp only [← Container.foldl_push into]
  rw [Functor.map_map]
  rfl

theorem sequence_map_foldl (x : Except Error (List Value)) :
    Value.sequence <$> (fun vs => vs.foldl into.push []) <$> x =
      (fun vs => Value.sequence (into.ofList vs)) <$> x := by
  simp only [Container.foldl_push, Functor.map_map]

theorem decode_elements_into (bytes : Option Bytes) :
    (elements kind into frozen c).decode bytes =
      Value.sequence <$> Coding.decodeElementsInto kind frozen c.coding into.push [] bytes := by
  rw [Coding.decodeElementsInto_eq, sequence_map_foldl]
  rfl

theorem parse_elements_into (text : List Char) :
    (elements kind into frozen c).parse text =
      Value.sequence <$> Coding.parseElementsInto kind frozen c.coding into.push [] text := by
  rw [Coding.parseElementsInto_eq, sequence_map_foldl]
  rfl

end

section

variable (into : MapContainer) (frozen : Bool) (k v : Codec)

theorem filled_map (x : Except Error (List (Value × Value))) :
    (fun es => Value.mapping (into.ofList es)) <$> x = into.filled <$> x := by
  simp only [← MapContainer.filled_eq]

theorem mapping_map_foldl (x : Except Error (List (Value × Value))) :
    Value.mapping <$> (fun es => es.foldl into.put []) <$> x =
      (fun es => Value.mapping (into.ofList es)) <$> x := by
  simp only [MapContainer.foldl_put, Functor.map_map]

theorem decode_entries_into (bytes : Option Bytes) :
    (entries into frozen k v).decode bytes =
      Value.mapping <$> Coding.decodeEntriesInto frozen k.coding v.coding into.put [] bytes := by
  rw [Coding.decodeEntriesInto_eq, mapping_map_foldl]
  rfl

theorem parse_entries_into (text : List Char) :
    (entries into frozen k v).parse text =
      Value.mapping <$> Coding.parseEntriesInto frozen k.coding v.coding into.put [] text := by
  rw [Coding.parseEntriesInto_eq, mapping_map_foldl]
  rfl

end

/-- The container of a collection does not matter. Whatever a builder does with the parts that it
gets, reading into it comes to reading a plain list and handing its elements over in turn, with the
same refusals, and writing part by part comes to writing the list. So bytes and literals are read into
any container, or refused, as into a plain list whose elements it then gets in turn, and its elements
are written in the order in which they come. A vector or a deque has them all; of several equal
elements a set keeps the first one; of several equal keys a map keeps the first one with the last
value. A map in the order of the keys themselves is the same whether a library or bisection keeps
it. -/
theorem same_in_any_container :
    (∀ (α σ : Type) (kind : CollectionKind) (frozen : Bool) (c : Coding α) (push : σ → α → σ)
        (start : σ),
      (∀ bytes, Coding.decodeElementsInto kind frozen c push start bytes =
        (fun as => as.foldl push start) <$> (Coding.elements kind frozen c).decode bytes) ∧
      (∀ text, Coding.parseElementsInto kind frozen c push start text =
        (fun as => as.foldl push start) <$> (Coding.elements kind frozen c).parse text) ∧
      ∀ as, (Coding.elements kind frozen c).encode as = Coding.encodeFrom
        (Coding.encodeElement (kind.type frozen c.type) kind.allowsNull c) as) ∧
    (∀ (α β σ : Type) (frozen : Bool) (k : Coding α) (v : Coding β) (push : σ → α × β → σ)
        (start : σ),
      (∀ bytes, Coding.decodeEntriesInto frozen k v push start bytes =
        (fun es => es.foldl push start) <$> (Coding.entries frozen k v).decode bytes) ∧
      (∀ text, Coding.parseEntriesInto frozen k v push start text =
        (fun es => es.foldl push start) <$> (Coding.entries frozen k v).parse text) ∧
      ∀ es, (Coding.entries frozen k v).encode es =
        Coding.encodeFrom (Coding.encodeEntry (.map frozen k.type v.type) k v) es) ∧
    (∀ (kind : CollectionKind) (into : Container) (frozen : Bool) (c : Codec),
      (∀ bytes,
        (elements kind into frozen c).decode bytes =
            into.refill <$> (elements kind .vector frozen c).decode bytes ∧
          (elements kind into frozen c).decode bytes =
            Value.sequence <$> Coding.decodeElementsInto kind frozen c.coding into.push [] bytes) ∧
      (∀ text,
        (elements kind into frozen c).parse text =
            into.refill <$> (elements kind .vector frozen c).parse text ∧
          (elements kind into frozen c).parse text =
            Value.sequence <$> Coding.parseElementsInto kind frozen c.coding into.push [] text) ∧
      ∀ vs,
        (elements kind into frozen c).encode (.sequence vs) =
            (elements kind .vector frozen c).encode (.sequence vs) ∧
          (elements kind into frozen c).encode (.sequence vs) = Coding.encodeFrom
            (Coding.encodeElement (kind.type frozen c.type) kind.allowsNull c.coding) vs) ∧
    (∀ (into : MapContainer) (frozen : Bool) (k v : Codec),
      (∀ bytes,
        (entries into frozen k v).decode bytes =
            into.filled <$> (Coding.entries frozen k.coding v.coding).decode bytes ∧
          (entries into frozen k v).decode bytes =
            Value.mapping <$> Coding.decodeEntriesInto frozen k.coding v.coding into.put [] bytes) ∧
      (∀ text,
        (entries into frozen k v).parse text =
            into.filled <$> (Coding.entries frozen k.coding v.coding).parse text ∧
          (entries into frozen k v).parse text =
            Value.mapping <$> Coding.parseEntriesInto frozen k.coding v.coding into.put [] text) ∧
      ∀ es, (entries into frozen k v).encode (.mapping es) =
        Coding.encodeFrom (Coding.encodeEntry (.map frozen k.type v.type) k.coding v.coding) es) ∧
    (∀ (into : Container) (vs : List Value),
      into.Keeps (vs.foldl into.push []) ∧
        (into = .vector ∨ into = .deque → vs.foldl into.push [] = vs) ∧
        (into = .ordered ∨ into = .hashed → ∀ v, v ∈ vs.foldl into.push [] ↔
          vs.find? (fun u => u.compare v == .eq) = some v)) ∧
    (∀ (into : MapContainer) (pairs : List (Value × Value)),
      into.Keeps (pairs.foldl into.put []) ∧
        ∀ e, e ∈ pairs.foldl into.put [] ↔
          (SortedMap.ofKey? Value.compare pairs e.1).map Prod.fst = some e.1 ∧
            (SortedMap.ofKey? Value.compare pairs.reverse e.1).map Prod.snd = some e.2) ∧
    ∀ pairs, MapContainer.ordered.filled pairs = (MapContainer.sorted .natural).filled pairs := by
  refine ⟨fun α σ kind frozen c push start => ⟨fun bytes => ?_, fun text => ?_, fun as => ?_⟩,
    fun α β σ frozen k v push start => ⟨fun bytes => ?_, fun text => ?_, fun es => ?_⟩,
    fun kind into frozen c => ⟨fun bytes => ⟨refill_map into _, ?_⟩,
    fun text => ⟨refill_map into _, ?_⟩, fun vs => ⟨rfl, ?_⟩⟩,
    fun into frozen k v => ⟨fun bytes => ⟨filled_map into _, ?_⟩,
    fun text => ⟨filled_map into _, ?_⟩, fun es => ?_⟩,
    fun into vs => ⟨?_, fun hinto => ?_, fun hinto v => Container.mem_foldl_push_iff hinto⟩,
    fun into pairs => ⟨?_, fun e => MapContainer.mem_foldl_put_iff⟩, fun pairs => ?_⟩
  · exact Coding.decodeElementsInto_eq kind frozen c push start bytes
  · exact Coding.parseElementsInto_eq kind frozen c push start text
  · exact Coding.encode_elements_eq kind frozen c as
  · exact Coding.decodeEntriesInto_eq frozen k v push start bytes
  · exact Coding.parseEntriesInto_eq frozen k v push start text
  · exact Coding.encode_entries_eq frozen k v es
  · exact decode_elements_into kind into frozen c bytes
  · exact parse_elements_into kind into frozen c text
  · exact Coding.encode_elements_eq kind frozen c.coding vs
  · exact decode_entries_into into frozen k v bytes
  · exact parse_entries_into into frozen k v text
  · exact Coding.encode_entries_eq frozen k.coding v.coding es
  · rw [Container.foldl_push]
    exact Container.keeps_ofList into vs
  · rw [Container.foldl_push]
    rcases hinto with rfl | rfl <;> rfl
  · rw [MapContainer.foldl_put]
    exact MapContainer.keeps_ofList into pairs
  · exact MapContainer.filled_ordered pairs

/-- Read from a literal and written again, a set keeps the first of 1.0 and 1.00 and a map the first
of these keys with the last value, here in descending order; a deque keeps both. -/
theorem same_in_any_container_equal :
    let deque := elements .list .deque false .decimal
    let set := elements .set .ordered false .decimal
    let map := entries (.sorted (.reversed .natural)) false .decimal (.scalar .int)
    deque.format <$> deque.parse "\x7b2, 1.0, 1.00\x7d".toList = .ok "\x7b2,1.0,1.00\x7d".toList ∧
      set.format <$> set.parse "\x7b2, 1.0, 1.00\x7d".toList = .ok "\x7b1.0,2\x7d".toList ∧
      map.format <$> map.parse "\x7b1.0: 1, 2: 3, 1.00: 2\x7d".toList =
        .ok "\x7b2:3,1.0:2\x7d".toList := by
  intro deque set map
  obtain ⟨_, _, hsequence, hmapping, _⟩ := same_in_any_container
  refine ⟨?_, ?_, ?_⟩
  · rw [((hsequence .list .deque false .decimal).2.1 _).1]
    decide +kernel
  · rw [((hsequence .set .ordered false .decimal).2.1 _).1]
    decide +kernel
  · rw [((hmapping (.sorted (.reversed .natural)) false .decimal (.scalar .int)).2.1 _).1]
    decide +kernel

end Codec

end CqlWire
