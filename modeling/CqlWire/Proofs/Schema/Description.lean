import CqlWire.Proofs.Fallible
import CqlWire.Proofs.Schema.Json
import CqlWire.Schema.Keyspace

/-!
# Descriptions of schemas

A record has the members that go by given names (`JsonValue.HasMembers`): an object by its keys, in
any order and among others, and an array by the places of its items. The members that are found are
these (`JsonValue.members?_eq_some_iff`). With them a JSON value describes a field, a type or a whole
keyspace (`KeyspaceSchema.Describes`), and what is read from a value is exactly what it describes
(`KeyspaceSchema.documentOf?_eq_some_iff`): each entry that it lists, in order, and no other.

Every keyspace with entries has a description, and a text that spells its words in any layout is read
as one (`KeyspaceSchema.exists_describes_of_laidOut`).
-/

namespace CqlWire

namespace JsonValue

/-! ## Records -/

theorem string?_eq_some_iff {v : JsonValue} {text : List Char} :
    v.string? = some text ↔ v = .string (some text) := by
  cases v <;> simp [string?]

theorem array?_eq_some_iff {v : JsonValue} {items : List JsonValue} :
    v.array? = some items ↔ v = .array items := by
  cases v <;> simp [array?]

/-- The entry of an object has one of these names as its key. -/
def IsNamed (names : List (List Char)) (e : Option (List Char) × JsonValue) : Prop :=
  ∃ name ∈ names, e.1 = some name

/-- The member of an object under these names: what its one entry of such a name holds, or nothing
where it has none. -/
inductive IsMember (names : List (List Char)) :
    List (Option (List Char) × JsonValue) → Option JsonValue → Prop where
  | absent {entries : List (Option (List Char) × JsonValue)}
    (h : ∀ e ∈ entries, ¬IsNamed names e) : IsMember names entries none
  | present {front back : List (Option (List Char) × JsonValue)}
    {e : Option (List Char) × JsonValue} (he : IsNamed names e)
    (hfront : ∀ e ∈ front, ¬IsNamed names e) (hback : ∀ e ∈ back, ¬IsNamed names e) :
    IsMember names (front ++ e :: back) (some e.2)

theorem isNamed_iff {names : List (List Char)} {e : Option (List Char) × JsonValue} :
    IsNamed names e ↔ e.1.any names.contains = true := by
  simp [IsNamed, Option.any_eq_true, and_comm]

theorem member?_eq_some_iff {names : List (List Char)}
    {entries : List (Option (List Char) × JsonValue)} {member : Option JsonValue} :
    member? names entries = some member ↔ IsMember names entries member := by
  constructor
  · intro h
    unfold member? at h
    split at h
    · rename_i hnone
      cases h
      refine .absent fun e he => ?_
      rw [isNamed_iff]
      exact List.filter_eq_nil_iff.1 hnone e he
    · rename_i key v hone
      cases h
      obtain ⟨front, back, rfl, hfront, he, hback⟩ := List.filter_eq_cons_iff.1 hone
      simp only [← isNamed_iff] at hfront
      have hnamed : IsNamed names (key, v) := isNamed_iff.2 he
      refine .present hnamed hfront fun e he => ?_
      rw [isNamed_iff]
      exact List.filter_eq_nil_iff.1 hback e he
    · cases h
  · intro h
    cases h with
    | absent h =>
      simp only [isNamed_iff] at h
      rw [member?, List.filter_eq_nil_iff.2 h]
    | @present front back e he hfront hback =>
      simp only [isNamed_iff] at he hfront hback
      have hone : (e :: back).filter (fun e => e.1.any names.contains) = [e] := by
        rw [List.filter_cons, if_pos he, List.filter_eq_nil_iff.2 hback]
      rw [member?, List.filter_append, List.filter_eq_nil_iff.2 hfront, List.nil_append, hone]

/-- The members of a record, each with the names that it goes by. The keys of an object are texts,
whatever other entries it has; an array holds the members in order and may stop early. -/
inductive HasMembers (names : List (List (List Char))) :
    JsonValue → List (Option JsonValue) → Prop where
  | object {entries : List (Option (List Char) × JsonValue)} {members : List (Option JsonValue)}
    (hkeys : ∀ e ∈ entries, e.1.isSome = true)
    (h : List.Forall₂ (fun ns member => IsMember ns entries member) names members) :
    HasMembers names (.object entries) members
  | array {items : List JsonValue} {missing : Nat}
    (h : items.length + missing = names.length) :
    HasMembers names (.array items) (items.map some ++ List.replicate missing none)

theorem map_getElem?_zipIdx {α β : Type} {as : List α} {bs : List β} {missing : Nat}
    (h : bs.length + missing = as.length) :
    (as.zipIdx.map fun p => bs[p.2]?) = bs.map some ++ List.replicate missing none := by
  refine List.ext_getElem ?_ fun i _ _ => ?_
  · simp only [List.length_map, List.length_zipIdx, List.length_append, List.length_replicate, h]
  · rw [List.getElem_map, List.getElem_zipIdx, Nat.zero_add, List.getElem_append]
    split
    · rename_i hi
      rw [List.length_map] at hi
      rw [List.getElem_map, List.getElem?_eq_getElem hi]
    · rename_i hi
      rw [List.length_map] at hi
      rw [List.getElem_replicate, List.getElem?_eq_none (by omega)]

theorem members?_eq_some_iff {names : List (List (List Char))} {v : JsonValue}
    {members : List (Option JsonValue)} :
    v.members? names = some members ↔ HasMembers names v members := by
  constructor
  · intro h
    unfold members? at h
    split at h
    · rename_i entries
      split at h
      · rename_i hkeys
        refine .object (List.all_eq_true.1 hkeys) ?_
        exact (mapM_eq_some_iff.1 h).imp fun _ _ => member?_eq_some_iff.1
      · cases h
    · rename_i items
      split at h
      · rename_i hle
        have hlength : items.length + (names.length - items.length) = names.length := by omega
        obtain rfl := Option.some.inj h
        rw [map_getElem?_zipIdx hlength]
        exact .array hlength
      · cases h
    · cases h
  · intro h
    cases h with
    | object hkeys h =>
      rw [members?, if_pos (List.all_eq_true.2 hkeys)]
      exact mapM_eq_some_iff.2 (h.imp fun _ _ => member?_eq_some_iff.2)
    | array h =>
      rw [members?, if_pos (by omega)]
      exact congrArg some (map_getElem?_zipIdx h)

/-- The members of an object with two keys, each of which names one of them. -/
theorem hasMembers_pair {names names' : List (List Char)} {key key' : List Char} {v v' : JsonValue}
    (hkey : key ∈ names ∧ key ∉ names') (hkey' : key' ∈ names' ∧ key' ∉ names) :
    HasMembers [names, names'] (.object [(some key, v), (some key', v')]) [some v, some v'] := by
  have hother {names : List (List Char)} {key : List Char} {v : JsonValue} (h : key ∉ names) :
      ∀ e ∈ [(some key, v)], ¬IsNamed names e := by
    rintro e he ⟨name, hname, heq⟩
    obtain rfl := List.mem_singleton.1 he
    exact h (Option.some.inj heq ▸ hname)
  have hfirst : IsMember names ([] ++ (some key, v) :: [(some key', v')]) (some v) :=
    .present ⟨key, hkey.1, rfl⟩ (List.forall_mem_nil _) (hother hkey'.2)
  have hsecond : IsMember names' ([(some key, v)] ++ (some key', v') :: []) (some v') :=
    .present ⟨key', hkey'.1, rfl⟩ (hother hkey.2) (List.forall_mem_nil _)
  exact .object (by simp) (.cons hfirst (.cons hsecond .nil))

end JsonValue

namespace KeyspaceSchema

/-! ## Descriptions -/

open JsonValue (members?_eq_some_iff string?_eq_some_iff array?_eq_some_iff)

/-- A JSON value describes a field: a record with its name and the text of its type, the latter under
either name. -/
def DescribesField (v : JsonValue) (f : Field (List Char)) : Prop :=
  v.HasMembers [["name".toList], ["type".toList, "typ".toList]]
    [some (.string (some f.name.toList)), some (.string (some f.type))]

/-- A JSON value describes a type: a record with its name and an array of its fields. -/
def DescribesType (v : JsonValue) (entry : TypeEntry) : Prop :=
  ∃ fields, List.Forall₂ DescribesField fields entry.2 ∧
    v.HasMembers [["name".toList], ["fields".toList]]
      [some (.string (some entry.1.toList)), some (.array fields)]

/-- A JSON value describes a keyspace with these types in order: a record with its name and an array
of the types, which may be missing where there are none. -/
def Describes (v : JsonValue) (keyspace : String) (entries : List TypeEntry) : Prop :=
  ∃ types, v.HasMembers [["keyspace".toList], ["types".toList]]
      [some (.string (some keyspace.toList)), types] ∧
    (types = none ∧ entries = [] ∨
      ∃ items, types = some (.array items) ∧ List.Forall₂ DescribesType items entries)

theorem fieldOf?_eq_some_iff {v : JsonValue} {f : Field (List Char)} :
    fieldOf? v = some f ↔ DescribesField v f := by
  rw [DescribesField, ← members?_eq_some_iff, fieldOf?, Option.bind_eq_bind,
    Option.bind_eq_some_iff]
  constructor
  · rintro ⟨members, hmembers, h⟩
    split at h
    · simp only [Option.bind_eq_bind, Option.bind_eq_some_iff, string?_eq_some_iff] at h
      obtain ⟨_, rfl, name, rfl, _, rfl, type, rfl, h⟩ := h
      obtain rfl := Option.some.inj h
      rw [hmembers, String.toList_ofList]
    · cases h
  · intro h
    refine ⟨_, h, ?_⟩
    obtain ⟨name, type⟩ := f
    show some (Field.mk (String.ofList name.toList) type) = _
    rw [String.ofList_toList]

theorem typeOf?_eq_some_iff {v : JsonValue} {entry : TypeEntry} :
    typeOf? v = some entry ↔ DescribesType v entry := by
  simp only [DescribesType, ← members?_eq_some_iff]
  rw [typeOf?, Option.bind_eq_bind, Option.bind_eq_some_iff]
  constructor
  · rintro ⟨members, hmembers, h⟩
    split at h
    · simp only [Option.bind_eq_bind, Option.bind_eq_some_iff, string?_eq_some_iff,
        array?_eq_some_iff, mapM_eq_some_iff, fieldOf?_eq_some_iff] at h
      obtain ⟨_, rfl, name, rfl, _, rfl, values, rfl, fields, hfields, h⟩ := h
      obtain rfl := Option.some.inj h
      refine ⟨values, hfields, ?_⟩
      rw [hmembers, String.toList_ofList]
    · cases h
  · rintro ⟨values, hfields, hmembers⟩
    refine ⟨_, hmembers, ?_⟩
    obtain ⟨name, fields⟩ := entry
    have hmap : values.mapM fieldOf? = some fields :=
      mapM_eq_some_iff.2 (hfields.imp fun _ _ => fieldOf?_eq_some_iff.2)
    show ((values.mapM fieldOf?).bind fun fields => some (String.ofList name.toList, fields)) = _
    rw [hmap, String.ofList_toList]
    rfl

theorem documentOf?_eq_some_iff {v : JsonValue} {keyspace : String} {entries : List TypeEntry} :
    documentOf? v = some (keyspace, entries) ↔ Describes v keyspace entries := by
  simp only [Describes, ← members?_eq_some_iff]
  rw [documentOf?, Option.bind_eq_bind, Option.bind_eq_some_iff]
  constructor
  · rintro ⟨members, hmembers, h⟩
    split at h
    · rename_i name types
      simp only [Option.bind_eq_bind, Option.bind_eq_some_iff, string?_eq_some_iff] at h
      obtain ⟨_, rfl, name, rfl, h⟩ := h
      cases types with
      | none =>
        cases h
        refine ⟨none, ?_, .inl ⟨rfl, rfl⟩⟩
        rw [hmembers, String.toList_ofList]
      | some types =>
        simp only [Option.bind_eq_some_iff, array?_eq_some_iff, mapM_eq_some_iff,
          typeOf?_eq_some_iff] at h
        obtain ⟨values, rfl, entries, hentries, h⟩ := h
        cases h
        refine ⟨_, ?_, .inr ⟨values, rfl, hentries⟩⟩
        rw [hmembers, String.toList_ofList]
    · cases h
  · rintro ⟨_, hmembers, ⟨rfl, rfl⟩ | ⟨values, rfl, hentries⟩⟩
    · refine ⟨_, hmembers, ?_⟩
      show some (String.ofList keyspace.toList, _) = _
      rw [String.ofList_toList]
    · refine ⟨_, hmembers, ?_⟩
      have hmap : values.mapM typeOf? = some entries :=
        mapM_eq_some_iff.2 (hentries.imp fun _ _ => typeOf?_eq_some_iff.2)
      show ((values.mapM typeOf?).bind fun entries =>
        some (String.ofList keyspace.toList, entries)) = _
      rw [hmap, String.ofList_toList]
      rfl

/-! ## Texts of descriptions -/

section

open JsonValue (IsRead LaidOut quoted arrayWords objectWords isRead_quoted isRead_arrayWords
  isRead_objectWords)

/-- The words of a field, under the names of its members. -/
def fieldWords (f : Field (List Char)) : List (List Char) :=
  objectWords [("name".toList, [quoted f.name.toList]), ("type".toList, [quoted f.type])]

/-- The words of a type. -/
def typeWords (entry : TypeEntry) : List (List Char) :=
  objectWords [("name".toList, [quoted entry.1.toList]),
    ("fields".toList, arrayWords (entry.2.map fieldWords))]

/-- The words of a keyspace with its types. -/
def documentWords (keyspace : String) (entries : List TypeEntry) : List (List Char) :=
  objectWords [("keyspace".toList, [quoted keyspace.toList]),
    ("types".toList, arrayWords (entries.map typeWords))]

theorem exists_described_all {α : Type} {P : JsonValue → α → Prop} {words : α → List (List Char)}
    (h : ∀ a, ∃ v, P v a ∧ IsRead v (words a)) (as : List α) :
    ∃ vs, List.Forall₂ P vs as ∧ List.Forall₂ IsRead vs (as.map words) := by
  induction as with
  | nil => exact ⟨[], .nil, .nil⟩
  | cons a as ih =>
    obtain ⟨v, hv, hread⟩ := h a
    obtain ⟨vs, hvs, hreads⟩ := ih
    exact ⟨v :: vs, .cons hv hvs, .cons hread hreads⟩

/-- An object with two keys is read from its words, and each key names one of its members. -/
theorem exists_record {names names' : List (List Char)} {key key' : List Char} {v v' : JsonValue}
    {words words' : List (List Char)} (hkey : key ∈ names ∧ key ∉ names')
    (hkey' : key' ∈ names' ∧ key' ∉ names) (hv : IsRead v words) (hv' : IsRead v' words') :
    ∃ record : JsonValue, record.HasMembers [names, names'] [some v, some v'] ∧
      IsRead record (objectWords [(key, words), (key', words')]) :=
  ⟨_, JsonValue.hasMembers_pair hkey hkey',
    isRead_objectWords (.cons ⟨rfl, hv⟩ (.cons ⟨rfl, hv'⟩ .nil))⟩

theorem exists_describesField (f : Field (List Char)) :
    ∃ v, DescribesField v f ∧ IsRead v (fieldWords f) :=
  exists_record (by decide) (by decide) (isRead_quoted _) (isRead_quoted _)

theorem exists_describesType (entry : TypeEntry) :
    ∃ v, DescribesType v entry ∧ IsRead v (typeWords entry) := by
  obtain ⟨fields, hfields, hreads⟩ := exists_described_all exists_describesField entry.2
  have hrecord : ∃ v : JsonValue, v.HasMembers [["name".toList], ["fields".toList]]
      [some (.string (some entry.1.toList)), some (.array fields)] ∧ IsRead v (typeWords entry) :=
    exists_record (by decide) (by decide) (isRead_quoted _) (isRead_arrayWords hreads)
  obtain ⟨v, hv, hread⟩ := hrecord
  exact ⟨v, ⟨fields, hfields, hv⟩, hread⟩

theorem exists_describes (keyspace : String) (entries : List TypeEntry) :
    ∃ v, Describes v keyspace entries ∧ IsRead v (documentWords keyspace entries) := by
  obtain ⟨types, htypes, hreads⟩ := exists_described_all exists_describesType entries
  have hrecord : ∃ v : JsonValue, v.HasMembers [["keyspace".toList], ["types".toList]]
      [some (.string (some keyspace.toList)), some (.array types)] ∧
        IsRead v (documentWords keyspace entries) :=
    exists_record (by decide) (by decide) (isRead_quoted _) (isRead_arrayWords hreads)
  obtain ⟨v, hv, hread⟩ := hrecord
  exact ⟨v, ⟨_, hv, .inr ⟨types, rfl, htypes⟩⟩, hread⟩

/-- A text that spells the words of a keyspace with its types is read as a description of them,
whatever layout stands around the words. -/
theorem exists_describes_of_laidOut {keyspace : String} {entries : List TypeEntry}
    {document : List Char} (h : LaidOut (documentWords keyspace entries) document) :
    ∃ v, JsonValue.read? document = some v ∧ Describes v keyspace entries := by
  obtain ⟨v, hv, hread⟩ := exists_describes keyspace entries
  exact ⟨v, JsonValue.read?_of_laidOut hread h, hv⟩

end

end KeyspaceSchema

end CqlWire
