import CqlWire.Proofs.Schema.Description

/-!
# Documents of a schema

An entry of a document is a type in the schema so far (`KeyspaceSchema.Defines`) or it is refused
(`addEntry_eq_ok_iff`), and the entries of a document are types one after another
(`KeyspaceSchema.Lists`, `addEntries_eq_ok_iff`). So a document that is read describes a keyspace
and lists types, and its schema is the empty one with these added (`KeyspaceSchema.read_eq_ok_iff`).
Every list of entries that are types has such a document, in any layout
(`KeyspaceSchema.isDocument_of_laidOut`).
-/

namespace CqlWire

namespace KeyspaceSchema

/-! ## Entries -/

/-- A field of an entry is this one in the schema so far: of the same name, with its type read. -/
def DefinesField (schema : KeyspaceSchema) (f : Field (List Char)) (g : Field ColumnType) : Prop :=
  g.name = f.name ∧ schema.readType f.type = .ok g.type

/-- An entry is this type in the schema so far: without a keyspace, and with its fields in order. -/
def Defines (schema : KeyspaceSchema) (entry : TypeEntry) (u : UserType) : Prop :=
  u.keyspace = none ∧ u.name = entry.1 ∧ u.frozen = false ∧
    List.Forall₂ schema.DefinesField entry.2 u.fields

/-- An entry is added if it is a type in the schema so far, and then that type is added. -/
theorem addEntry_eq_ok_iff {schema schema' : KeyspaceSchema} {entry : TypeEntry} :
    schema.addEntry entry = .ok schema' ↔
      ∃ u, schema.Defines entry u ∧ schema' = schema.addType u := by
  have hfield : ∀ {f : Field (List Char)} {g : Field ColumnType},
      (do return ({ name := f.name, type := ← schema.readType f.type } : Field ColumnType)) =
        Except.ok (ε := Error) g ↔ schema.DefinesField f g := by
    intro f g
    rw [bind_eq_ok_iff]
    constructor
    · rintro ⟨type, htype, heq⟩
      cases pure_eq_ok_iff.1 heq
      exact ⟨rfl, htype⟩
    · rintro ⟨hname, htype⟩
      exact ⟨g.type, htype, by rw [← hname]; rfl⟩
  rw [addEntry, bind_eq_ok_iff]
  constructor
  · rintro ⟨fields, hfields, heq⟩
    refine ⟨_, ⟨rfl, rfl, rfl, ?_⟩, (pure_eq_ok_iff.1 heq).symm⟩
    exact (mapM_eq_ok_iff.1 hfields).imp fun _ _ => hfield.1
  · rintro ⟨⟨keyspace, name, fields, frozen⟩, ⟨hkeyspace, hname, hfrozen, hfields⟩, rfl⟩
    refine ⟨fields, mapM_eq_ok_iff.2 (hfields.imp fun _ _ => hfield.2), ?_⟩
    cases hkeyspace
    cases hname
    cases hfrozen
    rfl

/-! ## Lists of entries -/

variable {schema : KeyspaceSchema} {us : List UserType}

theorem keyspace_foldl_addType (vs : List UserType) (schema : KeyspaceSchema) :
    (vs.foldl addType schema).keyspace = schema.keyspace := by
  induction vs generalizing schema with
  | nil => rfl
  | cons v vs ih => exact ih (schema.addType v)

/-- Entries are these types, each in the schema with those before it. -/
inductive Lists : KeyspaceSchema → List TypeEntry → List UserType → Prop where
  | nil (schema : KeyspaceSchema) : Lists schema [] []
  | cons {schema : KeyspaceSchema} {entry : TypeEntry} {entries : List TypeEntry} {u : UserType}
    {us : List UserType} (hu : schema.Defines entry u) (h : Lists (schema.addType u) entries us) :
    Lists schema (entry :: entries) (u :: us)

theorem addEntries_eq_ok_iff {entries : List TypeEntry} {schema' : KeyspaceSchema} :
    entries.foldlM addEntry schema = .ok schema' ↔
      ∃ us, Lists schema entries us ∧ schema' = us.foldl addType schema := by
  induction entries generalizing schema with
  | nil =>
    constructor
    · rintro ⟨⟩
      exact ⟨[], .nil _, rfl⟩
    · rintro ⟨us, hus, rfl⟩
      cases hus
      rfl
  | cons entry entries ih =>
    rw [List.foldlM_cons, bind_eq_ok_iff]
    constructor
    · rintro ⟨next, hnext, hrest⟩
      obtain ⟨u, hu, rfl⟩ := addEntry_eq_ok_iff.1 hnext
      obtain ⟨us, hus, rfl⟩ := ih.1 hrest
      exact ⟨u :: us, .cons hu hus, rfl⟩
    · rintro ⟨us, hus, rfl⟩
      cases hus with
      | @cons _ _ _ u us hu hus =>
        exact ⟨schema.addType u, addEntry_eq_ok_iff.2 ⟨u, hu, rfl⟩, ih.2 ⟨us, hus, rfl⟩⟩

/-- A document describes this keyspace with entries that are these types, in order. -/
def IsDocument (document : List Char) (keyspace : String) (us : List UserType) : Prop :=
  ∃ v entries, JsonValue.read? document = some v ∧ Describes v keyspace entries ∧
    Lists (empty keyspace) entries us

theorem isDocument_iff {document : List Char} {keyspace : String} :
    IsDocument document keyspace us ↔ ∃ entries,
      (JsonValue.read? document).bind documentOf? = some (keyspace, entries) ∧
        Lists (empty keyspace) entries us := by
  simp only [IsDocument, Option.bind_eq_some_iff, documentOf?_eq_some_iff]
  constructor
  · rintro ⟨v, entries, hread, hv, hus⟩
    exact ⟨entries, ⟨v, hread, hv⟩, hus⟩
  · rintro ⟨entries, ⟨v, hread, hv⟩, hus⟩
    exact ⟨v, entries, hread, hv, hus⟩

theorem isDocument_of_laidOut {document : List Char} {keyspace : String}
    {entries : List TypeEntry} (h : JsonValue.LaidOut (documentWords keyspace entries) document)
    (hus : Lists (empty keyspace) entries us) : IsDocument document keyspace us := by
  obtain ⟨v, hread, hv⟩ := exists_describes_of_laidOut h
  exact ⟨v, entries, hread, hv, hus⟩

theorem read_of_isDocument {document : List Char} {keyspace : String}
    (h : IsDocument document keyspace us) :
    read document = .ok (us.foldl addType (empty keyspace)) := by
  obtain ⟨entries, hdocument, hus⟩ := isDocument_iff.1 h
  rw [read, hdocument]
  exact addEntries_eq_ok_iff.2 ⟨us, hus, rfl⟩

/-- The schema of a document is the empty one with the listed types added. -/
theorem read_eq_ok_iff {document : List Char} :
    read document = .ok schema ↔
      ∃ us, IsDocument document schema.keyspace us ∧
        schema = us.foldl addType (empty schema.keyspace) := by
  constructor
  · intro h
    unfold read at h
    split at h
    · rename_i keyspace entries hdocument
      obtain ⟨us, hus, rfl⟩ := addEntries_eq_ok_iff.1 h
      rw [keyspace_foldl_addType]
      exact ⟨us, isDocument_iff.2 ⟨entries, hdocument, hus⟩, rfl⟩
    · cases h
  · rintro ⟨us, hus, heq⟩
    rw [read_of_isDocument hus, ← heq]

end KeyspaceSchema

end CqlWire
