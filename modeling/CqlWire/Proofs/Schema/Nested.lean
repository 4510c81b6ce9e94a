import CqlWire.Proofs.ColumnType.Reading
import CqlWire.Proofs.Schema.Document

/-!
# Nested definitions of a schema

A schema is built by adding definitions one after another, whose field types are read in the schema
so far (`KeyspaceSchema.Built`, with the list of what was added; a document is such a list,
`built_of_read`). A lookup by name finds what was added last under it (`Built.find?_types`), while a
user-defined type inside a field is a copy of the definition that the lookup found when the field
was read (`Built.exists_copied`, by induction on what was added). So the copy follows the lookup for
as long as nothing else is added under its name (`KeyspaceSchema.nested_is_current_iff`); a
definition that is replaced by one with other fields stays behind in the types that were read before
(`KeyspaceSchema.nested_is_stale`).
-/

namespace CqlWire

/-! ## Names with a dot -/

namespace KeyspaceSchema

theorem splitName_eq_none_iff {name : String} :
    splitName name = none ↔ name.toList.count '.' = 0 := by
  have hdrop : splitName name = none ↔ name.toList.dropWhile (· != '.') = [] := by
    rw [splitName]
    split
    · rename_i c r hr
      rw [hr]
      exact ⟨nofun, nofun⟩
    · rename_i hnil
      exact ⟨fun _ => hnil, fun _ => rfl⟩
  rw [hdrop, List.dropWhile_eq_nil_iff, List.count_eq_zero]
  constructor
  · intro h hdot
    exact absurd (h '.' hdot) (by decide)
  · intro h c hc
    rw [bne_iff_ne]
    rintro rfl
    exact h hc

/-- A name taken apart is a keyspace without a dot, the dot, and what stands behind it. -/
theorem splitName_eq_some_iff {name keyspace bare : String} :
    splitName name = some (keyspace, bare) ↔
      '.' ∉ keyspace.toList ∧ name = keyspace ++ "." ++ bare := by
  constructor
  · intro h
    simp only [splitName] at h
    split at h
    · rename_i c r hr
      cases h
      have hdot : c = '.' := by
        have hhead := List.head?_dropWhile_not (· != '.') name.toList
        rw [hr] at hhead
        simpa using hhead
      refine ⟨fun hmem => ?_, String.toList_injective ?_⟩
      · rw [String.toList_ofList] at hmem
        exact absurd (List.mem_takeWhile_imp hmem) (by decide)
      · have hwhole := List.takeWhile_append_dropWhile (p := (· != '.')) (l := name.toList)
        rw [hr, hdot] at hwhole
        simp only [String.toList_append, String.toList_ofList, List.append_assoc]
        exact hwhole.symm
    · cases h
  · rintro ⟨hdot, rfl⟩
    have hall : ∀ c ∈ keyspace.toList, (c != '.') = true := by
      intro c hc
      rw [bne_iff_ne]
      rintro rfl
      exact hdot hc
    have hlist : (keyspace ++ "." ++ bare).toList = keyspace.toList ++ '.' :: bare.toList := by
      rw [String.toList_append, String.toList_append, List.append_assoc]
      rfl
    have hfront : ('.' :: bare.toList).takeWhile (· != '.') = [] := rfl
    have hback : ('.' :: bare.toList).dropWhile (· != '.') = '.' :: bare.toList := rfl
    rw [splitName, hlist, List.dropWhile_append_of_pos hall, List.takeWhile_append_of_pos hall,
      hfront, hback, List.append_nil]
    simp only [String.ofList_toList]

/-- What stands behind the dot. -/
theorem count_dot_of_splitName {name keyspace bare : String}
    (h : splitName name = some (keyspace, bare)) :
    bare.toList.count '.' < name.toList.count '.' := by
  obtain ⟨-, rfl⟩ := splitName_eq_some_iff.1 h
  have hdot : ".".toList.count '.' = 1 := rfl
  rw [String.toList_append, String.toList_append, List.count_append, List.count_append, hdot]
  omega

theorem userType?_of_count {schema : KeyspaceSchema} {name : String}
    (h : name.toList.count '.' = 0) :
    schema.userType? name = schema.types.find? (·.name = name) := by
  rw [userType?, splitName_eq_none_iff.2 h]

/-- A name with at most one dot finds a definition whose own name has none. -/
theorem find?_of_userType? {schema : KeyspaceSchema} {name : String} {d : UserType}
    (hname : name.toList.count '.' ≤ 1) (h : schema.userType? name = some d) :
    d.name.toList.count '.' = 0 ∧ schema.types.find? (·.name = d.name) = some d := by
  have hown : ∀ {n : String}, schema.types.find? (·.name = n) = some d → d.name = n := by
    intro n hfind
    simpa using List.find?_some hfind
  unfold userType? at h
  split at h
  · rename_i hdot
    obtain rfl := hown h
    exact ⟨splitName_eq_none_iff.1 hdot, h⟩
  · rename_i keyspace bare hdot
    split at h
    · obtain rfl := hown h
      have := count_dot_of_splitName hdot
      exact ⟨by omega, h⟩
    · cases h

/-! ## What is added -/

theorem find?_replaceOrAppend (u : UserType) (ts : List UserType) (name : String) :
    (replaceOrAppend u ts).find? (·.name = name) =
      if u.name = name then some u else ts.find? (·.name = name) := by
  induction ts with
  | nil => by_cases h : u.name = name <;> simp [replaceOrAppend, h]
  | cons t ts ih =>
    by_cases ht : t.name = u.name
    · rw [replaceOrAppend, if_pos ht, List.find?_cons, List.find?_cons, ht]
      by_cases h : u.name = name <;> simp [h]
    · rw [replaceOrAppend, if_neg ht, List.find?_cons, List.find?_cons, ih]
      by_cases h : t.name = name
      · have hne : u.name ≠ name := fun hu => ht (h.trans hu.symm)
        simp [h, hne]
      · simp [h]

theorem eq_or_mem_of_mem_replaceOrAppend {u t : UserType} {ts : List UserType}
    (h : t ∈ replaceOrAppend u ts) : t = u ∨ t ∈ ts := by
  induction ts with
  | nil => exact .inl (List.mem_singleton.1 h)
  | cons t' ts ih =>
    rw [replaceOrAppend] at h
    split at h
    · exact (List.mem_cons.1 h).imp_right (List.mem_cons_of_mem _)
    · rcases List.mem_cons.1 h with rfl | h
      · exact .inr List.mem_cons_self
      · exact (ih h).imp_right (List.mem_cons_of_mem _)

/-- What was added last under a name. -/
def latest? (us : List UserType) (name : String) : Option UserType :=
  us.reverse.find? (·.name = name)

theorem latest?_append (us vs : List UserType) (name : String) :
    latest? (us ++ vs) name = (latest? vs name).or (latest? us name) := by
  rw [latest?, List.reverse_append, List.find?_append]
  rfl

theorem latest?_singleton (u : UserType) (name : String) :
    latest? [u] name = if u.name = name then some u else none := by
  by_cases h : u.name = name <;> simp [latest?, h]

theorem mem_of_latest? {us : List UserType} {name : String} {e : UserType}
    (h : latest? us name = some e) : e ∈ us ∧ e.name = name :=
  ⟨List.mem_reverse.1 (List.mem_of_find?_eq_some h), by simpa using List.find?_some h⟩

/-- Where a lookup finds what was added last, it still does with one more definition. -/
theorem find?_addType {schema : KeyspaceSchema} {us : List UserType} {name : String} (u : UserType)
    (h : schema.types.find? (·.name = name) =
      (latest? us name).map (·.inKeyspace schema.keyspace)) :
    (schema.addType u).types.find? (·.name = name) =
      (latest? (us ++ [u]) name).map (·.inKeyspace schema.keyspace) := by
  rw [latest?_append, latest?_singleton]
  show (replaceOrAppend (u.inKeyspace schema.keyspace) schema.types).find? _ = _
  rw [find?_replaceOrAppend, h]
  by_cases hname : u.name = name
  · rw [if_pos hname, if_pos (show (u.inKeyspace schema.keyspace).name = name from hname)]
    rfl
  · rw [if_neg hname, if_neg (show (u.inKeyspace schema.keyspace).name ≠ name from hname)]
    rfl

/-- The field types of a definition are read in a schema. -/
def Reads (schema : KeyspaceSchema) (u : UserType) : Prop :=
  ∀ f ∈ u.fields, ∃ text, schema.readType text = .ok f.type

/-- A schema to which these definitions were added in turn, each read in the schema so far. -/
inductive Built : KeyspaceSchema → List UserType → Prop where
  | empty (keyspace : String) : Built (empty keyspace) []
  | add {schema : KeyspaceSchema} {us : List UserType} {u : UserType} (h : Built schema us)
    (hu : schema.Reads u) : Built (schema.addType u) (us ++ [u])

section

variable {schema : KeyspaceSchema} {us : List UserType}

/-- Every stored definition was added; the keyspace is the one of the schema. -/
theorem Built.exists_of_mem_types (h : Built schema us) {t : UserType} (ht : t ∈ schema.types) :
    ∃ u ∈ us, t = u.inKeyspace schema.keyspace := by
  induction h with
  | empty => cases ht
  | @add schema us u _ _ ih =>
    rcases eq_or_mem_of_mem_replaceOrAppend ht with rfl | ht
    · exact ⟨u, List.mem_append_right _ List.mem_cons_self, rfl⟩
    · obtain ⟨v, hv, heq⟩ := ih ht
      exact ⟨v, List.mem_append_left _ hv, heq⟩

/-- A lookup finds what was added last. -/
theorem Built.find?_types (h : Built schema us) (name : String) :
    schema.types.find? (·.name = name) =
      (latest? us name).map (·.inKeyspace schema.keyspace) := by
  induction h with
  | empty => rfl
  | @add schema us u _ _ ih => exact find?_addType u ih

end

/-! ## Copies -/

section

variable {schema : KeyspaceSchema} {us : List UserType} {u : UserType}

/-- A user-defined type within a field is a copy of a definition that was added, and its name has no
dot. What it is within was found in turn by a lookup, so this goes back to a lookup in the end. -/
theorem Built.exists_copied (h : Built schema us) {v : UserType} (hv : v ∈ us)
    {f : Field ColumnType} (hf : f ∈ v.fields) (hu : u.OccursIn f.type) :
    (∃ d ∈ us, u.version = (d.inKeyspace schema.keyspace).version) ∧
      u.name.toList.count '.' = 0 := by
  induction h generalizing v f u with
  | empty => cases hv
  | @add schema us new hbuilt hnew ih =>
    have hcopy : (∃ d ∈ us, u.version = (d.inKeyspace schema.keyspace).version) ∧
        u.name.toList.count '.' = 0 := by
      rcases List.mem_append.1 hv with hv | hv
      · exact ih hv hf hu
      · obtain rfl := List.mem_singleton.1 hv
        obtain ⟨text, htext⟩ := hnew f hf
        obtain ⟨name, found, w, hname, hfound, hw, hwu⟩ := ColumnType.exists_of_read htext hu
        obtain ⟨hdot, hfind⟩ := find?_of_userType? hname hfound
        obtain ⟨d, hd, rfl⟩ := hbuilt.exists_of_mem_types (List.mem_of_find?_eq_some hfind)
        have hwname : w.name = u.name := congrArg SchemaVersion.name hwu
        rw [← hwu, ← hwname]
        cases hw with
        | self => exact ⟨⟨d, hd, rfl⟩, hdot⟩
        | field hf' hw => exact ih hd hf' hw
    -- What was added stays added.
    exact hcopy.imp_left (Exists.imp fun d hd => ⟨List.mem_append_left _ hd.1, hd.2⟩)

end

/-! ## Documents -/

/-- The definition that an entry of a document stands for: its name, and the names of its fields. -/
def Declares (entry : TypeEntry) (u : UserType) : Prop :=
  u.name = entry.1 ∧ u.fields.map Field.name = entry.2.map Field.name

theorem names_and_reads_of_forall₂ {schema : KeyspaceSchema} {fs : List (Field (List Char))}
    {gs : List (Field ColumnType)} (h : List.Forall₂ schema.DefinesField fs gs) :
    gs.map Field.name = fs.map Field.name ∧
      ∀ g ∈ gs, ∃ text, schema.readType text = .ok g.type := by
  induction h with
  | nil => exact ⟨rfl, List.forall_mem_nil _⟩
  | @cons f g fs gs hg _ ih =>
    have hnames : (g :: gs).map Field.name = (f :: fs).map Field.name := by
      rw [List.map_cons, List.map_cons, hg.1, ih.1]
    exact ⟨hnames, List.forall_mem_cons.2 ⟨⟨f.type, hg.2⟩, ih.2⟩⟩

/-- The types of a list are added one after another, each read in the schema so far. -/
theorem Built.of_lists {schema : KeyspaceSchema} {us vs : List UserType} (h : Built schema us)
    {entries : List TypeEntry} (hvs : Lists schema entries vs) :
    List.Forall₂ Declares entries vs ∧ Built (vs.foldl addType schema) (us ++ vs) := by
  induction hvs generalizing us with
  | nil schema => exact ⟨.nil, by rwa [List.append_nil]⟩
  | @cons schema entry entries u vs hu _ ih =>
    obtain ⟨-, hname, -, hfields⟩ := hu
    obtain ⟨hnames, hreads⟩ := names_and_reads_of_forall₂ hfields
    obtain ⟨hdeclares, hbuilt⟩ := ih (h.add hreads)
    exact ⟨.cons ⟨hname, hnames⟩ hdeclares, by rwa [← List.append_cons] at hbuilt⟩

/-- A document adds its entries one after another. -/
theorem built_of_read {document : List Char} {schema : KeyspaceSchema}
    (h : read document = .ok schema) :
    ∃ keyspace entries us, (JsonValue.read? document).bind documentOf? = some (keyspace, entries) ∧
      List.Forall₂ Declares entries us ∧ Built schema us := by
  obtain ⟨us, hlists, heq⟩ := read_eq_ok_iff.1 h
  obtain ⟨entries, hdocument, hus⟩ := isDocument_iff.1 hlists
  obtain ⟨hdeclares, hbuilt⟩ := (Built.empty schema.keyspace).of_lists hus
  rw [← heq] at hbuilt
  exact ⟨schema.keyspace, entries, us, hdocument, hdeclares, hbuilt⟩

/-! ## Copies and lookups -/

/-- No user-defined type within a field is stale: it has the fields that a lookup of its name
finds. -/
def Current (schema : KeyspaceSchema) : Prop :=
  ∀ t ∈ schema.types, ∀ f ∈ t.fields, ∀ u : UserType, u.OccursIn f.type →
    ∀ now, schema.userType? u.name = some now → u.fields = now.fields

section

variable {schema : KeyspaceSchema} {us : List UserType} {u : UserType}

/-- What a lookup finds is the copied definition or one that was added under its name after it. -/
theorem Built.userType?_of_copied (h : Built schema us) {before after : List UserType}
    {d : UserType} (hus : us = before ++ d :: after)
    (hversion : u.version = (d.inKeyspace schema.keyspace).version)
    (hdot : u.name.toList.count '.' = 0) :
    schema.userType? u.name =
      some (((latest? after u.name).getD d).inKeyspace schema.keyspace) := by
  have hname : d.name = u.name := (congrArg SchemaVersion.name hversion).symm
  rw [userType?_of_count hdot, h.find?_types, hus, List.append_cons, latest?_append,
    latest?_append, latest?_singleton, if_pos hname]
  cases latest? after u.name with
  | none => rfl
  | some e => rfl

/-- A user-defined type within a field of a stored type is a copy of a definition that was added,
and it is current exactly if whatever was added last under its name since then has the same
fields. -/
theorem Built.copied_is_current_iff (h : Built schema us) {t : UserType} (ht : t ∈ schema.types)
    {f : Field ColumnType} (hf : f ∈ t.fields) (hu : u.OccursIn f.type) :
    ∃ before d after now, us = before ++ d :: after ∧
      u.version = (d.inKeyspace schema.keyspace).version ∧
      schema.userType? u.name = some now ∧
      (u.fields = now.fields ↔ ∀ e, latest? after u.name = some e → u.fields = e.fields) := by
  obtain ⟨v, hv, rfl⟩ := h.exists_of_mem_types ht
  obtain ⟨⟨d, hd, hversion⟩, hdot⟩ := h.exists_copied hv hf hu
  obtain ⟨before, after, hus⟩ := List.append_of_mem hd
  refine ⟨before, d, after, _, hus, hversion, h.userType?_of_copied hus hversion hdot, ?_⟩
  have hfields : u.fields = d.fields := congrArg SchemaVersion.fields hversion
  cases latest? after u.name with
  | none => exact ⟨fun _ => nofun, fun _ => hfields⟩
  | some e =>
    constructor
    · rintro heq e' he'
      cases he'
      exact heq
    · intro hall
      exact hall e rfl

/-- Where no definition is added under the name of another with other fields, none is stale. -/
theorem Built.current_of_unchanged (h : Built schema us)
    (hsame : ∀ a ∈ us, ∀ b ∈ us, a.name = b.name → a.fields = b.fields) : schema.Current := by
  intro t ht f hf u hu now hnow
  obtain ⟨before, d, after, now', hus, hversion, hnow', hiff⟩ := h.copied_is_current_iff ht hf hu
  cases hnow.symm.trans hnow'
  refine hiff.2 fun e he => ?_
  obtain ⟨hmem, hname⟩ := mem_of_latest? he
  have hdname : d.name = u.name := (congrArg SchemaVersion.name hversion).symm
  have hdfields : u.fields = d.fields := congrArg SchemaVersion.fields hversion
  rw [hdfields]
  refine hsame d ?_ e ?_ (hdname.trans hname.symm)
  · rw [hus]
    exact List.mem_append_right _ List.mem_cons_self
  · rw [hus]
    exact List.mem_append_right _ (List.mem_cons_of_mem _ hmem)

end

/-- The schema of a document is built from its entries in turn, and any schema that is built so and
added to is one again. In each, a user-defined type within a field, at any depth, is a copy of a
definition that was added, and a lookup of its name finds something. The copy is current exactly if
what was added last under its name since then, if anything, has the same fields. So no copy is ever
stale where no name is given to definitions with different fields. -/
theorem nested_is_current_iff (schema : KeyspaceSchema) :
    (∀ document, read document = .ok schema →
      ∃ keyspace entries us,
        (JsonValue.read? document).bind documentOf? = some (keyspace, entries) ∧
        List.Forall₂ Declares entries us ∧ Built schema us) ∧
    ∀ us, Built schema us →
      (∀ t ∈ schema.types, ∀ f ∈ t.fields, ∀ u : UserType, u.OccursIn f.type →
        ∃ before d after now, us = before ++ d :: after ∧
          u.version = (d.inKeyspace schema.keyspace).version ∧
          schema.userType? u.name = some now ∧
          (u.fields = now.fields ↔ ∀ e, latest? after u.name = some e → u.fields = e.fields)) ∧
      ((∀ a ∈ us, ∀ b ∈ us, a.name = b.name → a.fields = b.fields) → schema.Current) := by
  refine ⟨fun _ => built_of_read, fun us h => ⟨fun t ht f hf u hu => ?_, ?_⟩⟩
  · exact h.copied_is_current_iff ht hf hu
  · exact h.current_of_unchanged

/-- A document that lists a type and another one that holds it, under names of their own, so that
nothing in its schema is stale. -/
theorem nested_is_current_in_document :
    let document := ["\x7b\"keyspace\": \"shop\", \"types\": [\n",
      "  \x7b\"name\": \"address\", \"fields\": [\n",
      "    \x7b\"name\": \"street\", \"type\": \"text\"\x7d]\x7d,\n",
      "  \x7b\"name\": \"customer\", \"fields\": [\n",
      "    \x7b\"name\": \"home\", \"type\": \"frozen<address>\"\x7d]\x7d]\x7d"].flatMap String.toList
    let street : Field ColumnType := ⟨"street", .scalar .text⟩
    let home : Field ColumnType := ⟨"home", .user ⟨some "shop", "address", [street], true⟩⟩
    let schema : KeyspaceSchema :=
      ⟨"shop", [⟨some "shop", "address", [street], false⟩, ⟨some "shop", "customer", [home], false⟩]⟩
    read document = .ok schema ∧ (∃ us, Built schema us) ∧ schema.Current := by
  intro document street home schema
  have hread : read document = .ok schema := by decide +kernel
  have hlaid : JsonValue.LaidOut (documentWords "shop"
      [("address", [⟨"street", "text".toList⟩]),
        ("customer", [⟨"home", "frozen<address>".toList⟩])]) document := by
    decide +kernel
  obtain ⟨v, hv, hdescribes⟩ := exists_describes_of_laidOut hlaid
  obtain ⟨hdocuments, hbuilts⟩ := nested_is_current_iff schema
  obtain ⟨keyspace, entries, us, hentries, hdeclares, hbuilt⟩ := hdocuments document hread
  rw [hv, Option.bind_some, documentOf?_eq_some_iff.2 hdescribes] at hentries
  cases hentries
  refine ⟨hread, ⟨us, hbuilt⟩, (hbuilts us hbuilt).2 ?_⟩
  -- Two types are listed, and their names are different.
  cases hdeclares with
  | @cons _ address _ us haddress hdeclares =>
    cases hdeclares with
    | @cons _ customer _ us hcustomer hdeclares =>
      cases hdeclares with
      | nil =>
        have hne : address.name ≠ customer.name := by
          rw [haddress.1, hcustomer.1]
          decide
        simp [hne, hne.symm]

/-- A type with a text and a number, another one that holds it, and the first one again with its
fields in another order: what is held stays behind. -/
theorem nested_is_stale :
    let document := ["\x7b\"keyspace\": \"shop\", \"types\": [\n",
      "  \x7b\"name\": \"address\", \"fields\": [\n",
      "    \x7b\"name\": \"street\", \"type\": \"text\"\x7d,\n",
      "    \x7b\"name\": \"zip\", \"type\": \"int\"\x7d]\x7d,\n",
      "  \x7b\"name\": \"customer\", \"fields\": [\n",
      "    \x7b\"name\": \"home\", \"type\": \"frozen<address>\"\x7d]\x7d]\x7d"].flatMap String.toList
    let street : Field ColumnType := ⟨"street", .scalar .text⟩
    let zip : Field ColumnType := ⟨"zip", .scalar .int⟩
    let address : UserType := ⟨none, "address", [street, zip], false⟩
    let home : Field ColumnType := ⟨"home", .user ⟨some "shop", "address", [street, zip], true⟩⟩
    let customer : UserType := ⟨none, "customer", [home], false⟩
    let altered : UserType := ⟨none, "address", [zip, street], false⟩
    let start := ((empty "shop").addType address).addType customer
    read document = .ok start ∧ Built start [address, customer] ∧ start.Current ∧
      Built (start.addType altered) [address, customer, altered] ∧
      ¬(start.addType altered).Current := by
  intro document street zip address home customer altered start
  have htext : ∀ schema : KeyspaceSchema, ∃ text, schema.readType text = .ok street.type :=
    fun _ => ⟨['t', 'e', 'x', 't'], rfl⟩
  have hint : ∀ schema : KeyspaceSchema, ∃ text, schema.readType text = .ok zip.type :=
    fun _ => ⟨['i', 'n', 't'], rfl⟩
  have haddress : Built ((empty "shop").addType address) ([] ++ [address]) := by
    refine (Built.empty "shop").add ?_
    exact List.forall_mem_cons.2 ⟨htext _, List.forall_mem_cons.2 ⟨hint _, List.forall_mem_nil _⟩⟩
  have hstart : Built start ([address] ++ [customer]) := by
    refine haddress.add (List.forall_mem_cons.2 ⟨?_, List.forall_mem_nil _⟩)
    exact ⟨['f', 'r', 'o', 'z', 'e', 'n', '<', 'a', 'd', 'd', 'r', 'e', 's', 's', '>'], rfl⟩
  have haltered : Built (start.addType altered) ([address, customer] ++ [altered]) := by
    refine hstart.add ?_
    exact List.forall_mem_cons.2 ⟨hint _, List.forall_mem_cons.2 ⟨htext _, List.forall_mem_nil _⟩⟩
  refine ⟨by decide +kernel, hstart, hstart.current_of_unchanged ?_, haltered, fun h => ?_⟩
  · have hne : address.name ≠ customer.name := by decide
    simp [hne, hne.symm]
  · have htypes : (start.addType altered).types =
        [altered.inKeyspace "shop", customer.inKeyspace "shop"] := rfl
    have hcustomer : customer.inKeyspace "shop" ∈ (start.addType altered).types := by
      rw [htypes]
      exact List.mem_cons_of_mem _ List.mem_cons_self
    have hnow : (start.addType altered).userType? "address" = some (altered.inKeyspace "shop") := by
      rw [userType?_of_count (by decide), htypes]
      rfl
    have hfields : [street, zip] = [zip, street] :=
      h _ hcustomer home List.mem_cons_self _ .self _ hnow
    exact absurd hfields (by decide)

end KeyspaceSchema

end CqlWire
