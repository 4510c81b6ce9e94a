import CqlWire.Fallible
import CqlWire.Naming.Rule
import CqlWire.Value.Type

/-!
# Declarations

An enumeration or a record is described by its declaration: identifiers with attributes that say
under which names they are stored. A declaration is checked before anything is made of it, and the
first fault in this order is reported: its form, its type parameters, an enumeration without
members, its own attributes, its members one after another, and last a name that two members share.

* `Declaration.enumeration`: the enumeration that a declaration describes;
* `Declaration.record`: the names of the record type that a declaration describes;
* `DeclarationError.message`: the wording of a fault.
-/

namespace CqlWire

open Naming (Rule)

/-- What is declared. -/
inductive DeclarationForm where
  | enumeration
  /-- A record whose fields have names. -/
  | record
  /-- A record whose fields are known by position. -/
  | tuple
  /-- A record that can have no fields. -/
  | unit
  | union
deriving DecidableEq, Repr

/-- A setting of a declaration or of a member: a key, and for most keys a text. -/
structure Attribute where
  key : String
  value : Option String
deriving DecidableEq, Repr

/-- A member of an enumeration or a field of a record. -/
structure Member where
  identifier : String
  attributes : List Attribute
  /-- Whether a member of an enumeration has values of its own. -/
  carriesData : Bool
deriving DecidableEq, Repr

/-- The declaration of an enumeration or of a record. -/
structure Declaration where
  form : DeclarationForm
  identifier : String
  isGeneric : Bool
  attributes : List Attribute
  members : List Member
deriving DecidableEq, Repr

/-- What can be wrong with a declaration. -/
inductive DeclarationError where
  | notEnumeration
  | notRecord
  | unnamedFields
  | genericEnumeration
  | genericRecord
  | noMembers
  | memberWithData
  | unknownAttribute
  | unknownMemberAttribute
  | missingValue
  | unexpectedValue
  | unknownRule (name : String)
  | duplicateName (name : String)
deriving DecidableEq, Repr

/-- The wording of a fault. -/
def DeclarationError.message : DeclarationError → String
  | .notEnumeration => "CqlEnum can only be derived for enums"
  | .notRecord => "CqlUdt can only be derived for structs"
  | .unnamedFields => "CqlUdt needs a struct with named fields"
  | .genericEnumeration => "CqlEnum does not support generics"
  | .genericRecord => "CqlUdt does not support generics"
  | .noMembers => "CqlEnum needs at least one variant"
  | .memberWithData => "CqlEnum variants cannot carry data"
  | .unknownAttribute => "unsupported cql attribute"
  | .unknownMemberAttribute => "unsupported cql attribute; expected \x60rename\x60"
  | .missingValue => "expected \x60=\x60"
  | .unexpectedValue => "expected \x60,\x60"
  | .unknownRule name =>
    s!"unknown rename_all rule '{name}'; expected one of "
      ++ String.intercalate ", " (Rule.named.map (·.1))
  | .duplicateName name => s!"duplicate CQL name '{name}'"

/-! ## Attributes -/

/-- The text of an attribute that needs one. -/
def Attribute.text (a : Attribute) : Except DeclarationError String :=
  match a.value with
  | some text => .ok text
  | none => .error .missingValue

/-- What the attributes of a declaration say. -/
structure DeclarationSettings where
  name : Option String
  rule : Rule
  ordinal : Bool

namespace DeclarationSettings

/-- The settings of a declaration without attributes. -/
def standard : DeclarationSettings :=
  { name := none, rule := .verbatim, ordinal := false }

/-- The settings after one more attribute; the last of several with one key counts. -/
def add (allowOrdinal : Bool) (settings : DeclarationSettings) (a : Attribute) :
    Except DeclarationError DeclarationSettings := do
  if a.key = "name" then
    return { settings with name := some (← a.text) }
  else if a.key = "rename_all" then
    let name ← a.text
    match Rule.ofName? name with
    | some rule => .ok { settings with rule }
    | none => .error (.unknownRule name)
  else if allowOrdinal && a.key = "ordinal" then
    if a.value.isSome then .error .unexpectedValue else .ok { settings with ordinal := true }
  else .error .unknownAttribute

/-- The settings that attributes make up. -/
def ofAttributes (allowOrdinal : Bool) (attributes : List Attribute) :
    Except DeclarationError DeclarationSettings :=
  attributes.foldlM (add allowOrdinal) standard

end DeclarationSettings

namespace Member

/-- The identifier without the mark that lets it be a keyword. -/
def bareIdentifier (m : Member) : List Char :=
  match m.identifier.toList with
  | 'r' :: '#' :: name => name
  | name => name

/-- The name that the member's own attributes give it. -/
def rename? (m : Member) : Except DeclarationError (Option String) :=
  m.attributes.foldlM
    (fun _ a => if a.key = "rename" then a.text.map some else .error .unknownMemberAttribute)
    none

/-- The stored name of a member: its own, or what the rule makes of its identifier. -/
def storedName (rule : Rule) (m : Member) : Except DeclarationError String := do
  match ← m.rename? with
  | some name => return name
  | none => return String.ofList (rule.apply m.bareIdentifier)

end Member

/-! ## Names -/

/-- The first name that occurs earlier in the list or among `seen`. -/
def firstRepeated? (seen : List String) : List String → Option String
  | [] => none
  | name :: names => if name ∈ seen then some name else firstRepeated? (name :: seen) names

/-- Names are refused if two of them are the same. -/
def distinctNames (names : List String) : Except DeclarationError (List String) :=
  match firstRepeated? [] names with
  | some name => .error (.duplicateName name)
  | none => .ok names

theorem firstRepeated?_eq_none_iff (seen names : List String) :
    firstRepeated? seen names = none ↔ names.Nodup ∧ ∀ n ∈ names, n ∉ seen := by
  induction names generalizing seen with
  | nil => simp [firstRepeated?]
  | cons n ns ih =>
    by_cases h : n ∈ seen
    · simp [firstRepeated?, h]
    · simp only [firstRepeated?, h, if_false, ih, List.nodup_cons, List.mem_cons]
      grind

theorem distinctNames_nodup {names names' : List String} (h : distinctNames names = .ok names') :
    names' = names ∧ names.Nodup := by
  unfold distinctNames at h
  split at h
  · cases h
  · next hn =>
    cases h
    exact ⟨rfl, ((firstRepeated?_eq_none_iff [] _).1 hn).1⟩

namespace Declaration

/-- The enumeration that a declaration describes. Its name is that of the declaration. -/
def enumeration (d : Declaration) : Except DeclarationError Enumeration := do
  refuseIf (d.form ≠ .enumeration) .notEnumeration
  refuseIf d.isGeneric .genericEnumeration
  refuseIf d.members.isEmpty .noMembers
  let settings ← DeclarationSettings.ofAttributes true d.attributes
  let names ← d.members.mapM fun m =>
    if m.carriesData then .error .memberWithData else m.storedName settings.rule
  return {
    label := d.identifier
    typeName := settings.name.getD d.identifier
    members := d.members.map fun m => String.ofList m.bareIdentifier
    names := ← distinctNames names
    ordinal := settings.ordinal }

/-- The names of the record type that a declaration describes. The name of its column type is that
of the declaration in snake case. -/
def record (d : Declaration) : Except DeclarationError RecordHeader := do
  refuseIf (d.form = .enumeration ∨ d.form = .union) .notRecord
  refuseIf (d.form ≠ .record) .unnamedFields
  refuseIf d.isGeneric .genericRecord
  let settings ← DeclarationSettings.ofAttributes false d.attributes
  let columns ← d.members.mapM (·.storedName settings.rule)
  return {
    label := d.identifier
    typeName := settings.name.getD (String.ofList (Rule.snake.apply d.identifier.toList))
    members := d.members.map fun m => String.ofList m.bareIdentifier
    columns := ← distinctNames columns }

/-- An enumeration that a declaration makes has variants, and no two of one name. -/
theorem wellFormed_of_enumeration {d : Declaration} {e : Enumeration}
    (h : d.enumeration = .ok e) : e.WellFormed := by
  simp only [enumeration, bind_eq_ok_iff, refuseIf_eq_ok_iff, pure_eq_ok_iff] at h
  obtain ⟨_, -, _, -, _, hm, settings, -, names, hn, names', hd, rfl⟩ := h
  obtain ⟨rfl, hnodup⟩ := distinctNames_nodup hd
  have hlen := length_of_mapM_eq_ok hn
  refine ⟨fun hnil => hm ?_, hnodup, by simp [hlen]⟩
  rw [List.isEmpty_iff, ← List.length_eq_zero_iff, ← hlen]
  exact List.length_eq_zero_iff.2 hnil

/-- A record type that a declaration makes has a column for each member, and no two of one name. -/
theorem wellFormed_of_record {d : Declaration} {header : RecordHeader}
    (h : d.record = .ok header) : header.WellFormed d.members.length := by
  simp only [record, bind_eq_ok_iff, refuseIf_eq_ok_iff, pure_eq_ok_iff] at h
  obtain ⟨_, -, _, -, _, -, settings, -, columns, hc, columns', hd, rfl⟩ := h
  obtain ⟨rfl, hnodup⟩ := distinctNames_nodup hd
  exact ⟨hnodup, length_of_mapM_eq_ok hc, by simp⟩

end Declaration

end CqlWire
