/-!
# Errors

`Error` is the closed list of ways in which an operation of this library can fail, and
`Error.message` the one place where they are worded. `Error.isRestartable` tells the failures of a
paging token after which the query can simply be run again from its first page.
-/

namespace CqlWire

/-- The component in which two statements differ. -/
inductive Mismatch where
  | queryText (expected actual : String)
  | parameterCount (expected actual : Nat)
  | parameter (index : Nat)
deriving DecidableEq, Repr

/-- The wording of a difference; the cursor's side comes first. -/
def Mismatch.message : Mismatch → String
  | .queryText expected actual =>
    s!"query text differs (cursor: '{expected}', statement: '{actual}')"
  | .parameterCount expected actual =>
    s!"parameter count differs (cursor: {expected}, statement: {actual})"
  | .parameter index => s!"bound parameter {index} differs"

/-- Every way in which an operation can fail. -/
inductive Error where
  /-- A value breaks a rule of its type, as a null element of a set does. -/
  | illegalValue (type value reason : String)
  /-- Bytes do not form a value of the type. -/
  | decode (type reason : String)
  /-- The number of bytes is impossible for the type. -/
  | invalidLength (type expected : String) (actual : Nat)
  /-- A value is absent where the type has no null. -/
  | unexpectedNull (type : String)
  /-- A text is not a literal of the type. -/
  | illegalArgument (type input reason : String)
  /-- A name or an ordinal lies outside an enumeration. -/
  | noSuchVariant (enumeration value : String)
  /-- A value type cannot be served by a column type. -/
  | schemaMismatch (type reason : String)
  /-- No registered codec fits. -/
  | codecNotFound (type valueType : String)
  /-- A paging token is malformed or forged. -/
  | corruptedState (reason : String)
  /-- A paging token belongs to another statement. -/
  | statementMismatch (difference : Mismatch)
  /-- There is no further page. -/
  | pagingExhausted
  /-- A configuration or a schema document is malformed. -/
  | config (reason : String)
  /-- A file cannot be read. -/
  | io (reason : String)
deriving DecidableEq, Repr

namespace Error

/-- The wording of an error. -/
def message : Error → String
  | .illegalValue type value reason => s!"Illegal value for {type}: {value} ({reason})"
  | .decode type reason => s!"Decode error for {type}: {reason}"
  | .invalidLength type expected actual =>
    s!"Invalid length for {type}: expected {expected} bytes, got {actual}"
  | .unexpectedNull type => s!"Unexpected NULL for non-optional {type}"
  | .illegalArgument type input reason => s!"Invalid {type} literal '{input}': {reason}"
  | .noSuchVariant enumeration value => s!"No variant of {enumeration} matches {value}"
  | .schemaMismatch type reason => s!"Schema mismatch for {type}: {reason}"
  | .codecNotFound type valueType => s!"No codec registered for {type} ({valueType})"
  | .corruptedState reason => s!"Corrupted paging state: {reason}"
  | .statementMismatch difference =>
    s!"Paging state does not belong to this statement: {difference.message}"
  | .pagingExhausted => "Paging is exhausted; restart the query to page again"
  | .config reason => s!"Configuration error: {reason}"
  | .io reason => s!"IO error: {reason}"

/-- A failure from which a caller recovers by running the query from its first page. -/
def isRestartable : Error → Bool
  | .corruptedState _ | .statementMismatch _ | .pagingExhausted => true
  | _ => false

end Error

end CqlWire
