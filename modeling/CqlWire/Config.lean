import CqlWire.Paging.Token
import CqlWire.Toml.Reader

/-!
# Configuration

The settings of paging tokens: their kind and the secret that signs them. They come from the first
configuration file that exists, and a variable of the environment overrides the secret.

* `Config.read`: the settings in a TOML document, which may hold nothing else;
* `Config.withOverrides`: the settings under an environment;
* `Config.load`: the settings of the first file among `Config.searchPaths`;
* `Config.tokenKind`: the tokens that the settings ask for.
-/

namespace CqlWire

/-- The kinds of tokens by their names in a configuration. -/
inductive TokenSetting where
  | safe | simple
deriving DecidableEq, Repr

/-- The name of a setting. -/
def TokenSetting.name : TokenSetting → String
  | .safe => "safe"
  | .simple => "simple"

/-- The setting of a name. -/
def TokenSetting.ofName? : String → Option TokenSetting
  | "safe" => some .safe
  | "simple" => some .simple
  | _ => none

/-- The settings. Without a secret, tokens are signed with the built-in key. -/
structure Config where
  tokens : TokenSetting
  secret : Option String
deriving DecidableEq, Repr

/-- What stands at a path of the file system. -/
inductive FileState where
  | missing
  | directory
  | file (contents : List Char)
deriving DecidableEq, Repr

namespace Config

/-- The settings where nothing is configured. -/
def standard : Config :=
  { tokens := .safe, secret := none }

/-! ## Documents -/

/-- The setting in a document: its name as a text, or as the one key of a table whose value is
empty. -/
def tokenSetting? : TomlValue → Option TokenSetting
  | .text name => TokenSetting.ofName? (String.ofList name)
  | .table _ [(name, .table _ [])] | .table _ [(name, .array [])] =>
    TokenSetting.ofName? (String.ofList name)
  | _ => none

/-- The secret in a document. -/
def secret? : TomlValue → Option String
  | .text s => some (String.ofList s)
  | _ => none

/-- The settings of paging: a table in which each may be missing, or both in a row. -/
def paging? : TomlValue → Option Config
  | .table _ entries => do
    if entries.any fun e => e.1 ≠ "serializer".toList ∧ e.1 ≠ "secret".toList then none
    let tokens ← match TomlValue.lookup? "serializer".toList entries with
      | some v => tokenSetting? v
      | none => some .safe
    let secret ← match TomlValue.lookup? "secret".toList entries with
      | some v => (secret? v).map some
      | none => some none
    return { tokens, secret }
  | .array (tokens :: secret :: _) =>
    return { tokens := ← tokenSetting? tokens, secret := some (← secret? secret) }
  | _ => none

/-- The settings in a document, which holds the table `paging` or nothing. -/
def ofDocument? : TomlValue.Entries → Option Config
  | [] => some standard
  | [(key, v)] => if key = "paging".toList then paging? v else none
  | _ => none

/-- Reads the settings in a text. -/
def read (text : List Char) : Except Error Config :=
  match (Toml.read? text).bind ofDocument? with
  | some config => .ok config
  | none => .error (.config "invalid configuration")

/-- Reads the settings in a file. -/
def ofFile : FileState → Except Error Config
  | .file contents => read contents
  | .directory | .missing => .error (.io "configuration file cannot be read")

/-! ## Environment -/

/-- The variable that overrides the secret. -/
def secretVariable : String := "QAIL_CQL_PAGING_SECRET"

/-- The settings under an environment; a variable that is empty overrides nothing. -/
def withOverrides (config : Config) (lookup : String → Option String) : Config :=
  match lookup secretVariable with
  | some secret => if secret.isEmpty then config else { config with secret := some secret }
  | none => config

/-- Where a configuration is looked for, in order. -/
def searchPaths (userDirectory : Option String) : List String :=
  ["qail-cql.toml", ".qail/cql.toml"] ++
    (userDirectory.map fun dir => dir ++ "/qail/cql.toml").toList

/-- The settings in the first file among the search paths, under an environment. -/
def load (fileAt : String → FileState) (userDirectory : Option String)
    (lookup : String → Option String) : Except Error Config := do
  let found := (searchPaths userDirectory).findSome? fun path =>
    match fileAt path with
    | .file contents => some contents
    | .directory | .missing => none
  let config ← match found with
    | some contents => read contents
    | none => .ok standard
  return config.withOverrides lookup

/-- The tokens that the settings ask for. -/
def tokenKind (config : Config) : TokenKind :=
  match config.tokens, config.secret with
  | .simple, _ => .simple
  | .safe, some secret => .safe (Utf8.encode secret.toList)
  | .safe, none => .builtin

end Config

end CqlWire
