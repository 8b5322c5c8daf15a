import WebIdl.Lint.Rules
import WebIdl.Settings.Path
import WebIdl.Toml.Document

/-!
# Settings

Settings come in layers: defaults, TOML documents in the order in which they are given, and single
values, which go over all documents wherever they stand. A later layer wins, key by key.
-/

namespace WebIdl

structure Settings where
  /-- The address of the Web IDL specification. -/
  baseUrl : String
  /-- Whether names are looked up in other documents. -/
  xrefEnabled : Bool
  /-- How long one lookup may take, in milliseconds. -/
  timeout : Nat
  checks : Lint.Checks
deriving DecidableEq, Repr

namespace Settings

inductive Error where
  /-- A value cannot stand for what its key needs. -/
  | wrongType
  /-- A section is no table, or lacks a key. -/
  | wrongShape
  /-- A single value has a key that is no path. -/
  | badPath
  /-- A document is not TOML. -/
  | badDocument
  /-- A document that must be there is missing. -/
  | missingDocument
deriving DecidableEq, Repr

inductive Layer where
  | document (text : String)
  /-- What was found in a file, and whether the file must be there. -/
  | file (text : Option String) (needed : Bool)
  | single (key : String) (value : Setting)

/-- The settings that apply where no layer says otherwise. -/
def defaults : Setting :=
  .table [
    ("webidl", .table [("base_url", .text "https://heycam.github.io/webidl/")]),
    ("xref", .table [("enabled", .boolean true), ("timeout_ms", .integer 5000)]),
    ("validation", .table [("require_exposed", .boolean true), ("dict_arg_default", .boolean true),
      ("duplicate_member", .boolean true), ("duplicate_definition", .boolean true),
      ("orphan_partial", .boolean true)])]

/-! ### Putting layers together -/

/-- The single values of the layers with their paths. -/
def singles : List Layer → Except Error (List (SettingPath × Setting))
  | [] => .ok []
  | .single key value :: layers =>
    match SettingPath.parse? key with
    | some path => do return (path, value) :: (← singles layers)
    | none => .error .badPath
  | _ :: layers => singles layers

/-- A document over what is set already. -/
def applyDocument (root : Setting) (text : String) : Except Error Setting :=
  match (Toml.parse? text).bind fun entries => Setting.ofToml? (.table entries) with
  | some (.table entries) =>
    .ok (entries.foldl (fun r (key, value) => SettingPath.setText key value r) root)
  | _ => .error .badDocument

/-- The documents of the layers over what is set already. -/
def applyDocuments : Setting → List Layer → Except Error Setting
  | root, [] => .ok root
  | root, .document text :: layers => do applyDocuments (← applyDocument root text) layers
  | root, .file (some text) _ :: layers => do applyDocuments (← applyDocument root text) layers
  | root, .file none needed :: layers =>
    if needed then .error .missingDocument else applyDocuments root layers
  | root, .single _ _ :: layers => applyDocuments root layers

/-- All layers over the defaults. -/
def merge (layers : List Layer) : Except Error Setting := do
  let values ← singles layers
  let root ← applyDocuments defaults layers
  return values.foldl (fun r (path, value) => path.set value r) root

/-! ### Reading the result -/

/-- The values of keys in a section, as far as they are there; a list has them by position. -/
def fields (names : List String) : Setting → Except Error (List (Option Setting))
  | .table entries => .ok (names.map (entries.lookup ·))
  | .list items => .ok ((List.range names.length).map (items[·]?))
  | _ => .error .wrongShape

/-- Reads a value that is there. -/
def read {α : Type} (f : Setting → Option α) : Option Setting → Except Error (Option α)
  | none => .ok none
  | some value =>
    match f value with
    | some a => .ok (some a)
    | none => .error .wrongType

/-- What was read for a key that a section must have. -/
def needed {α : Type} : Option α → Except Error α
  | some a => .ok a
  | none => .error .wrongShape

def readBaseUrl (value : Setting) : Except Error String := do
  match ← fields ["base_url"] value with
  | [baseUrl] => needed (← read Setting.toText? baseUrl)
  | _ => .error .wrongShape

def readXref (value : Setting) : Except Error (Bool × Nat) := do
  match ← fields ["enabled", "timeout_ms"] value with
  | [enabled, timeout] =>
    let enabled ← read Setting.toBool? enabled
    let timeout ← read Setting.toNat? timeout
    return (← needed enabled, ← needed timeout)
  | _ => .error .wrongShape

def readChecks (value : Setting) : Except Error Lint.Checks := do
  let found ← (← fields ["require_exposed", "dict_arg_default", "duplicate_member",
    "duplicate_definition", "orphan_partial"] value).mapM (read Setting.toBool?)
  match ← found.mapM needed with
  | [exposed, dictArg, member, definition, orphan] =>
    return ⟨exposed, dictArg, member, definition, orphan⟩
  | _ => .error .wrongShape

def ofSetting (root : Setting) : Except Error Settings := do
  match ← (← fields ["webidl", "xref", "validation"] root).mapM needed with
  | [webidl, xref, validation] =>
    let baseUrl ← readBaseUrl webidl
    let (enabled, timeout) ← readXref xref
    return ⟨baseUrl, enabled, timeout, ← readChecks validation⟩
  | _ => .error .wrongShape

def ofLayers (layers : List Layer) : Except Error Settings := do ofSetting (← merge layers)

/-- How long one lookup may take, in microseconds. -/
def limit (settings : Settings) : Nat := settings.timeout * 1000

end Settings

end WebIdl
