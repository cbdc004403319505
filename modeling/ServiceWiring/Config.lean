import ServiceWiring.Glob.Pattern
import ServiceWiring.Json.Parser
import ServiceWiring.Json.Printer

/-!
# Configuration

The settings of a project, read from a JSON file.  Settings that the file leaves out have a
default and unknown keys are ignored.  An array stands for the settings in their order, where the
last ones may be missing.

* `Config.ofJson?` — reads settings; a repeated known key is refused;
* `Config.validate` — refuses patterns that are no patterns and file names that are no names.
-/

namespace ServiceWiring

/-- The name of the configuration file. -/
def configFileName : String := ".wiregenrc.json"

/-- The settings of a project. -/
structure Config where
  ignores : List String := []
  includes : List String := []
  ignoreTestFiles : Bool := true
  outputFile : String := "zz_wiregen.go"
  cacheFile : String := ".wiregen-cache.json"
  runtimeImport : String := "github.com/wiregen/wiregen/runtime"
  runtimeName : String := "runtime"
  deriving DecidableEq, Repr

namespace Config

/-- The keys of the settings, in their order. -/
def keys : List String :=
  ["ignores", "includes", "ignoreTestFiles", "outputFile", "cacheFile", "runtimeImport",
    "runtimeAlias"]

/-- Sets one setting from its JSON value. -/
def set? (config : Config) (key : String) (v : JsonValue) : Option Config :=
  if key = "ignores" then v.strings?.map fun ignores => { config with ignores }
  else if key = "includes" then v.strings?.map fun includes => { config with includes }
  else if key = "ignoreTestFiles" then
    v.bool?.map fun ignoreTestFiles => { config with ignoreTestFiles }
  else if key = "outputFile" then v.string?.map fun outputFile => { config with outputFile }
  else if key = "cacheFile" then v.string?.map fun cacheFile => { config with cacheFile }
  else if key = "runtimeImport" then
    v.string?.map fun runtimeImport => { config with runtimeImport }
  else if key = "runtimeAlias" then v.string?.map fun runtimeName => { config with runtimeName }
  else some config

/-- Reads the fields of an object; `seen` are the known keys met so far. -/
def ofFields? (config : Config) (seen : List String) :
    List (Option String × JsonValue) → Option Config
  | [] => some config
  | (none, _) :: _ => none
  | (some key, v) :: rest =>
      if seen.contains key then none
      else do
        let config ← config.set? key v
        ofFields? config (if keys.contains key then key :: seen else seen) rest

/-- Reads the items of an array as the settings of the given keys. -/
def ofItems? (config : Config) : List String → List JsonValue → Option Config
  | _, [] => some config
  | [], _ :: _ => none
  | key :: keys, v :: rest => do
      let config ← config.set? key v
      ofItems? config keys rest

/-- Reads settings. -/
def ofJson? : JsonValue → Option Config
  | .object fields => ofFields? {} [] fields
  | .array items => ofItems? {} keys items
  | _ => none

/-- Reads settings from a JSON text. -/
def parse? (text : String) : Option Config :=
  (JsonValue.parse? text).bind ofJson?

/-- Settings as JSON. -/
def toJson (config : Config) : JsonValue :=
  let text (s : String) : JsonValue := .string (some s)
  .object [
    (some "ignores", .array (config.ignores.map text)),
    (some "includes", .array (config.includes.map text)),
    (some "ignoreTestFiles", .bool config.ignoreTestFiles),
    (some "outputFile", text config.outputFile),
    (some "cacheFile", text config.cacheFile),
    (some "runtimeImport", text config.runtimeImport),
    (some "runtimeAlias", text config.runtimeName)]

/-- The text of the default configuration. -/
def defaultText : String :=
  (({} : Config).toJson).pretty

/-! ## Validation -/

/-- What is wrong with settings. -/
inductive Fault where
  | badPattern (setting pattern : String) (error : GlobError)
  /-- A file setting that is empty or holds a separator. -/
  | noFileName (setting value : String)
  /-- An output file that is no Go file. -/
  | noGoFile (value : String)
  | emptyRuntime
  deriving DecidableEq, Repr

/-- The words for a fault. -/
def Fault.message : Fault → String
  | .badPattern setting pattern error =>
      s!"Invalid glob pattern in '{setting}': \"{pattern}\": {error.message}"
  | .noFileName setting value => s!"Invalid '{setting}': \"{value}\" must be a file name"
  | .noGoFile value => s!"Invalid 'outputFile': \"{value}\" must end in .go"
  | .emptyRuntime => "'runtimeImport' and 'runtimeAlias' must not be empty"

/-- Whether a text holds a wildcard; others are literal paths. -/
def isWildcard (pattern : String) : Bool :=
  pattern.toList.any fun c => c == '*' || c == '?'

/-- The first pattern of a list that is no pattern. -/
def patternFault? (setting : String) : List String → Option Fault
  | [] => none
  | pattern :: rest =>
      match GlobPattern.parse pattern.toList with
      | .ok _ => patternFault? setting rest
      | .error e => some (.badPattern setting pattern e)

/-- Whether a text is the name of a file in a folder. -/
def isFileName (name : String) : Bool :=
  !name.toList.isEmpty && !name.toList.any fun c => c == '/' || c == '\\'

/-- The first fault of settings. -/
def fault? (config : Config) : Option Fault :=
  (patternFault? "ignores" config.ignores)
    |>.or (patternFault? "includes" (config.includes.filter isWildcard))
    |>.or (if isFileName config.outputFile then none
      else some (.noFileName "outputFile" config.outputFile))
    |>.or (if isFileName config.cacheFile then none
      else some (.noFileName "cacheFile" config.cacheFile))
    |>.or (if ".go".toList.isSuffixOf config.outputFile.toList then none
      else some (.noGoFile config.outputFile))
    |>.or (if config.runtimeImport.toList.isEmpty || config.runtimeName.toList.isEmpty then
      some .emptyRuntime else none)

/-- Refuses faulty settings. -/
def validate (config : Config) : Except Fault Unit :=
  match config.fault? with
  | some fault => .error fault
  | none => .ok ()

end Config

end ServiceWiring
