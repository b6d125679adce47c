import Pseudoscribe.Config.Reader
import Pseudoscribe.Files
import Pseudoscribe.Json.Reader
import Pseudoscribe.Toml.Reader

/-!
# Where a configuration comes from

The environment goes before the files, the files before the defaults.  Each source is laid over those
before it: tables are merged, other values replaced.  Names are kept in small letters.

Every value that can be configured has a name in a section, and a name in the environment made of both.  The
names of the files that are looked for are here as well, for whoever has to fetch them.
-/

namespace Pseudoscribe.Config

/-- Values by name. -/
abbrev Layer := List (String × Json)

namespace Layer

/-- Put a value under a name. -/
def put (name : String) (value : Json) (l : Layer) : Layer :=
  if l.any (·.1 == name) then l.map fun m => if m.1 == name then (name, value) else m
  else l ++ [(name, value)]

def tableAt (name : String) (l : Layer) : Layer := ((l.lookup name).bind Json.asMembers?).getD []

mutual

/-- Lay a value under a name over what is there. -/
def lay (l : Layer) (name : String) : Json → Layer
  | .obj ms =>
    let key := Text.lower name.toList
    if ms.isEmpty then if l.any (·.1 == key) then l else put key (.obj []) l
    else put key (.obj (layAll (tableAt key l) ms)) l
  | .null => put (Text.lower name.toList) .null l
  | .bool b => put (Text.lower name.toList) (.bool b) l
  | .int i => put (Text.lower name.toList) (.int i) l
  | .real x => put (Text.lower name.toList) (.real x) l
  | .str s => put (Text.lower name.toList) (.str s) l
  | .arr items => put (Text.lower name.toList) (.arr items) l

/-- Lay values over what is there, one after another. -/
def layAll (l : Layer) : List (String × Json) → Layer
  | [] => l
  | (name, value) :: rest => layAll (lay l name value) rest

end

/-- Lay a value over what is there, at the end of a path of tables. -/
def layAt (l : Layer) (value : Json) : List String → Layer
  | [] => l
  | [name] => lay l name value
  | name :: path => put name (.obj (layAt (tableAt name l) value path)) l

/-- Characters of a name in a path. -/
def isNameChar (c : Char) : Bool := c.isAlphanum || c == '_' || c == '-'

/-- The names in a path with points; a text that is no such path is a name as a whole. -/
def pathOf (text : String) : List String :=
  let parts := Text.splitOn '.' text.toList
  if parts.all fun p => !p.isEmpty && p.all isNameChar then parts.map String.ofList else [text]

/-- Lay a source over what is there: values under paths. -/
def addSource (l : Layer) (source : List (String × Json)) : Layer :=
  source.foldl (fun l (path, value) => layAt l value (pathOf path)) l

end Layer

/-! ## The environment -/

/-- The beginning of the names that count. -/
def environmentMark : List Char := "quill_".toList

/-- The path that a name of the environment stands for: two underscores part the names in it. -/
def environmentPath? (name : String) : Option String :=
  let name := (Text.lower name.toList).toList
  (Text.dropBeginning? environmentMark name).map fun rest =>
    (String.ofList rest).replace "__" "."

/-- What a text of the environment means: a switch, a number or itself. -/
def environmentValue (text : String) : Json :=
  match Text.lower text.toList with
  | "true" => .bool true
  | "false" => .bool false
  | _ =>
    match Loose.wholeOfText? text with
    | some i =>
      if -(Nat.pow 2 63 : Nat) ≤ i ∧ i < (Nat.pow 2 63 : Nat) then .int i
      else .real ((Loose.realOfText? text).getD .nan)
    | none =>
      match Loose.realOfText? text with
      | some x => .real x
      | none => .str text

/-- The values in the environment. -/
def ofEnvironment (env : List (String × String)) : List (String × Json) :=
  env.filterMap fun (name, text) => (environmentPath? name).map (·, environmentValue text)

/-! ## Files -/

/-- Why there is no configuration. -/
inductive LoadError where
  /-- a file is missing or cannot be understood -/
  | source
  /-- a value is not of the right kind -/
  | values
  | invalid (fault : Fault)
deriving DecidableEq, Repr

def LoadError.name : LoadError → String
  | source => "LoadError"
  | values => "ParseError"
  | invalid _ => "ValidationError"

def LoadError.message : LoadError → String
  | source => "Failed to load configuration"
  | values => "Failed to parse configuration"
  | invalid fault => s!"Configuration validation failed: {fault.message}"

/-- The forms in which a file may be written, by the ending of its name. -/
def readFile? (ending content : String) : Option (List (String × Json)) :=
  match ending with
  | "toml" => (Toml.ofString? content).map fun es => Toml.entriesToJson Json.str es
  | "json" =>
    match Json.ofString? content with
    | some (.obj ms) => some ms
    | _ => none
  | _ => none

def endings : List String := ["toml", "json"]

/-- The ending of the last part of a path, without its point. -/
def endingOf (path : String) : String :=
  let name := ((Text.splitOn '/' path.toList).getLast?.getD [])
  match (Text.splitOn '.' name).reverse with
  | ending :: first :: rest => if first.isEmpty && rest.isEmpty then "" else String.ofList ending
  | _ => ""

/-- The file of a name: the name itself, or else the name with an ending.  A name without a known
ending names no file. -/
def findFile? (files : Files) (name : String) : Option (String × String) :=
  let named (path ending : String) : Option (String × String) :=
    match files path with
    | .text content => some (ending, content)
    | _ => none
  match files name with
  | .text content =>
    if endings.contains (endingOf name) then some (endingOf name, content) else none
  | _ => endings.findSome? fun ending => named (name ++ "." ++ ending) ending

/-- The values in a file that need not be there. -/
def optionalFile (files : Files) (name : String) : Except LoadError (List (String × Json)) :=
  match findFile? files name with
  | none => .ok []
  | some (ending, content) =>
    match readFile? ending content with
    | some ms => .ok ms
    | none => .error .source

/-- The values in a file that must be there. -/
def requiredFile (files : Files) (path : String) : Except LoadError (List (String × Json)) :=
  match findFile? files path with
  | none => .error .source
  | some _ => optionalFile files path

/-- The sources from the lowest to the highest: the file of the given path, or else the files that are
looked for, and the environment. -/
def sources (files : Files) (env : List (String × String)) (path : Option String) :
    Except LoadError (List (List (String × Json))) := do
  let fromFiles ← match path with
    | some path => do pure [← requiredFile files path]
    | none => ["config", "config.local"].mapM (optionalFile files)
  pure (fromFiles ++ [ofEnvironment env])

/-- Load a configuration and check it. -/
def load (files : Files) (env : List (String × String)) (path : Option String) :
    Except LoadError Config := do
  let layers ← sources files env path
  match ofJson? .loose (.obj (layers.foldl Layer.addSource [])) with
  | none => .error .values
  | some c =>
    match c.validate with
    | .error fault => .error (.invalid fault)
    | .ok () => .ok c

/-! ## Names of the configuration -/

/-- The sections, and the names in them. -/
def sections : List (String × List String) :=
  [("server", ["host", "port"]),
    ("translator", ["target_language", "max_chunk_size", "overlap_lines", "max_retries", "worker_count",
      "timeout_seconds", "model_backend", "model_revision", "retry_backoff_ms"]),
    ("pool", ["worker_count", "worker_program", "queue_capacity", "startup_timeout_secs"]),
    ("local_model", ["models_dir", "model_name"]),
    ("remote_model", ["url", "model_name", "api_key", "timeout_secs", "default_confidence",
      "max_context_tokens"]),
    ("cache", ["enabled", "path", "max_entries"]),
    ("log", ["level", "json"])]

/-- The name of a value in the environment. -/
def environmentName (part name : String) : String :=
  Text.upper (environmentMark ++ (part ++ "__" ++ name).toList)

/-- The names of the environment that count. -/
def environmentNames : List String :=
  sections.flatMap fun (part, names) => names.map (environmentName part)

/-- The files that may hold a configuration. -/
def fileNames : List String :=
  ["config", "config.local"].flatMap fun name => name :: endings.map fun e => name ++ "." ++ e

example : environmentName "server" "port" = "QUILL_SERVER__PORT" := by decide +kernel

end Pseudoscribe.Config
