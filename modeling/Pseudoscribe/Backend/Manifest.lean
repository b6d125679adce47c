import Pseudoscribe.Backend.Spec
import Pseudoscribe.Files
import Pseudoscribe.Number.Decimal
import Pseudoscribe.Toml.Fault
import Pseudoscribe.Toml.Reader

/-!
# Manifests of local models

A local model is a directory for each of its revisions with a manifest in it.  A manifest is used only for
the model and the revision that it names itself; nothing else takes its place.
-/

/-!
## Manifests that cannot be read

A manifest is refused for its form, for a value of the wrong kind, or because something is missing, in this
order.  The report shows the line.
-/

namespace Pseudoscribe.Manifest

/-- What a value of a manifest has to be. -/
inductive Wanted where
  | text
  | texts
  | count
deriving DecidableEq, Repr

namespace Wanted

def words : Wanted → String
  | text => "a string"
  | texts => "a sequence"
  | count => "usize"

end Wanted

/-- What the keys of a manifest hold. -/
def wanted : List (String × Wanted) :=
  [("name", .text), ("revision", .text), ("supported_languages", .texts),
    ("max_context_tokens", .count), ("indent_width", .count)]

/-- The keys that a manifest must have. -/
def needed : List String := ["name", "revision"]

/-- A number with a point. -/
def pointed (x : Double) : String :=
  let text := x.display
  if x.isFinite && !text.toList.contains '.' then text ++ ".0" else text

/-- A value as a report names it. -/
def valueText : Toml → String
  | .str s => "string " ++ Text.shown s
  | .int i => s!"integer \x60{i}\x60"
  | .real x => s!"floating point \x60{pointed x}\x60"
  | .bool b => s!"boolean \x60{b}\x60"
  | .time _ | .table _ => "map"
  | .arr _ => "sequence"

/-- What is wrong with a value. -/
def misfit? (w : Wanted) (v : Toml) : Option String :=
  match w, v with
  | .text, .str _ | .texts, .arr _ => none
  | .count, .int i =>
    if 0 ≤ i then none else some s!"invalid value: {valueText v}, expected {w.words}"
  | _, _ => some s!"invalid type: {valueText v}, expected {w.words}"

/-- What is wrong with the value of a key, and where. -/
def holdingMisfit? (h : Toml.Holding) : Option (Toml.Place × String) := do
  let w ← wanted.lookup h.name
  match misfit? w h.value with
  | some message => some (h.place, message)
  | none =>
    if w == .texts then
      (Toml.itemPlaces h.place.start.length (h.place.start.drop 1)).findSome? fun (v, place) =>
        (misfit? .text v).map (place, ·)
    else none

/-- The report on a manifest that cannot be read. -/
def report (text : String) : String :=
  let doc := text.toList
  match Toml.fault? doc with
  | some fault => fault.report doc
  | none =>
    let (holdings, root) := Toml.holdings doc
    match holdings.findSome? holdingMisfit? with
    | some (place, message) => place.report doc message
    | none =>
      let missing := (needed.find? fun name => !holdings.any (·.name == name)).getD ""
      root.report doc s!"missing field \x60{missing}\x60"

end Pseudoscribe.Manifest

namespace Pseudoscribe

/-! ## Manifests that can be read -/

/-- What a manifest says of a model. -/
structure Manifest where
  name : String
  revision : String
  languages : List String := ["python", "javascript"]
  maxContextTokens : Nat := 4096
  indentWidth : Nat := 4
deriving DecidableEq, Repr, Inhabited

namespace LocalModel

/-- May this be one step of a path? -/
def isPathPart (part : String) : Bool :=
  part != "" && part != "." && part != ".." && !part.toList.any fun c => c == '/' || c == '\\'

/-- Where the manifest of a model is found. -/
def manifestPath (m : LocalModel) : String :=
  Files.join (Files.join (Files.join m.directory m.model) m.revision) "manifest.toml"

end LocalModel

namespace Manifest

/-- What a model can do that was not loaded yet, and one whose manifest does not say. -/
def defaultCapabilities : Capabilities := ⟨false, 4096, ["python", "javascript"]⟩

def capabilities (m : Manifest) : Capabilities := ⟨false, m.maxContextTokens, m.languages⟩

def ofJson? (j : Json) : Option Manifest := do
  let r ← j.record?
    [("name", .required), ("revision", .required), ("supported_languages", .defaulted),
      ("max_context_tokens", .defaulted), ("indent_width", .defaulted)]
  let name ← r.read? "name" Json.asText?
  let revision ← r.read? "revision" Json.asText?
  let languages ← r.readOr? "supported_languages" ["python", "javascript"] (Json.listOf? Json.asText?)
  let maxContextTokens ← r.readOr? "max_context_tokens" 4096 Json.asNat?
  let indentWidth ← r.readOr? "indent_width" 4 Json.asNat?
  pure { name, revision, languages, maxContextTokens, indentWidth }

/-- Read a manifest.  A time is no text and no number. -/
def ofText? (text : String) : Option Manifest :=
  (Toml.ofString? text).bind fun es => ofJson? ((Toml.table es).toJson fun _ => .null)

/-- Does the manifest fit the model that was asked for? -/
def check (m : Manifest) (model : LocalModel) : Except BackendError Unit :=
  if m.name != model.model then
    .error (.invalidManifest s!"manifest name '{m.name}' does not match model '{model.model}'")
  else if m.revision != model.revision then
    .error (.invalidManifest
      (s!"manifest revision '{m.revision}' does not match " ++
        s!"requested revision '{model.revision}'"))
  else if m.indentWidth = 0 ∨ 8 < m.indentWidth then
    .error (.invalidManifest s!"indent_width must be between 1 and 8, got {m.indentWidth}")
  else if m.maxContextTokens = 0 then
    .error (.invalidManifest "max_context_tokens must be positive")
  else .ok ()

/-- The manifest of a model. -/
def load (files : Files) (model : LocalModel) : Except BackendError Manifest :=
  let path := model.manifestPath
  if Revision.isUnpinned model.revision then .error (.unpinnedRevision model.revision)
  else if !LocalModel.isPathPart model.model || !LocalModel.isPathPart model.revision then
    .error (.configuration s!"invalid model reference {model.model}@{model.revision}")
  else
    match files path with
    | .missing => .error (.modelNotFound s!"{model.model}@{model.revision} ({path})")
    | .unreadable reason => .error (.invalidManifest s!"{path}: {reason}")
    | .text content =>
      match ofText? content with
      | none => .error (.invalidManifest s!"{path}: {report content}")
      | some m => (m.check model).map fun _ => m

end Manifest

end Pseudoscribe
