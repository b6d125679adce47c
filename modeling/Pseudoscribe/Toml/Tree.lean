import Pseudoscribe.Json.Basic

/-!
# Tables in the making

A document names its tables in any order, but each only once.  While it is read, the tree remembers how each
table came about, because that decides whether it may still be named or added to.
-/

/-!
## TOML values

The values of a TOML document.  Where a text is expected from several kinds of files at once, values are
taken as JSON (`Toml.toJson`), which has everything but times.
-/

namespace Pseudoscribe

/-- A value of a TOML document. -/
inductive Toml where
  | str (value : String)
  | int (value : Int)
  | real (value : Double)
  | bool (value : Bool)
  /-- a date, a time or both, in its usual form -/
  | time (text : String)
  | arr (items : List Toml)
  | table (entries : List (String × Toml))
deriving Repr, Inhabited

namespace Toml

mutual

/-- The value as JSON; `ofTime` says what becomes of a time. -/
def toJson (ofTime : String → Json) : Toml → Json
  | str s => .str s
  | int i => .int i
  | real x => .real x
  | bool b => .bool b
  | time t => ofTime t
  | arr items => .arr (itemsToJson ofTime items)
  | table entries => .obj (entriesToJson ofTime entries)

def itemsToJson (ofTime : String → Json) : List Toml → List Json
  | [] => []
  | t :: ts => toJson ofTime t :: itemsToJson ofTime ts

def entriesToJson (ofTime : String → Json) : List (String × Toml) → List (String × Json)
  | [] => []
  | (name, t) :: rest => (name, toJson ofTime t) :: entriesToJson ofTime rest

end

end Toml

end Pseudoscribe

namespace Pseudoscribe.Toml

/-! ## Trees -/

/-- How a table came about. -/
inductive Origin where
  /-- a table below it was named -/
  | implied
  /-- by a key with points in it -/
  | dotted
  /-- it was named itself -/
  | headed
deriving DecidableEq, Repr

/-- A tree of tables. -/
inductive Node where
  | value (v : Toml)
  | table (origin : Origin) (entries : List (String × Node))
  /-- several tables of one name -/
  | tables (items : List (List (String × Node)))
deriving Repr, Inhabited

/-- What a table holds. -/
abbrev Entries := List (String × Node)

namespace Node

mutual

def toToml : Node → Toml
  | value v => v
  | table _ entries => .table (entriesToToml entries)
  | tables items => .arr (itemsToToml items)

def entriesToToml : List (String × Node) → List (String × Toml)
  | [] => []
  | (name, node) :: rest => (name, toToml node) :: entriesToToml rest

def itemsToToml : List (List (String × Node)) → List Toml
  | [] => []
  | entries :: rest => .table (entriesToToml entries) :: itemsToToml rest

end

end Node

namespace Entries

/-- Put a node in the place of the one with the same name. -/
def replace (name : String) (node : Node) (es : Entries) : Entries :=
  es.map fun e => if e.1 == name then (name, node) else e

/-- Change the table at a path.  Tables on the way that are missing come about by being implied; of
several tables of one name the last is meant. -/
def within (change : Entries → Option Entries) : List String → Entries → Option Entries
  | [], es => change es
  | name :: path, es =>
    match es.lookup name with
    | none => (within change path []).map fun sub => es ++ [(name, .table .implied sub)]
    | some (.value _) => none
    | some (.table origin sub) =>
      (within change path sub).map fun sub => replace name (.table origin sub) es
    | some (.tables items) =>
      (within change path (items.getLast?.getD [])).map fun sub =>
        replace name (.tables (items.dropLast ++ [sub])) es

/-- Enter a value under a key, which may have points in it.  A value goes into the table that the document
is at, or into one that came about by points alone (`fits`). -/
def assign (value : Toml) (fits : Bool) : List String → Entries → Option Entries
  | [], _ => none
  | [name], es =>
    if fits && (es.lookup name).isNone then some (es ++ [(name, .value value)]) else none
  | name :: path, es =>
    match es.lookup name with
    | none => (assign value true path []).map fun sub => es ++ [(name, .table .dotted sub)]
    | some (.value _) | some (.table .headed _) => none
    | some (.table origin sub) =>
      (assign value (origin == .dotted) path sub).map fun sub =>
        replace name (.table origin sub) es
    | some (.tables items) =>
      (assign value false path (items.getLast?.getD [])).map fun sub =>
        replace name (.tables (items.dropLast ++ [sub])) es

/-- Name a table, which must not have been named before. -/
def head (name : String) (es : Entries) : Option Entries :=
  match es.lookup name with
  | none => some (es ++ [(name, .table .headed [])])
  | some (.table .implied sub) => some (replace name (.table .headed sub) es)
  | some _ => none

/-- Begin another one of several tables of a name. -/
def another (name : String) (es : Entries) : Option Entries :=
  match es.lookup name with
  | none => some (es ++ [(name, .tables [[]])])
  | some (.tables items) => some (replace name (.tables (items ++ [[]])) es)
  | some _ => none

end Entries

end Pseudoscribe.Toml
