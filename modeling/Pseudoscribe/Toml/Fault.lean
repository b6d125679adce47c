import Pseudoscribe.Number.Total
import Pseudoscribe.Text.Trim
import Pseudoscribe.Toml.Complaint
import Pseudoscribe.Toml.Tree

/-!
# What is wrong with a document

The reader only says that a document does not fit.  Whoever wrote it is told where and why: the lines are
read again, and the one that does not fit is taken apart.

A place is a stretch of a document, given by what follows its beginning and what follows its end.  A message
about it shows the line where it begins, and marks the stretch below.
-/

namespace Pseudoscribe.Toml

/-! ## Places -/

/-- A stretch of a document. -/
structure Place where
  /-- the document from the place on -/
  start : List Char
  /-- the document behind the place -/
  stop : List Char
deriving Repr, Inhabited

namespace Place

/-- The place of the next character. -/
def ofNext (cs : List Char) : Place := ⟨cs, cs.drop 1⟩

def bytes (cs : List Char) : Nat := total (cs.map Char.utf8Size)

/-- How many bytes the stretch takes. -/
def size (p : Place) : Nat := bytes p.start - bytes p.stop

/-- The part of a document before the place. -/
def before (doc : List Char) (p : Place) : List Char := doc.take (doc.length - p.start.length)

/-- The number of lines before the one with the place, and of characters before it on its line.  The end of
a document belongs to the line of its last character. -/
def position (doc : List Char) (p : Place) : Nat × Nat :=
  let before := p.before doc
  let (seen, beyond) := if p.start.isEmpty then (before.dropLast, before.length - before.dropLast.length)
    else (before, 0)
  let onLine := seen.reverse.takeWhile (· != '\n')
  (seen.count '\n', onLine.length + beyond)

/-- A message about the place, with the line that it is on. -/
def report (doc : List Char) (p : Place) (message : String) : String :=
  let (row, column) := p.position doc
  let line := (Text.splitOn '\n' doc).getD row []
  let number := toString (row + 1)
  let margin := "".pushn ' ' (number.length + 1) ++ "|"
  let marks := "".pushn '^' (max 1 (min p.size (bytes line)))
  s!"TOML parse error at line {number}, column {column + 1}\n" ++
    s!"{margin}\n" ++
    s!"{number} | {String.ofList line}\n" ++
    margin ++ "".pushn ' ' (column + 1) ++ s!"{marks}\n" ++
    s!"{message}\n"

end Place

/-! ## Faults -/

/-- A complaint and where it is about. -/
structure Fault where
  complaint : Complaint
  place : Place
  inHeader : Bool := false
deriving Repr

namespace Fault

def report (doc : List Char) (f : Fault) : String :=
  f.place.report doc (f.complaint.message f.inHeader)

/-- A complaint about the next character. -/
def here (c : Complaint) (cs : List Char) : Fault := { complaint := c, place := .ofNext cs }

/-! ## Texts and numbers -/

/-- Why what follows a backslash is no escape. -/
def ofEscape : List Char → Fault
  | 'u' :: cs => here (.badNumber 4) cs
  | 'U' :: cs => here (.badNumber 8) cs
  | cs => here .badEscape (cs.drop 1)

/-- Why a text is not read to its end. -/
def ofTextBody (mark : Char) (manyLines : Bool) (kind : String) : List Char → Fault
  | [] => here (.openText kind) []
  | '\\' :: e :: rest =>
    if mark == '"' && (e != '\n' || !manyLines) && (escape? (e :: rest)).isNone then ofEscape (e :: rest)
    else ofTextBody mark manyLines kind rest
  | c :: rest =>
    if (isPlain c && (c != mark || manyLines)) || (manyLines && (c == '\n' || c == '\r')) then
      ofTextBody mark manyLines kind rest
    else here (.openText kind) (c :: rest)

/-- Why a text is none. -/
def ofText (mark : Char) (rest : List Char) : Fault :=
  let kind := if mark == '"' then "basic string" else "literal string"
  if rest.take 2 == [mark, mark] then ofTextBody mark true ("multiline " ++ kind) (rest.drop 2)
  else ofTextBody mark false kind rest

/-- Why a number is none. -/
def ofNumber (cs : List Char) : Fault :=
  let body := match cs with
    | '-' :: rest | '+' :: rest => rest
    | _ => cs
  match digits? Char.isDigit body with
  | none => here .emptyInteger body
  | some (_, '.' :: rest) =>
    if (digits? Char.isDigit rest).isNone then here .emptyFraction rest else here .unknown rest
  | some (_, rest) => here .tooLarge rest

/-! ## Keys -/

/-- Where a key ends, as far as there is one. -/
def keyEnd? : Nat → List Char → Option (List Char)
  | 0, _ => none
  | fuel + 1, cs =>
    match keyPart? (skipBlanks cs) with
    | none => none
    | some (_, rest) =>
      match skipBlanks rest with
      | '.' :: more => some ((keyEnd? fuel more).getD ('.' :: more))
      | rest => some rest

/-- Why there is no key. -/
def ofKey (cs : List Char) : Fault :=
  match skipBlanks cs with
  | '"' :: rest => ofTextBody '"' false "basic string" rest
  | '\x27' :: rest => ofTextBody '\x27' false "literal string" rest
  | rest => here .noKey rest

/-! ## Values -/

/-- May a value begin like this? -/
def beginsValue : List Char → Bool
  | c :: _ => c.isDigit || ['"', '\x27', '[', '{', '+', '-', 't', 'f', 'i', 'n'].contains c
  | [] => false

mutual

/-- Why a value is none. -/
def ofValue : Nat → List Char → Fault
  | 0, cs => here .unknown cs
  | fuel + 1, cs =>
    match cs with
    | [] => here .unknown []
    | '"' :: rest => ofText '"' rest
    | '\x27' :: rest => ofText '\x27' rest
    | '[' :: rest => ofItems fuel rest
    | '{' :: rest => ofPairs fuel rest
    | '_' :: _ | '.' :: _ => here .noDigit cs
    | c :: _ => if c.isDigit || c == '+' || c == '-' then ofNumber cs else here .noValue cs

/-- Why the items of an array do not come to an end. -/
def ofItems : Nat → List Char → Fault
  | 0, cs => here .unknown cs
  | fuel + 1, cs =>
    let cs := skipGaps cs.length cs
    match value? (3 * cs.length + 3) maxDepth cs with
    | none => if beginsValue cs then ofValue fuel cs else here .openArray cs
    | some (_, rest) =>
      match skipGaps rest.length rest with
      | ',' :: rest => ofItems fuel rest
      | rest => here .openArray rest

/-- Why the keys and values of a table on one line do not come to an end. -/
def ofPairs : Nat → List Char → Fault
  | 0, cs => here .unknown cs
  | fuel + 1, cs =>
    match keyEnd? (cs.length + 1) cs with
    | none => here .openTable (skipBlanks cs)
    | some ('=' :: rest) =>
      let rest := skipBlanks rest
      match value? (3 * rest.length + 3) maxDepth rest with
      | none => ofValue fuel rest
      | some (_, rest) =>
        match skipBlanks rest with
        | ',' :: more =>
          if (keyEnd? (more.length + 1) more).isNone then here .openTable (',' :: more)
          else ofPairs fuel more
        | rest => here .openTable rest
    | some rest => here .noEquals rest

end

end Fault

/-! ## Names that clash -/

/-- The kind of a value that a key leads through. -/
def kind : Toml → String
  | str _ => "string"
  | int _ => "integer"
  | real _ => "float"
  | bool _ => "boolean"
  | time _ => "datetime"
  | arr _ => "array"
  | table _ => "inline table"

namespace Entries

/-- The table under a path, or why there can be none: a value stands in the way, or, where the path goes by points
alone, a table that was named itself.  A table that is not there yet is empty. -/
def descend (byPoints : Bool) (path : List String) :
    List String → Origin × Entries → Except Complaint (Origin × Entries)
  | [], here => .ok here
  | name :: rest, (_, es) =>
    let path := path ++ [name]
    match es.lookup name with
    | none => descend byPoints path rest (if byPoints then .dotted else .implied, [])
    | some (.value v) => .error (.throughValue path v.kind)
    | some (.table .headed sub) =>
      if byPoints then .error (.taken name none) else descend byPoints path rest (.headed, sub)
    | some (.table origin sub) => descend byPoints path rest (origin, sub)
    | some (.tables items) => descend byPoints path rest (.headed, items.getLast?.getD [])

end Entries

namespace Draft

/-- The table that keys belong to. -/
def present (d : Draft) : Entries :=
  match Entries.descend false [] d.at_ (.headed, d.root) with
  | .ok (_, es) => es
  | .error _ => []

/-- Why a key cannot be entered. -/
def keyClash (d : Draft) (path : List String) : Complaint :=
  let name := path.getLast?.getD ""
  match Entries.descend true [] path.dropLast (.headed, d.present) with
  | .error c => c
  | .ok (origin, _) =>
    if 1 < path.length ∧ origin ≠ .dotted then .taken name none else .taken name (some d.at_)

/-- Why a table cannot be named. -/
def headClash (d : Draft) (path : List String) : Complaint :=
  match Entries.descend false [] path.dropLast (.headed, d.root) with
  | .error c => c
  | .ok _ => .taken (Complaint.keyText (path.getLast?.getD "")) (some path.dropLast)

/-- Why a line that names a table does not fit. -/
def headFault (d : Draft) (close : List Char) (enter : String → Entries → Option Entries)
    (all cs : List Char) : Fault :=
  let fault := match Fault.keyEnd? (cs.length + 1) cs, key? (cs.length + 1) cs with
    | none, _ => Fault.ofKey cs
    | some rest, none => Fault.here (.openHeader (String.ofList close)) rest
    | some rest, some (path, _) =>
      if rest.take close.length != close then Fault.here (.openHeader (String.ofList close)) rest
      else
        let after := rest.drop close.length
        if (lineEnd? after).isNone then Fault.here .moreOnLine (skipBlanks after)
        else if (d.goTo enter path).isNone then Fault.here (d.headClash path) all
        else Fault.here .unknown all
  { fault with inHeader := true }

/-- Why a line does not fit. -/
def lineFault (d : Draft) (cs : List Char) : Fault :=
  match skipBlanks cs with
  | '#' :: rest => .here .unknown (rest.dropWhile isPlain)
  | '[' :: '[' :: rest => d.headFault [']', ']'] Entries.another ('[' :: '[' :: rest) rest
  | '[' :: rest => d.headFault [']'] Entries.head ('[' :: rest) rest
  | cs =>
    match Fault.keyEnd? (cs.length + 1) cs with
    | none => .ofKey cs
    | some ('=' :: rest) =>
      let rest := skipBlanks rest
      match value? (3 * cs.length + 3) maxDepth rest with
      | none => .ofValue (cs.length + 1) rest
      | some (_, rest) =>
        if (lineEnd? rest).isNone then .here .moreOnLine (skipBlanks rest)
        else .here (((key? (cs.length + 1) cs).map fun k => d.keyClash k.1).getD .unknown) cs
    | some rest => .here .noEquals rest

/-- The first fault on the lines up to the end. -/
def linesFault? : Nat → Draft → List Char → Option Fault
  | 0, _, _ => none
  | fuel + 1, d, cs =>
    match d.line? cs with
    | none => some (d.lineFault cs)
    | some (_, []) => none
    | some (d, rest) => linesFault? fuel d rest

end Draft

/-- A document without the mark that may stand at its beginning. -/
def unmarked : List Char → List Char
  | '\ufeff' :: rest => rest
  | cs => cs

/-- What is wrong with a document. -/
def fault? (cs : List Char) : Option Fault :=
  Draft.linesFault? (cs.length + 1) {} (unmarked cs)

/-!
## Where values stand

The keys of a document with the places of their values, for messages about values that are not what
somebody expected.
-/

/-- A key of a document, what is under it as far as its first line says, and where that stands. -/
structure Holding where
  name : String
  value : Toml
  place : Place
deriving Repr

/-- The keys of the lines before the first table that is named. -/
def leadingKeys : Nat → List Char → List Holding × List Char
  | 0, cs => ([], cs)
  | fuel + 1, cs =>
    let cs := skipBlanks cs
    match lineEnd? cs with
    | some [] => ([], [])
    | some rest => leadingKeys fuel rest
    | none =>
      match pair? (3 * cs.length + 3) maxDepth cs, Fault.keyEnd? (cs.length + 1) cs with
      | some (path, v, rest), some ('=' :: value) =>
        let holding : Holding := match path with
          | [name] => ⟨name, v, ⟨skipBlanks value, rest⟩⟩
          | _ => ⟨path.headD "", .table [], ⟨cs, ((keyPart? cs).map (·.2)).getD cs⟩⟩
        let (more, tables) := leadingKeys fuel ((lineEnd? rest).getD [])
        (holding :: more, tables)
      | _, _ => ([], cs)

/-- The first parts of the names of tables. -/
def tableKeys : Nat → List Char → List Holding
  | 0, _ => []
  | fuel + 1, cs =>
    let start := skipBlanks cs
    let (inner, value) : Option (List Char) × Toml := match start with
      | '[' :: '[' :: rest => (some rest, .arr [])
      | '[' :: rest => (some rest, .table [])
      | _ => (none, .table [])
    let here : List Holding := match inner.bind fun rest => key? (rest.length + 1) rest with
      | some (name :: _, rest) => [⟨name, value, ⟨start, rest.dropWhile (· == ']')⟩⟩]
      | _ => []
    match cs.dropWhile (· != '\n') with
    | [] => here
    | _ :: rest => here ++ tableKeys fuel rest

/-- The keys of a document, and the stretch of those before the first table that is named. -/
def holdings (doc : List Char) : List Holding × Place :=
  let (leading, rest) := leadingKeys (doc.length + 1) (unmarked doc)
  let stop := (leading.getLast?.map (·.place.stop)).getD doc
  (leading ++ tableKeys (rest.length + 1) rest, ⟨doc, stop⟩)

/-- Where the items of an array stand. -/
def itemPlaces : Nat → List Char → List (Toml × Place)
  | 0, _ => []
  | fuel + 1, cs =>
    let cs := skipGaps cs.length cs
    match value? (3 * cs.length + 3) maxDepth cs with
    | none => []
    | some (v, rest) =>
      (v, ⟨cs, rest⟩) ::
        match skipGaps rest.length rest with
        | ',' :: rest => itemPlaces fuel rest
        | _ => []

end Pseudoscribe.Toml
