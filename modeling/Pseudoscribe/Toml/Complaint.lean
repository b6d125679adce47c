import Pseudoscribe.Text.Quoted
import Pseudoscribe.Toml.Reader

/-!
# Complaints about a document

What may be wrong at a place of a document, and the words for it: what was being read, what would have fitted
there, and what else there is to say.
-/

namespace Pseudoscribe.Toml

/-- What is wrong at a place. -/
inductive Complaint where
  /-- something that has no name -/
  | unknown
  | noKey
  /-- a key is followed by neither a point nor an equals sign -/
  | noEquals
  | noValue
  /-- a number begins with something else than a digit -/
  | noDigit
  /-- there is no digit behind a sign -/
  | emptyInteger
  /-- there is no digit behind the point -/
  | emptyFraction
  | tooLarge
  /-- a text of this kind is not closed -/
  | openText (kind : String)
  | badEscape
  /-- a character is not named by so many digits -/
  | badNumber (width : Nat)
  | openArray
  | openTable
  /-- there is more on a line -/
  | moreOnLine
  /-- the name of a table is not closed by these brackets -/
  | openHeader (close : String)
  /-- a key or a table is there already -/
  | taken (name : String) (table : Option (List String))
  /-- a key leads through something that is no table -/
  | throughValue (path : List String) (kind : String)
deriving DecidableEq, Repr

namespace Complaint

/-- What was being read. -/
def subject? : Complaint → Option String
  | noKey => some "key"
  | noValue => some "string"
  | noDigit | emptyFraction => some "floating-point number"
  | emptyInteger => some "integer"
  | openText kind => some kind
  | badEscape => some "escape sequence"
  | badNumber width => some s!"unicode {width}-digit hex code"
  | openArray => some "array"
  | openTable => some "inline table"
  | _ => none

/-- What would have fitted. -/
def expected : Complaint → List String
  | noEquals => ["\x60.\x60", "\x60=\x60"]
  | noValue => ["\x60\"\x60", "\x60\x27\x60"]
  | noDigit => ["leading digit"]
  | emptyFraction => ["digit"]
  | badEscape => ["b", "f", "n", "r", "t", "u", "U", "\\", "\""].map fun e => s!"\x60{e}\x60"
  | openArray => ["\x60]\x60"]
  | openTable => ["\x60\x7d\x60"]
  | moreOnLine => ["newline", "\x60#\x60"]
  | openHeader close => ["\x60.\x60", s!"\x60{close}\x60"]
  | _ => []

/-- A part of a key as it is written. -/
def keyText (part : String) : String :=
  if part != "" && part.toList.all isKeyChar then part else Text.shown part

def pathText (path : List String) : String := ".".intercalate (path.map keyText)

/-- What else there is to say. -/
def detail? : Complaint → Option String
  | tooLarge => some "number too large to fit in target type"
  | taken name none => some s!"duplicate key \x60{name}\x60"
  | taken name (some []) => some s!"duplicate key \x60{name}\x60 in document root"
  | taken name (some names) => some s!"duplicate key \x60{name}\x60 in table \x60{pathText names}\x60"
  | throughValue path kind =>
    some s!"dotted key \x60{pathText path}\x60 attempted to extend non-table type ({kind})"
  | _ => none

/-- The words for a complaint; one about the name of a table says so, unless something smaller was being
read. -/
def message (c : Complaint) (inHeader : Bool) : String :=
  let subject := c.subject?.or (if inHeader then some "table header" else none)
  let expected := match c.expected with
    | [] => []
    | words => ["expected " ++ ", ".intercalate words]
  "\n".intercalate ((subject.map ("invalid " ++ ·)).toList ++ expected ++ c.detail?.toList)

end Complaint

end Pseudoscribe.Toml
