import Pseudoscribe.Language

/-!
# Import statements

An import that stands on one line at the top level of generated code may be moved to the head of the
program.  Imports that take several lines, or share a line with another statement, stay where they are.
-/

namespace Pseudoscribe.ImportLine

def beginsWith (mark : String) (line : List Char) : Bool := mark.toList.isPrefixOf line

def contains (mark : String) (line : List Char) : Bool := (Text.cutAt mark.toList line).isSome

/-- Does the line end with one of these characters? -/
def endsIn (ends : List Char) (line : List Char) : Bool := line.getLast?.any ends.contains

/-- An import statement of Python on one line. -/
def isPythonImport (line : List Char) : Bool :=
  (beginsWith "import " line || (beginsWith "from " line && contains " import " line)) &&
    !endsIn ['(', '\\'] line && !line.contains ';'

/-- An import statement of JavaScript or TypeScript on one line. -/
def isScriptImport (line : List Char) : Bool :=
  (beginsWith "import " line || beginsWith "import\x7b" line) &&
    (!line.contains '{' || line.contains '}') && endsIn [';', '\x27', '"'] line

/-- An import at the top level that may be moved. -/
def isTopLevel (language : Language) (line : List Char) : Bool :=
  if line.head?.any Text.isSpace then false
  else match language.name with
    | "python" => isPythonImport (Text.trimEnd line)
    | "javascript" | "typescript" => isScriptImport (Text.trimEnd line)
    | _ => false

/-- An import that has to come before all others. -/
def isLeading (language : Language) (line : List Char) : Bool :=
  language.name == "python" && beginsWith "from __future__ " line

end Pseudoscribe.ImportLine
