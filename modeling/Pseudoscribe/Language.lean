import Pseudoscribe.Text.Trim

/-!
# Target languages

A target language is known by its name in small letters; a few short names stand for longer ones.  Any
name is accepted, because a model may know languages that are not named here; what is known
here is how a language writes comments and whether indentation marks its blocks.
-/

namespace Pseudoscribe

/-- A language that code is generated in. -/
structure Language where
  name : String
deriving DecidableEq, Repr

namespace Language

/-- Why a text names no language. -/
inductive Refusal where
  | empty
  | tooLong
deriving DecidableEq, Repr

def Refusal.message : Refusal → String
  | empty => "目标语言不能为空"
  | tooLong => "目标语言名称不能超过32字符"

/-- The greatest length of a name, in bytes. -/
def maxNameBytes : Nat := 32

/-- The name that a short name stands for; any other name stands for itself. -/
def canonicalName : String → String
  | "py" | "python3" => "python"
  | "js" | "node" => "javascript"
  | "ts" => "typescript"
  | "c++" => "cpp"
  | name => name

/-- The language of a name, blanks around it and capitals disregarded. -/
def ofName (name : String) : Except Refusal Language :=
  let normalized := Text.lower (Text.trim name.toList)
  if normalized.isEmpty then .error .empty
  else if maxNameBytes < normalized.utf8ByteSize then .error .tooLong
  else .ok ⟨canonicalName normalized⟩

def python : Language := ⟨"python"⟩

def javascript : Language := ⟨"javascript"⟩

/-- Does indentation mark the blocks of the language? -/
def isIndented (l : Language) : Bool :=
  l.name ∈ ["python", "nim", "yaml"]

/-- The mark that begins a line comment. -/
def commentMark (l : Language) : String :=
  if l.name ∈ ["python", "ruby", "shell", "bash", "nim", "r"] then "#"
  else if l.name ∈ ["sql", "lua", "haskell"] then "--"
  else "//"

/-- The name as it is written in running text. -/
def displayName (l : Language) : String :=
  match l.name with
  | "javascript" => "JavaScript"
  | "typescript" => "TypeScript"
  | "cpp" => "C++"
  | name =>
    match name.toList with
    | [] => ""
    | c :: cs => String.ofList (Text.capital c ++ cs)

end Language

end Pseudoscribe
