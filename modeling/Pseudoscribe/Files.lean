import Pseudoscribe.Text.Trim

/-!
# Files

What the library needs to know of files: what is found under a path.  Nothing here reads a file; whoever
uses the library brings a view of the files along.
-/

namespace Pseudoscribe

/-- What is found under a path. -/
inductive FileContent where
  | text (content : String)
  | missing
  /-- there is something, but it cannot be read -/
  | unreadable (reason : String)
deriving DecidableEq, Repr, Inhabited

/-- A view of the files: what is found under each path. -/
abbrev Files := String → FileContent

namespace Files

/-- A path one step longer. -/
def join (path part : String) : String :=
  if part.startsWith "/" || path.isEmpty then part
  else if path.endsWith "/" then path ++ part
  else path ++ "/" ++ part

/-- The steps of a path, without those that lead nowhere. -/
def steps (path : String) : List String :=
  ((Text.splitOn '/' path.toList).map String.ofList).filter fun p => p != "" && p != "."

/-- The greatest length of one step of a path, in bytes. -/
def maxStepBytes : Nat := 255

/-- The view of some files with their contents, and of directories without, below the present directory. -/
def ofEntries (entries : List (String × Option String)) : Files := fun path =>
  let here := steps path
  if path.startsWith "/" then .missing
  else
    match entries.reverse.find? fun e => steps e.1 == here with
    | some (_, some content) => .text content
    | some (_, none) => .unreadable "Is a directory (os error 21)"
    | none =>
      if entries.any fun e => here.isPrefixOf (steps e.1) then
        .unreadable "Is a directory (os error 21)"
      else if here.any (maxStepBytes < ·.utf8ByteSize) then
        .unreadable "File name too long (os error 36)"
      else if entries.any fun e => e.2.isSome && (steps e.1).isPrefixOf here then
        .unreadable "Not a directory (os error 20)"
      else .missing

end Files

end Pseudoscribe
