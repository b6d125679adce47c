import Pseudoscribe.Block.Basic
import Pseudoscribe.Text.Trim

/-!
# The structural role of a line

Each line of masked code opens a block, closes one, carries one on (`else`), or is plain.  The role
is read off the first word of the line, modifiers such as `public` passed over, and off its last character.
-/

namespace Pseudoscribe

/-- The structural role of a line. -/
inductive LineShape where
  | plain
  | opens (kind : BlockKind) (style : BlockStyle)
  /-- ends a block: of the given kind, or whichever fits when the closer names none -/
  | closes (kind : Option BlockKind) (style : BlockStyle)
  /-- goes on with the same block: `ELSE`, `ELIF`, `CATCH`, … -/
  | continues (style : BlockStyle)
deriving DecidableEq, Repr

namespace LineShape

def isContinuation : LineShape → Bool
  | continues _ => true
  | _ => false

/-- Words, each with one blank behind it, that may stand before a keyword. -/
def modifiers : List String :=
  ["async ", "export ", "pub ", "public ", "private ", "static "]

/-- Drop one modifier and the blanks behind it, if the text begins with it. -/
def dropModifier (cs : List Char) (modifier : String) : List Char :=
  let n := modifier.length
  if Text.isWord modifier (cs.take n) then Text.trimStart (cs.drop n) else cs

/-- The text behind its modifiers.  They are looked for once each, in the order of `modifiers`. -/
def dropModifiers (cs : List Char) : List Char :=
  modifiers.foldl dropModifier (Text.trimStart cs)

/-- The first word of a line, modifiers passed over. -/
def leadingWord (cs : List Char) : List Char :=
  (dropModifiers cs).takeWhile Text.isWordChar

/-- Words that carry a block on. -/
def continuationWords : List String :=
  ["ELSE", "ELSEIF", "ELIF", "CATCH", "EXCEPT", "FINALLY", "OTHERWISE"]

/-- The style that the end of a line asks for: a brace, a colon, or neither. -/
def endStyle (trimmed : List Char) : BlockStyle :=
  match trimmed.getLast? with
  | some '{' => .brace
  | some ':' => .indent
  | _ => .keyword

/-- A word such as `ENDIF` or `END_IF`, taken apart. -/
def closerKind? (word : String) : Option BlockKind :=
  match Text.dropBeginning? ['E', 'N', 'D', '_'] word.toList with
  | some rest => BlockKind.ofKeyword? (String.ofList rest)
  | none =>
    match Text.dropBeginning? ['E', 'N', 'D'] word.toList with
    | some rest => BlockKind.ofKeyword? (String.ofList rest)
    | none => none

/-- The role of a line whose first word, in capitals, closes a block. -/
def closer? (word : String) (trimmed : List Char) : Option LineShape :=
  if word = "END" then
    some (.closes (BlockKind.ofKeyword? (String.ofList (leadingWord (trimmed.drop 3)))) .keyword)
  else if word ∈ ["UNTIL", "NEXT", "LOOP_END"] then some (.closes (some .loop) .keyword)
  else (closerKind? word).map fun kind => .closes (some kind) .keyword

/-- Has the text something behind its last ` THEN`? -/
def hasStatementAfterThen (trimmed : List Char) : Bool :=
  match Text.cutAt " THEN".toList.reverse (trimmed.map Char.toUpper).reverse with
  | some (after, _) => !Text.isBlank after
  | none => false

/-- A line that begins with an opening keyword and still opens nothing: a statement that ends with
a semicolon, a condition with its statement on the same line, `DO` with something behind it, and `WITH`
without a colon or a brace. -/
def isOneLiner (word : String) (trimmed : List Char) : Bool :=
  trimmed.getLast? == some ';' ||
    (word == "IF" && hasStatementAfterThen trimmed) ||
    (word == "DO" && !Text.isBlank (trimmed.drop 2)) ||
    word == "WITH"

/-- The role of a line that neither closes a block nor carries one on. -/
def opener (word : String) (trimmed : List Char) : LineShape :=
  let kind := BlockKind.ofKeyword? word
  match endStyle trimmed with
  | .keyword =>
    match kind with
    | some k => if isOneLiner word trimmed then .plain else .opens k .keyword
    | none => .plain
  | style => .opens (kind.getD .generic) style

/-- The structural role of a line of masked code. -/
def ofLine (masked : List Char) : LineShape :=
  match Text.trim masked with
  | [] => .plain
  | '}' :: after =>
    if (Text.trim after).getLast? == some '{' then .continues .brace else .closes none .brace
  | c :: cs =>
    let trimmed := c :: cs
    let word := Text.upper (leadingWord trimmed)
    match closer? word trimmed with
    | some shape => shape
    | none =>
      if word ∈ continuationWords then .continues (endStyle trimmed) else opener word trimmed

end LineShape

end Pseudoscribe
