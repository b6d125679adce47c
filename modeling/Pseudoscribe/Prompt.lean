import Pseudoscribe.Chunk.Basic
import Pseudoscribe.ImportLine
import Pseudoscribe.Text.Lines

/-!
# Prompts

A language model is asked for the code of a chunk with a prompt, and the code is taken out of what it
says: the first fenced block, or else everything behind an echo of the prompt.
-/

namespace Pseudoscribe.Prompt

/-- The lines of a prompt that tell of the text before the chunk. -/
def contextLines : Option String → List String
  | none => []
  | some context =>
    "# Context (already translated, do not repeat):" ::
      (Text.lines context.toList).map fun l => "#   " ++ String.ofList l

/-- What the model has to know about the place of the chunk. -/
def noteLines (chunk : Chunk) : List String :=
  (if 0 < chunk.depth then
      [s!"# Note: this fragment starts {chunk.depth} block level(s) deep"]
    else []) ++
  (if chunk.continues then
      ["# Note: the last block continues in the next fragment, leave it open"]
    else [])

def taskLine (language : Language) : String :=
  s!"# Task: Convert the following instruction to {language.displayName} code"

def codeLine (language : Language) : String :=
  s!"# {language.displayName} Code:"

/-- Lines, each ended by a newline. -/
def block (lines : List String) : String := String.join (lines.map (· ++ "\n"))

/-- The prompt for a chunk. -/
def ofChunk (chunk : Chunk) (language : Language) : String :=
  block (taskLine language :: contextLines chunk.context ++ noteLines chunk ++ ["# Instruction:"]) ++
    chunk.text ++ (if chunk.text.toList.getLast? == some '\n' then "" else "\n") ++
    block [codeLine language]

/-- The mark that fences a block of code. -/
def fence : List Char := List.replicate 3 '\x60'

/-- The inside of the first fenced block; the rest of the line of the opening fence names a language
and is passed over. -/
def fenced? (response : List Char) : Option (List Char) := do
  let (_, behind) ← Text.cutAt fence response
  let (_, body) ← Text.cutAt ['\n'] behind
  let (code, _) ← Text.cutAt fence body
  pure code

/-- Is the line one that a model repeats from the prompt? -/
def isEcho (line : List Char) : Bool :=
  let t := Text.trimStart line
  ImportLine.beginsWith "# Task:" t || (t.head? == some '#' && Text.endsWith " Code:".toList t)

/-- The text behind the lines that repeat the prompt. -/
def withoutEcho (response : List Char) : List Char :=
  let code := Text.unlines ((Text.lines response).dropWhile isEcho)
  if response.getLast? == some '\n' && !code.isEmpty then code ++ ['\n'] else code

/-- The code in what a model said. -/
def extract (response : List Char) : List Char :=
  (fenced? response).getD (withoutEcho response)

end Pseudoscribe.Prompt
