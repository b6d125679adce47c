import Pseudoscribe.Answer
import Pseudoscribe.Backend.Spec
import Pseudoscribe.Chunk.Basic
import Pseudoscribe.Json.Members
import Pseudoscribe.Text.Lines

/-!
# Scripted backends

A scripted backend stands in for a model where one is wanted whose behaviour is known beforehand.  It turns every
line into a comment, and for chunks that are named it is told to fail, to take its time, never to answer
or to break its worker down.
-/

namespace Pseudoscribe

/-- What a worker has to do for an answer. -/
structure Work where
  /-- how long it takes, in milliseconds; nothing if it never ends -/
  lasts : Option Nat
  /-- the answer, or the words with which the worker breaks down -/
  result : Except String Answer

/-- An answer that is there at once. -/
def Work.done (a : Answer) : Work := ⟨some 0, .ok a⟩

/-- How a scripted backend behaves; chunks are named by their index. -/
structure Script where
  confidence : Double := Double.ofRatio false 9 10
  delayMs : Nat := 0
  /-- a line that is put before every answer -/
  preamble : Option String := none
  /-- how many calls for a chunk fail before the first that does not -/
  failFirst : List (Nat × Nat) := []
  alwaysFail : List Nat := []
  /-- chunks that are never answered -/
  hang : List Nat := []
  /-- chunks at which the worker breaks down -/
  breakDown : List Nat := []
deriving Repr

namespace Script

/-- Read how a scripted backend behaves; whatever is not said is as in `d`. -/
def ofJson (d : Script) (j : Json) : Script :=
  { confidence := (j.get "confidence").asDouble?.getD d.confidence
    delayMs := j.natAt "delay_ms"
    preamble := (j.get "preamble").asText?
    failFirst := j.pairsAt "fail_first"
    alwaysFail := j.natsAt "always_fail"
    hang := j.natsAt "hang"
    breakDown := j.natsAt "panic" }

/-- Every line that is not blank as a comment of the language. -/
def comments (language : Language) (source : List Char) : List Char :=
  (Text.lines source).flatMap fun line =>
    if Text.isBlank line then []
    else language.commentMark.toList ++ ' ' :: Text.trim line ++ ['\n']

/-- The code for a chunk. -/
def code (s : Script) (chunk : Chunk) (language : Language) : String :=
  let head := s.preamble.elim "" fun line => line ++ "\n"
  head ++ String.ofList (comments language chunk.text.toList)

/-- Of several entries for a chunk the last one counts. -/
def failures (s : Script) (chunk : Nat) : Nat := (s.failFirst.reverse.lookup chunk).getD 0

def capabilities : Capabilities := ⟨false, Nat.pow 2 64 - 1, []⟩

def provenance : Provenance := { model := "fake", revision := "v1", backend := .embedded }

/-- What comes of a call; the calls for a chunk are counted from 1. -/
def work (s : Script) (call : Nat) (chunk : Chunk) (language : Language) : Work :=
  let index := chunk.index
  { lasts := if s.hang.contains index then none else some s.delayMs
    result :=
      if s.breakDown.contains index then .error s!"fake backend crashed on chunk {index}"
      else if s.alwaysFail.contains index || call ≤ s.failures index then
        .ok (.ofError s!"injected failure on chunk {index} (call {call})" provenance)
      else .ok (.ofCode (s.code chunk language) s.confidence provenance) }

end Script

end Pseudoscribe
