import Pseudoscribe.Config.Layers
import Pseudoscribe.Http.Message
import Pseudoscribe.Service.Start
import Pseudoscribe.Worker.Loop

/-!
# The programs

`serve` starts the service from the present directory and the environment, and answers the messages
that come over its input.  `work` is a worker: it takes a line of JSON after the other and answers each with a
line.  Both reach files only here, and hand the library a view of those that it may look at.
-/

namespace Pseudoscribe.Main

/-! ## What the programs look at -/

/-- What is found under a path. -/
def look (path : String) : IO (String × FileContent) := do
  try
    return (path, .text (← IO.FS.readFile path))
  catch e =>
    match e with
    | .noFileOrDirectory .. => return (path, .missing)
    | e => return (path, .unreadable (toString e))

/-- The view of some files. -/
def view (paths : List String) : IO Files := do
  let found ← paths.mapM look
  return fun path => (found.lookup path).getD .missing

/-- The environment, as far as it counts. -/
def environment : IO (List (String × String)) :=
  Config.environmentNames.filterMapM fun name => do
    return (← IO.getEnv name).map (name, ·)

/-- The number of this process. -/
def processNumber : IO Nat := do
  let (_, content) ← look "/proc/self/stat"
  match content with
  | .text s => return (String.ofList (s.toList.takeWhile Char.isDigit)).toNat?.getD 0
  | _ => return 0

/-- The files that a backend may look at. -/
def manifestOf : BackendSpec → List String
  | .embedded m => [m.manifestPath]
  | .remote _ => []

/-- Say what went wrong. -/
def complain (words : String) : IO UInt32 := do
  IO.eprintln s!"Error: {words}"
  return 1

def say (output : IO.FS.Stream) (reply : WorkerReply) : IO Unit := do
  output.putStr (encodeLine reply.toJson)
  output.flush

/-! ## A worker -/

/-- Go through the lines of a stream. -/
partial def work (input output : IO.FS.Stream) (w : Worker) : IO UInt32 := do
  let line ← input.getLine
  if line.isEmpty then return 0
  let paths := match (decodeLine? line).bind WorkerRequest.ofJson? with
    | some (.convert order) => manifestOf order.spec
    | _ => []
  let w := { w with backends := { w.backends with files := ← view paths } }
  match w.step line with
  | (.skip, w) => work input output w
  | (.reply reply, w) => do
    say output reply
    work input output w
  | (.stop (.brokeDown words), _) => complain s!"worker failed: {words}"
  | (.stop _, _) => return 0

/-! ## The service -/

/-- The lines up to an empty one. -/
partial def headLines (input : IO.FS.Stream) (done : List String) : IO (List String) := do
  let line ← input.getLine
  if Text.isBlank line.toList then return done.reverse
  headLines input (line :: done)

/-- A number of bytes, or fewer if there are no more. -/
partial def bytes (input : IO.FS.Stream) (count : Nat) (done : ByteArray) : IO ByteArray := do
  if count ≤ done.size then return done
  let more ← input.read (count - done.size).toUSize
  if more.isEmpty then return done
  bytes input count (done ++ more)

/-- The files that may be looked at for a message. -/
def manifestsFor (s : Service) (r : Http.Request) : List String :=
  let options := ((Json.ofString? r.body).map (·.get "options")).getD .null
  let revision := options.textAt "model_revision" s.options.revision
  match s.engine.profiles.resolve .embedded revision with
  | .ok spec => manifestOf spec
  | .error _ => []

/-- Let the clock of the service catch up with the clock that began at a time, and show it the files. -/
def caughtUp (s : Service) (since : Nat) (files : Files) : IO Service := do
  let s := s.sleep ((← IO.monoMsNow) - since - s.engine.now)
  let crew := s.engine.crew
  return { s with engine := { s.engine with
    crew := { crew with backends := { crew.backends with files } } } }

/-- Answer the messages of a stream, one after another. -/
partial def answerAll (input output : IO.FS.Stream) (since : Nat) (s : Service) : IO UInt32 := do
  match Http.Head.ofLines? (← headLines input []) with
  | none => return 0
  | some head =>
    let body := (String.fromUTF8? (← bytes input head.length .empty)).getD ""
    let r := head.withBody body
    let s ← caughtUp s since (← view (manifestsFor s r))
    let (answer, s) := s.serve (.ofRandom (← IO.rand 0 (Nat.pow 2 128 - 1))) r
    output.putStr (answer.getD (.bare 500)).wire
    output.flush
    answerAll input output since s

/-- Start the service. -/
def serve (input output : IO.FS.Stream) : IO UInt32 := do
  match Config.load (← view Config.fileNames) (← environment) none with
  | .error e => complain (StartFault.config e).message
  | .ok c =>
    let files ← view ((c.profiles.embedded.map (·.manifestPath)).toList)
    match Service.ofConfig files c with
    | .error e => complain e.message
    | .ok s => answerAll input output (← IO.monoMsNow) s

end Pseudoscribe.Main

open Pseudoscribe in
/-- With the word `work` a worker, otherwise the service. -/
def main (args : List String) : IO UInt32 := do
  let input ← IO.getStdin
  let output ← IO.getStdout
  if args == ["work"] then
    let pid ← Main.processNumber
    Main.say output (.ready pid)
    Main.work input output { pid, backends := { registry := .builtIn, files := fun _ => .missing } }
  else Main.serve input output
