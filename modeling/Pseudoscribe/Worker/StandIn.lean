import Pseudoscribe.Text.Trim
import Pseudoscribe.Worker.Fault

/-!
# Stand-ins for workers

A stand-in is a program that plays the part of a worker.  It is a short list of commands, as one would type them:
`echo` says a line, `read` takes one, `sleep` lets time pass, `exit` and `kill` end the program, and
`while read … do … done` does the same for every line.
-/

namespace Pseudoscribe

/-- One command of a stand-in. -/
inductive Act where
  | say (line : String)
  /-- wait for a line -/
  | hear
  /-- say the lines that come as they are -/
  | echo
  | pause (ms : Nat)
  /-- go on with the command of this number -/
  | back (number : Nat)
  | finish (how : ProcessEnd)
deriving DecidableEq, Repr

/-- A program that plays the part of a worker. -/
structure StandIn where
  acts : List Act
  /-- the number of the next command -/
  next : Nat := 0
  /-- lines that were sent and not taken -/
  unread : List String := []
  /-- how long it has run, in milliseconds -/
  clock : Nat := 0
deriving Repr

/-- What is heard of a program. -/
inductive Heard where
  | line (text : String)
  | finished (how : ProcessEnd)
  /-- nothing, for as long as one waits -/
  | silence
deriving DecidableEq, Repr

namespace StandIn

/-- More commands than are carried out before the next line is said. -/
def bound (s : StandIn) : Nat := (s.unread.length + 1) * (s.acts.length + 1) + 1

def listenFor (s : StandIn) (limit : Option Nat) : Nat → Heard × StandIn
  | 0 => (.silence, s)
  | fuel + 1 =>
    let forward := { s with next := s.next + 1 }
    match s.acts[s.next]?, s.unread with
    | none, _ => (.finished (.code 0), s)
    | some (.finish how), _ => (.finished how, s)
    | some (.say line), _ => (.line line, forward)
    | some .hear, [] => (.silence, s)
    | some .hear, _ :: unread => { forward with unread }.listenFor limit fuel
    | some .echo, [] => (.silence, s)
    | some .echo, line :: unread => (.line line, { s with unread })
    | some (.back number), _ => { s with next := number }.listenFor limit fuel
    | some (.pause ms), _ =>
      let clock := s.clock + ms
      if limit.any (· < clock) then (.silence, s)
      else { forward with clock }.listenFor limit fuel

/-- Listen for the next line, up to a time. -/
def listen (s : StandIn) (limit : Option Nat) : Heard × StandIn := s.listenFor limit s.bound

def endFor (s : StandIn) (limit : Option Nat) : Nat → Option ProcessEnd
  | 0 => none
  | fuel + 1 =>
    match s.listen limit with
    | (.finished how, _) => some how
    | (.line _, s) => s.endFor limit fuel
    | (.silence, _) => none

/-- How the program ends by itself up to a time, whatever it says. -/
def end? (s : StandIn) (limit : Option Nat) : Option ProcessEnd := s.endFor limit s.bound

/-! ## Commands in words -/

/-- A part of a written command. -/
inductive Piece where
  | char (c : Char)
  | blank
  /-- the end of a command -/
  | stop
deriving DecidableEq, Repr

/-- Where the reader of commands is. -/
inductive Quoting where
  | none
  | single
  | double
deriving DecidableEq, Repr

/-- The pieces of a text: quoted characters stand for themselves. -/
def pieces : Quoting → List Char → List Piece
  | _, [] => []
  | .none, '\x27' :: cs => pieces .single cs
  | .none, '"' :: cs => pieces .double cs
  | .none, '\\' :: c :: cs => .char c :: pieces .none cs
  | .none, '&' :: '&' :: cs => .stop :: pieces .none cs
  | .none, c :: cs =>
    (if c == ' ' || c == '\t' then .blank else if c == ';' || c == '\n' then .stop else .char c) ::
      pieces .none cs
  | .single, '\x27' :: cs => pieces .none cs
  | .single, c :: cs => .char c :: pieces .single cs
  | .double, '"' :: cs => pieces .none cs
  | .double, '\\' :: c :: cs =>
    if ['"', '\\', '$', '\x60'].contains c then .char c :: pieces .double cs
    else .char '\\' :: .char c :: pieces .double cs
  | .double, c :: cs => .char c :: pieces .double cs

/-- The words of a command. -/
def wordsOf (ps : List Piece) : List String :=
  ((ps.splitOnP (· == .blank)).map fun w =>
    String.ofList (w.filterMap fun
      | .char c => some c
      | _ => none)).filter (· != "")

/-- The commands of a text, each as its words. -/
def commands (text : String) : List (List String) :=
  ((pieces .none text.toList).splitOnP (· == .stop)).map wordsOf |>.filter (· != [])

/-- A number of seconds, which may have a fraction, in milliseconds. -/
def millis (text : String) : Nat :=
  let cs := text.toList
  let whole := cs.takeWhile Char.isDigit
  let fraction := ((cs.dropWhile Char.isDigit).drop 1).take 3
  ((String.ofList (whole ++ fraction ++ List.replicate (3 - fraction.length) '0')).toNat?).getD 0

/-- What a command does, and whether it succeeds: 0 if it does. -/
def actsOf : List String → List Act × Nat
  | "echo" :: words =>
    if words.contains ">&2" then ([], 0) else ([.say (" ".intercalate words)], 0)
  | "sleep" :: time :: _ => ([.pause (millis time)], 0)
  | "read" :: _ => ([.hear], 0)
  | "cat" :: _ => ([.echo], 0)
  | ["exit", number] => ([.finish (.code (number.toNat?.getD 2 % 256))], 0)
  | ["kill", number, _] =>
    ([.finish (.signal (((number.drop 1).toNat?).getD 15))], 0)
  | ["kill", _] => ([.finish (.signal 15)], 0)
  | "exec" :: rest => actsOf rest
  | "true" :: _ | ":" :: _ => ([], 0)
  | "false" :: _ => ([], 1)
  | _ => ([], 127)

/-- Commands that were read: what they do, the beginnings of the loops that are not closed, and whether the
last one succeeds. -/
structure Program where
  acts : List Act := []
  loops : List Nat := []
  status : Nat := 0

/-- Read one more command. -/
def Program.add (p : Program) : List String → Program
  | "while" :: rest =>
    { p with loops := p.acts.length :: p.loops, acts := p.acts ++ (actsOf rest).1 }
  | "done" :: _ =>
    match p.loops with
    | start :: loops => { p with acts := p.acts ++ [.back start], loops }
    | [] => p
  | "do" :: rest => { p with acts := p.acts ++ (actsOf rest).1 }
  | command =>
    let (acts, status) := actsOf command
    { p with acts := p.acts ++ acts, status }

/-- The stand-in of some commands. -/
def ofText (text : String) : StandIn :=
  let p := (commands text).foldl Program.add {}
  { acts := p.acts ++ [.finish (.code p.status)] }

end StandIn

end Pseudoscribe
