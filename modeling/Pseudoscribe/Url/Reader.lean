import Pseudoscribe.Text.Lines
import Pseudoscribe.Url.Basic

/-!
# Reading addresses in the network

What comes behind a question mark or a number sign does not belong to the place and is left out.
-/

namespace Pseudoscribe.Url

/-! ## Characters written by number -/

/-- The bytes of a character, each written as a number behind a percent sign. -/
def percent (c : Char) : List Char :=
  (String.singleton c).toUTF8.toList.flatMap fun byte =>
    let ds := (Nat.toDigits 16 byte.toNat).map Char.toUpper
    '%' :: (List.replicate (2 - ds.length) '0' ++ ds)

/-- Characters of a path that are written by number. -/
def hiddenInPath (c : Char) : Bool :=
  c.toNat ≤ 0x20 || 0x7f ≤ c.toNat || "\"#<>?\x60\x7b\x7d".toList.contains c

/-- Characters of a name or a password that are written by number. -/
def hiddenInCredentials (c : Char) : Bool :=
  hiddenInPath c || "/:;=@[\\]^|".toList.contains c

def hide (hidden : Char → Bool) (cs : List Char) : String :=
  String.ofList (cs.flatMap fun c => if hidden c then percent c else [c])

/-- The bytes meant by a text in which characters may be written by number. -/
def bytes : List Char → List UInt8
  | '%' :: a :: b :: rest =>
    match Address.hexValue? a, Address.hexValue? b with
    | some x, some y => UInt8.ofNat (16 * x + y) :: bytes rest
    | _, _ => '%'.toUInt8 :: bytes (a :: b :: rest)
  | c :: rest => (String.singleton c).toUTF8.toList ++ bytes rest
  | [] => []
termination_by cs => cs.length

/-! ## Hosts -/

/-- Characters that no name of a host has. -/
def isForbidden (c : Char) : Bool :=
  c.toNat ≤ 0x20 || c.toNat == 0x7f || "#/:<>?@[\\]^\x60\x7b|\x7d%\"".toList.contains c

/-- The host of an address that has one. -/
def host? (cs : List Char) : Except Fault String :=
  match cs with
  | '[' :: rest =>
    match rest.reverse with
    | ']' :: inner =>
      match Address.groups? inner.reverse with
      | some ns => .ok ("[" ++ Address.groupsText ns ++ "]")
      | none => .error .badLongAddress
    | _ => .error .badLongAddress
  | _ =>
    match String.fromUTF8? (bytes cs).toByteArray with
    | none => .error .badName
    | some plain =>
      let labels := Text.splitOn '.' (Text.lower plain.toList).toList
      let name := Text.joinWith ['.'] (labels.map Punycode.encode)
      if name.any isForbidden then .error .badName
      else if name.isEmpty then .error .noHost
      else if Address.endsInNumber name then
        match Address.ofName? name with
        | some address => .ok (Address.text address)
        | none => .error .badShortAddress
      else .ok (String.ofList name)

/-- The port of an address: digits up to the end of the host's part. -/
def port? (scheme : String) (cs : List Char) : Except Fault (Option Nat) :=
  if !cs.all Char.isDigit then .error .badPort
  else if cs.isEmpty then .ok none
  else
    let n := (String.ofList cs).toNat?.getD 0
    if 65535 < n then .error .badPort
    else .ok (if defaultPort? scheme == some n then none else some n)

/-- The part before the last `@`, and the rest. -/
def splitCredentials (cs : List Char) : Option (List Char) × List Char :=
  match Text.splitOn '@' cs |>.reverse with
  | [] => (none, cs)
  | [_] => (none, cs)
  | rest :: front => (some (Text.joinWith ['@'] front.reverse), rest)

/-- The host and behind a colon the port; a colon between brackets is part of the host. -/
def splitPort (cs : List Char) : List Char × List Char :=
  let bracketed := if cs.head? == some '[' then cs.takeWhile (· != ']') else []
  let rest := cs.drop bracketed.length
  (bracketed ++ rest.takeWhile (· != ':'), (rest.dropWhile (· != ':')).drop 1)

/-! ## Paths -/

/-- One step of a path that means none, or one back. -/
def isHere (step : String) : Bool := ["." , "%2e"].contains (Text.lower step.toList)

def isBack (step : String) : Bool :=
  ["..", "%2e.", ".%2e", "%2e%2e"].contains (Text.lower step.toList)

/-- The steps of a path with those left out that lead nowhere. -/
def walk : List String → List String → List String
  | done, [] => done
  | done, [step] =>
    if isBack step then done.dropLast ++ [""]
    else if isHere step then done ++ [""]
    else done ++ [step]
  | done, step :: steps =>
    if isBack step then walk done.dropLast steps
    else if isHere step then walk done steps
    else walk (done ++ [step]) steps

/-- The steps of a path that begins with a slash, or is empty. -/
def pathOf (isSeparator : Char → Bool) (cs : List Char) : List String :=
  let cs := cs.map fun c => if isSeparator c then '/' else c
  walk [] ((Text.splitOn '/' (cs.drop 1)).map (hide hiddenInPath))

/-! ## Addresses -/

/-- The schemes that need a host. -/
def isHosted (scheme : String) : Bool := ["http", "https", "ws", "wss", "ftp"].contains scheme

/-- The name of the scheme and what follows its colon. -/
def splitScheme? (cs : List Char) : Option (String × List Char) :=
  let name := cs.takeWhile fun c => c.isAlphanum || c == '+' || c == '-' || c == '.'
  match cs.drop name.length with
  | ':' :: rest =>
    if (name.head?).any Char.isAlpha then some (String.ofList (name.map Char.toLower), rest) else none
  | _ => none

/-- An address behind its scheme and slashes. -/
def ofAuthority (scheme : String) (isSeparator : Char → Bool) (cs : List Char) : Except Fault Url := do
  let isEnd (c : Char) : Bool := isSeparator c || c == '?' || c == '#'
  let place := cs.takeWhile (!isEnd ·)
  let rest := (cs.drop place.length).takeWhile fun c => c != '?' && c != '#'
  let (credentials, place) := splitCredentials place
  let (name, port) := splitPort place
  if name.isEmpty then .error .noHost
  let host ← host? name
  let port ← port? scheme port
  let (user, password) := match credentials with
    | none => ([], none)
    | some cs =>
      let user := cs.takeWhile (· != ':')
      (user, if cs.length = user.length then none else some (cs.drop (user.length + 1)))
  pure
    { scheme
      user := hide hiddenInCredentials user
      password := (password.filter (!·.isEmpty)).map (hide hiddenInCredentials)
      host
      port
      path := pathOf isSeparator rest }

/-- Read an address.  Of an address whose scheme needs no host only the scheme is read. -/
def ofText (text : String) : Except Fault Url :=
  let isEdge (c : Char) : Bool := c.toNat ≤ 0x20
  let cs := (Text.dropEndWhile isEdge (text.toList.dropWhile isEdge)).filter fun c =>
    c != '\t' && c != '\n' && c != '\r'
  match splitScheme? cs with
  | none => .error .noScheme
  | some (scheme, rest) =>
    let isSeparator (c : Char) : Bool := c == '/' || c == '\\'
    if isHosted scheme then ofAuthority scheme isSeparator (rest.dropWhile isSeparator)
    else .ok { scheme }

end Pseudoscribe.Url
