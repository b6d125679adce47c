import Pseudoscribe.Url.Address
import Pseudoscribe.Url.Punycode

/-!
# Addresses in the network

The address of a service: how it is spoken to, its host and port, and a path.
-/

namespace Pseudoscribe

/-- Where a service is found. -/
structure Url where
  scheme : String
  user : String := ""
  password : Option String := none
  host : String := ""
  port : Option Nat := none
  /-- the steps of the path, the last one empty if the path ends with a slash -/
  path : List String := []
deriving DecidableEq, Repr

namespace Url

/-- Why a text is no address. -/
inductive Fault where
  | noScheme
  | noHost
  | badPort
  | badName
  | badShortAddress
  | badLongAddress
deriving DecidableEq, Repr

def Fault.message : Fault → String
  | noScheme => "relative URL without a base"
  | noHost => "empty host"
  | badPort => "invalid port number"
  | badName => "invalid international domain name"
  | badShortAddress => "invalid IPv4 address"
  | badLongAddress => "invalid IPv6 address"

/-- The port that is meant when none is named. -/
def defaultPort? : String → Option Nat
  | "http" | "ws" => some 80
  | "https" | "wss" => some 443
  | "ftp" => some 21
  | _ => none

/-- The part before the host. -/
def credentials (u : Url) : String :=
  if u.user.isEmpty && u.password.isNone then ""
  else u.user ++ (u.password.elim "" (":" ++ ·)) ++ "@"

/-- The address as it is printed. -/
def text (u : Url) : String :=
  u.scheme ++ "://" ++ u.credentials ++ u.host ++
    (u.port.elim "" fun p => ":" ++ toString p) ++
    String.join (u.path.map ("/" ++ ·))

/-- An address below this one: the path is taken as a directory, whether it ends with a slash or not. -/
def below (u : Url) (steps : List String) : Url :=
  let front := if u.path.getLast? == some "" then u.path.dropLast else u.path
  { u with path := front ++ steps }

end Url

end Pseudoscribe
