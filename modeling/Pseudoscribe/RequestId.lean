/-!
# Identifiers

Requests and tasks are known by identifiers of 32 hexadecimal digits.  They may be written in four ways
and are kept in one: in small letters, with hyphens.
-/

namespace Pseudoscribe

/-- An identifier in its written form `8-4-4-4-12`, in small letters. -/
structure RequestId where
  text : String
deriving DecidableEq, Repr, Inhabited

namespace RequestId

def isHexDigit (c : Char) : Bool :=
  c.isDigit || ('a' ≤ c && c ≤ 'f') || ('A' ≤ c && c ≤ 'F')

/-- Digits with hyphens put between their groups. -/
def hyphenate (ds : List Char) : List Char :=
  ds.take 8 ++ '-' :: (ds.drop 8).take 4 ++ '-' :: (ds.drop 12).take 4 ++
    '-' :: (ds.drop 16).take 4 ++ '-' :: ds.drop 20

/-- 32 digits. -/
def ofDigits? (ds : List Char) : Option RequestId :=
  if ds.length = 32 ∧ ds.all isHexDigit then
    some ⟨String.ofList (hyphenate (ds.map Char.toLower))⟩
  else none

/-- A new identifier made of a random number: one digit says that it is random, and two bits how it is
made up. -/
def ofRandom (n : Nat) : RequestId :=
  let ds := (List.range 32).map fun i =>
    let d := n / Nat.pow 16 i % 16
    Nat.digitChar (if i = 12 then 4 else if i = 16 then 8 + d % 4 else d)
  ⟨String.ofList (hyphenate ds)⟩

/-- Digits in groups of 8, 4, 4, 4 and 12 with hyphens between them. -/
def ofGroups? (cs : List Char) : Option RequestId :=
  let ds := cs.filter (· != '-')
  if cs = hyphenate ds then ofDigits? ds else none

/-- Read an identifier: digits alone, in groups, in groups between braces, or in groups behind
`urn:uuid:`, which may be in capitals. -/
def parse? (s : String) : Option RequestId :=
  let cs := s.toList
  match cs.length with
  | 32 => ofDigits? cs
  | 36 => ofGroups? cs
  | 38 =>
    if cs.head? == some '{' && cs.getLast? == some '}' then ofGroups? (cs.drop 1).dropLast else none
  | 45 =>
    if (cs.take 9).map Char.toLower == "urn:uuid:".toList then ofGroups? (cs.drop 9) else none
  | _ => none

end RequestId

end Pseudoscribe
