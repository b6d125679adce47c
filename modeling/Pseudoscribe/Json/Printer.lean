import Pseudoscribe.Json.Basic
import Pseudoscribe.Number.Decimal

/-!
# Writing JSON

One line without blanks.  Control characters, quotation marks and backslashes are escaped, all else
is written as it is, so that a value never holds a newline.
-/

namespace Pseudoscribe.Json

def hexChar (n : Nat) : Char :=
  if n < 10 then Char.ofNat ('0'.toNat + n) else Char.ofNat ('a'.toNat + n - 10)

/-- How a character is written inside a string. -/
def escapeChar (c : Char) : List Char :=
  if c == '"' then ['\\', '"']
  else if c == '\\' then ['\\', '\\']
  else if c == '\n' then ['\\', 'n']
  else if c == '\r' then ['\\', 'r']
  else if c == '\t' then ['\\', 't']
  else if c == '\x08' then ['\\', 'b']
  else if c == '\x0c' then ['\\', 'f']
  else if c.toNat < 0x20 then ['\\', 'u', '0', '0', hexChar (c.toNat / 16), hexChar (c.toNat % 16)]
  else [c]

/-- A string between its quotation marks. -/
def quoted (s : String) : String :=
  "\"" ++ String.ofList (s.toList.flatMap escapeChar) ++ "\""

mutual

/-- The text of a value. -/
def text : Json → String
  | null => "null"
  | bool true => "true"
  | bool false => "false"
  | int i => toString i
  | real x => x.dataText
  | str s => quoted s
  | arr items => "[" ++ String.intercalate "," (itemTexts items) ++ "]"
  | obj members => "\x7b" ++ String.intercalate "," (memberTexts members) ++ "\x7d"

def itemTexts : List Json → List String
  | [] => []
  | j :: js => text j :: itemTexts js

def memberTexts : List (String × Json) → List String
  | [] => []
  | (name, j) :: ms => (quoted name ++ ":" ++ text j) :: memberTexts ms

end

theorem hexChar_ne_newline : ∀ n < 16, hexChar n ≠ '\n' := by decide

/-- No character is written as a newline. -/
theorem newline_not_mem_escapeChar (c : Char) : '\n' ∉ escapeChar c := by
  unfold escapeChar
  repeat' split
  all_goals simp_all
  · exact ⟨(hexChar_ne_newline _ (by omega)).symm, (hexChar_ne_newline _ (by omega)).symm⟩
  · exact fun h => absurd h.symm (by assumption)

end Pseudoscribe.Json
