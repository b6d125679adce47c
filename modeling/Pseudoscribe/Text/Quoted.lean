import Pseudoscribe.Text.Alphabet

/-!
# Texts between quotation marks

A text as a message shows it: quotation marks and backslashes behind a backslash, and characters that
cannot be seen by their number.
-/

namespace Pseudoscribe.Text

/-- Control and format characters, blanks other than the space, and code points that are not for
exchange. -/
def isInvisible (c : Char) : Bool :=
  let n := c.toNat
  n < 0x20 || (0x7f ≤ n && n < 0xa0) || (isSpace c && c != ' ') || n == 0xad ||
    (0x200b ≤ n && n ≤ 0x200f) || (0x202a ≤ n && n ≤ 0x202e) || (0x2060 ≤ n && n ≤ 0x206f) ||
    n == 0xfeff || (0xe000 ≤ n && n ≤ 0xf8ff) || (0xfff0 ≤ n && n ≤ 0xfffb) || 0xe0000 ≤ n

/-- How a character is shown. -/
def shownChar (c : Char) : List Char :=
  if c == '"' then ['\\', '"']
  else if c == '\\' then ['\\', '\\']
  else if c == '\n' then ['\\', 'n']
  else if c == '\r' then ['\\', 'r']
  else if c == '\t' then ['\\', 't']
  else if c == '\x00' then ['\\', '0']
  else if isInvisible c then '\\' :: 'u' :: '{' :: Nat.toDigits 16 c.toNat ++ ['}']
  else [c]

/-- A text as a message shows it. -/
def shown (s : String) : String :=
  String.ofList ('"' :: s.toList.flatMap shownChar ++ ['"'])

end Pseudoscribe.Text
