import Pseudoscribe.Text.Alphabet.Table
import Pseudoscribe.Text.Alphabet.Capitals

/-!
# Character classes

Pseudocode is written in any language, so blanks, letters and digits are those of Unicode: a word may
be made of Chinese characters, and a line may be indented with an ideographic space.  Keywords
are ASCII, and so is the comparison that ignores their case.
-/

namespace Pseudoscribe.Text

/-- Does one of the closed ranges hold the code point? -/
def inRanges (ranges : List (Nat × Nat)) (n : Nat) : Bool :=
  ranges.any fun r => r.1 ≤ n && n ≤ r.2

/-- White space: the characters that separate and that trimming removes. -/
def isSpace (c : Char) : Bool :=
  let n := c.toNat
  (9 ≤ n && n ≤ 13) || n == 0x20 || n == 0x85 || n == 0xa0 || n == 0x1680 ||
    (0x2000 ≤ n && n ≤ 0x200a) || n == 0x2028 || n == 0x2029 || n == 0x202f || n == 0x205f ||
    n == 0x3000

/-- A letter, with which a name can begin. -/
def isLetter (c : Char) : Bool :=
  let n := c.toNat
  if n < 0x80 then c.isAlpha
  else if n < 0x1000 then inRanges lettersLow n
  else if n < 0x10000 then inRanges lettersMid n
  else inRanges lettersHigh n

/-- A digit, fraction or other numeral. -/
def isNumeral (c : Char) : Bool :=
  if c.toNat < 0x80 then c.isDigit else inRanges numerals c.toNat

/-- A letter or a numeral. -/
def isAlnum (c : Char) : Bool :=
  isLetter c || isNumeral c

/-- The characters of a word: letters, numerals and the underscore. -/
def isWordChar (c : Char) : Bool :=
  isAlnum c || c == '_'

/-- A character that a name can begin with. -/
def isNameStart (c : Char) : Bool :=
  isLetter c || c == '_'

/-- The ASCII characters of a word. -/
def isAsciiWordChar (c : Char) : Bool :=
  c.isAlphanum || c == '_'

/-- The capital form of a character: one character, or several for a few letters. -/
def capital (c : Char) : List Char :=
  let n := c.toNat
  if n < 0x80 then [c.toUpper]
  else match capitalSequences.find? (·.1 == n) with
    | some (_, ns) => ns.map Char.ofNat
    | none =>
      match capitalRuns.find? fun r => r.first ≤ n && n ≤ r.last && (n - r.first) % r.stride == 0 with
      | some r => [Char.ofNat (n + r.shift).toNat]
      | none => [c]

/-- Capitals for ASCII letters; every other character stays as it is. -/
def upper (cs : List Char) : String :=
  String.ofList (cs.map Char.toUpper)

/-- Small letters for ASCII capitals; every other character stays as it is. -/
def lower (cs : List Char) : String :=
  String.ofList (cs.map Char.toLower)

/-- Is the text the given ASCII word, in any mixture of capitals and small letters? -/
def isWord (word : String) (cs : List Char) : Bool :=
  cs.map Char.toUpper == word.toList.map Char.toUpper

theorem isWordChar_underscore : isWordChar '_' = true := by
  simp [isWordChar]

end Pseudoscribe.Text
