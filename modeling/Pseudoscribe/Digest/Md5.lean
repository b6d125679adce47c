/-!
# The MD5 digest

The digest of a sequence of bytes: 128 bits, written as 32 hexadecimal digits.
-/

namespace Pseudoscribe.Md5

/-- How far the sum is turned in each of the 64 steps. -/
def turns : List UInt32 :=
  let row (a b c d : UInt32) : List UInt32 :=
    [a, b, c, d, a, b, c, d, a, b, c, d, a, b, c, d]
  row 7 12 17 22 ++ row 5 9 14 20 ++ row 4 11 16 23 ++ row 6 10 15 21

/-- The constants of the 64 steps: `2 ^ 32` times the absolute sines of `1, 2, …`, rounded down. -/
def constants : List UInt32 := [
  0xd76aa478, 0xe8c7b756, 0x242070db, 0xc1bdceee, 0xf57c0faf, 0x4787c62a, 0xa8304613, 0xfd469501,
  0x698098d8, 0x8b44f7af, 0xffff5bb1, 0x895cd7be, 0x6b901122, 0xfd987193, 0xa679438e, 0x49b40821,
  0xf61e2562, 0xc040b340, 0x265e5a51, 0xe9b6c7aa, 0xd62f105d, 0x02441453, 0xd8a1e681, 0xe7d3fbc8,
  0x21e1cde6, 0xc33707d6, 0xf4d50d87, 0x455a14ed, 0xa9e3e905, 0xfcefa3f8, 0x676f02d9, 0x8d2a4c8a,
  0xfffa3942, 0x8771f681, 0x6d9d6122, 0xfde5380c, 0xa4beea44, 0x4bdecfa9, 0xf6bb4b60, 0xbebfbc70,
  0x289b7ec6, 0xeaa127fa, 0xd4ef3085, 0x04881d05, 0xd9d4d039, 0xe6db99e5, 0x1fa27cf8, 0xc4ac5665,
  0xf4292244, 0x432aff97, 0xab9423a7, 0xfc93a039, 0x655b59c3, 0x8f0ccc92, 0xffeff47d, 0x85845dd1,
  0x6fa87e4f, 0xfe2ce6e0, 0xa3014314, 0x4e0811a1, 0xf7537e82, 0xbd3af235, 0x2ad7d2bb, 0xeb86d391]

/-- The four words that are carried from block to block. -/
structure State where
  a : UInt32
  b : UInt32
  c : UInt32
  d : UInt32
deriving DecidableEq, Repr

def start : State := ⟨0x67452301, 0xefcdab89, 0x98badcfe, 0x10325476⟩

def rotateLeft (x k : UInt32) : UInt32 := (x <<< k) ||| (x >>> (32 - k))

/-- The word that the step mixes in, and its place in the block. -/
def mix (i : Nat) (s : State) : UInt32 × Nat :=
  if i < 16 then ((s.b &&& s.c) ||| (~~~s.b &&& s.d), i)
  else if i < 32 then ((s.d &&& s.b) ||| (~~~s.d &&& s.c), (5 * i + 1) % 16)
  else if i < 48 then (s.b ^^^ s.c ^^^ s.d, (3 * i + 5) % 16)
  else (s.c ^^^ (s.b ||| ~~~s.d), (7 * i) % 16)

/-- One step with its number, its turn and its constant. -/
def step (block : Array UInt32) (s : State) (k : Nat × UInt32 × UInt32) : State :=
  let (i, turn, constant) := k
  let (f, place) := mix i s
  let sum := s.a + f + constant + block[place]?.getD 0
  ⟨s.d, s.b + rotateLeft sum turn, s.b, s.c⟩

/-- Take in a block of sixteen words. -/
def absorb (s : State) (block : Array UInt32) : State :=
  let r := ((List.range 64).zip (turns.zip constants)).foldl (step block) s
  ⟨s.a + r.a, s.b + r.b, s.c + r.c, s.d + r.d⟩

/-- The bytes of a number, the lowest first. -/
def lowBytes : Nat → Nat → List UInt8
  | 0, _ => []
  | count + 1, n => UInt8.ofNat (n % 256) :: lowBytes count (n / 256)

/-- The bytes filled up to whole blocks: a mark, zeros and the length in bits. -/
def padded (bytes : List UInt8) : List UInt8 :=
  let zeros := (119 - bytes.length % 64) % 64
  bytes ++ 0x80 :: List.replicate zeros 0 ++ lowBytes 8 (8 * bytes.length)

/-- Four bytes as a word, the lowest first. -/
def words : List UInt8 → List UInt32
  | a :: b :: c :: d :: rest =>
    (a.toUInt32 ||| b.toUInt32 <<< 8 ||| c.toUInt32 <<< 16 ||| d.toUInt32 <<< 24) :: words rest
  | _ => []

/-- Take in words, sixteen at a time; `count` bounds the number of blocks. -/
def absorbAll : Nat → State → List UInt32 → State
  | 0, s, _ => s
  | count + 1, s, ws =>
    if ws.isEmpty then s else absorbAll count (absorb s (ws.take 16).toArray) (ws.drop 16)

/-- The digest of a sequence of bytes. -/
def digest (bytes : List UInt8) : State :=
  let ws := words (padded bytes)
  absorbAll ws.length start ws

def hexByte (n : Nat) : String :=
  let ds := Nat.toDigits 16 n
  String.ofList (List.replicate (2 - ds.length) '0' ++ ds)

/-- The bytes of the digest in hexadecimal. -/
def State.text (s : State) : String :=
  String.join (([s.a, s.b, s.c, s.d].flatMap fun w => lowBytes 4 w.toNat).map fun b =>
    hexByte b.toNat)

/-- The digest of a text in UTF-8. -/
def ofText (s : String) : String := (digest s.toUTF8.toList).text

end Pseudoscribe.Md5
