import Pseudoscribe.Text.Alphabet

/-!
# Trimming and cutting

Texts are lists of characters.  The functions here cut at a blank, at a word or at a
mark, and say what is left on each side.
-/

namespace Pseudoscribe.Text

/-- Drop the longest run of characters in the class from the end. -/
def dropEndWhile (p : Char → Bool) (cs : List Char) : List Char :=
  (cs.reverse.dropWhile p).reverse

/-- The text without the blanks it begins with. -/
def trimStart (cs : List Char) : List Char :=
  cs.dropWhile isSpace

/-- The text without the blanks it ends with. -/
def trimEnd (cs : List Char) : List Char :=
  dropEndWhile isSpace cs

/-- The text without the blanks on either side. -/
def trim (cs : List Char) : List Char :=
  trimEnd (trimStart cs)

/-- Nothing but blanks. -/
def isBlank (cs : List Char) : Bool :=
  cs.all isSpace

/-- What follows a given beginning. -/
def dropBeginning? (mark : List Char) (cs : List Char) : Option (List Char) :=
  if mark.isPrefixOf cs then some (cs.drop mark.length) else none

/-- Does the text end with this mark? -/
def endsWith (mark : List Char) (cs : List Char) : Bool :=
  mark.isSuffixOf cs

/-- The text before and after the first place where a mark stands. -/
def cutAt (mark : List Char) : List Char → Option (List Char × List Char)
  | [] => if mark.isEmpty then some ([], []) else none
  | c :: cs =>
    if mark.isPrefixOf (c :: cs) then some ([], (c :: cs).drop mark.length)
    else (cutAt mark cs).map fun r => (c :: r.1, r.2)

/-- The first word of a text and what follows it, blanks before it dropped. -/
def splitWord (cs : List Char) : List Char × List Char :=
  ((trimStart cs).takeWhile isWordChar, (trimStart cs).dropWhile isWordChar)

/-- What follows the given keyword, if the text begins with it as a whole word. -/
def dropWord? (keyword : String) (cs : List Char) : Option (List Char) :=
  let (first, rest) := splitWord cs
  if isWord keyword first then some (trimStart rest) else none

/-- The text cut at every place where the character stands; always at least one part. -/
def splitOn (sep : Char) : List Char → List (List Char)
  | [] => [[]]
  | c :: cs =>
    if c == sep then [] :: splitOn sep cs
    else match splitOn sep cs with
      | [] => [[c]]
      | p :: ps => (c :: p) :: ps

theorem splitWord_append (cs : List Char) :
    (splitWord cs).1 ++ (splitWord cs).2 = trimStart cs := by
  simp [splitWord]

theorem cutAt_eq_some {mark cs before after : List Char}
    (h : cutAt mark cs = some (before, after)) : cs = before ++ mark ++ after := by
  induction cs generalizing before after with
  | nil =>
    cases mark <;> simp_all [cutAt]
  | cons c cs ih =>
    unfold cutAt at h
    split at h
    · next hp =>
      obtain ⟨t, ht⟩ := List.isPrefixOf_iff_prefix.1 hp
      simp only [Option.some.injEq, Prod.mk.injEq] at h
      obtain ⟨rfl, rfl⟩ := h
      simp [← ht]
    · obtain ⟨r, hr, he⟩ := Option.map_eq_some_iff.1 h
      obtain ⟨r1, r2⟩ := r
      simp only [Prod.mk.injEq] at he
      obtain ⟨rfl, rfl⟩ := he
      simp [ih hr]

end Pseudoscribe.Text
