import Pseudoscribe.Text.Trim

/-!
# Lines

A line is ended by a newline, or by a carriage return and a newline; the last line of a text may
have neither.  `pieces` keeps the ends, so that the pieces of a text join up to the text again
(`flatten_pieces`), and `lines` drops them.
-/

namespace Pseudoscribe.Text

/-- The pieces of a text, each with the newline that ends it. -/
def pieces : List Char → List (List Char)
  | [] => []
  | c :: cs =>
    if c == '\n' then [c] :: pieces cs
    else match pieces cs with
      | [] => [[c]]
      | p :: ps => (c :: p) :: ps

/-- A piece without the newline, or the carriage return and newline, that ends it. -/
def chomp (piece : List Char) : List Char :=
  match piece.reverse with
  | '\n' :: '\r' :: rest => rest.reverse
  | '\n' :: rest => rest.reverse
  | _ => piece

/-- The lines of a text, without their ends. -/
def lines (cs : List Char) : List (List Char) :=
  (pieces cs).map chomp

/-- A text without any carriage returns and newlines at its end. -/
def dropLineEnds (cs : List Char) : List Char :=
  dropEndWhile (fun c => c == '\n' || c == '\r') cs

/-- Texts put one after another with a separator between them. -/
def joinWith (sep : List Char) (texts : List (List Char)) : List Char :=
  (texts.intersperse sep).flatten

/-- Lines put under one another. -/
def unlines (texts : List (List Char)) : List Char :=
  joinWith ['\n'] texts

theorem flatten_pieces (cs : List Char) : (pieces cs).flatten = cs := by
  fun_induction pieces cs with
  | case1 => rfl
  | case2 c cs h ih => simp [ih]
  | case3 c cs h hp ih => simp_all
  | case4 c cs h p ps hp ih => simp_all

theorem ne_nil_of_mem_pieces {cs p : List Char} (h : p ∈ pieces cs) : p ≠ [] := by
  fun_induction pieces cs with
  | case1 => simp at h
  | case2 c cs hc ih =>
    rcases List.mem_cons.1 h with rfl | h
    · simp
    · exact ih h
  | case3 c cs hc hp ih => simp_all
  | case4 c cs hc q ps hp ih =>
    rcases List.mem_cons.1 h with rfl | h
    · simp
    · exact ih (by rw [hp]; exact List.mem_cons_of_mem _ h)

theorem length_lines (cs : List Char) : (lines cs).length = (pieces cs).length := by
  simp [lines]

end Pseudoscribe.Text
