import Pseudoscribe.Assembly.Basic
import Pseudoscribe.Proofs.Assembly.Accounts
import Pseudoscribe.Proofs.Text.Pieces

/-!
# How a result is laid out

A result is laid out part by part, a part being a chunk with how it ended.  Each part has lines of its own, which
follow those of the part before, and its report says which they are.  So a line of the code belongs to the report of
the part that it comes from, and to none if this part is blank.
-/

namespace Pseudoscribe

namespace Text

theorem isBlank_append (xs ys : List Char) : isBlank (xs ++ ys) = (isBlank xs && isBlank ys) :=
  List.all_append

theorem isBlank_of_mem_pieces {cs p : List Char} (h : isBlank cs = true) (hp : p ∈ pieces cs) :
    isBlank p = true := by
  rw [← flatten_pieces cs] at h
  unfold isBlank at h ⊢
  rw [List.all_flatten] at h
  exact List.all_eq_true.1 h p hp

end Text

namespace ImportLine

/-- A blank line is no import. -/
theorem isTopLevel_of_isBlank {language : Language} {line : List Char} (hne : line ≠ [])
    (h : Text.isBlank line = true) : isTopLevel language line = false := by
  obtain ⟨c, cs, rfl⟩ := List.exists_cons_of_ne_nil hne
  have hspace : Text.isSpace c = true := List.all_eq_true.1 h c List.mem_cons_self
  exact if_pos hspace

end ImportLine

namespace Assembly

open Text

theorem countLines_eq_length_pieces (cs : List Char) : countLines cs = (pieces cs).length := by
  fun_induction pieces cs with
  | case1 => rfl
  | case2 c cs hc ih =>
    obtain rfl : c = '\n' := beq_iff_eq.1 hc
    rw [List.length_cons, ← ih]
    cases cs with
    | nil => rfl
    | cons d ds =>
      unfold countLines
      rw [List.getLast?_cons_cons, List.count_cons_self]
      dsimp only [List.isEmpty_cons]
      split <;> omega
  | case3 c cs hc hp ih =>
    obtain rfl : cs = [] := by rw [← flatten_pieces cs, hp, List.flatten_nil]
    unfold countLines
    have hne : c ≠ '\n' := fun heq => hc (beq_iff_eq.2 heq)
    rw [List.count_cons_of_ne hne]
    simp [hne]
  | case4 c cs hc p ps hp ih =>
    have hne : c ≠ '\n' := fun heq => hc (beq_iff_eq.2 heq)
    rw [hp, List.length_cons] at ih
    rw [List.length_cons, ← ih]
    cases cs with
    | nil => cases hp
    | cons d ds =>
      unfold countLines
      rw [List.getLast?_cons_cons, List.count_cons_of_ne hne]
      rfl

/-- Behind whole lines, whether a newline is needed depends on the piece alone. -/
theorem breakBehind_append {code : List Char} (h : Closed code) (piece : List Char) (isLast : Bool) :
    breakBehind (code ++ piece) isLast = breakBehind piece isLast := by
  unfold breakBehind
  cases piece with
  | nil =>
    rw [List.append_nil]
    split
    · next hbreak =>
      obtain ⟨-, hne, hlast⟩ := hbreak
      obtain ⟨c, hc⟩ := Option.ne_none_iff_exists'.1 (mt List.getLast?_eq_none_iff.1 hne)
      rw [hc, h c hc] at hlast
      exact absurd rfl hlast
    · simp
  | cons c cs => simp

theorem closed_breakBehind (code : List Char) : Closed (code ++ breakBehind code false) := by
  unfold breakBehind
  split
  · intro c hc
    rw [List.getLast?_concat] at hc
    exact (Option.some.inj hc).symm
  · next hbreak =>
    rw [List.append_nil]
    intro c hc
    have hne : code ≠ [] := by
      rintro rfl
      cases hc
    by_contra hother
    exact hbreak ⟨rfl, hne, fun hlast => hother (Option.some.inj (hc.symm.trans hlast))⟩

/-! ## Parts -/

/-- A chunk and how it ended. -/
structure Part where
  chunk : Chunk
  final : ChunkEnd

/-- A line of the code with its newline, and the part that it comes from. -/
structure Line where
  part : Part
  text : List Char

namespace Part

def text (p : Part) : List Char := (p.final.text p.chunk).toList

/-- What a part brings to the code: its text, and the newline behind it if one is needed. -/
def share (p : Part) (isLast : Bool) : List Char := p.text ++ breakBehind p.text isLast

/-- The lines that a part brings. -/
def lines (p : Part) (isLast : Bool) : List Line := (pieces (p.share isLast)).map (⟨p, ·⟩)

theorem length_lines (p : Part) (isLast : Bool) : (p.lines isLast).length = (pieces (p.share isLast)).length :=
  List.length_map _

theorem map_text_lines (p : Part) (isLast : Bool) : (p.lines isLast).map Line.text = pieces (p.share isLast) := by
  unfold lines
  rw [List.map_map]
  exact List.map_id _

/-- The report on a part that stands behind so many lines. -/
def report (p : Part) (before : Nat) (isLast : Bool) : ChunkReport where
  chunk := p.chunk.index
  startLine := p.chunk.startLine
  endLine := p.chunk.endLine
  status := p.final.status
  attempts := p.final.attempts
  confidence := p.final.confidence
  outputLines := if isBlank p.text then none else some (before + 1, before + (p.lines isLast).length)

theorem isBlank_share {p : Part} (isLast : Bool) (h : isBlank p.text = true) : isBlank (p.share isLast) = true := by
  rw [share, isBlank_append, h, Bool.true_and, breakBehind]
  split <;> rfl

/-- A line of a blank part is blank. -/
theorem isBlank_of_mem_lines {p : Part} {isLast : Bool} {l : Line} (h : isBlank p.text = true)
    (hl : l ∈ p.lines isLast) : isBlank l.text = true := by
  obtain ⟨t, ht, rfl⟩ := List.mem_map.1 hl
  exact isBlank_of_mem_pieces (isBlank_share isLast h) ht

/-- A part that is not blank has a line. -/
theorem length_lines_pos {p : Part} (isLast : Bool) (h : isBlank p.text = false) : 0 < (p.lines isLast).length := by
  rw [length_lines, List.length_pos_iff]
  intro hnil
  have hshare : p.share isLast = [] := by rw [← flatten_pieces (p.share isLast), hnil, List.flatten_nil]
  rw [(List.append_eq_nil_iff.1 hshare).1] at h
  cases h

theorem part_of_mem_lines {p : Part} {isLast : Bool} {l : Line} (hl : l ∈ p.lines isLast) : l.part = p := by
  obtain ⟨t, -, rfl⟩ := List.mem_map.1 hl
  rfl

theorem owns_report (p : Part) (before line : Nat) (isLast : Bool) :
    (p.report before isLast).owns line = (!isBlank p.text &&
      (decide (before + 1 ≤ line) && decide (line ≤ before + (p.lines isLast).length))) := by
  unfold ChunkReport.owns report
  cases isBlank p.text <;> rfl

end Part

/-- The chunks, each with how it ended.  The first end given for an index is used up by the first chunk with this
index; a chunk that no end is left for was cancelled before it was tried. -/
def partsOf (finals : List (Nat × ChunkEnd)) : List Chunk → List Part
  | [] => []
  | c :: cs => ⟨c, (finals.lookup c.index).getD (.cancelled 0)⟩ :: partsOf (finals.filter (·.1 != c.index)) cs

/-- The lines of the code. -/
def linesOf : List Part → List Line
  | [] => []
  | p :: ps => p.lines ps.isEmpty ++ linesOf ps

/-- The reports on parts that stand behind so many lines. -/
def reportsOf (before : Nat) : List Part → List ChunkReport
  | [] => []
  | p :: ps => p.report before ps.isEmpty :: reportsOf (before + (p.lines ps.isEmpty).length) ps

/-! ## The layout -/

/-- Add parts in order. -/
def addParts (a : Assembly) : List Part → Assembly
  | [] => a
  | p :: ps => (a.add p.chunk p.final ps.isEmpty).addParts ps

theorem isEmpty_partsOf (finals : List (Nat × ChunkEnd)) (chunks : List Chunk) :
    (partsOf finals chunks).isEmpty = chunks.isEmpty := by
  cases chunks <;> rfl

theorem addAll_eq_addParts (a : Assembly) (finals : List (Nat × ChunkEnd)) (chunks : List Chunk) :
    a.addAll finals chunks = a.addParts (partsOf finals chunks) := by
  induction chunks generalizing a finals with
  | nil => rfl
  | cons c cs ih =>
    rw [addAll, partsOf, addParts, isEmpty_partsOf]
    exact ih _ _

section Add

variable {a : Assembly} (h : Closed a.code.toList) (p : Part) (isLast : Bool)
include h

theorem toList_code_add : (a.add p.chunk p.final isLast).code.toList = a.code.toList ++ p.share isLast := by
  rw [add, toList_appendPiece, breakBehind_append h, Part.share, List.append_assoc]
  rfl

theorem countLines_code_add :
    countLines (a.add p.chunk p.final isLast).code.toList = countLines a.code.toList + (p.lines isLast).length := by
  rw [toList_code_add h, countLines_eq_length_pieces, countLines_eq_length_pieces, pieces_append h,
    List.length_append, Part.length_lines]

/-- The report that is added is that on the part behind the lines so far. -/
theorem chunks_add : (a.add p.chunk p.final isLast).chunks =
    a.chunks ++ [p.report (countLines a.code.toList) isLast] := by
  have hcount := countLines_code_add h p isLast
  unfold add at hcount ⊢
  dsimp only at hcount ⊢
  rw [hcount]
  refine congrArg (fun r => a.chunks ++ [r]) ?_
  unfold Part.report
  rw [← Part.text]
  cases hblank : isBlank p.text with
  | true => rfl
  | false =>
    have hpos := Part.length_lines_pos isLast hblank
    have hlast : ¬countLines a.code.toList + (p.lines isLast).length < countLines a.code.toList + 1 := by omega
    rw [Bool.false_or, decide_eq_false hlast]

end Add

theorem closed_add (a : Assembly) (p : Part) : Closed (a.add p.chunk p.final false).code.toList := by
  rw [add, toList_appendPiece]
  exact closed_breakBehind _

/-- Parts are laid out behind whole lines. -/
theorem layout_addParts {a : Assembly} (h : Closed a.code.toList) (parts : List Part) :
    pieces (a.addParts parts).code.toList = pieces a.code.toList ++ (linesOf parts).map Line.text ∧
      (a.addParts parts).chunks = a.chunks ++ reportsOf (countLines a.code.toList) parts := by
  induction parts generalizing a with
  | nil => exact ⟨(List.append_nil _).symm, (List.append_nil _).symm⟩
  | cons p ps ih =>
    rw [addParts, linesOf, reportsOf, List.map_append, Part.map_text_lines, ← List.append_assoc]
    cases ps with
    | nil =>
      rw [addParts, toList_code_add h, pieces_append h, linesOf, reportsOf, List.map_nil, List.append_nil]
      exact ⟨rfl, chunks_add h p true⟩
    | cons q qs =>
      obtain ⟨hcode, hchunks⟩ := ih (closed_add a p)
      rw [List.isEmpty_cons]
      constructor
      · rw [hcode, toList_code_add h, pieces_append h]
      · rw [hchunks, chunks_add h, countLines_code_add h, List.append_assoc]
        rfl

/-- The layout of a result. -/
theorem layout_ofChunks (id : RequestId) (chunks : List Chunk) (finals : List (Nat × ChunkEnd)) (cancelled : Bool) :
    pieces (ofChunks id chunks finals cancelled).code.toList = (linesOf (partsOf finals chunks)).map Line.text ∧
      (ofChunks id chunks finals cancelled).chunks = reportsOf 0 (partsOf finals chunks) := by
  have hlayout := layout_addParts (a := { id }) closed_nil (partsOf finals chunks)
  rw [← addAll_eq_addParts] at hlayout
  exact hlayout

/-- The lines of a report are lines of its part. -/
theorem range_of_mem_reportsOf {before : Nat} {parts : List Part} {r : ChunkReport} (hr : r ∈ reportsOf before parts)
    {range : Nat × Nat} (hrange : r.outputLines = some range) :
    before + 1 ≤ range.1 ∧ range.2 ≤ before + (linesOf parts).length := by
  induction parts generalizing before with
  | nil => cases hr
  | cons p ps ih =>
    rw [linesOf, List.length_append]
    rcases List.mem_cons.1 hr with rfl | hr
    · unfold Part.report at hrange
      dsimp only at hrange
      split at hrange
      · cases hrange
      · cases hrange
        omega
    · have hrest := ih hr
      omega

/-! ## Owners -/

theorem find?_reportsOf_of_le {before line : Nat} (h : line ≤ before) (parts : List Part) :
    (reportsOf before parts).find? (·.owns line) = none := by
  induction parts generalizing before with
  | nil => rfl
  | cons p ps ih =>
    have hnot : (p.report before ps.isEmpty).owns line = false := by
      rw [Part.owns_report, decide_eq_false (by omega : ¬before + 1 ≤ line), Bool.false_and, Bool.and_false]
    rw [reportsOf, List.find?_cons_of_neg (by rw [hnot]; exact Bool.false_ne_true)]
    exact ih (Nat.le_add_right_of_le h)

/-- What a report says of the owner of a line. -/
def owner? (reports : List ChunkReport) (line : Nat) : Option (Nat × ChunkStatus) :=
  (reports.find? (·.owns line)).map fun r => (r.chunk, r.status)

/-- Each line belongs to the part that it comes from, unless this is blank. -/
theorem owner?_reportsOf (before i : Nat) (parts : List Part) : owner? (reportsOf before parts) (before + i + 1) =
    (linesOf parts)[i]?.bind fun l =>
      if isBlank l.part.text then none else some (l.part.chunk.index, l.part.final.status) := by
  induction parts generalizing before i with
  | nil => rfl
  | cons p ps ih =>
    unfold owner? at ih ⊢
    rw [reportsOf, linesOf, List.find?_cons, Part.owns_report, decide_eq_true (by omega : before + 1 ≤ before + i + 1),
      Bool.true_and]
    by_cases hown : i < (p.lines ps.isEmpty).length
    · obtain ⟨l, hl⟩ : ∃ l, (p.lines ps.isEmpty)[i]? = some l := ⟨_, List.getElem?_eq_getElem hown⟩
      rw [List.getElem?_append_left hown, hl, Option.bind_some, Part.part_of_mem_lines (List.mem_of_getElem? hl),
        decide_eq_true (by omega : before + i + 1 ≤ before + (p.lines ps.isEmpty).length), Bool.and_true]
      cases isBlank p.text with
      | true =>
        rw [if_pos rfl, Bool.not_true]
        dsimp only
        rw [find?_reportsOf_of_le (by omega) ps]
        rfl
      | false => rfl
    · rw [List.getElem?_append_right (Nat.le_of_not_lt hown),
        decide_eq_false (by omega : ¬before + i + 1 ≤ before + (p.lines ps.isEmpty).length), Bool.and_false]
      dsimp only
      have hrest := ih (before + (p.lines ps.isEmpty).length) (i - (p.lines ps.isEmpty).length)
      rwa [(by omega : before + (p.lines ps.isEmpty).length + (i - (p.lines ps.isEmpty).length) + 1 =
        before + i + 1)] at hrest

/-! ## Which lines are moved -/

/-- The line is moved to the head: an import that a converted part brings. -/
def Line.moves (language : Language) (l : Line) : Bool :=
  l.part.final.status == .succeeded && ImportLine.isTopLevel language l.text

theorem exists_of_mem_linesOf {parts : List Part} {l : Line} (h : l ∈ linesOf parts) :
    l.part ∈ parts ∧ ∃ isLast, l ∈ l.part.lines isLast := by
  induction parts with
  | nil => cases h
  | cons p ps ih =>
    rw [linesOf] at h
    rcases List.mem_append.1 h with h | h
    · rw [Part.part_of_mem_lines h]
      exact ⟨List.mem_cons_self, ps.isEmpty, h⟩
    · exact ⟨List.mem_cons_of_mem p (ih h).1, (ih h).2⟩

theorem text_ne_nil_of_mem_linesOf {parts : List Part} {l : Line} (h : l ∈ linesOf parts) : l.text ≠ [] := by
  obtain ⟨-, isLast, hmem⟩ := exists_of_mem_linesOf h
  obtain ⟨t, ht, heq⟩ := List.mem_map.1 hmem
  rw [← heq]
  exact ne_nil_of_mem_pieces ht

theorem isMovable_eq (a : Assembly) (language : Language) (line : Nat) (text : List Char) :
    a.isMovable language line text =
      ((owner? a.chunks line).any (·.2 == .succeeded) && ImportLine.isTopLevel language text) := by
  unfold isMovable owner?
  rw [Option.any_map]

/-- A line may be moved if the part that it comes from is converted; if this is blank, it is no import. -/
theorem isMovable_of_reports {a : Assembly} {parts : List Part} (h : a.chunks = reportsOf 0 parts)
    (language : Language) {i : Nat} {l : Line} (hl : (linesOf parts)[i]? = some l) :
    a.isMovable language (i + 1) l.text = l.moves language := by
  have howner := owner?_reportsOf 0 i parts
  rw [Nat.zero_add, hl, Option.bind_some, ← h] at howner
  rw [isMovable_eq, howner, Line.moves]
  cases hblank : isBlank l.part.text with
  | false => rfl
  | true =>
    have hmem := List.mem_of_getElem? hl
    obtain ⟨-, isLast, hlines⟩ := exists_of_mem_linesOf hmem
    rw [ImportLine.isTopLevel_of_isBlank (text_ne_nil_of_mem_linesOf hmem) (Part.isBlank_of_mem_lines hblank hlines),
      Bool.and_false, Bool.and_false]

end Assembly

end Pseudoscribe
