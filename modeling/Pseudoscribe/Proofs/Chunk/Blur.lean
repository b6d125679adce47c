import Pseudoscribe.Chunk.Plan
import Pseudoscribe.Proofs.Block.Blur

/-!
# Plans of blurred texts

Planning looks at the lengths of lines, at their numbers and at where the text may be cut, and so it commutes
with blurring the lines.  With the lockstep of the scans this says that what stands in the string literals of a
text has no influence on its structure: the scan is the same, the blocks are the same, and the chunks are
cut at the same lines.
-/

namespace Pseudoscribe

open Text

namespace Row

def blurred (r : Row) : Row := { r with text := r.text.map blur }

@[simp] theorem length_blurred (r : Row) : r.blurred.length = r.length := List.length_map _

@[simp] theorem number_blurred (r : Row) : r.blurred.number = r.number := rfl

@[simp] theorem total_map_blurred (rows : List Row) : total (rows.map blurred) = total rows := by
  rw [total, total, List.map_map]
  exact congrArg _ (List.map_congr_left fun r _ => length_blurred r)

theorem join_map_blurred (rows : List Row) : join (rows.map blurred) = (join rows).map blur := by
  rw [join, join, List.map_map, List.map_flatten, List.map_map]
  rfl

end Row

namespace Piece

theorem forcedCount_blurred (rows : List Row) : forcedCount (rows.map Row.blurred) = forcedCount rows := by
  induction rows with
  | nil => rfl
  | cons row rest ih =>
    cases rest with
    | nil => rfl
    | cons next rest =>
      show (if row.safe then 1 else forcedCount ((next :: rest).map Row.blurred) + 1) =
        if row.safe then 1 else forcedCount (next :: rest) + 1
      rw [ih]

theorem countFrom_blurred (max : Nat) (preferred : List Nat) (points : CutPoints) (count size : Nat)
    (rows : List Row) :
    countFrom max preferred points count size (rows.map Row.blurred) =
      countFrom max preferred points count size rows := by
  induction rows generalizing points count size with
  | nil => rfl
  | cons row rest ih =>
    have hforced := forcedCount_blurred (row :: rest)
    have hextend (preferred : Bool) (count size : Nat) :
        points.extend row.blurred preferred count size = points.extend row preferred count size := rfl
    rw [List.map_cons] at hforced ⊢
    rw [countFrom, countFrom, Row.length_blurred, Row.number_blurred, hforced, hextend, ih]

theorem count_blurred (max : Nat) (preferred : List Nat) (rows : List Row) :
    count max preferred (rows.map Row.blurred) = count max preferred rows := by
  rw [count, count, countFrom_blurred]

theorem warnings_blurred (max : Nat) (forced : Bool) (piece : List Row) :
    warnings max forced (piece.map Row.blurred) = warnings max forced piece := by
  cases piece with
  | nil => rfl
  | cons first rest =>
    have hlast : ((rest.map Row.blurred).getLast?.getD first.blurred).number =
        (rest.getLast?.getD first).number := by
      rw [List.getLast?_map]
      cases rest.getLast? <;> rfl
    rw [List.map_cons, warnings, warnings, hlast, List.isEmpty_map, Row.length_blurred]
    rfl

theorem split_blurred (max : Nat) (preferred : List Nat) (rows : List Row) :
    split max preferred (rows.map Row.blurred) =
      (split max preferred rows).map (Prod.map (List.map Row.blurred) id) := by
  fun_induction split max preferred rows with
  | case1 => simp [split]
  | case2 row rest c piece ih =>
    have hcount : count max preferred (row.blurred :: rest.map Row.blurred) = c :=
      count_blurred max preferred (row :: rest)
    have hpiece : (row.blurred :: rest.map Row.blurred).take c.1 = piece.map Row.blurred :=
      (List.map_take (f := Row.blurred) (l := row :: rest)).symm
    have hrest : (row.blurred :: rest.map Row.blurred).drop c.1 = ((row :: rest).drop c.1).map Row.blurred :=
      (List.map_drop (f := Row.blurred) (l := row :: rest)).symm
    rw [List.map_cons, split, hcount, hpiece, hrest, warnings_blurred, ih]
    rfl

end Piece

def ChunkUnit.blurred (u : ChunkUnit) : ChunkUnit := { u with rows := u.rows.map Row.blurred }

def ChunkDraft.blurred (d : ChunkDraft) : ChunkDraft :=
  { d with rows := d.rows.map Row.blurred, context := d.context.map blurText }

/-- The chunk with blurred text and context. -/
def Chunk.blurred (c : Chunk) : Chunk :=
  { c with text := blurText c.text, context := c.context.map blurText }

namespace ChunkPlan

/-- Numbering commutes with what is done to each element. -/
theorem mapIdx_map_of_comm {α β γ δ : Type} {f : α → β} {g : Nat → β → δ} {h : Nat → α → γ} {k : γ → δ}
    (hcomm : ∀ i x, g i (f x) = k (h i x)) (xs : List α) : (xs.map f).mapIdx g = (xs.mapIdx h).map k := by
  apply List.ext_getElem?
  intro i
  rw [List.getElem?_mapIdx, List.getElem?_map, List.getElem?_map, List.getElem?_mapIdx, Option.map_map,
    Option.map_map]
  exact congrArg (Option.map · xs[i]?) (funext (hcomm i))

theorem rowsOf_of_differ {text text' : List Char} (h : DifferInLiterals .pseudocode text text') :
    (rowsOf (Outline.ofText text).1 text).map Row.blurred =
      (rowsOf (Outline.ofText text').1 text').map Row.blurred := by
  have hpieces : (pieces text).map (List.map blur) = (pieces text').map (List.map blur) := by
    rw [← pieces_map_blur, h.map_blur, pieces_map_blur]
  have hsafe (o : Option Outline) (line : Nat) :
      (o.map Outline.blurred).all (·.isSafeAfter line) = o.all (·.isSafeAfter line) := by
    cases o <;> rfl
  have hrows (o : Option Outline) (text : List Char) :
      ((pieces text).map (List.map blur)).mapIdx
          (fun i piece => ⟨i + 1, piece, (o.map Outline.blurred).all (·.isSafeAfter (i + 1))⟩) =
        (rowsOf o text).map Row.blurred := by
    apply mapIdx_map_of_comm
    intro i piece
    rw [hsafe]
    rfl
  rw [← hrows, ← hrows, hpieces, (Outline.ofText_of_differ h).1]

theorem takeWhile_blurred (p : Nat → Bool) (rows : List Row) :
    (rows.map Row.blurred).takeWhile (fun r => p r.number) =
      (rows.takeWhile fun r => p r.number).map Row.blurred := by
  rw [List.takeWhile_map]
  rfl

theorem dropWhile_blurred (p : Nat → Bool) (rows : List Row) :
    (rows.map Row.blurred).dropWhile (fun r => p r.number) =
      (rows.dropWhile fun r => p r.number).map Row.blurred := by
  rw [List.dropWhile_map]
  rfl

theorem unitsOf_blurred (innerEnds : Nat → Nat → List Nat) (spans : List Span) (rows : List Row) :
    unitsOf innerEnds spans (rows.map Row.blurred) =
      (unitsOf innerEnds spans rows).map ChunkUnit.blurred := by
  have hunit (rows : List Row) : (if (rows.map Row.blurred).isEmpty then []
      else [ChunkUnit.mk (rows.map Row.blurred) false []]) =
      (if rows.isEmpty then [] else [ChunkUnit.mk rows false []]).map ChunkUnit.blurred := by
    cases rows <;> rfl
  induction spans generalizing rows with
  | nil => exact hunit rows
  | cons span spans ih =>
    rw [unitsOf, unitsOf, takeWhile_blurred (· < span.startLine), dropWhile_blurred (· < span.startLine),
      takeWhile_blurred (· ≤ span.endLine), dropWhile_blurred (· ≤ span.endLine), ih, hunit, List.map_append]
    rfl

theorem contextOf_blurred (overlap : Nat) (piece : List Row) :
    contextOf overlap (piece.map Row.blurred) = (contextOf overlap piece).map blurText := by
  unfold contextOf
  dsimp only
  rw [List.length_map, ← List.map_drop, Row.join_map_blurred, isBlank_map_blur]
  split
  · rfl
  · rw [Option.map_some, blurText_ofList]

theorem draftPieces_blurred (overlap : Nat) (kind : ChunkKind) (previous : Option (List Row))
    (pieces : List (List Row)) :
    draftPieces overlap kind (previous.map (List.map Row.blurred)) (pieces.map (List.map Row.blurred)) =
      (draftPieces overlap kind previous pieces).map ChunkDraft.blurred := by
  induction pieces generalizing previous with
  | nil => rfl
  | cons piece rest ih =>
    have hcontext : (previous.map (List.map Row.blurred)).bind (contextOf overlap) =
        (previous.bind (contextOf overlap)).map blurText := by
      cases previous with
      | none => rfl
      | some piece => exact contextOf_blurred overlap piece
    have htail := ih (some piece)
    rw [Option.map_some] at htail
    rw [List.map_cons, draftPieces, draftPieces, hcontext, htail, List.isEmpty_map]
    rfl

theorem splitUnit_blurred (limits : ChunkLimits) (unit : ChunkUnit) :
    splitUnit limits unit.blurred = Prod.map (List.map ChunkDraft.blurred) id (splitUnit limits unit) := by
  have hsplit := Piece.split_blurred limits.maxSize unit.preferred unit.rows
  have hpieces : ((Piece.split limits.maxSize unit.preferred unit.blurred.rows).map (·.1)) =
      ((Piece.split limits.maxSize unit.preferred unit.rows).map (·.1)).map (List.map Row.blurred) := by
    rw [ChunkUnit.blurred, hsplit, List.map_map, List.map_map]
    rfl
  have hwarnings : (Piece.split limits.maxSize unit.preferred unit.blurred.rows).flatMap (·.2) =
      (Piece.split limits.maxSize unit.preferred unit.rows).flatMap (·.2) := by
    rw [ChunkUnit.blurred, hsplit, List.flatMap_map]
    rfl
  have hdrafts := draftPieces_blurred limits.overlap (if unit.isBlock then .partialBlock else .leftoverFragment)
    none ((Piece.split limits.maxSize unit.preferred unit.rows).map (·.1))
  rw [← hpieces] at hdrafts
  exact Prod.ext hdrafts hwarnings

theorem whole_blurred (rows : List Row) :
    whole (rows.map Row.blurred) = (whole rows).map ChunkDraft.blurred := by
  cases rows <;> rfl

theorem pack_blurred (limits : ChunkLimits) (current : List Row) (units : List ChunkUnit) :
    pack limits (current.map Row.blurred) (units.map ChunkUnit.blurred) =
      Prod.map (List.map ChunkDraft.blurred) id (pack limits current units) := by
  induction units generalizing current with
  | nil => exact Prod.ext (whole_blurred current) rfl
  | cons unit units ih =>
    have hrows : unit.blurred.rows = unit.rows.map Row.blurred := rfl
    rw [List.map_cons, pack, pack]
    dsimp only
    rw [hrows, Row.total_map_blurred, Row.total_map_blurred, List.isEmpty_map]
    by_cases hfits : (!current.isEmpty &&
        decide (Row.total current + Row.total unit.rows ≤ limits.maxSize)) = true
    · rw [if_pos hfits, if_pos hfits, ← List.map_append, ih]
    · rw [if_neg hfits, if_neg hfits]
      by_cases hsize : Row.total unit.rows ≤ limits.maxSize
      · rw [if_pos hsize, if_pos hsize, ih, whole_blurred]
        exact Prod.ext List.map_append.symm rfl
      · have hrest := ih []
        rw [List.map_nil] at hrest
        rw [if_neg hsize, if_neg hsize, hrest, whole_blurred, splitUnit_blurred]
        refine Prod.ext ?_ rfl
        simp only [Prod.map_fst, List.map_append]

theorem drafts_blurred (limits : ChunkLimits) (outline : Option Outline) (rows : List Row) :
    drafts limits (outline.map Outline.blurred) (rows.map Row.blurred) =
      Prod.map (List.map ChunkDraft.blurred) id (drafts limits outline rows) := by
  have hunit := splitUnit_blurred limits ⟨rows, false, []⟩
  cases outline with
  | none => exact hunit
  | some o =>
    rw [Option.map_some, drafts, drafts, Outline.spans_blurred, Outline.innerEnds_blurred, unitsOf_blurred]
    split
    · exact hunit
    · exact pack_blurred limits [] (unitsOf o.innerEnds o.spans rows)

theorem chunkOf_blurred (outline : Option Outline) (index : Nat) (d : ChunkDraft) :
    chunkOf (outline.map Outline.blurred) index d.blurred = (chunkOf outline index d).blurred := by
  have hfirst : (d.blurred.rows.head?.map Row.number).getD 1 = (d.rows.head?.map Row.number).getD 1 := by
    rw [ChunkDraft.blurred, List.head?_map, Option.map_map]
    rfl
  have hlast (first : Nat) : (d.blurred.rows.getLast?.map Row.number).getD first =
      (d.rows.getLast?.map Row.number).getD first := by
    rw [ChunkDraft.blurred, List.getLast?_map, Option.map_map]
    rfl
  have hdepth (first : Nat) : ((outline.map Outline.blurred).map (·.depthAt first)).getD 0 =
      (outline.map (·.depthAt first)).getD 0 := by
    cases outline with
    | none => rfl
    | some o => exact Outline.depthAt_blurred o first
  have htext : String.ofList (Row.join d.blurred.rows) = blurText (String.ofList (Row.join d.rows)) := by
    rw [ChunkDraft.blurred, Row.join_map_blurred, blurText_ofList]
  rw [chunkOf, chunkOf, hfirst, hlast, hdepth, htext]
  rfl

theorem number_blurred (outline : Option Outline) (ds : List ChunkDraft) :
    number (outline.map Outline.blurred) (ds.map ChunkDraft.blurred) =
      (number outline ds).map Chunk.blurred :=
  mapIdx_map_of_comm (chunkOf_blurred outline) ds

/-- Texts that differ in the content of literals are cut at the same lines. -/
theorem ofText_of_differ {text text' : List Char} (h : DifferInLiterals .pseudocode text text')
    (limits : ChunkLimits) :
    (ofText limits text).chunks.map Chunk.blurred = (ofText limits text').chunks.map Chunk.blurred ∧
      (ofText limits text).warnings = (ofText limits text').warnings ∧
      (ofText limits text).issues = (ofText limits text').issues := by
  obtain ⟨houtline, hissues⟩ := Outline.ofText_of_differ h
  have hdrafts (text : List Char) := drafts_blurred { limits with maxSize := limits.maxSize.max 1 }
    (Outline.ofText text).1 (rowsOf (Outline.ofText text).1 text)
  have hplan := hdrafts text
  rw [houtline, rowsOf_of_differ h, hdrafts text'] at hplan
  obtain ⟨hchunks, hwarnings⟩ := Prod.ext_iff.1 hplan
  refine ⟨?_, hwarnings.symm, hissues⟩
  unfold ofText
  dsimp only
  rw [← number_blurred, ← number_blurred, houtline]
  exact congrArg _ hchunks.symm

end ChunkPlan

/-- What stands in the string literals of a text never influences its structure.  Another text with other
letters there is scanned alike, with whichever comment marks; read as pseudocode it has the same issues and the
same blocks but for letters in their headers, and under any limits it is cut into the same chunks but for
letters in their texts, with the same warnings. -/
theorem structure_of_differInLiterals (text text' : List Char) :
    (∀ style, DifferInLiterals style text text' → scan style text = scan style text') ∧
      (DifferInLiterals .pseudocode text text' →
        (Outline.ofText text).1.map Outline.blurred = (Outline.ofText text').1.map Outline.blurred ∧
        (Outline.ofText text).2 = (Outline.ofText text').2 ∧
        ∀ limits,
          (ChunkPlan.ofText limits text).chunks.map Chunk.blurred =
            (ChunkPlan.ofText limits text').chunks.map Chunk.blurred ∧
          (ChunkPlan.ofText limits text).warnings = (ChunkPlan.ofText limits text').warnings ∧
          (ChunkPlan.ofText limits text).issues = (ChunkPlan.ofText limits text').issues) := by
  refine ⟨fun style h => scan_of_differ h, fun h => ?_⟩
  obtain ⟨houtline, hissues⟩ := Outline.ofText_of_differ h
  exact ⟨houtline, hissues, ChunkPlan.ofText_of_differ h⟩

/-- A text with a literal that runs over lines and one that has an escaped apostrophe. -/
def quoting (long short : String) : List Char :=
  ("IF a:\n  x = \"\"\"" ++ long ++ "\"\"\"\n  PRINT 'isn\\'" ++ short ++ "' # 'b'\n").toList

/-- Keywords in the literals of a text, and other words of the same length. -/
theorem structure_of_quoted_keywords :
    DifferInLiterals .pseudocode (quoting "END IF\nELSE 1" "t") (quoting "abc de\nfghi 2" "q") ∧
      scan .pseudocode (quoting "END IF\nELSE 1" "t") = scan .pseudocode (quoting "abc de\nfghi 2" "q") ∧
      (Outline.ofText (quoting "END IF\nELSE 1" "t")).1.map Outline.blurred =
        (Outline.ofText (quoting "abc de\nfghi 2" "q")).1.map Outline.blurred := by
  have hdiffer : DifferInLiterals .pseudocode (quoting "END IF\nELSE 1" "t")
      (quoting "abc de\nfghi 2" "q") := by decide +kernel
  obtain ⟨hscan, hstructure⟩ := structure_of_differInLiterals (quoting "END IF\nELSE 1" "t")
    (quoting "abc de\nfghi 2" "q")
  exact ⟨hdiffer, hscan .pseudocode hdiffer, (hstructure hdiffer).1⟩

end Pseudoscribe
