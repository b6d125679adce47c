import Mathlib.Data.List.TakeWhile
import Pseudoscribe.Proofs.Assembly.Layout

/-!
# Lines and the chunks that they come from

Every line of a result comes from one chunk, and the chunks stand in their order.  When imports are moved to the
head, they are lines of converted chunks; all other lines stay as they are, but for blank ones that would stand
at the beginning.
-/

namespace Pseudoscribe

namespace Assembly

open Text

/-! ## What a chunk brings -/

/-- What a chunk brings to the code: its piece, and the newline behind it if one is needed. -/
def share (ends : Chunk → ChunkEnd) (c : Chunk) (isLast : Bool) : List Char :=
  ((ends c).text c).toList ++ breakBehind ((ends c).text c).toList isLast

/-- The lines of the result, each with the chunk that it comes from. -/
def ownedLines (ends : Chunk → ChunkEnd) : List Chunk → List (Chunk × List Char)
  | [] => []
  | c :: cs => (pieces (share ends c cs.isEmpty)).map (c, ·) ++ ownedLines ends cs

/-! ## Which lines are moved -/

/-- The line is moved to the head: an import that a converted chunk brings. -/
def moves (language : Language) (ends : Chunk → ChunkEnd) (l : Chunk × List Char) : Bool :=
  (ends l.1).status == .succeeded && ImportLine.isTopLevel language l.2

/-- The lines of a result come from these chunks, and the reports name the chunks that they come from. -/
structure Owned (language : Language) (ends : Chunk → ChunkEnd) (a : Assembly)
    (lines : List (Chunk × List Char)) : Prop where
  text : pieces a.code.toList = lines.map Prod.snd
  within : ∀ r ∈ a.chunks, ∀ range ∈ r.outputLines, range.2 ≤ lines.length
  movable : ∀ i l, lines[i]? = some l → a.isMovable language (i + 1) l.2 = moves language ends l

/-- The chunk as a part of the result. -/
def toPart (ends : Chunk → ChunkEnd) (c : Chunk) : Part := ⟨c, ends c⟩

theorem addEach_eq_addParts (ends : Chunk → ChunkEnd) (a : Assembly) (chunks : List Chunk) :
    addEach ends a chunks = a.addParts (chunks.map (toPart ends)) := by
  induction chunks generalizing a with
  | nil => rfl
  | cons c cs ih =>
    rw [addEach, List.map_cons, addParts, List.isEmpty_map]
    exact ih _

theorem ownedLines_eq (ends : Chunk → ChunkEnd) (chunks : List Chunk) :
    ownedLines ends chunks = (linesOf (chunks.map (toPart ends))).map fun l => (l.part.chunk, l.text) := by
  induction chunks with
  | nil => rfl
  | cons c cs ih =>
    rw [ownedLines, List.map_cons, linesOf, List.map_append, ← ih, List.isEmpty_map, Part.lines, List.map_map]
    rfl

theorem part_of_mem_linesOf_map {ends : Chunk → ChunkEnd} {chunks : List Chunk} {l : Line}
    (h : l ∈ linesOf (chunks.map (toPart ends))) : l.part.final = ends l.part.chunk := by
  obtain ⟨c, -, hc⟩ := List.mem_map.1 (exists_of_mem_linesOf h).1
  rw [← hc]
  rfl

/-- Chunks that are put together bring their lines. -/
theorem owned_addEach (language : Language) (ends : Chunk → ChunkEnd) (id : RequestId) (chunks : List Chunk) :
    Owned language ends (Assembly.addEach ends { id } chunks) (ownedLines ends chunks) := by
  obtain ⟨htext, hchunks⟩ := layout_addParts (a := { id }) closed_nil (chunks.map (toPart ends))
  rw [← addEach_eq_addParts] at htext hchunks
  refine ⟨?_, fun r hr range hrange => ?_, fun i l hl => ?_⟩
  · rw [htext, ownedLines_eq, List.map_map]
    rfl
  · rw [hchunks] at hr
    have hlast : range.2 ≤ 0 + (linesOf (chunks.map (toPart ends))).length := (range_of_mem_reportsOf hr hrange).2
    rwa [Nat.zero_add, ← List.length_map (fun l : Line => (l.part.chunk, l.text)), ← ownedLines_eq] at hlast
  · rw [ownedLines_eq, List.getElem?_map] at hl
    obtain ⟨l', hl', rfl⟩ := Option.map_eq_some_iff.1 hl
    dsimp only
    rw [isMovable_of_reports hchunks language hl', Line.moves, part_of_mem_linesOf_map (List.mem_of_getElem? hl')]
    rfl

/-! ## Moving imports -/

/-- The imports at the head of the result, those first that come before all others, and an empty line if
anything follows. -/
def heading (language : Language) (statements : List (List Char)) (body : List Char) : List Char :=
  let (leading, rest) := statements.partition (ImportLine.isLeading language)
  unlines (leading ++ rest) ++ if isBlank body then ['\n'] else ['\n', '\n']

/-- The imports that are moved, each once. -/
def statements (language : Language) (ends : Chunk → ChunkEnd) (lines : List (Chunk × List Char)) :
    List (List Char) :=
  ((lines.filter (moves language ends)).map fun l => trimEnd l.2).eraseDups

/-- The lines that are not moved. -/
def staying (language : Language) (ends : Chunk → ChunkEnd) (lines : List (Chunk × List Char)) :
    List (List Char) :=
  (lines.filter (!moves language ends ·)).map Prod.snd

/-- The code made of lines.  When there are imports to be moved they stand at its head, and behind them the other
lines without the blank ones that they begin with. -/
def hoistedCode (language : Language) (ends : Chunk → ChunkEnd) (lines : List (Chunk × List Char)) :
    List Char :=
  let imports := statements language ends lines
  let body := ((staying language ends lines).dropWhile isBlank).flatten
  if imports.isEmpty then (lines.map Prod.snd).flatten else heading language imports body ++ body

theorem staying_append (language : Language) (ends : Chunk → ChunkEnd) (xs ys : List (Chunk × List Char)) :
    staying language ends (xs ++ ys) = staying language ends xs ++ staying language ends ys := by
  rw [staying, List.filter_append, List.map_append]
  rfl

/-- The lines that are left when the blank ones at the beginning are dropped. -/
theorem left_dropLeadingBlanks (ls : List HoistLine) :
    ((dropLeadingBlanks ls).filter (!·.removed)).map HoistLine.text =
      ((ls.filter (!·.removed)).map HoistLine.text).dropWhile isBlank := by
  induction ls with
  | nil => rfl
  | cons l ls ih =>
    rw [dropLeadingBlanks]
    cases hremoved : l.removed with
    | true =>
      rw [if_pos rfl, List.filter_cons_of_neg (by simp [hremoved]), List.filter_cons_of_neg (by simp [hremoved])]
      exact ih
    | false =>
      rw [if_neg Bool.false_ne_true, @List.filter_cons_of_pos _ _ l ls (by simp [hremoved]), List.map_cons]
      cases hblank : isBlank l.text with
      | true =>
        rw [if_pos rfl, List.filter_cons_of_neg (by simp), List.dropWhile_cons_of_pos hblank]
        exact ih
      | false =>
        rw [if_neg Bool.false_ne_true, List.filter_cons_of_pos (by simp [hremoved]), List.map_cons,
          List.dropWhile_cons_of_neg (by simp [hblank])]

theorem Owned.hoistLines {language : Language} {ends : Chunk → ChunkEnd} {a : Assembly}
    {lines : List (Chunk × List Char)} (h : Owned language ends a lines) :
    ((pieces a.code.toList).mapIdx fun i text => HoistLine.mk text (a.isMovable language (i + 1) text)) =
      lines.map fun l => ⟨l.2, moves language ends l⟩ := by
  refine List.ext_getElem? fun i => ?_
  rw [List.getElem?_mapIdx, h.text, List.getElem?_map, List.getElem?_map]
  cases hl : lines[i]? with
  | none => rfl
  | some l =>
    dsimp only [Option.map_some]
    rw [h.movable i l hl]

/-- The code after imports were moved to the head. -/
theorem Owned.code_hoist {language : Language} {ends : Chunk → ChunkEnd} {a : Assembly}
    {lines : List (Chunk × List Char)} (h : Owned language ends a lines) :
    (a.hoist language).1.code.toList = hoistedCode language ends lines := by
  have hstatements : (((lines.map fun l => HoistLine.mk l.2 (moves language ends l)).filter (·.removed)).map
      (fun l => trimEnd l.text)).eraseDups = statements language ends lines := by
    rw [List.filter_map, List.map_map]
    rfl
  have hstaying : ((lines.map fun l => HoistLine.mk l.2 (moves language ends l)).filter (!·.removed)).map
      HoistLine.text = staying language ends lines := by
    rw [List.filter_map, List.map_map]
    rfl
  unfold hoist hoistedCode
  rw [h.hoistLines]
  dsimp only
  rw [hstatements]
  split
  · rw [← h.text, flatten_pieces]
  · rw [left_dropLeadingBlanks, hstaying, String.toList_ofList]
    rfl

/-- Nothing else is changed than the code and the lines that chunks own. -/
theorem hoist_fst (a : Assembly) (language : Language) : (a.hoist language).1 =
    { a with code := (a.hoist language).1.code, chunks := (a.hoist language).1.chunks } := by
  unfold hoist
  dsimp only
  split <;> rfl

theorem reports_hoist {ends : Chunk → ChunkEnd} {chunks : List Chunk} {a : Assembly} (language : Language)
    (h : List.Forall₂ (Reports ends) chunks a.chunks) :
    List.Forall₂ (Reports ends) chunks (a.hoist language).1.chunks := by
  unfold hoist
  dsimp only
  split
  · exact h
  · exact List.forall₂_map_right_iff.2
      (h.imp fun c r hr => ⟨hr.chunk, hr.startLine, hr.endLine, hr.status, hr.attempts, hr.confidence⟩)

/-! ## What stays of a chunk -/

/-- The lines of a chunk stand together. -/
theorem exists_ownedLines_eq (ends : Chunk → ChunkEnd) {chunks : List Chunk} {c : Chunk} (h : c ∈ chunks) :
    ∃ before behind isLast,
      ownedLines ends chunks = before ++ (pieces (share ends c isLast)).map (c, ·) ++ behind := by
  induction chunks with
  | nil => cases h
  | cons d ds ih =>
    rw [ownedLines]
    rcases List.mem_cons.1 h with rfl | h
    · exact ⟨[], ownedLines ends ds, ds.isEmpty, rfl⟩
    · obtain ⟨before, behind, isLast, heq⟩ := ih h
      refine ⟨(pieces (share ends d ds.isEmpty)).map (d, ·) ++ before, behind, isLast, ?_⟩
      rw [heq]
      simp only [List.append_assoc]

/-- Of lines that stand together only blank ones at the beginning are dropped. -/
theorem exists_dropWhile_append (p : List Char → Bool) (xs ys zs : List (List Char)) :
    ∃ dropped kept, ys = dropped ++ kept ∧ (∀ t ∈ dropped, p t = true) ∧
      kept <:+: (xs ++ ys ++ zs).dropWhile p := by
  rw [List.append_assoc, List.dropWhile_append]
  split
  · refine ⟨ys.takeWhile p, ys.dropWhile p, List.takeWhile_append_dropWhile.symm,
      fun t ht => List.mem_takeWhile_imp ht, ?_⟩
    rw [List.dropWhile_append]
    split
    · next hall =>
      rw [List.isEmpty_iff.1 hall]
      exact List.nil_infix
    · exact ⟨[], zs, rfl⟩
  · exact ⟨[], ys, rfl, fun t ht => absurd ht List.not_mem_nil, ⟨xs.dropWhile p, zs, List.append_assoc _ _ _⟩⟩

theorem infix_flatten {xs ys : List (List Char)} (h : xs <:+: ys) : xs.flatten <:+: ys.flatten := by
  obtain ⟨before, behind, rfl⟩ := h
  exact ⟨before.flatten, behind.flatten, by rw [List.flatten_append, List.flatten_append]⟩

/-- Some line is an import that is moved. -/
def Moving (language : Language) (ends : Chunk → ChunkEnd) (chunks : List Chunk) : Prop :=
  ∃ l ∈ ownedLines ends chunks, moves language ends l = true

theorem statements_isEmpty {language : Language} {ends : Chunk → ChunkEnd} {lines : List (Chunk × List Char)} :
    (statements language ends lines).isEmpty = true ↔ ∀ l ∈ lines, moves language ends l = false := by
  rw [List.isEmpty_iff]
  constructor
  · intro hnone l hl
    rw [← Bool.not_eq_true]
    intro hmoves
    have hmem : trimEnd l.2 ∈ statements language ends lines :=
      List.mem_eraseDups.2 (List.mem_map_of_mem (List.mem_filter.2 ⟨hl, hmoves⟩))
    rw [hnone] at hmem
    cases hmem
  · intro hnone
    rw [statements, List.filter_eq_nil_iff.2 fun l hl => Bool.eq_false_iff.1 (hnone l hl)]
    rfl

/-- Without an import the code is that of the chunks, one behind the other. -/
theorem staying_of_forall {language : Language} {ends : Chunk → ChunkEnd} {lines : List (Chunk × List Char)}
    (h : ∀ l ∈ lines, moves language ends l = false) : staying language ends lines = lines.map Prod.snd := by
  rw [staying, List.filter_eq_self.2 fun l hl => by rw [h l hl]; rfl]

/-- The lines of a chunk that are no imports to be moved stand together in the code, but for blank ones with
which the code would begin. -/
theorem exists_kept (language : Language) (ends : Chunk → ChunkEnd) {chunks : List Chunk} {c : Chunk}
    (h : c ∈ chunks) : ∃ isLast dropped kept,
      staying language ends ((pieces (share ends c isLast)).map (c, ·)) = dropped ++ kept ∧
      (∀ t ∈ dropped, isBlank t = true) ∧
      kept.flatten <:+: hoistedCode language ends (ownedLines ends chunks) ∧
      (dropped ≠ [] → Moving language ends chunks) := by
  obtain ⟨before, behind, isLast, heq⟩ := exists_ownedLines_eq ends h
  have hstaying : staying language ends (ownedLines ends chunks) = staying language ends before ++
      staying language ends ((pieces (share ends c isLast)).map (c, ·)) ++ staying language ends behind := by
    rw [heq, staying_append, staying_append]
  unfold hoistedCode
  dsimp only
  rw [hstaying]
  cases hnone : (statements language ends (ownedLines ends chunks)).isEmpty with
  | true =>
    refine ⟨isLast, [], _, rfl, fun t ht => absurd ht List.not_mem_nil, ?_, fun hne => absurd rfl hne⟩
    rw [if_pos rfl, ← staying_of_forall (statements_isEmpty.1 hnone), hstaying]
    exact infix_flatten ⟨_, _, rfl⟩
  | false =>
    have hmoving : Moving language ends chunks := by
      by_contra hno
      simp only [Moving, not_exists, not_and, Bool.not_eq_true] at hno
      rw [statements_isEmpty.2 hno] at hnone
      cases hnone
    obtain ⟨dropped, kept, hsplit, hblank, hkept⟩ := exists_dropWhile_append isBlank
      (staying language ends before) (staying language ends ((pieces (share ends c isLast)).map (c, ·)))
      (staying language ends behind)
    refine ⟨isLast, dropped, kept, hsplit, hblank, ?_, fun _ => hmoving⟩
    rw [if_neg Bool.false_ne_true]
    exact (infix_flatten hkept).trans (List.suffix_append _ _).isInfix

/-- The source text of a chunk that was not converted stands in the code, but for blank lines with which the code
would begin behind imports that are moved. -/
theorem exists_verbatim (language : Language) {ends : Chunk → ChunkEnd} {chunks : List Chunk} {c : Chunk}
    (h : c ∈ chunks) (hsource : (ends c).status ≠ .succeeded) : ∃ dropped kept,
      c.text.toList = dropped ++ kept ∧ isBlank dropped = true ∧
      kept <:+: hoistedCode language ends (ownedLines ends chunks) ∧
      (dropped ≠ [] → Moving language ends chunks) := by
  obtain ⟨isLast, dropped, kept, hsplit, hblank, hkept, hmoving⟩ := exists_kept language ends h
  have htext : (ends c).text c = c.text := by
    cases hfinal : ends c with
    | converted => exact absurd (by rw [hfinal]; rfl) hsource
    | abandoned => rfl
    | cancelled => rfl
  have hall : staying language ends ((pieces (share ends c isLast)).map (c, ·)) = pieces (share ends c isLast) := by
    rw [staying_of_forall, List.map_map]
    · exact List.map_id _
    · intro l hl
      obtain ⟨t, ht, rfl⟩ := List.mem_map.1 hl
      rw [moves, beq_false_of_ne hsource, Bool.false_and]
  have hdropped : isBlank dropped.flatten = true := by
    rw [isBlank, List.all_flatten]
    exact List.all_eq_true.2 hblank
  have hshare : c.text.toList ++ breakBehind c.text.toList isLast = dropped.flatten ++ kept.flatten := by
    rw [← List.flatten_append, ← hsplit, hall, flatten_pieces, share, htext]
  rcases List.append_eq_append_iff.1 hshare with ⟨rest, hlong, -⟩ | ⟨rest, hlong, hrest⟩
  · -- the blank lines reach to the end of the text
    rw [hlong, isBlank_append, Bool.and_eq_true] at hdropped
    refine ⟨c.text.toList, [], (List.append_nil _).symm, hdropped.1, List.nil_infix, fun hne => hmoving ?_⟩
    rintro rfl
    exact hne (List.append_eq_nil_iff.1 hlong.symm).1
  · refine ⟨dropped.flatten, rest, hlong, hdropped, ?_, fun hne => hmoving fun hnil => hne ?_⟩
    · rw [hrest] at hkept
      exact (List.prefix_append rest _).isInfix.trans hkept
    · rw [hnil, List.flatten_nil]

end Assembly

end Pseudoscribe
