import Pseudoscribe.Proofs.Assembly.Ownership
import Pseudoscribe.Proofs.Cache.Key
import Pseudoscribe.Proofs.Chunk.Size
import Pseudoscribe.Proofs.Review.Places
import Pseudoscribe.Proofs.Run.Result

/-!
# Warnings and the chunks that they blame

A warning of the plan names the lines of one chunk, and an issue of the source text lies on a line of one chunk.  The
result has all of them, in their order, behind the warnings of the answers and before those of the code.  An issue is
blamed on the chunk of its line; a warning of the plan is blamed on the first chunk, whichever it names.
-/

namespace Pseudoscribe

/-! ## Lines and chunks -/

/-- The line belongs to the chunk. -/
def Chunk.HasLine (c : Chunk) (line : Nat) : Prop := c.startLine ≤ line ∧ line ≤ c.endLine

instance (c : Chunk) (line : Nat) : Decidable (c.HasLine line) :=
  inferInstanceAs (Decidable (c.startLine ≤ line ∧ line ≤ c.endLine))

namespace ChunkPlan.Covers

variable {before line : Nat} {lines : List (List Char)} {chunks : List Chunk}

theorem exists_hasLine (h : Covers before lines chunks) (hlt : before < line) (hle : line ≤ before + lines.length) :
    ∃ c ∈ chunks, c.HasLine line := by
  induction h with
  | nil =>
    rw [List.length_nil] at hle
    omega
  | @cons before lines rest c cs _ _ start_eq end_eq _ ih =>
    rw [List.length_append] at hle
    by_cases hhere : line ≤ c.endLine
    · exact ⟨c, List.mem_cons_self, by omega, hhere⟩
    · obtain ⟨d, hd, hline⟩ := ih (by omega) (by omega)
      exact ⟨d, List.mem_cons_of_mem c hd, hline⟩

theorem eq_of_hasLine (h : Covers before lines chunks) {c d : Chunk} (hc : c ∈ chunks) (hd : d ∈ chunks)
    (hcline : c.HasLine line) (hdline : d.HasLine line) : c = d := by
  induction h with
  | nil => cases hc
  | @cons before lines rest e es _ _ _ _ next ih =>
    -- all other chunks begin behind the first one
    have hbehind {x : Chunk} (hx : x ∈ es) (hxline : x.HasLine line) : ¬ e.HasLine line := by
      have hlt := (next.lines_eq x hx).1
      unfold Chunk.HasLine at hxline ⊢
      omega
    rcases List.mem_cons.1 hc with rfl | hcs
    · rcases List.mem_cons.1 hd with rfl | hds
      · rfl
      · exact absurd hcline (hbehind hds hdline)
    · rcases List.mem_cons.1 hd with rfl | hds
      · exact absurd hdline (hbehind hcs hcline)
      · exact ih hcs hds

theorem existsUnique_hasLine (h : Covers before lines chunks) (hlt : before < line)
    (hle : line ≤ before + lines.length) : ∃! c, c ∈ chunks ∧ c.HasLine line := by
  obtain ⟨c, hc, hline⟩ := h.exists_hasLine hlt hle
  exact ⟨c, ⟨hc, hline⟩, fun d hd => h.eq_of_hasLine hd.1 hc hd.2 hline⟩

theorem ownerOfSource_eq (h : Covers before lines chunks) {c : Chunk} (hc : c ∈ chunks) (hline : c.HasLine line) :
    Run.ownerOfSource chunks line = c.index := by
  have hfound : chunks.find? (fun d => decide (d.startLine ≤ line) && decide (line ≤ d.endLine)) = some c := by
    cases hfind : chunks.find? fun d => decide (d.startLine ≤ line) && decide (line ≤ d.endLine) with
    | none =>
      have hnone := List.find?_eq_none.1 hfind c hc
      simp only [Bool.and_eq_true, decide_eq_true_eq] at hnone
      exact absurd hline hnone
    | some d =>
      have hd := List.find?_some hfind
      simp only [Bool.and_eq_true, decide_eq_true_eq] at hd
      rw [h.eq_of_hasLine (List.mem_of_find?_eq_some hfind) hc hd hline]
  rw [Run.ownerOfSource, hfound]

end ChunkPlan.Covers

/-! ## What warnings name -/

namespace CutWarning

/-- The first and the last line that the warning names. -/
def lines : CutWarning → Nat × Nat
  | noSafePoint first last => (first, last)
  | longLine line _ _ => (line, line)

/-- The warning names the lines of this chunk. -/
def Names (w : CutWarning) (c : Chunk) : Prop := w.lines = (c.startLine, c.endLine)

instance (w : CutWarning) (c : Chunk) : Decidable (w.Names c) :=
  inferInstanceAs (Decidable (w.lines = (c.startLine, c.endLine)))

theorem toList_message_noSafePoint (first last : Nat) : (noSafePoint first last).message.toList =
    "line".toList ++ 's' :: ' ' :: (Nat.toDigits 10 first ++ '-' ::
      (Nat.toDigits 10 last ++ ' ' :: "exceed max_chunk_size: no safe split point inside".toList)) := by
  have htext (s : String) : toString s = s := rfl
  simp [message, htext]

theorem exists_message_longLine (line length max : Nat) : ∃ rest, (longLine line length max).message.toList =
    "line".toList ++ ' ' :: (Nat.toDigits 10 line ++ ' ' :: rest) := by
  have htext (s : String) : toString s = s := rfl
  exact ⟨_, by simp [message, htext]; rfl⟩

/-- The text of a warning tells which lines it names. -/
theorem lines_eq_of_message_eq {v w : CutWarning} (h : v.message = w.message) : v.lines = w.lines := by
  have hdash (n : Nat) : '-' ∉ Nat.toDigits 10 n := notMem_toDigits rfl n
  have hblank (n : Nat) : ' ' ∉ Nat.toDigits 10 n := notMem_toDigits rfl n
  rw [← String.toList_inj] at h
  cases v with
  | noSafePoint first last =>
    cases w with
    | noSafePoint first' last' =>
      rw [toList_message_noSafePoint, toList_message_noSafePoint, List.append_cancel_left_eq, List.cons_inj_right,
        List.cons_inj_right, append_mark_inj_left (hdash _) (hdash _), append_mark_inj_left (hblank _) (hblank _)] at h
      rw [lines, lines, eq_of_toDigits_eq h.1, eq_of_toDigits_eq h.2.1]
    | longLine line length max =>
      obtain ⟨rest, hrest⟩ := exists_message_longLine line length max
      rw [toList_message_noSafePoint, hrest, List.append_cancel_left_eq] at h
      exact absurd (List.head_eq_of_cons_eq h) (by decide)
  | longLine line length max =>
    obtain ⟨rest, hrest⟩ := exists_message_longLine line length max
    cases w with
    | noSafePoint first last =>
      rw [toList_message_noSafePoint, hrest, List.append_cancel_left_eq] at h
      exact absurd (List.head_eq_of_cons_eq h) (by decide)
    | longLine line' length' max' =>
      obtain ⟨rest', hrest'⟩ := exists_message_longLine line' length' max'
      rw [hrest, hrest', List.append_cancel_left_eq, List.cons_inj_right,
        append_mark_inj_left (hblank _) (hblank _)] at h
      rw [lines, lines, eq_of_toDigits_eq h.1]

end CutWarning

theorem Chunk.names_tooLong (max : Nat) (c : Chunk) : (c.tooLong max).Names c := by
  unfold CutWarning.Names tooLong
  split
  · next hone => rw [CutWarning.lines, ← hone]
  · rfl

/-! ## Warnings of a plan -/

namespace ChunkPlan

/-- Where the warnings of a plan belong: each names the lines of one chunk, and no two read alike; each issue lies on a
line of one chunk. -/
structure Located (plan : ChunkPlan) : Prop where
  named : ∀ w ∈ plan.warnings, ∃! c, c ∈ plan.chunks ∧ w.Names c
  distinct : (plan.warnings.map CutWarning.message).Nodup
  issues : ∀ i ∈ plan.issues, ∃! c, c ∈ plan.chunks ∧ c.HasLine i.place.line

theorem eq_of_names (limits : ChunkLimits) (text : List Char) {w : CutWarning} {c d : Chunk}
    (hc : c ∈ (ofText limits text).chunks) (hd : d ∈ (ofText limits text).chunks) (hwc : w.Names c)
    (hwd : w.Names d) : c = d := by
  have hcovers := covers_ofText limits text
  obtain ⟨hstart, hend⟩ := Prod.mk.inj (hwc.symm.trans hwd)
  exact hcovers.eq_of_hasLine hc hd ⟨Nat.le_refl _, hcovers.ordered c hc⟩
    ⟨Nat.le_of_eq hstart.symm, hend ▸ hcovers.ordered c hc⟩

/-- An issue of a text stands on a line of it. -/
theorem line_of_issue {text : List Char} {i : Issue} (hi : i ∈ (Outline.ofText text).2) :
    0 < i.place.line ∧ i.place.line ≤ (Text.pieces text).length := by
  obtain ⟨l, hl, -⟩ := Issue.placed_ofText text i hi
  have hlength : (readText .pseudocode text).length = (Text.pieces text).length := by
    have hraw := congrArg List.length (Scanner.map_raw_readAll { style := .pseudocode } (Text.lines text))
    rwa [List.length_map, Text.lines, List.length_map] at hraw
  rw [Place.lineOf?] at hl
  split at hl
  · cases hl
  · next hpos =>
    have hlt := (List.getElem?_eq_some_iff.1 hl).1
    omega

theorem located_ofText (limits : ChunkLimits) (text : List Char) : (ofText limits text).Located := by
  have hcovers := covers_ofText limits text
  have hwarnings := (limited_ofText limits text).warnings
  have hnodup : (ofText limits text).chunks.Nodup := by
    refine List.Nodup.of_map Chunk.index ?_
    rw [index_ofText]
    exact List.nodup_range
  refine ⟨fun w hw => ?_, ?_, fun i hi => ?_⟩
  · rw [hwarnings] at hw
    obtain ⟨c, hc, rfl⟩ := List.mem_map.1 hw
    have hmem := (List.mem_filter.1 hc).1
    exact ⟨c, ⟨hmem, c.names_tooLong _⟩, fun d hd => eq_of_names limits text hd.1 hmem hd.2 (c.names_tooLong _)⟩
  · rw [hwarnings, List.map_map]
    refine List.Nodup.map_on (fun c hc d hd hsame => ?_) (hnodup.filter _)
    have hlines := CutWarning.lines_eq_of_message_eq hsame
    exact eq_of_names limits text (List.mem_filter.1 hc).1 (List.mem_filter.1 hd).1 (c.names_tooLong _)
      (hlines.trans (d.names_tooLong _))
  · obtain ⟨hpos, hle⟩ := line_of_issue hi
    exact hcovers.existsUnique_hasLine hpos (by rwa [Nat.zero_add])

/-- All chunks that a plan warns of are the first one exactly if no other is too long. -/
theorem warned_first_iff (limits : ChunkLimits) (text : List Char) :
    (∀ w ∈ (ofText limits text).warnings, ∃ c ∈ (ofText limits text).chunks, w.Names c ∧ c.index = 0) ↔
      ∀ c ∈ (ofText limits text).chunks, limits.maxSize.max 1 < c.length → c.index = 0 := by
  rw [(limited_ofText limits text).warnings]
  constructor
  · intro hall c hc hlong
    obtain ⟨d, hd, hnames, hfirst⟩ :=
      hall _ (List.mem_map_of_mem (List.mem_filter.2 ⟨hc, decide_eq_true hlong⟩))
    rwa [eq_of_names limits text hc hd (c.names_tooLong _) hnames]
  · intro hall w hw
    obtain ⟨c, hc, rfl⟩ := List.mem_map.1 hw
    obtain ⟨hmem, hlong⟩ := List.mem_filter.1 hc
    exact ⟨c, hmem, c.names_tooLong _, hall c hmem (of_decide_eq_true hlong)⟩

end ChunkPlan

/-! ## Warnings of a result -/

namespace Run

open Assembly

theorem warnings_foldl_addWarning {α : Type} (f : α → Diagnostic) (xs : List α) (a : Assembly) :
    (xs.foldl (fun a x => a.addWarning (f x).chunk (f x).message) a).warnings = a.warnings ++ xs.map f := by
  induction xs generalizing a with
  | nil => rw [List.foldl_nil, List.map_nil, List.append_nil]
  | cons x xs ih => rw [List.foldl_cons, ih, addWarning, List.append_assoc, List.map_cons, List.singleton_append]

/-- What is wrong with the source text, with the chunks of the lines. -/
def sourceWarnings (plan : ChunkPlan) : List Diagnostic :=
  plan.issues.map fun i => ⟨ownerOfSource plan.chunks i.place.line, s!"source {i.text}"⟩

/-- What is wrong with the code of a result, with the chunks of the lines. -/
def codeWarnings (language : Language) (a : Assembly) : List Diagnostic :=
  if a.cancelled || Text.isBlank a.code.toList then []
  else (Review.ofCode language a.code.toList).map fun i => ⟨ownerOfOutput a i.place.line, s!"output {i.text}"⟩

theorem warnings_withPlanWarnings (plan : ChunkPlan) (a : Assembly) : (withPlanWarnings plan a).warnings =
    a.warnings ++ plan.warnings.map (⟨0, ·.message⟩) ++ sourceWarnings plan := by
  have hissues := warnings_foldl_addWarning
    (fun i : Issue => (⟨ownerOfSource plan.chunks i.place.line, s!"source {i.text}"⟩ : Diagnostic)) plan.issues
  have hcuts := warnings_foldl_addWarning (fun w : CutWarning => (⟨0, w.message⟩ : Diagnostic)) plan.warnings
  rw [withPlanWarnings, hissues, hcuts, sourceWarnings]

theorem warnings_withReview (language : Language) (a : Assembly) :
    (withReview language a).warnings = a.warnings ++ codeWarnings language a := by
  unfold withReview codeWarnings
  split
  · rw [List.append_nil]
  · exact warnings_foldl_addWarning
      (fun i : Issue => (⟨ownerOfOutput a i.place.line, s!"output {i.text}"⟩ : Diagnostic)) _ a

/-- The warnings of a result are those of the answers, of the plan, of the source text and of the code. -/
theorem warnings_reportOf (id : RequestId) (language : Language) (plan : ChunkPlan) (ends : Chunk → ChunkEnd) :
    (reportOf id language plan ends).warnings =
      (plan.chunks.flatMap fun c => (ends c).warnings.map (⟨c.index, ·⟩)) ++
        plan.warnings.map (⟨0, ·.message⟩) ++ sourceWarnings plan ++
        codeWarnings language (reportOf id language plan ends) := by
  have hanswers : ((ofEnds id plan.chunks ends).hoist language).1.warnings =
      plan.chunks.flatMap fun c => (ends c).warnings.map (⟨c.index, ·⟩) := by
    rw [hoist_fst]
    exact warnings_addEach ends { id } plan.chunks
  have hcode : codeWarnings language (reportOf id language plan ends) =
      codeWarnings language (withPlanWarnings plan ((ofEnds id plan.chunks ends).hoist language).1) := by
    rw [reportOf, withReview_eq]
    rfl
  rw [hcode, reportOf, warnings_withReview, warnings_withPlanWarnings, hanswers]

/-- Every result has each warning of the plan and each issue of the source text once, in the places that belong to
them.  An issue is blamed on the chunk that has its line.  The warnings of the plan are all blamed on the first chunk,
so that those on later ones are blamed on a wrong one; they are right exactly if no chunk but the first is too long. -/
theorem warnings_of_result {request : Request} {spec : BackendSpec} {cancelled : Bool} {now : Nat}
    {ms : List (Nat × RunMove)} {begun : List Nat} {r : Run} {a : Assembly}
    (hleads : Leads anyMove (new now request spec cancelled) ms begun r) (ha : r.result = some a) :
    a.warnings = (r.plan.chunks.flatMap fun c => (endOf r.finals c).warnings.map (⟨c.index, ·⟩)) ++
      r.plan.warnings.map (⟨0, ·.message⟩) ++ sourceWarnings r.plan ++ codeWarnings request.language a ∧
    r.plan.Located ∧
    (∀ i ∈ r.plan.issues, ∀ c ∈ r.plan.chunks, c.HasLine i.place.line →
      ownerOfSource r.plan.chunks i.place.line = c.index) ∧
    ((∀ w ∈ r.plan.warnings, ∃ c ∈ r.plan.chunks, w.Names c ∧ c.index = 0) ↔
      ∀ c ∈ r.plan.chunks, request.options.maxChunkSize.max 1 < c.length → c.index = 0) := by
  have horder := hleads.orderly (orderly_new now request spec cancelled)
  obtain ⟨hrequest, -, hplan⟩ := hleads.fixed
  have hsame : r.request = request := hrequest
  have htext : r.plan = ChunkPlan.ofText ⟨request.options.maxChunkSize, request.options.overlapLines⟩
      request.source.toList := hplan
  refine ⟨?_, ?_, fun i _ c hc hline => ?_, ?_⟩
  · have hresult : a = reportOf r.request.id request.language r.plan (endOf r.finals) := by
      rw [horder.result_eq ha, hsame]
    rw [hresult]
    exact warnings_reportOf _ _ _ _
  · rw [htext]
    exact ChunkPlan.located_ofText _ _
  · rw [htext] at hc ⊢
    exact (ChunkPlan.covers_ofText _ _).ownerOfSource_eq hc hline
  · rw [htext]
    exact ChunkPlan.warned_first_iff _ _

/-! ### A long second line -/

/-- Two lines, of which the second is too long for a chunk and has a bracket that is not closed. -/
def longSecondLine : Request :=
  { id := default, source := "a\nb = (bbb\n", language := .python, options := { maxChunkSize := 4, workerCount := 1 } }

/-- Each chunk in turn is converted to a line of code. -/
def convertBoth : List (Nat × RunMove) :=
  [(0, .next), (0, .chunk 0 .accepted), (1, .chunk 0 (.outcome (.completed (.ofCode "a\n" 1 {})))),
    (1, .next), (1, .chunk 1 .accepted), (2, .chunk 1 (.outcome (.completed (.ofCode "b\n" 1 {})))), (2, .conclude)]

/-- The bracket is blamed on the second chunk, and the length of the line on the first. -/
theorem warnings_of_long_second_line : ∃ begun r a,
    Leads anyMove (new 0 longSecondLine default false) convertBoth begun r ∧ r.result = some a ∧ r.plan.Located ∧
    a.warnings = [⟨0, "line 2 is longer than max_chunk_size (9 > 4) and forms its own chunk"⟩,
      ⟨1, "source 2:5: unclosed '('"⟩] ∧
    (∃ i ∈ r.plan.issues, ∃ c ∈ r.plan.chunks, c.HasLine i.place.line ∧ c.index = 1 ∧
      ownerOfSource r.plan.chunks i.place.line = c.index) ∧
    ¬ ∀ w ∈ r.plan.warnings, ∃ c ∈ r.plan.chunks, w.Names c ∧ c.index = 0 := by
  have hmade : (((new 0 longSecondLine default false).makes? anyMove convertBoth).any fun r =>
      r.result.any fun a => (codeWarnings .python a).isEmpty &&
        r.plan.chunks.all fun c => (endOf r.finals c).warnings.isEmpty) = true := by decide +kernel
  obtain ⟨r, hr, hmade⟩ := (Option.any_eq_true _ _).1 hmade
  obtain ⟨a, ha, hmade⟩ := (Option.any_eq_true _ _).1 hmade
  obtain ⟨begun, hleads⟩ := exists_leads_of_makes hr
  simp only [Bool.and_eq_true, List.all_eq_true, List.isEmpty_iff] at hmade
  obtain ⟨hcode, hanswers⟩ := hmade
  obtain ⟨hwarnings, hlocated, howner, hfirst⟩ := warnings_of_result hleads ha
  have hplan : r.plan = (new 0 longSecondLine default false).plan := hleads.fixed.2.2
  refine ⟨begun, r, a, hleads, ha, hlocated, ?_, ?_, ?_⟩
  · have hnone : (r.plan.chunks.flatMap fun c =>
        (endOf r.finals c).warnings.map fun w => (⟨c.index, w⟩ : Diagnostic)) = [] :=
      List.flatMap_eq_nil_iff.2 fun c hc => by rw [hanswers c hc, List.map_nil]
    have hplanned : (new 0 longSecondLine default false).plan.warnings.map (fun w => (⟨0, w.message⟩ : Diagnostic)) ++
        sourceWarnings (new 0 longSecondLine default false).plan =
        [⟨0, "line 2 is longer than max_chunk_size (9 > 4) and forms its own chunk"⟩,
          ⟨1, "source 2:5: unclosed '('"⟩] := by decide +kernel
    have hlanguage : codeWarnings longSecondLine.language a = [] := hcode
    rw [hwarnings, hnone, hplan, List.nil_append, hplanned, hlanguage, List.append_nil]
  · have hissue : ∃ i ∈ r.plan.issues, ∃ c ∈ r.plan.chunks, c.HasLine i.place.line ∧ c.index = 1 := by
      rw [hplan]
      decide +kernel
    obtain ⟨i, hi, c, hc, hline, hsecond⟩ := hissue
    exact ⟨i, hi, c, hc, hline, hsecond, howner i hi c hc hline⟩
  · rw [hfirst, hplan]
    decide +kernel

/-- A warning that names the second chunk is not blamed on that. -/
theorem exists_warning_of_wrong_chunk : ∃ begun r a w c,
    Leads anyMove (new 0 longSecondLine default false) convertBoth begun r ∧ r.result = some a ∧
    w ∈ r.plan.warnings ∧ c ∈ r.plan.chunks ∧ w.Names c ∧ c.index = 1 ∧
    (⟨c.index, w.message⟩ : Diagnostic) ∉ a.warnings ∧ (⟨0, w.message⟩ : Diagnostic) ∈ a.warnings := by
  have hmade : (((new 0 longSecondLine default false).makes? anyMove convertBoth).any fun r =>
      r.result.any fun a => r.plan.warnings.any fun w => r.plan.chunks.any fun c =>
        decide (w.Names c ∧ c.index = 1 ∧ (⟨c.index, w.message⟩ : Diagnostic) ∉ a.warnings ∧
          (⟨0, w.message⟩ : Diagnostic) ∈ a.warnings)) = true := by decide +kernel
  obtain ⟨r, hr, hmade⟩ := (Option.any_eq_true _ _).1 hmade
  obtain ⟨a, ha, hmade⟩ := (Option.any_eq_true _ _).1 hmade
  obtain ⟨w, hw, hmade⟩ := List.any_eq_true.1 hmade
  obtain ⟨c, hc, hmade⟩ := List.any_eq_true.1 hmade
  obtain ⟨begun, hleads⟩ := exists_leads_of_makes hr
  exact ⟨begun, r, a, w, c, hleads, ha, hw, hc, of_decide_eq_true hmade⟩

end Run

end Pseudoscribe
