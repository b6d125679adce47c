import Mathlib.Data.List.Forall2
import Pseudoscribe.Assembly.Basic
import Pseudoscribe.Proofs.Number.Order

/-!
# Every chunk is accounted for

A result is put together chunk by chunk, and every field of it is a plain function of the chunks and of
how they ended: the code is their pieces in order with a newline where two would share a line, there is
one report for each chunk and one error for each that was not converted, and the confidence is the least of
theirs.  No chunk is lost and none occurs twice.
-/

namespace Pseudoscribe.Assembly

/-- How a chunk ended; one without an end was cancelled before it was tried. -/
def endOf (finals : List (Nat × ChunkEnd)) (c : Chunk) : ChunkEnd :=
  (finals.lookup c.index).getD (.cancelled 0)

/-! ## One end for each chunk -/

/-- Add chunks in order, with the ends that a function gives. -/
def addEach (ends : Chunk → ChunkEnd) (a : Assembly) : List Chunk → Assembly
  | [] => a
  | c :: cs => addEach ends (a.add c (ends c) cs.isEmpty) cs

theorem lookup_filter_ne {finals : List (Nat × ChunkEnd)} {i j : Nat} (h : j ≠ i) :
    (finals.filter (·.1 != i)).lookup j = finals.lookup j := by
  induction finals with
  | nil => rfl
  | cons p ps ih =>
    obtain ⟨k, e⟩ := p
    by_cases hk : k = i
    · subst hk
      have hj : (j == k) = false := by simpa using h
      rw [List.filter_cons_of_neg (by simp), ih, List.lookup_cons, hj]
    · rw [List.filter_cons_of_pos (by simpa using hk), List.lookup_cons, List.lookup_cons, ih]

/-- When no two chunks share an index, no end that is still to be used is used up. -/
theorem addAll_eq_addEach {chunks : List Chunk} (h : (chunks.map Chunk.index).Nodup)
    {used finals : List (Nat × ChunkEnd)}
    (hused : ∀ c ∈ chunks, used.lookup c.index = finals.lookup c.index) (a : Assembly) :
    a.addAll used chunks = addEach (endOf finals) a chunks := by
  induction chunks generalizing a used with
  | nil => rfl
  | cons c cs ih =>
    rw [List.map_cons, List.nodup_cons] at h
    rw [addAll, addEach, endOf, hused c List.mem_cons_self]
    refine ih h.2 (fun d hd => ?_) _
    -- only ends of `c` are removed, and `d` has another index
    have hne : d.index ≠ c.index := fun heq => h.1 (heq ▸ List.mem_map_of_mem hd)
    rw [lookup_filter_ne hne]
    exact hused d (List.mem_cons_of_mem c hd)

/-! ## Errors -/

/-- The errors of a chunk in the result. -/
def errorsOf (ends : Chunk → ChunkEnd) (c : Chunk) : List Diagnostic :=
  ((ends c).error?.map (⟨c.index, ·⟩)).toList

theorem length_errorsOf (ends : Chunk → ChunkEnd) (c : Chunk) :
    (errorsOf ends c).length = if (ends c).status = .succeeded then 0 else 1 := by
  unfold errorsOf
  cases ends c <;> rfl

theorem chunk_of_mem_errorsOf {ends : Chunk → ChunkEnd} {c : Chunk} {d : Diagnostic}
    (h : d ∈ errorsOf ends c) : d.chunk = c.index := by
  unfold errorsOf at h
  cases hc : ends c with
  | converted => simp [hc, ChunkEnd.error?] at h
  | abandoned =>
    simp only [hc, ChunkEnd.error?, Option.map_some, Option.toList_some, List.mem_singleton] at h
    rw [h]
  | cancelled =>
    simp only [hc, ChunkEnd.error?, Option.map_some, Option.toList_some, List.mem_singleton] at h
    rw [h]

theorem filter_errorsOf_of_notMem {ends : Chunk → ChunkEnd} {chunks : List Chunk} {index : Nat}
    (h : index ∉ chunks.map Chunk.index) :
    (chunks.flatMap (errorsOf ends)).filter (·.chunk == index) = [] := by
  rw [List.filter_eq_nil_iff]
  intro d hd
  obtain ⟨c, hc, hdc⟩ := List.mem_flatMap.1 hd
  rw [chunk_of_mem_errorsOf hdc, beq_iff_eq]
  rintro rfl
  exact h (List.mem_map_of_mem hc)

theorem filter_errorsOf {ends : Chunk → ChunkEnd} {chunks : List Chunk}
    (h : (chunks.map Chunk.index).Nodup) {c : Chunk} (hc : c ∈ chunks) :
    (chunks.flatMap (errorsOf ends)).filter (·.chunk == c.index) = errorsOf ends c := by
  induction chunks with
  | nil => simp at hc
  | cons d ds ih =>
    rw [List.map_cons, List.nodup_cons] at h
    rw [List.flatMap_cons, List.filter_append]
    rcases List.mem_cons.1 hc with rfl | hc
    · rw [filter_errorsOf_of_notMem h.1, List.append_nil, List.filter_eq_self]
      intro e he
      rw [chunk_of_mem_errorsOf he, beq_self_eq_true]
    · have hne : d.index ≠ c.index := fun heq => h.1 (heq ▸ List.mem_map_of_mem hc)
      rw [ih h.2 hc, List.append_left_eq_self, List.filter_eq_nil_iff]
      intro e he
      rw [chunk_of_mem_errorsOf he, beq_iff_eq]
      exact hne

/-! ## Fields -/

section Fields

variable (ends : Chunk → ChunkEnd) (a : Assembly) (cs : List Chunk)

theorem success_addEach : (addEach ends a cs).success =
    (a.success && cs.all fun c => (ends c).status == .succeeded) := by
  induction cs generalizing a with
  | nil => simp [addEach]
  | cons c cs ih => rw [addEach, ih, add, List.all_cons, Bool.and_assoc]

theorem confidence_addEach : (addEach ends a cs).confidence =
    (cs.map fun c => (ends c).confidence).foldl Double.least a.confidence := by
  induction cs generalizing a with
  | nil => rfl
  | cons c cs ih => exact ih _

theorem warnings_addEach : (addEach ends a cs).warnings =
    a.warnings ++ cs.flatMap fun c => (ends c).warnings.map (⟨c.index, ·⟩) := by
  induction cs generalizing a with
  | nil => simp [addEach]
  | cons c cs ih => rw [addEach, ih, add, List.flatMap_cons, List.append_assoc]

theorem errors_addEach : (addEach ends a cs).errors =
    a.errors ++ cs.flatMap (errorsOf ends) := by
  induction cs generalizing a with
  | nil => simp [addEach]
  | cons c cs ih =>
    rw [addEach, ih, List.flatMap_cons, ← List.append_assoc]
    rfl

/-- The report says where the chunk stood and how it ended. -/
structure Reports (ends : Chunk → ChunkEnd) (c : Chunk) (r : ChunkReport) : Prop where
  chunk : r.chunk = c.index
  startLine : r.startLine = c.startLine
  endLine : r.endLine = c.endLine
  status : r.status = (ends c).status
  attempts : r.attempts = (ends c).attempts
  confidence : r.confidence = (ends c).confidence

theorem reports_addEach : ∃ reports, (addEach ends a cs).chunks = a.chunks ++ reports ∧
    List.Forall₂ (Reports ends) cs reports := by
  induction cs generalizing a with
  | nil => exact ⟨[], by simp [addEach], .nil⟩
  | cons c cs ih =>
    obtain ⟨reports, heq, hall⟩ := ih (a.add c (ends c) cs.isEmpty)
    rw [addEach, heq, add, List.append_assoc]
    exact ⟨_, rfl, .cons ⟨rfl, rfl, rfl, rfl, rfl, rfl⟩ hall⟩

end Fields

/-! ## The code -/

/-- The code up to the end of a piece, when each piece before is followed by its break. -/
def codeUpTo (pieces breaks : List (List Char)) (i : Nat) : List Char :=
  (List.zipWith (· ++ ·) pieces (breaks.take i)).flatten ++ pieces.getD i []

/-- What is put between a piece and the next: a newline, when the code has none at its end. -/
def breakBehind (code : List Char) (isLast : Bool) : List Char :=
  if isLast = false ∧ code ≠ [] ∧ code.getLast? ≠ some '\n' then ['\n'] else []

theorem toList_appendPiece (code piece : String) (isLast : Bool) :
    (appendPiece code piece isLast).toList =
      code.toList ++ piece.toList ++ breakBehind (code.toList ++ piece.toList) isLast := by
  have hempty : (code ++ piece).isEmpty = false ↔ code.toList ++ piece.toList ≠ [] := by
    rw [← Bool.not_eq_true, String.isEmpty_iff, ← String.toList_append, ne_eq,
      String.toList_eq_nil_iff]
  unfold appendPiece breakBehind
  simp only [Bool.and_eq_true, Bool.not_eq_true', hempty, bne_iff_ne, ne_eq, and_assoc,
    String.toList_append]
  split <;> simp

theorem code_addEach (ends : Chunk → ChunkEnd) (a : Assembly) (cs : List Chunk) :
    ∃ breaks : List (List Char), breaks.length = cs.length ∧
      (addEach ends a cs).code.toList = a.code.toList ++
        (List.zipWith (· ++ ·) (cs.map fun c => ((ends c).text c).toList) breaks).flatten ∧
      ∀ i < cs.length, breaks[i]? = some (breakBehind (a.code.toList ++
        codeUpTo (cs.map fun c => ((ends c).text c).toList) breaks i) (i + 1 == cs.length)) := by
  induction cs generalizing a with
  | nil => exact ⟨[], rfl, by simp [addEach], by simp⟩
  | cons c cs ih =>
    obtain ⟨breaks, hlen, hcode, hbreaks⟩ := ih (a.add c (ends c) cs.isEmpty)
    have hadd : (a.add c (ends c) cs.isEmpty).code.toList = _ := toList_appendPiece _ _ _
    rw [hadd] at hcode hbreaks
    refine ⟨breakBehind (a.code.toList ++ ((ends c).text c).toList) cs.isEmpty :: breaks,
      by rw [List.length_cons, List.length_cons, hlen], ?_, fun i hi => ?_⟩
    · rw [addEach, hcode, List.map_cons, List.zipWith_cons_cons, List.flatten_cons]
      simp only [List.append_assoc]
    · cases i with
      | zero =>
        have hlast : (0 + 1 == (c :: cs).length) = cs.isEmpty := by cases cs <;> rfl
        rw [List.getElem?_cons_zero, hlast]
        rfl
      | succ i =>
        rw [List.length_cons] at hi ⊢
        have hlast : (i + 1 + 1 == cs.length + 1) = (i + 1 == cs.length) := by
          rw [Bool.eq_iff_iff, beq_iff_eq, beq_iff_eq, Nat.add_right_cancel_iff]
        rw [List.getElem?_cons_succ, hbreaks i (by omega), hlast]
        simp only [codeUpTo, List.map_cons, List.take_succ_cons, List.zipWith_cons_cons,
          List.flatten_cons, List.append_assoc, List.getD_cons_succ]

/-! ## The whole account -/

/-- A result accounts for these chunks and how they ended. -/
structure Accounts (chunks : List Chunk) (ends : Chunk → ChunkEnd) (cancelled : Bool)
    (a : Assembly) : Prop where
  /-- the pieces in order, with nothing between them but the newlines that are needed -/
  code : ∃ breaks : List (List Char), breaks.length = chunks.length ∧
    a.code.toList =
      (List.zipWith (· ++ ·) (chunks.map fun c => ((ends c).text c).toList) breaks).flatten ∧
    ∀ i < chunks.length, breaks[i]? = some (breakBehind
      (codeUpTo (chunks.map fun c => ((ends c).text c).toList) breaks i) (i + 1 == chunks.length))
  reports : List.Forall₂ (Reports ends) chunks a.chunks
  errors : a.errors = chunks.flatMap (errorsOf ends)
  /-- a chunk has one error if it was not converted, else none -/
  errorsFor : ∀ c ∈ chunks,
    (a.errorsFor c.index).length = if (ends c).status = .succeeded then 0 else 1
  warnings : a.warnings = chunks.flatMap fun c => (ends c).warnings.map (⟨c.index, ·⟩)
  success : a.success = true ↔ (∀ c ∈ chunks, (ends c).status = .succeeded) ∧ cancelled = false
  cancelled : a.cancelled = cancelled
  /-- the confidence is 1 or that of a chunk, and none of these is less -/
  confidence : a.confidence ∈ 1 :: chunks.map (fun c => (ends c).confidence) ∧
    ∀ x ∈ 1 :: chunks.map (fun c => (ends c).confidence), Double.lt x a.confidence = false
  /-- with answers that keep to their range it is that of a chunk -/
  attained : chunks ≠ [] →
    (∀ c ∈ chunks, ∀ answer attempts, ends c = .converted answer attempts → answer.Sound) →
    ∃ c ∈ chunks, Double.same a.confidence (ends c).confidence = true
  unconverted : ∀ c ∈ chunks, (ends c).status ≠ .succeeded →
    (ends c).text c = c.text ∧ (ends c).confidence = 0

theorem isNan_one : (1 : Double).isNan = false := by decide +kernel

theorem same_of_least {x : Double} {ys : List Double} (hmem : x ∈ 1 :: ys)
    (hleast : ∀ y ∈ 1 :: ys, Double.lt y x = false) (hne : ys ≠ [])
    (hle : ∀ y ∈ ys, Double.le y 1 = true) : ∃ y ∈ ys, Double.same x y = true := by
  have hsame (y : Double) (hy : Double.le y x = true) (hlt : Double.lt y x = false) :
      Double.same x y = true := by
    simp only [Double.lt, hy, Bool.true_and, Bool.not_eq_false'] at hlt
    rw [Double.same, hlt, hy, Bool.and_self]
  rcases List.mem_cons.1 hmem with rfl | hx
  · obtain ⟨y, ys, rfl⟩ := List.exists_cons_of_ne_nil hne
    refine ⟨y, List.mem_cons_self, hsame y (hle y List.mem_cons_self) (hleast y ?_)⟩
    exact List.mem_cons_of_mem _ List.mem_cons_self
  · have hnan : x.isNan = false := by
      have h1 := hle x hx
      rw [← Bool.not_eq_true]
      intro h
      simp [Double.le, h] at h1
    refine ⟨x, hx, hsame x ?_ (hleast x hmem)⟩
    rw [Double.le_iff hnan hnan]

theorem confidence_le_one {e : ChunkEnd}
    (h : ∀ answer attempts, e = .converted answer attempts → answer.Sound) :
    Double.le e.confidence 1 = true := by
  have hzero : Double.le 0 1 = true := by decide +kernel
  cases e with
  | abandoned => exact hzero
  | cancelled => exact hzero
  | converted answer attempts =>
    have hsound := h answer attempts rfl
    unfold Answer.Sound at hsound
    split at hsound
    · exact hsound.2.2.2.2
    · show Double.le answer.confidence 1 = true
      rw [hsound.2.2]
      exact hzero

/-- Whatever became of the chunks, and of whichever of them nothing is known, the result accounts for
every one. -/
theorem accounts_ofChunks (id : RequestId) (chunks : List Chunk) (finals : List (Nat × ChunkEnd))
    (cancelled : Bool) (h : (chunks.map Chunk.index).Nodup) :
    Accounts chunks (endOf finals) cancelled (ofChunks id chunks finals cancelled) := by
  have heq : ({ id } : Assembly).addAll finals chunks = addEach (endOf finals) { id } chunks :=
    addAll_eq_addEach h (fun _ _ => rfl) _
  have hconf := confidence_addEach (endOf finals) { id } chunks
  have hmem := Double.foldl_least_mem 1 (chunks.map fun c => (endOf finals c).confidence)
  have hleast := Double.not_lt_foldl_least (chunks.map fun c => (endOf finals c).confidence) isNan_one
  obtain ⟨reports, hreports, hall⟩ := reports_addEach (endOf finals) { id } chunks
  unfold ofChunks
  rw [heq]
  refine ⟨?_, ?_, ?_, fun c hc => ?_, ?_, ?_, rfl, ?_, fun hne hsound => ?_, fun c hc hs => ?_⟩
  · simpa using code_addEach (endOf finals) { id } chunks
  · rwa [hreports]
  · exact errors_addEach (endOf finals) { id } chunks
  · rw [errorsFor, ← length_errorsOf, ← filter_errorsOf h hc]
    exact congrArg (fun errors : List Diagnostic => (errors.filter (·.chunk == c.index)).length)
      (errors_addEach (endOf finals) { id } chunks)
  · exact warnings_addEach (endOf finals) { id } chunks
  · simp [success_addEach]
  · exact hconf ▸ ⟨hmem, hleast⟩
  · obtain ⟨y, hy, hsame⟩ := same_of_least hmem hleast (by simpa using hne) (by
      intro y hy
      obtain ⟨c, hc, rfl⟩ := List.mem_map.1 hy
      exact confidence_le_one (hsound c hc))
    obtain ⟨c, hc, rfl⟩ := List.mem_map.1 hy
    exact ⟨c, hc, hconf ▸ hsame⟩
  · cases he : endOf finals c with
    | converted => exact absurd (by rw [he]; rfl) hs
    | abandoned => exact ⟨rfl, rfl⟩
    | cancelled => exact ⟨rfl, rfl⟩

/-- Of three chunks one was converted, one given up and one never tried. -/
theorem accounts_ofChunks_three :
    ([{ index := 0, text := "a\n" }, { index := 2, text := "b" }, { index := 1, text := "c" }].map
      Chunk.index).Nodup ∧
    Accounts
      [{ index := 0, text := "a\n" }, { index := 2, text := "b" }, { index := 1, text := "c" }]
      (endOf [(0, .converted (Answer.ofCode "A" 1 {}) 1), (2, .abandoned "boom" 3)]) false
      (ofChunks default
        [{ index := 0, text := "a\n" }, { index := 2, text := "b" }, { index := 1, text := "c" }]
        [(0, .converted (Answer.ofCode "A" 1 {}) 1), (2, .abandoned "boom" 3)] false) :=
  ⟨by decide, accounts_ofChunks _ _ _ _ (by decide)⟩

end Pseudoscribe.Assembly
