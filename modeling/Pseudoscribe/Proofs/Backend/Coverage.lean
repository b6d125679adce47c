import Pseudoscribe.Backend.Embedded
import Pseudoscribe.Proofs.Code.Unknown
import Pseudoscribe.Proofs.Number.Rounding

/-!
# The lines that a local model knows

A line counts if it is not blank or begins inside of a literal or a block comment.  Each line that counts is recognized or
reported, and only lines of code are reported.  So the confidence of a local model is never less than a quarter and never
more than one, and the lines that it warns about are lines of the chunk.
-/

namespace Pseudoscribe

/-- The line is not blank, or it begins inside of a literal or a block comment. -/
def ReadLine.counts (l : ReadLine) : Bool := l.scanned.startsInLiteral || !Text.isBlank l.raw

namespace Scanner

theorem map_number_readAll (s : Scanner) (raws : List (List Char)) :
    (s.readAll raws).map (·.scanned.number) = List.range' (s.line + 1) raws.length := by
  have hnumbers := numbers_feedAll s raws
  rwa [← map_scanned_readAll, List.map_map] at hnumbers

theorem getElem?_readAll {s : Scanner} {raws : List (List Char)} {l : ReadLine} (h : l ∈ s.readAll raws) :
    s.line < l.scanned.number ∧ l.scanned.number ≤ s.line + raws.length ∧
      (s.readAll raws)[l.scanned.number - s.line - 1]? = some l := by
  obtain ⟨i, hi, rfl⟩ := List.getElem_of_mem h
  have hlength := congrArg List.length (map_number_readAll s raws)
  rw [List.length_map, List.length_range'] at hlength
  have hnumber : (s.readAll raws)[i].scanned.number = s.line + 1 + i := by
    have hget : ((s.readAll raws).map (·.scanned.number))[i]? = some (s.readAll raws)[i].scanned.number := by
      rw [List.getElem?_map, List.getElem?_eq_getElem hi]
      rfl
    rw [map_number_readAll, List.getElem?_range' (by omega), Nat.one_mul] at hget
    exact (Option.some.inj hget).symm
  rw [hnumber]
  refine ⟨by omega, by omega, ?_⟩
  rw [show s.line + 1 + i - s.line - 1 = i by omega, List.getElem?_eq_getElem hi]

end Scanner

namespace Generation

namespace Progress

theorem total_feed (p : Progress) (raw : List Char) :
    (p.feed raw).total = p.total + if (p.scanner.read raw).counts then 1 else 0 := by
  unfold feed ReadLine.counts Scanner.read
  dsimp only
  cases (p.scanner.feed raw).1.startsInLiteral <;> cases Text.isBlank raw <;> rfl

/-- A line that counts is recognized, or it says nothing known. -/
theorem recognized_feed (p : Progress) (raw : List Char) :
    (p.feed raw).recognized + (if p.isUnknown raw then 1 else 0) =
      p.recognized + if (p.scanner.read raw).counts then 1 else 0 := by
  unfold feed isUnknown ReadLine.counts Scanner.read
  dsimp only
  cases (p.scanner.feed raw).1.startsInLiteral
  · cases Text.isBlank raw
    · cases (p.emitter.line (p.scanner.feed raw).1 raw).1 <;> rfl
    · rfl
  · rfl

theorem total_foldl (p : Progress) (raws : List (List Char)) :
    (raws.foldl feed p).total = p.total + (p.scanner.readAll raws).countP ReadLine.counts := by
  induction raws generalizing p with
  | nil => rfl
  | cons raw raws ih =>
    rw [List.foldl_cons, ih, total_feed, (p.feed_keeps raw).1, Scanner.readAll, List.countP_cons]
    omega

theorem recognized_foldl (p : Progress) (raws : List (List Char)) :
    (raws.foldl feed p).recognized + (p.unknown raws).length =
      p.recognized + (p.scanner.readAll raws).countP ReadLine.counts := by
  induction raws generalizing p with
  | nil => rfl
  | cons raw raws ih =>
    have hstep := p.recognized_feed raw
    have hrest := ih (p.feed raw)
    rw [(p.feed_keeps raw).1] at hrest
    have hfirst : (if p.isUnknown raw then [p.scanner.read raw] else []).length = if p.isUnknown raw then 1 else 0 := by
      split <;> rfl
    rw [List.foldl_cons, unknown, List.length_append, hfirst, Scanner.readAll, List.countP_cons]
    omega

theorem isCode_of_mem_unknown {p : Progress} {raws : List (List Char)} {l : ReadLine} (h : l ∈ p.unknown raws) :
    l.scanned.startsInLiteral = false ∧ Text.isBlank l.raw = false := by
  induction raws generalizing p with
  | nil => cases h
  | cons raw raws ih =>
    rcases List.mem_append.1 h with h | h
    · split at h
      · next hunknown =>
        unfold isUnknown at hunknown
        simp only [Bool.and_eq_true, Bool.not_eq_true'] at hunknown
        rw [List.mem_singleton.1 h]
        exact hunknown.1
      · cases h
    · exact ih h

end Progress

/-- The counts of a generation agree with the lines of its source. -/
structure Accounted (lines : List ReadLine) (g : Generation) : Prop where
  /-- what counts is recognized or reported -/
  sum : g.recognized + g.unrecognized.length = g.total
  total : g.total = lines.countP ReadLine.counts
  ascending : g.unrecognized.Pairwise (· < ·)
  /-- a number that is reported is that of a line of code -/
  reported : ∀ n ∈ g.unrecognized, 0 < n ∧
    ∃ l, lines[n - 1]? = some l ∧ l.scanned.startsInLiteral = false ∧ Text.isBlank l.raw = false

theorem accounted_ofSource (target : Target) (width : Nat) (setting : Setting) (source : List Char) :
    Accounted (readText .pseudocode source) (ofSource target width setting source) := by
  have hnumbers : (ofSource target width setting source).unrecognized =
      ((begin target width setting).unknown (Text.lines source)).map (·.scanned.number) :=
    Progress.unrecognized_foldl (begin target width setting) (Text.lines source)
  have htotal : (ofSource target width setting source).total = 0 + (readText .pseudocode source).countP ReadLine.counts :=
    (begin target width setting).total_foldl (Text.lines source)
  have hrecognized := (begin target width setting).recognized_foldl (Text.lines source)
  have hlines := (begin target width setting).sublist_unknown (Text.lines source)
  rw [Nat.zero_add] at htotal
  refine ⟨?_, htotal, ?_, ?_⟩
  · rw [hnumbers, List.length_map, htotal]
    exact hrecognized.trans (Nat.zero_add _)
  · rw [hnumbers]
    refine List.Pairwise.sublist (hlines.map _) ?_
    rw [Scanner.map_number_readAll]
    exact List.pairwise_lt_range'
  · intro n hn
    rw [hnumbers] at hn
    obtain ⟨l, hl, rfl⟩ := List.mem_map.1 hn
    obtain ⟨hpos, -, hget⟩ := Scanner.getElem?_readAll (hlines.subset hl)
    exact ⟨hpos, l, hget, Progress.isCode_of_mem_unknown hl⟩

theorem Accounted.recognized_le {lines : List ReadLine} {g : Generation} (h : Accounted lines g) :
    g.recognized ≤ g.total := by
  have hsum := h.sum
  omega

/-- The number of a line that is reported is at most the number of lines. -/
theorem Accounted.le_length {lines : List ReadLine} {g : Generation} (h : Accounted lines g) {n : Nat}
    (hn : n ∈ g.unrecognized) : 0 < n ∧ n ≤ lines.length := by
  obtain ⟨hpos, l, hget, -⟩ := h.reported n hn
  obtain ⟨hlt, -⟩ := List.getElem?_eq_some_iff.1 hget
  exact ⟨hpos, by omega⟩

end Generation

/-! ## Confidence -/

namespace Double

theorem toRat_half : IsMagnitude (ofRatio false 1 2) ∧ (ofRatio false 1 2).toRat = 1 / 2 := by
  have hquotient : ((1 : ℕ) : ℚ) / (2 : ℕ) = 2 ^ (-1 : Int) := by norm_num
  obtain ⟨hmagnitude, hrounds⟩ := ofRatio_rounds (-1) (by decide) hquotient.le
  obtain ⟨hle, hge⟩ := hrounds (-1) (by decide) (by decide)
  refine ⟨hmagnitude, ?_⟩
  rw [le_antisymm (hge hquotient.le) (hle hquotient.ge)]
  norm_num

theorem toRat_two : IsMagnitude (ofNat 2) ∧ (ofNat 2).toRat = 2 := by
  have hquotient : ((2 : ℕ) : ℚ) / (1 : ℕ) = 2 ^ (1 : Int) := by norm_num
  obtain ⟨hmagnitude, hrounds⟩ := ofRatio_rounds 1 (by decide) hquotient.le
  obtain ⟨hle, hge⟩ := hrounds 1 (by decide) (by decide)
  refine ⟨hmagnitude, ?_⟩
  show (ofRatio false 2 1).toRat = 2
  rw [le_antisymm (hge hquotient.le) (hle hquotient.ge)]
  norm_num

end Double

namespace Generation

open Double

theorem coverage_between {g : Generation} (h : g.recognized ≤ g.total) :
    IsMagnitude g.coverage ∧ g.coverage.toRat ≤ 1 := by
  have hround {num den : Nat} (hle : (num : ℚ) / den ≤ 1) :
      IsMagnitude (ofRatio false num den) ∧ (ofRatio false num den).toRat ≤ 1 := by
    obtain ⟨hmagnitude, hrounds⟩ := ofRatio_rounds 0 (by decide) (by simpa using hle)
    exact ⟨hmagnitude, by simpa using (hrounds 0 (by decide) (by decide)).2 (by simpa using hle)⟩
  unfold coverage
  split
  · exact @hround 1 1 (by norm_num)
  · exact hround (div_le_one_of_le₀ (by exact_mod_cast h) (Nat.cast_nonneg _))

end Generation

namespace Manifest

open Double

/-- How sure the model is, without rounding. -/
def exactConfidence (g : Generation) (truncated : Bool) : ℚ :=
  let share := if g.total = 0 then 1 else (g.recognized : ℚ) / g.total
  let x := 1 / 2 + 1 / 2 * share
  if truncated then x / 2 else x

theorem exactConfidence_between {g : Generation} (h : g.recognized ≤ g.total) (truncated : Bool) :
    1 / 4 ≤ exactConfidence g truncated ∧ exactConfidence g truncated ≤ 1 := by
  have hshare : 0 ≤ (if g.total = 0 then 1 else (g.recognized : ℚ) / g.total) ∧
      (if g.total = 0 then 1 else (g.recognized : ℚ) / g.total) ≤ 1 := by
    split
    · norm_num
    · exact ⟨by positivity, div_le_one_of_le₀ (by exact_mod_cast h) (Nat.cast_nonneg _)⟩
  unfold exactConfidence
  dsimp only
  generalize (if g.total = 0 then 1 else (g.recognized : ℚ) / g.total) = share at hshare ⊢
  obtain ⟨hnonneg, hle⟩ := hshare
  split <;> constructor <;> linarith

/-- Rounding leaves the confidence in its range. -/
theorem confidence_between {x : Double} (hx : IsMagnitude x) (hle : x.toRat ≤ 1) (truncated : Bool) :
    IsMagnitude (confidence x truncated) ∧ 1 / 4 ≤ (confidence x truncated).toRat ∧
      (confidence x truncated).toRat ≤ 1 := by
  obtain ⟨hhalf, hhalfRat⟩ := toRat_half
  obtain ⟨htwo, htwoRat⟩ := toRat_two
  have hnonneg := hx.toRat_nonneg
  obtain ⟨n₁, d₁, heq₁, hvalue₁⟩ := exists_mul hhalf hx
  obtain ⟨hproduct, hrounds₁⟩ := ofRatio_rounds (-1) (by decide)
    (by rw [hvalue₁, hhalfRat]; norm_num; linarith)
  have hproductLe := (hrounds₁ (-1) (by decide) (by decide)).2 (by rw [hvalue₁, hhalfRat]; norm_num; linarith)
  have hproductNonneg := hproduct.toRat_nonneg
  norm_num at hproductLe
  obtain ⟨n₂, d₂, heq₂, hvalue₂⟩ := exists_add hhalf hproduct
  obtain ⟨hsum, hrounds₂⟩ := ofRatio_rounds 0 (by decide)
    (by rw [hvalue₂, hhalfRat]; norm_num; linarith)
  have hsumGe := (hrounds₂ (-1) (by decide) (by decide)).1 (by rw [hvalue₂, hhalfRat]; norm_num; linarith)
  have hsumLe := (hrounds₂ 0 (by decide) (by decide)).2 (by rw [hvalue₂, hhalfRat]; norm_num; linarith)
  norm_num at hsumGe hsumLe
  unfold confidence
  dsimp only
  rw [heq₁, heq₂]
  split
  · obtain ⟨n₃, d₃, heq₃, hvalue₃⟩ := exists_div hsum htwo (by decide +kernel)
    obtain ⟨hquotient, hrounds₃⟩ := ofRatio_rounds 0 (by decide)
      (by rw [hvalue₃, htwoRat]; norm_num; linarith)
    have hge := (hrounds₃ (-2) (by decide) (by decide)).1 (by rw [hvalue₃, htwoRat]; norm_num; linarith)
    have hle := (hrounds₃ 0 (by decide) (by decide)).2 (by rw [hvalue₃, htwoRat]; norm_num; linarith)
    norm_num at hge hle
    rw [heq₃]
    exact ⟨hquotient, by linarith, hle⟩
  · exact ⟨hsum, by linarith, hsumLe⟩

end Manifest

/-- A number from 0 to 1 is a confidence as it stands. -/
theorem Answer.clampConfidence_of_between {x : Double} (h : x.IsMagnitude) (hle : x.toRat ≤ 1) :
    clampConfidence x = x := by
  have hone : (1 : Double).toRat = 1 := by decide +kernel
  have hzero : (0 : Double).toRat = 0 := by decide +kernel
  have hnonneg := h.toRat_nonneg
  obtain ⟨m, e, rfl⟩ := h
  have hnotBelow : Double.lt (.finite false m e) 0 = false := by
    have hle0 : Double.le 0 (.finite false m e) = true := by
      refine (Double.le_finite_iff _ _ _ _ _ _).2 ?_
      exact hzero.trans_le hnonneg
    rw [Double.lt, hle0, Bool.not_true, Bool.and_false]
  have hnotAbove : Double.lt 1 (.finite false m e) = false := by
    have hle1 : Double.le (.finite false m e) 1 = true := by
      have hfinite : (1 : Double) = .finite false 4503599627370496 (-52) := by decide +kernel
      rw [hfinite] at hone ⊢
      exact (Double.le_finite_iff _ _ _ _ _ _).2 (hle.trans_eq hone.symm)
    rw [Double.lt, hle1, Bool.not_true, Bool.and_false]
  unfold clampConfidence
  rw [if_neg (by simp [Double.isFinite]), if_neg (by simp [hnotBelow]), if_neg (by simp [hnotAbove])]

/-! ## What a model answers -/

namespace Budget

theorem prefix_takeLines (budget : Nat) (lines : List (List Char)) : takeLines budget lines <+: lines := by
  induction lines generalizing budget with
  | nil => exact List.prefix_refl _
  | cons line rest ih =>
    unfold takeLines
    split
    · exact (List.prefix_cons_inj line).2 (ih _)
    · exact List.nil_prefix

/-- What is kept of a source are its first lines. -/
theorem lines_truncate_prefix (budget : Nat) (source : List Char) :
    Text.lines (truncate budget source).1 <+: Text.lines source := by
  unfold truncate
  split
  · exact List.prefix_refl _
  · have hprefix := prefix_takeLines budget (Text.pieces source)
    rw [Text.lines, Text.pieces_flatten_of_sublist (by rw [Text.flatten_pieces]) hprefix.sublist]
    exact hprefix.map _

end Budget

namespace Manifest

/-- What the budget of the model leaves of a chunk, and whether anything is missing. -/
def kept (m : Manifest) (chunk : Chunk) : List Char × Bool :=
  Budget.truncate (m.maxContextTokens - chunk.context.elim 0 fun t => Budget.countTokens t.toList) chunk.text.toList

/-- What the rules make of that. -/
def generation (m : Manifest) (target : Target) (chunk : Chunk) : Generation :=
  .ofSource target m.indentWidth ⟨chunk.context, chunk.depth, chunk.continues⟩ (m.kept chunk).1

/-- The lines that the rules did not know, by their numbers in the whole text. -/
def unknownNumbers (m : Manifest) (target : Target) (chunk : Chunk) : List Nat :=
  (m.generation target chunk).unrecognized.map fun n => chunk.startLine + n - 1

/-- What the answer says of the lines of a chunk. -/
structure Reports (m : Manifest) (target : Target) (chunk : Chunk) (a : Answer) : Prop where
  exact : 1 / 4 ≤ exactConfidence (m.generation target chunk) (m.kept chunk).2 ∧
    exactConfidence (m.generation target chunk) (m.kept chunk).2 ≤ 1
  /-- the confidence is that number, rounded, and in the same range -/
  confidence : a.confidence = Manifest.confidence (m.generation target chunk).coverage (m.kept chunk).2 ∧
    1 / 4 ≤ a.confidence.toRat ∧ a.confidence.toRat ≤ 1
  /-- the warning about unknown lines stands first, if there are any -/
  warnings : a.warnings =
    (if m.unknownNumbers target chunk = [] then []
      else
        let numbers := String.intercalate ", " ((m.unknownNumbers target chunk).map toString)
        [s!"line(s) {numbers} not recognized, kept as comments"]) ++
      if (m.kept chunk).2 then [m.missingLines (m.kept chunk).1 chunk.text.toList] else []
  /-- it names lines of the chunk, if the chunk has as many lines as it says -/
  lines : chunk.lineCount? = some chunk.lines.length →
    ∀ n ∈ m.unknownNumbers target chunk, chunk.startLine ≤ n ∧ n ≤ chunk.endLine

theorem answer_eq {m : Manifest} {language : Language} {target : Target} (h : m.target? language = some target)
    (p : Provenance) (chunk : Chunk) :
    m.answer p chunk language =
      let g := m.generation target chunk
      let a := Answer.ofCode (String.ofList g.code) (confidence g.coverage (m.kept chunk).2) p
      let a := if g.unrecognized.isEmpty then a else a.addWarning (unknownLines chunk g.unrecognized)
      if (m.kept chunk).2 then (a.addWarning (m.missingLines (m.kept chunk).1 chunk.text.toList)).markBestEffort else a := by
  unfold answer
  rw [h]
  rfl

theorem unknownLines_eq (m : Manifest) (target : Target) (chunk : Chunk) :
    unknownLines chunk (m.generation target chunk).unrecognized =
      let numbers := String.intercalate ", " ((m.unknownNumbers target chunk).map toString)
      s!"line(s) {numbers} not recognized, kept as comments" := by
  unfold unknownLines unknownNumbers
  rw [List.map_map]
  rfl

theorem reports_answer {m : Manifest} {language : Language} {target : Target} (h : m.target? language = some target)
    (p : Provenance) (chunk : Chunk) : m.Reports target chunk (m.answer p chunk language) := by
  have haccounted := Generation.accounted_ofSource target m.indentWidth ⟨chunk.context, chunk.depth, chunk.continues⟩
    (m.kept chunk).1
  obtain ⟨hcoverage, hcoverageLe⟩ := Generation.coverage_between haccounted.recognized_le
  obtain ⟨hmagnitude, hge, hle⟩ := confidence_between hcoverage hcoverageLe (m.kept chunk).2
  have hconfidence : (m.answer p chunk language).confidence =
      confidence (m.generation target chunk).coverage (m.kept chunk).2 := by
    rw [answer_eq h]
    dsimp only
    split_ifs <;> exact Answer.clampConfidence_of_between hmagnitude hle
  refine ⟨exactConfidence_between haccounted.recognized_le _, ?_, ?_, ?_⟩
  · rw [hconfidence]
    exact ⟨rfl, hge, hle⟩
  · have hempty : (m.generation target chunk).unrecognized.isEmpty = true ↔ m.unknownNumbers target chunk = [] := by
      rw [unknownNumbers, List.map_eq_nil_iff, List.isEmpty_iff]
    rw [answer_eq h]
    dsimp only
    rw [unknownLines_eq]
    simp only [hempty]
    split_ifs <;> rfl
  · intro hcount n hn
    obtain ⟨k, hk, rfl⟩ := List.mem_map.1 hn
    obtain ⟨hpos, hlength⟩ := haccounted.le_length hk
    have hread : (readText .pseudocode (m.kept chunk).1).length = (Text.lines (m.kept chunk).1).length := by
      have hraws := congrArg List.length (Scanner.map_raw_readAll { style := .pseudocode } (Text.lines (m.kept chunk).1))
      rwa [List.length_map] at hraws
    have hkept : (Text.lines (m.kept chunk).1).length ≤ chunk.lines.length :=
      (Budget.lines_truncate_prefix _ _).length_le
    unfold Chunk.lineCount? at hcount
    split at hcount
    · have hrange := Option.some.inj hcount
      omega
    · cases hcount

/-- Every line of a source that counts is recognized or reported, and what a local model makes of that for a chunk, its
confidence and its warning, is about lines of the chunk. -/
theorem lines_accounted_for (target : Target) (width : Nat) (setting : Generation.Setting) (source : List Char) :
    Generation.Accounted (readText .pseudocode source) (.ofSource target width setting source) ∧
      ∀ (m : Manifest) (p : Provenance) (chunk : Chunk) {language : Language}, m.target? language = some target →
        m.Reports target chunk (m.answer p chunk language) :=
  ⟨Generation.accounted_ofSource target width setting source, fun _ p chunk _ h => reports_answer h p chunk⟩

/-- A chunk of two lines, of which the second says nothing known. -/
theorem lines_accounted_for_two_lines :
    let m : Manifest := { name := "m", revision := "v1" }
    let chunk : Chunk := { text := "x = 1\nfrobnicate the widget\n", startLine := 5, endLine := 6 }
    let source := chunk.text.toList
    let g := Generation.ofSource .python 4 ⟨none, 0, false⟩ source
    m.target? .python = some .python ∧ chunk.lineCount? = some chunk.lines.length ∧
      m.unknownNumbers .python chunk = [6] ∧
      Generation.Accounted (readText .pseudocode source) g ∧
      m.Reports .python chunk (m.answer { model := "m", revision := "v1", backend := .embedded } chunk .python) := by
  have htarget : ({ name := "m", revision := "v1" } : Manifest).target? .python = some .python := by decide +kernel
  obtain ⟨haccounted, hreports⟩ := lines_accounted_for .python 4 ⟨none, 0, false⟩ "x = 1\nfrobnicate the widget\n".toList
  exact ⟨htarget, by decide +kernel, by decide +kernel, haccounted, hreports _ _ _ htarget⟩

end Manifest

end Pseudoscribe
