import Pseudoscribe.Proofs.Assembly.Hoisting
import Pseudoscribe.Proofs.Scan.Blanks
import Pseudoscribe.Proofs.Scan.Alike

/-!
# Imports in literals

Which lines are moved to the head is decided line by line, and what a line begins inside of is not looked at.  So a line
of a literal or a block comment is left where it is unless it reads as an import.  If none of the lines that are moved
begins or ends inside of anything, every other line begins inside of what it began inside of before.
-/

namespace Pseudoscribe

namespace Assembly

open Text

/-- A line of the code, and what the scanner makes of it. -/
structure ReadLine where
  line : Line
  seen : ScannedLine

/-- The lines as a scanner reads them. -/
def readLines (s : Scanner) : List Line → List ReadLine
  | [] => []
  | l :: ls => ⟨l, (s.feed (chomp l.text)).1⟩ :: readLines (s.feed (chomp l.text)).2 ls

/-- The lines of the code as they are read in a language. -/
def readIn (language : Language) (lines : List Line) : List ReadLine :=
  readLines { style := .ofMark language.commentMark } lines

theorem map_line_readLines (s : Scanner) (lines : List Line) : (readLines s lines).map ReadLine.line = lines := by
  induction lines generalizing s with
  | nil => rfl
  | cons l ls ih => rw [readLines, List.map_cons, ih]

theorem map_line_readIn (language : Language) (lines : List Line) :
    (readIn language lines).map ReadLine.line = lines := map_line_readLines _ lines

theorem map_seen_readLines (s : Scanner) (lines : List Line) :
    (readLines s lines).map ReadLine.seen = (s.feedAll (lines.map fun l => chomp l.text)).1 := by
  induction lines generalizing s with
  | nil => rfl
  | cons l ls ih =>
    rw [readLines, List.map_cons, ih]
    rfl

/-- The lines that stay where they are, as they are read. -/
def stayingIn (language : Language) (lines : List Line) : List ReadLine :=
  ((readIn language lines).filter (!·.line.moves language)).dropWhile (isBlank ·.line.text)

theorem map_line_stayingIn (language : Language) (lines : List Line) :
    (stayingIn language lines).map ReadLine.line = remaining language lines := by
  have hline := map_line_readIn language lines
  unfold stayingIn
  generalize readIn language lines = rs at hline ⊢
  subst hline
  unfold remaining
  rw [List.filter_map, List.dropWhile_map]
  rfl

/-! ## Lines that begin inside of a literal -/

/-- Of the lines that begin inside of a literal only blank ones at the beginning are missing. -/
def KeepsInside (language : Language) (lines : List Line) : Prop :=
  ∃ blanks, (∀ r ∈ blanks, isBlank r.line.text = true) ∧
    (readIn language lines).filter (·.seen.startsInLiteral) =
      blanks ++ (stayingIn language lines).filter (·.seen.startsInLiteral)

theorem keepsInside_iff {language : Language} {lines : List Line} (h : ∀ l ∈ lines, l.text ≠ []) :
    KeepsInside language lines ↔
      ∀ r ∈ readIn language lines, r.seen.startsInLiteral = true → r.line.moves language = false := by
  constructor
  · rintro ⟨blanks, hblanks, heq⟩ r hr hinside
    have hmem : r ∈ (readIn language lines).filter (·.seen.startsInLiteral) := List.mem_filter.2 ⟨hr, hinside⟩
    rw [heq] at hmem
    rcases List.mem_append.1 hmem with hmem | hmem
    · have hline : r.line ∈ lines := by
        rw [← map_line_readIn language lines]
        exact List.mem_map_of_mem hr
      rw [Line.moves, ImportLine.isTopLevel_of_isBlank (h r.line hline) (hblanks r hmem), Bool.and_false]
    · have hstays := (List.dropWhile_sublist _).subset (List.mem_filter.1 hmem).1
      simpa using (List.mem_filter.1 hstays).2
  · intro hnone
    have hfilter : (readIn language lines).filter (·.seen.startsInLiteral) =
        ((readIn language lines).filter (!·.line.moves language)).filter (·.seen.startsInLiteral) := by
      rw [List.filter_filter]
      refine List.filter_congr fun r hr => ?_
      cases hinside : r.seen.startsInLiteral with
      | false => rfl
      | true =>
        rw [hnone r hr hinside]
        rfl
    have hsplit := List.takeWhile_append_dropWhile (p := fun r : ReadLine => isBlank r.line.text)
      (l := (readIn language lines).filter (!·.line.moves language))
    refine ⟨(((readIn language lines).filter (!·.line.moves language)).takeWhile
      (isBlank ·.line.text)).filter (·.seen.startsInLiteral), fun r hr => ?_, ?_⟩
    · exact List.mem_takeWhile_imp (p := fun r : ReadLine => isBlank r.line.text) (List.mem_filter.1 hr).1
    · rw [hfilter, ← List.filter_append, stayingIn, hsplit]

/-! ## What the other lines begin inside of -/

/-- The line neither begins nor ends inside of a literal or a comment. -/
def ReadLine.isOutside (r : ReadLine) : Bool := !r.seen.startsInLiteral && !r.seen.endsInLiteral

theorem eq_code_of_isCode {m : ScanMode} (h : m.isCode = true) : m = .code := by
  cases m with
  | code => rfl
  | literal | comment => cases h

theorem mode_of_isOutside {s : Scanner} {l : Line} (h : ReadLine.isOutside ⟨l, (s.feed (chomp l.text)).1⟩ = true) :
    s.mode = .code ∧ (s.feed (chomp l.text)).2.mode = .code := by
  obtain ⟨hstarts, hends⟩ := Bool.and_eq_true_iff.1 h
  have hstarts : (!!s.mode.isCode) = true := hstarts
  have hends : (!!(s.feed (chomp l.text)).2.mode.isCode) = true := hends
  rw [Bool.not_not] at hstarts hends
  exact ⟨eq_code_of_isCode hstarts, eq_code_of_isCode hends⟩

/-- Scanners that stand in code are alike. -/
theorem alike_of_code {s t : Scanner} (hstyle : s.style = t.style) (hs : s.mode = .code) (ht : t.mode = .code) :
    s.Alike t := by
  refine ⟨hstyle, ?_⟩
  rw [hs, ht]
  exact .code

/-- What lines begin inside of. -/
def insides (s : Scanner) (texts : List (List Char)) : List Bool :=
  (s.feedAll (texts.map chomp)).1.map ScannedLine.startsInLiteral

theorem map_startsInLiteral_scan (style : CommentStyle) (code : List Char) :
    (scan style code).1.map ScannedLine.startsInLiteral = insides { style } (pieces code) := rfl

theorem insides_cons (s : Scanner) (text : List Char) (texts : List (List Char)) :
    insides s (text :: texts) = (!s.mode.isCode) :: insides (s.feed (chomp text)).2 texts := rfl

section Moved

variable {language : Language} {s t : Scanner} {lines : List Line}

/-- Without lines that leave a scanner in code the others are read as before. -/
theorem insides_filter (h : s.Alike t)
    (hmoved : ∀ r ∈ readLines s lines, r.line.moves language = true → r.isOutside = true) :
    insides t ((lines.filter (!·.moves language)).map Line.text) =
      ((readLines s lines).filter (!·.line.moves language)).map (·.seen.startsInLiteral) := by
  induction lines generalizing s t with
  | nil => rfl
  | cons l ls ih =>
    have hrest : ∀ r ∈ readLines (s.feed (chomp l.text)).2 ls, r.line.moves language = true → r.isOutside = true :=
      fun r hr => hmoved r (List.mem_cons_of_mem _ hr)
    rw [readLines]
    cases hmoves : l.moves language with
    | true =>
      -- both scanners stand in code in front of the line and behind it
      obtain ⟨hbefore, hbehind⟩ := mode_of_isOutside (hmoved _ List.mem_cons_self hmoves)
      have ht : t.mode = .code := by
        have hcode := h.isCode
        rw [hbefore] at hcode
        exact eq_code_of_isCode hcode.symm
      have hstyle : (s.feed (chomp l.text)).2.style = t.style := (s.feed_style _).trans h.style
      rw [List.filter_cons_of_neg (by simp [hmoves]), List.filter_cons_of_neg (by simp [hmoves])]
      exact ih (alike_of_code hstyle hbehind ht) hrest
    | false =>
      obtain ⟨hsame, hnext⟩ := h.feed (chomp l.text)
      rw [List.filter_cons_of_pos (by simp [hmoves]), List.filter_cons_of_pos (by simp [hmoves]), List.map_cons,
        List.map_cons, insides_cons, ih hnext hrest, ← h.isCode]
      rfl

/-- Nor do blank lines in code matter with which the others begin. -/
theorem insides_remaining (hs : s.mode = .code) (ht : t.mode = .code) (hstyle : s.style = t.style)
    (hmoved : ∀ r ∈ readLines s lines, r.line.moves language = true → r.isOutside = true) :
    insides t ((remaining language lines).map Line.text) =
      (((readLines s lines).filter (!·.line.moves language)).dropWhile (isBlank ·.line.text)).map
        (·.seen.startsInLiteral) := by
  induction lines generalizing s with
  | nil => rfl
  | cons l ls ih =>
    have hrest : ∀ r ∈ readLines (s.feed (chomp l.text)).2 ls, r.line.moves language = true → r.isOutside = true :=
      fun r hr => hmoved r (List.mem_cons_of_mem _ hr)
    have hstyle' : (s.feed (chomp l.text)).2.style = t.style := (s.feed_style _).trans hstyle
    cases hmoves : l.moves language with
    | true =>
      have hbehind := (mode_of_isOutside (hmoved _ List.mem_cons_self hmoves)).2
      have hskip := ih hbehind hstyle' hrest
      unfold remaining at hskip ⊢
      rw [readLines, List.filter_cons_of_neg (by simp [hmoves]), List.filter_cons_of_neg (by simp [hmoves])]
      exact hskip
    | false =>
      cases hblank : isBlank l.text with
      | true =>
        have hbehind : (s.feed (chomp l.text)).2.mode = .code := by
          have hchomp : isBlank (chomp l.text) = true :=
            List.all_eq_true.2 fun c hc => List.all_eq_true.1 hblank c (chomp_subset _ hc)
          exact Scanner.mode_feed_blank_of_code hs hchomp
        have hskip := ih hbehind hstyle' hrest
        unfold remaining at hskip ⊢
        rw [readLines, List.filter_cons_of_pos (by simp [hmoves]), List.filter_cons_of_pos (by simp [hmoves]),
          List.dropWhile_cons_of_pos (by simp [hblank]), List.dropWhile_cons_of_pos (by simp [hblank])]
        exact hskip
      | false =>
        have hall := insides_filter (alike_of_code hstyle hs ht) hmoved
        unfold remaining
        rw [readLines, List.filter_cons_of_pos (by simp [hmoves])] at hall ⊢
        rw [List.filter_cons_of_pos (by simp [hmoves])] at hall ⊢
        rw [List.dropWhile_cons_of_neg (by simp [hblank]), List.dropWhile_cons_of_neg (by simp [hblank])]
        exact hall

end Moved

/-! ## The head -/

/-- A scanner of this style that stands in code in front of the line stands in code behind it. -/
def Leaves (style : CommentStyle) (text : List Char) : Prop :=
  ∀ s : Scanner, s.style = style → s.mode = .code → (s.feed (chomp text)).2.mode = .code

theorem insides_append_of_leaves {s : Scanner} (hs : s.mode = .code) {texts : List (List Char)}
    (h : ∀ text ∈ texts, Leaves s.style text) (rest : List (List Char)) :
    ∃ t : Scanner, t.style = s.style ∧ t.mode = .code ∧
      insides s (texts ++ rest) = texts.map (fun _ => false) ++ insides t rest := by
  induction texts generalizing s with
  | nil => exact ⟨s, rfl, hs, rfl⟩
  | cons text texts ih =>
    have hnext := h text List.mem_cons_self s rfl hs
    have hstyle : (s.feed (chomp text)).2.style = s.style := s.feed_style _
    obtain ⟨t, ht, hcode, heq⟩ := ih hnext fun u hu => by
      rw [hstyle]
      exact h u (List.mem_cons_of_mem text hu)
    refine ⟨t, ht.trans hstyle, hcode, ?_⟩
    rw [List.cons_append, insides_cons, heq, hs]
    rfl

theorem leaves_newline (style : CommentStyle) : Leaves style ['\n'] := by
  intro s _ hs
  exact Scanner.mode_feed_blank_of_code hs (by decide)

theorem exists_of_mem_readLines {s : Scanner} {lines : List Line} {r : ReadLine} (h : r ∈ readLines s lines) :
    ∃ t : Scanner, t.style = s.style ∧ r.seen = (t.feed (chomp r.line.text)).1 := by
  induction lines generalizing s with
  | nil => cases h
  | cons l ls ih =>
    rcases List.mem_cons.1 h with rfl | h
    · exact ⟨s, rfl, rfl⟩
    · obtain ⟨t, ht, hseen⟩ := ih h
      exact ⟨t, ht.trans (s.feed_style _), hseen⟩

theorem trimEnd_trimEnd_newline (cs : List Char) : trimEnd (trimEnd cs ++ ['\n']) = trimEnd cs := by
  obtain ⟨blanks, hcs, hblanks⟩ := exists_dropEndWhile isSpace cs
  have hagain : trimEnd cs = trimEnd (trimEnd cs) :=
    (congrArg trimEnd hcs).trans (trimEnd_append_blank (List.all_eq_true.2 hblanks) _)
  rw [trimEnd_append_blank (by decide), ← hagain]

/-- A statement leaves the scanner in code if the line did that it was taken from. -/
theorem leaves_statement {s : Scanner} {lines : List Line} {r : ReadLine} (hr : r ∈ readLines s lines)
    (h : r.isOutside = true) : Leaves s.style (trimEnd r.line.text ++ ['\n']) := by
  intro t ht hcode
  obtain ⟨u, hu, hseen⟩ := exists_of_mem_readLines hr
  have hread : ReadLine.isOutside ⟨r.line, (u.feed (chomp r.line.text)).1⟩ = true := by
    rw [← hseen]
    exact h
  obtain ⟨hbefore, hbehind⟩ := mode_of_isOutside hread
  have halike : u.Alike t := alike_of_code (hu.trans ht.symm) hbefore hcode
  have hnext := (halike.feed (chomp r.line.text)).2.isCode
  rw [hbehind] at hnext
  rw [Scanner.mode_feed_chomp, trimEnd_trimEnd_newline, ← Scanner.mode_feed_chomp]
  exact eq_code_of_isCode hnext.symm

theorem leaves_headFor {language : Language} {lines : List Line}
    (h : ∀ r ∈ readIn language lines, r.line.moves language = true → r.isOutside = true) :
    ∀ text ∈ headFor language lines, Leaves (.ofMark language.commentMark) text := by
  intro text htext
  rcases List.mem_append.1 htext with htext | htext
  · obtain ⟨s, hs, rfl⟩ := List.mem_map.1 htext
    obtain ⟨t, ht, rfl⟩ := mem_headOf.1 hs
    obtain ⟨l, hl, rfl⟩ := List.mem_map.1 ht
    obtain ⟨hmem, hmoves⟩ := List.mem_filter.1 hl
    rw [← map_line_readIn language lines] at hmem
    obtain ⟨r, hr, rfl⟩ := List.mem_map.1 hmem
    exact leaves_statement hr (h r hr hmoves)
  · split at htext
    · cases htext
    · rw [List.mem_singleton.1 htext]
      exact leaves_newline _

/-! ## Literals in a result -/

/-- What moving imports does to the literals and block comments of a result with these lines. -/
structure LiteralsMoved (language : Language) (lines : List Line) (a b : Assembly) (moved : Nat) : Prop where
  read : (readIn language lines).map ReadLine.seen = (scan (.ofMark language.commentMark) a.code.toList).1
  staying : moved ≠ 0 → pieces b.code.toList =
    headFor language lines ++ (stayingIn language lines).map fun r => r.line.text
  /-- lines that begin inside of a literal stay exactly if none of them is an import of a converted chunk -/
  kept : KeepsInside language lines ↔
    ∀ r ∈ readIn language lines, r.seen.startsInLiteral = true → r.line.moves language = false
  /-- then each line begins inside of what it began inside of, if no import leaves a literal open either -/
  inside : moved ≠ 0 → (∀ r ∈ readIn language lines, r.line.moves language = true → r.isOutside = true) →
    (scan (.ofMark language.commentMark) b.code.toList).1.map ScannedLine.startsInLiteral =
      (headFor language lines).map (fun _ => false) ++ (stayingIn language lines).map (·.seen.startsInLiteral)
  /-- in a language without imports that are moved nothing changes -/
  others : language.name ∉ ["python", "javascript", "typescript"] → moved = 0 ∧ b = a

theorem isTopLevel_of_notMem {language : Language} (h : language.name ∉ ["python", "javascript", "typescript"])
    (line : List Char) : ImportLine.isTopLevel language line = false := by
  simp only [List.mem_cons, List.not_mem_nil, or_false, not_or] at h
  unfold ImportLine.isTopLevel
  split
  · rfl
  · split
    · next hname => exact absurd hname h.1
    · next hname => exact absurd hname h.2.1
    · next hname => exact absurd hname h.2.2
    · rfl

/-- Lines that begin inside of a literal are moved exactly if they are imports of converted chunks.  If no import begins
or ends inside of a literal, every literal stays as it was. -/
theorem literals_stay_iff (id : RequestId) (chunks : List Chunk) (finals : List (Nat × ChunkEnd)) (cancelled : Bool)
    (language : Language) :
    LiteralsMoved language (linesOf (partsOf finals chunks)) (ofChunks id chunks finals cancelled)
      ((ofChunks id chunks finals cancelled).hoist language).1
      ((ofChunks id chunks finals cancelled).hoist language).2 := by
  have hhoisted := hoist_conserves id chunks finals cancelled language
  have hne : ∀ l ∈ linesOf (partsOf finals chunks), l.text ≠ [] := fun l hl => text_ne_nil_of_mem_linesOf hl
  generalize ofChunks id chunks finals cancelled = a at hhoisted ⊢
  generalize linesOf (partsOf finals chunks) = lines at hhoisted hne ⊢
  have hstaying : (stayingIn language lines).map (fun r => r.line.text) = (remaining language lines).map Line.text := by
    rw [← map_line_stayingIn, List.map_map]
    rfl
  refine ⟨?_, fun hmoved => ?_, keepsInside_iff hne, fun hmoved houtside => ?_, fun hlanguage => ?_⟩
  · unfold scan Text.lines
    rw [readIn, map_seen_readLines, hhoisted.before, List.map_map]
    rfl
  · rw [hhoisted.after hmoved, hstaying]
  · have hcode : (⟨.ofMark language.commentMark, .code, [], 0, #[]⟩ : Scanner).mode = .code := rfl
    obtain ⟨t, ht, htcode, heq⟩ := insides_append_of_leaves hcode (leaves_headFor houtside)
      ((remaining language lines).map Line.text)
    rw [map_startsInLiteral_scan, hhoisted.after hmoved, heq, insides_remaining hcode htcode ht.symm houtside]
    rfl
  · have hnone : leaving language lines = [] := by
      refine List.filter_eq_nil_iff.2 fun l _ => ?_
      rw [Line.moves, isTopLevel_of_notMem hlanguage, Bool.and_false]
      exact Bool.false_ne_true
    have hzero : (a.hoist language).2 = 0 := by
      rw [hhoisted.count, hnone]
      rfl
    exact ⟨hzero, hhoisted.unchanged hzero⟩

/-- One converted chunk with a literal of three lines, the second of which reads as an import. -/
def quotedImport : Assembly :=
  ofChunks default [{ index := 0, text := "s" }]
    [(0, .converted (Answer.ofCode "s = \"\"\"\nimport os\n\"\"\"\n" 1 {}) 1)] false

/-- The import is taken out of the literal. -/
theorem moves_out_of_literal :
    (scan (.ofMark Language.python.commentMark) quotedImport.code.toList).1.map ScannedLine.startsInLiteral =
      [false, true, true] ∧
    quotedImport.code = "s = \"\"\"\nimport os\n\"\"\"\n" ∧
    (quotedImport.hoist .python).1.code = "import os\n\ns = \"\"\"\n\"\"\"\n" ∧
    (quotedImport.hoist .python).2 = 1 := by
  decide +kernel

end Assembly

end Pseudoscribe
