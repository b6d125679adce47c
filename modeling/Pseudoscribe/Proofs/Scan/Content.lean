import Pseudoscribe.Proofs.Text.Blur
import Pseudoscribe.Scan.Scanner

/-!
# The content of string literals

Which characters of a text a scanner reads as the content of a literal, and that it does not matter which
letters these are: another letter there is read in the same way, leaves the same masked text and leads to
the same scanner.
-/

namespace Pseudoscribe

namespace ScanMode

def isLiteral : ScanMode → Bool
  | literal _ _ => true
  | _ => false

end ScanMode

namespace Scanner

/-- For each character of the rest of a line, whether it is content of a literal: read from one literal into the
same, and no backslash.  The first `skip` characters belong to a mark that was already read, or stand
behind a backslash; they are content if that was read `inside` of a literal. -/
def contents (s : Scanner) (skip : Nat) (inside : Bool) (prev : Option Char) (column : Nat) :
    List Char → List Bool
  | [] => []
  | c :: rest =>
    match skip with
    | k + 1 => (inside && c != '\\') :: contents s k inside (some c) (column + 1) rest
    | 0 =>
      match s.step prev column c rest with
      | .stop => List.replicate (rest.length + 1) false
      | .pass extra _ next =>
        let stays := s.mode.isLiteral && next.mode.isLiteral
        (stays && c != '\\') :: contents next extra stays (some c) (column + 1) rest

/-- The same for the next line; its end is no content. -/
def lineContents (s : Scanner) (raw : List Char) : List Bool :=
  contents { s with line := s.line + 1 } 0 false none 1 (Text.dropLineEnds raw)

/-- The same for pieces of a text, each with its line end. -/
def pieceContents (s : Scanner) : List (List Char) → List Bool
  | [] => []
  | piece :: pieces =>
    let marks := s.lineContents (Text.chomp piece)
    marks ++ List.replicate (piece.length - marks.length) false ++
      pieceContents (s.feed (Text.chomp piece)).2 pieces

end Scanner

/-- For each character of a text, whether its scan reads it as content of a literal. -/
def literalContent (style : CommentStyle) (text : List Char) : List Bool :=
  ({ style } : Scanner).pieceContents (Text.pieces text)

/-- The texts are as long as each other, and differ only inside of literals, in letters and numerals. -/
def DifferInLiterals (style : CommentStyle) (text text' : List Char) : Prop :=
  Text.DifferOnlyAt (literalContent style text) text text'

instance (style : CommentStyle) (text text' : List Char) :
    Decidable (DifferInLiterals style text text') :=
  inferInstanceAs (Decidable (Text.DifferOnlyAt _ _ _))

open Text

namespace Scanner

/-! ## One step -/

theorem startsComment_blur (style : CommentStyle) {prev prev' : Option Char} (c : Char)
    {rest rest' : List Char} (hprev : prev.map blur = prev'.map blur)
    (hrest : rest.map blur = rest'.map blur) :
    startsComment style prev c rest = startsComment style prev' c rest' := by
  have hcons : (c :: rest).map blur = (c :: rest').map blur := by rw [List.map_cons, hrest, List.map_cons]
  have hslashes := isPrefixOf_eq_of_blur ['/', '/'] (by decide) hcons
  have hdashes := isPrefixOf_eq_of_blur ['-', '-'] (by decide) hcons
  have hbefore : prev.all isSpace = prev'.all isSpace := by
    have h := congrArg (Option.all isSpace) hprev
    simpa only [Option.all_map, Function.comp_def, isSpace_blur] using h
  have hbehind : (rest.drop 1).head?.all isSpace = (rest'.drop 1).head?.all isSpace := by
    have h := congrArg (fun cs => (cs.drop 1).head?.all isSpace) hrest
    simpa only [← List.map_drop, List.head?_map, Option.all_map, Function.comp_def, isSpace_blur] using h
  unfold startsComment
  rw [hslashes, hdashes, hbefore, hbehind]

theorem quoteAt_blur {prev prev' : Option Char} (c : Char) {rest rest' : List Char}
    (hprev : prev.map blur = prev'.map blur) (hrest : rest.map blur = rest'.map blur) :
    quoteAt prev c rest = quoteAt prev' c rest' := by
  have hcons : (c :: rest).map blur = (c :: rest').map blur := by rw [List.map_cons, hrest, List.map_cons]
  have hdouble := isPrefixOf_eq_of_blur Quote.tripleDouble.mark (by decide) hcons
  have hsingle := isPrefixOf_eq_of_blur Quote.tripleSingle.mark (by decide) hcons
  have hbefore : prev.any isAlnum = prev'.any isAlnum := by
    have h := congrArg (Option.any isAlnum) hprev
    simpa only [Option.any_map, Function.comp_def, isAlnum_blur] using h
  have hbehind : rest.head?.any isAlnum = rest'.head?.any isAlnum := by
    have h := congrArg (fun cs => cs.head?.any isAlnum) hrest
    simpa only [List.head?_map, Option.any_map, Function.comp_def, isAlnum_blur] using h
  unfold quoteAt
  rw [hdouble, hsingle, hbefore, hbehind]

/-- In code the scanner looks at the character and at what kind of characters stand around it; elsewhere it looks
for marks, which have no letters. -/
theorem step_blur (s : Scanner) {prev prev' : Option Char} (column : Nat) {c c' : Char}
    {rest rest' : List Char} (hprev : prev.map blur = prev'.map blur) (hc : blur c = blur c')
    (hrest : rest.map blur = rest'.map blur) (hcode : s.mode.isLiteral = false → c = c') :
    s.step prev column c rest = s.step prev' column c' rest' := by
  have hcons : (c :: rest).map blur = (c' :: rest').map blur := by
    rw [List.map_cons, List.map_cons, hc, hrest]
  obtain ⟨style, m, brackets, line, issues⟩ := s
  cases m with
  | code =>
    obtain rfl := hcode rfl
    have hopens := isPrefixOf_eq_of_blur ['/', '*'] (by decide) hcons
    unfold step
    dsimp only
    rw [startsComment_blur style c hprev hrest, quoteAt_blur c hprev hrest, hopens]
  | literal quote opened =>
    have hbackslash : (c == '\\') = (c' == '\\') := by
      rw [← blur_beq (a := '\\') (by decide) c, hc, blur_beq (by decide)]
    have hcloses := isPrefixOf_eq_of_blur quote.mark (by cases quote <;> decide) hcons
    unfold step
    dsimp only
    rw [hbackslash, hcloses]
  | comment opened =>
    have hcloses := isPrefixOf_eq_of_blur ['*', '/'] (by decide) hcons
    unfold step
    dsimp only
    rw [hcloses]

/-! ## One line -/

theorem length_contents (s : Scanner) (skip : Nat) (inside : Bool) (prev : Option Char) (column : Nat)
    (cs : List Char) : (contents s skip inside prev column cs).length = cs.length := by
  induction cs generalizing s skip inside prev column with
  | nil => rfl
  | cons c rest ih =>
    cases skip with
    | succ k => rw [contents, List.length_cons, ih, List.length_cons]
    | zero =>
      rw [contents]
      cases s.step prev column c rest with
      | stop => exact List.length_replicate
      | pass extra mask next => exact congrArg (· + 1) (ih next extra _ (some c) (column + 1))

/-- Texts that differ in the content of literals are read in lockstep. -/
theorem consume_of_differ (s : Scanner) (skip : Nat) (inside : Bool) {prev prev' : Option Char} (column : Nat)
    {cs ds : List Char} (hprev : prev.map blur = prev'.map blur)
    (h : DifferOnlyAt (s.contents skip inside prev column cs) cs ds) :
    s.consume skip prev column cs = s.consume skip prev' column ds := by
  induction cs generalizing s skip inside prev prev' column ds with
  | nil =>
    obtain rfl := List.eq_nil_of_length_eq_zero h.1.symm
    rfl
  | cons c rest ih =>
    cases ds with
    | nil => exact absurd h.1 (Nat.succ_ne_zero _)
    | cons d rest' =>
      have hblur := h.map_blur
      simp only [List.map_cons, List.cons.injEq] at hblur
      obtain ⟨hc, hrest⟩ := hblur
      have hnext : (some c).map blur = (some d).map blur := congrArg some hc
      cases skip with
      | succ k =>
        rw [contents] at h
        rw [consume, consume]
        exact ih s k inside (column + 1) hnext (differOnlyAt_cons h).2
      | zero =>
        rw [contents] at h
        -- outside of a literal nothing is marked, so the characters are the same
        have hcode : s.mode.isLiteral = false → c = d := by
          intro hliteral
          rw [hliteral] at h
          cases hs : s.step prev column c rest with
          | stop =>
            rw [hs] at h
            exact (differOnlyAt_cons h).1.resolve_right (by simp)
          | pass extra mask next =>
            rw [hs] at h
            exact (differOnlyAt_cons h).1.resolve_right (by simp)
        rw [consume, consume, ← step_blur s column hprev hc hrest hcode]
        cases hs : s.step prev column c rest with
        | stop => rfl
        | pass extra mask next =>
          rw [hs] at h
          have hconsume := ih next extra _ (column + 1) hnext (differOnlyAt_cons h).2
          dsimp only
          rw [hconsume]

/-- The indentation of a line has no letters. -/
theorem indentation_blur {cs ds : List Char} (h : cs.map blur = ds.map blur) :
    indentation cs = indentation ds := by
  have hlead (es : List Char) :
      (es.map blur).takeWhile (fun c => c == ' ' || c == '\t') =
        es.takeWhile fun c => c == ' ' || c == '\t' := by
    have hcomp : (fun c => c == ' ' || c == '\t') ∘ blur = fun c => c == ' ' || c == '\t' := by
      funext c
      rw [Function.comp_apply, blur_beq (by decide), blur_beq (by decide)]
    rw [List.takeWhile_map, hcomp]
    refine (List.map_congr_left fun c hc => ?_).trans (List.map_id _)
    have hblank := List.all_takeWhile (p := fun c => c == ' ' || c == '\t') (l := es)
    have := List.all_eq_true.1 hblank c hc
    simp only [Bool.or_eq_true, beq_iff_eq] at this
    rcases this with rfl | rfl <;> decide
  unfold indentation
  rw [← hlead cs, h, hlead ds]

theorem feed_of_differ (s : Scanner) {raw raw' : List Char}
    (h : DifferOnlyAt (s.lineContents raw) (dropLineEnds raw) (dropLineEnds raw')) :
    s.feed raw = s.feed raw' := by
  have hstart : (none : Option Char).map blur = (none : Option Char).map blur := rfl
  have hconsume := consume_of_differ { s with line := s.line + 1 } 0 false 1 hstart h
  unfold feed
  dsimp only
  rw [hconsume, indentation_blur h.map_blur]

/-! ## Whole texts -/

/-- The line of a piece, and the end that is left out of it. -/
theorem exists_lineEnd (piece : List Char) :
    ∃ lineEnd, piece = dropLineEnds (chomp piece) ++ lineEnd := by
  have hbeginning (p : Char → Bool) (cs : List Char) : dropEndWhile p cs <+: cs := by
    rw [dropEndWhile, ← List.reverse_suffix, List.reverse_reverse]
    exact List.dropWhile_suffix p
  have hchomp : chomp piece <+: piece := by
    obtain ⟨rev, rfl⟩ : ∃ rev, piece = rev.reverse := ⟨piece.reverse, piece.reverse_reverse.symm⟩
    unfold chomp
    rw [List.reverse_reverse]
    split
    · exact List.reverse_prefix.2 ((List.suffix_cons _ _).trans (List.suffix_cons _ _))
    · exact List.reverse_prefix.2 (List.suffix_cons _ _)
    · exact List.prefix_refl _
  obtain ⟨lineEnd, hend⟩ := (hbeginning _ (chomp piece)).trans hchomp
  exact ⟨lineEnd, hend.symm⟩

theorem feed_chomp_of_differ (s : Scanner) {piece piece' : List Char} {padding : List Bool}
    (h : DifferOnlyAt (s.lineContents (chomp piece) ++ padding) piece piece') :
    s.feed (chomp piece) = s.feed (chomp piece') := by
  have hline : (dropLineEnds (chomp piece)).map blur = (dropLineEnds (chomp piece')).map blur := by
    rw [← dropLineEnds_map_blur, ← chomp_map_blur, h.map_blur, chomp_map_blur, dropLineEnds_map_blur]
  have hlength : (dropLineEnds (chomp piece')).length = (dropLineEnds (chomp piece)).length := by
    simpa only [List.length_map] using (congrArg List.length hline).symm
  have hmarks : (s.lineContents (chomp piece)).length = (dropLineEnds (chomp piece)).length :=
    length_contents _ _ _ _ _ _
  obtain ⟨lineEnd, hpiece⟩ := exists_lineEnd piece
  obtain ⟨lineEnd', hpiece'⟩ := exists_lineEnd piece'
  have hparts : DifferOnlyAt (s.lineContents (chomp piece) ++ padding)
      (dropLineEnds (chomp piece) ++ lineEnd) (dropLineEnds (chomp piece') ++ lineEnd') := by
    rw [← hpiece, ← hpiece']
    exact h
  exact feed_of_differ s (hparts.append hmarks hlength).1

theorem length_lineContents_le (s : Scanner) (piece : List Char) :
    (s.lineContents (chomp piece)).length ≤ piece.length := by
  obtain ⟨lineEnd, hpiece⟩ := exists_lineEnd piece
  have hlength := congrArg List.length hpiece
  rw [List.length_append] at hlength
  rw [lineContents, length_contents]
  omega

theorem feedAll_of_differ (s : Scanner) {pieces pieces' : List (List Char)}
    (hblur : pieces.map (List.map blur) = pieces'.map (List.map blur))
    (h : DifferOnlyAt (s.pieceContents pieces) pieces.flatten pieces'.flatten) :
    s.feedAll (pieces.map chomp) = s.feedAll (pieces'.map chomp) := by
  induction pieces generalizing s pieces' with
  | nil =>
    cases pieces' with
    | nil => rfl
    | cons q qs => cases hblur
  | cons p ps ih =>
    cases pieces' with
    | nil => cases hblur
    | cons q qs =>
      simp only [List.map_cons, List.cons.injEq] at hblur
      obtain ⟨hpq, hps⟩ := hblur
      have hlength : q.length = p.length := by
        simpa only [List.length_map] using (congrArg List.length hpq).symm
      have hpadded : (s.lineContents (chomp p) ++
          List.replicate (p.length - (s.lineContents (chomp p)).length) false).length = p.length := by
        have hle := length_lineContents_le s p
        rw [List.length_append, List.length_replicate]
        omega
      rw [pieceContents, List.flatten_cons, List.flatten_cons] at h
      obtain ⟨hfirst, hrest⟩ := h.append hpadded hlength
      have hfeed := feed_chomp_of_differ s hfirst
      have htail := ih (s.feed (chomp p)).2 hps hrest
      rw [List.map_cons, List.map_cons, feedAll, feedAll, ← hfeed]
      dsimp only
      rw [htail]

end Scanner

/-- The content of literals leaves no trace in a scan. -/
theorem scan_of_differ {style : CommentStyle} {text text' : List Char}
    (h : DifferInLiterals style text text') : scan style text = scan style text' := by
  have hpieces : (pieces text).map (List.map blur) = (pieces text').map (List.map blur) := by
    rw [← pieces_map_blur, h.map_blur, pieces_map_blur]
  unfold DifferInLiterals literalContent at h
  have hfeedAll := Scanner.feedAll_of_differ { style } hpieces (by rwa [flatten_pieces, flatten_pieces])
  unfold scan lines
  rw [hfeedAll]

end Pseudoscribe
