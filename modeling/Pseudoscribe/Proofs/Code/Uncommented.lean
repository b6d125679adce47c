import Pseudoscribe.Proofs.Code.Alongside
import Pseudoscribe.Proofs.Code.Unknown

/-!
# Sources without their comments

Comments that stand behind the code of a line, or alone on a line that ends no block, make no difference to the code
that is written.  A line that begins inside of a block comment is taken for a line of a literal, and stands in the code
as it is.
-/

namespace Pseudoscribe

open Pseudoscribe.Frame

/-- What a scanner is inside of if there are no comments. -/
def ScanMode.uncommented : ScanMode → ScanMode
  | .comment _ => .code
  | mode => mode

namespace Scanner

/-- The lines without their comments.  A comment that runs over the end of a line takes that with it; what is kept of
the lines that it began in is `front`. -/
def uncomment (s : Scanner) (front : List Char) : List (List Char) → List (List Char)
  | [] => if s.region = .comment then [front] else []
  | raw :: raws =>
    if (s.feed raw).2.region = .comment then (s.feed raw).2.uncomment (front ++ s.lineKept raw) raws
    else (front ++ s.lineKept raw) :: (s.feed raw).2.uncomment [] raws

/-- The lines that begin inside of a comment, without the blanks at their ends. -/
def inside (s : Scanner) : List (List Char) → List (List Char)
  | [] => []
  | raw :: raws => (if s.region = .comment then [Text.trimEnd raw] else []) ++ (s.feed raw).2.inside raws

/-- The line without its comments is read as the line is. -/
def rescans (s : Scanner) (raw : List Char) : Bool :=
  let line := s.feed raw
  let kept := s.feed (s.lineKept raw)
  kept.1.masked == line.1.masked && kept.1.indent == line.1.indent && kept.2.mode == line.2.mode.uncommented

end Scanner

namespace Generation.Progress

/-- The comments of the next line make no difference.  A line that begins inside of a literal has none.  Behind a
comment that began in a line before nothing stands.  What is kept of a line of code is what that begins with, reads the
same, and ends the blocks that lines with only a comment have ended. -/
def lineHarmless (p : Progress) (ended : List Frame) (raw : List Char) : Bool :=
  let line := (p.scanner.feed raw).1
  let kept := p.scanner.lineKept raw
  match p.scanner.region with
  | .literal => Text.trimEnd kept == Text.trimEnd raw && p.scanner.rescans raw
  | .comment => kept.isEmpty
  | .code => Text.isBlank kept ||
      ((Text.trim kept).isPrefixOf (Text.trim raw) && p.scanner.rescans raw &&
        ended.all (·.endsAt line.indent (LineShape.ofLine line.masked).isContinuation))

/-- The blocks that have been ended by lines with only a comment since the last line of code. -/
def endedBehind (p : Progress) (ended : List Frame) (raw : List Char) : List Frame :=
  if p.scanner.region = .code then
    if Text.isBlank (p.scanner.lineKept raw) then
      ended ++ if Text.isBlank raw then [] else
        p.emitter.stack.takeWhile (·.endsAt (p.scanner.feed raw).1.indent false)
    else []
  else ended

/-- The comments of the lines make no difference. -/
def harmless (p : Progress) (ended : List Frame) : List (List Char) → Bool
  | [] => true
  | raw :: raws => p.lineHarmless ended raw && (p.feed raw).harmless (p.endedBehind ended raw) raws

end Generation.Progress

/-! ## Lines -/

namespace Scanner

theorem mode_of_region {s : Scanner} (h : s.region = .code) : s.mode = .code := by
  unfold region at h
  split at h
  · assumption
  · cases h
  · cases h

theorem startsInLiteral_of_region {s : Scanner} (h : s.region ≠ .code) (raw : List Char) :
    (s.feed raw).1.startsInLiteral = true := by
  show (!s.mode.isCode) = true
  unfold region at h
  split at h
  · exact absurd rfl h
  · next hmode => rw [hmode]; rfl
  · next hmode => rw [hmode]; rfl

theorem alike_uncommented_iff {s : Scanner} (h : s.region ≠ .literal) {mode : ScanMode} :
    mode.Alike s.mode.uncommented ↔ mode = .code := by
  have hcode : s.mode.uncommented = .code := by
    unfold region at h
    split at h
    · next hmode => rw [hmode]; rfl
    · exact absurd rfl h
    · next hmode => rw [hmode]; rfl
  rw [hcode]
  constructor
  · rintro ⟨⟩
    rfl
  · rintro rfl
    exact .code

theorem region_endLine {s : Scanner} (h : s.region ≠ .literal) : s.endLine = s := by
  unfold endLine
  split
  · next quote opened hmode => exact absurd (by rw [region, hmode]) h
  · rfl

/-- Where nothing is left but blanks, no literal has begun. -/
theorem feed_of_blank {s : Scanner} (hregion : s.region ≠ .literal) {raw : List Char}
    (hkept : Text.isBlank (s.lineKept raw) = true) :
    (s.feed raw).2.region ≠ .literal ∧ Text.trim (s.feed raw).1.masked = [] := by
  have hreading := reading_consume { s with line := s.line + 1 } 0 none 1 (Text.dropLineEnds raw)
  have hfirst : ({ s with line := s.line + 1 } : Scanner).region ≠ .literal := hregion
  have hlast : (({ s with line := s.line + 1 } : Scanner).consume 0 none 1 (Text.dropLineEnds raw)).2.region ≠
      .literal := by
    intro hliteral
    -- a literal begins with a quote, which would be kept
    rw [hliteral] at hreading
    obtain ⟨q, c, -, hmem⟩ := hreading.exists_quote hfirst
    have htrimmed : Text.trimEnd (s.lineKept raw) = [] := Text.trimEnd_append_blank hkept []
    rw [show Scanner.kept _ 0 none 1 (Text.dropLineEnds raw) = s.lineKept raw from rfl, htrimmed] at hmem
    cases hmem
  constructor
  · show (endLine _).region ≠ .literal
    rw [region_endLine hlast]
    exact hlast
  · have hlength := (hreading.length_trim hfirst).2 hlast
    rw [show Scanner.kept _ 0 none 1 (Text.dropLineEnds raw) = s.lineKept raw from rfl,
      Text.trim_eq_nil hkept] at hlength
    exact List.eq_nil_of_length_eq_zero hlength

theorem trim_masked_ne_nil {s : Scanner} (hregion : s.region ≠ .literal) {raw : List Char}
    (hkept : Text.isBlank (s.lineKept raw) = false) : Text.trim (s.feed raw).1.masked ≠ [] := by
  obtain ⟨last, hreading⟩ := s.reading_feed raw
  have hlength := (hreading.length_trim hregion).1
  intro hnil
  rw [hnil, List.length_nil, Nat.le_zero, List.length_eq_zero_iff] at hlength
  rw [Text.isBlank_of_trim_eq_nil hlength] at hkept
  cases hkept

end Scanner

namespace Target

theorem isCode_comment (t : Target) (text : List Char) : t.isCode (Text.trimEnd (t.comment text)) = false := by
  have hmark : t.commentMark.isPrefixOf (Text.trimStart (Text.trimEnd (t.comment text))) = true := by
    cases t with
    | python =>
      show ['#'].isPrefixOf (Text.trimStart (Text.trimEnd ('#' :: ' ' :: text))) = true
      rw [Text.trimEnd_cons_of_visible (by decide), Text.trimStart_cons_of_visible (by decide)]
      rfl
    | javascript =>
      show ['/', '/'].isPrefixOf (Text.trimStart (Text.trimEnd ('/' :: '/' :: ' ' :: text))) = true
      rw [Text.trimEnd_cons_of_visible (by decide), Text.trimEnd_cons_of_visible (by decide),
        Text.trimStart_cons_of_visible (by decide)]
      rfl
  rw [isCode, hmark, Bool.not_true, Bool.and_false]

end Target

namespace Frame

theorem map_bare_takeWhile (stack : List Frame) (indent : Nat) (continuation : Bool) :
    (stack.takeWhile (·.endsAt indent continuation)).map bare =
      (stack.map bare).takeWhile (·.endsAt indent continuation) := by
  rw [List.takeWhile_map]
  rfl

theorem all_endsAt_of_bare {xs ys : List Frame} (h : xs.map bare = ys.map bare) (indent : Nat) (continuation : Bool) :
    xs.all (·.endsAt indent continuation) = ys.all (·.endsAt indent continuation) := by
  have hbare (stack : List Frame) :
      (stack.map bare).all (·.endsAt indent continuation) = stack.all (·.endsAt indent continuation) := List.all_map
  rw [← hbare, h, hbare]

end Frame

namespace Emitter

variable {e : Emitter}

/-- The frames that have ended already end at the line as well, which finds the others as it would have found them. -/
theorem line_popMany {count : Nat} {line : ScannedLine} (h : (e.stack.take count).all
    (·.endsAt line.indent (LineShape.ofLine line.masked).isContinuation) = true) (hcount : count ≤ e.stack.length)
    (raw : List Char) : (popMany count e).line line raw = e.line line raw := by
  have hdedent : (popMany count e).dedent line.indent (LineShape.ofLine line.masked).isContinuation =
      e.dedent line.indent (LineShape.ofLine line.masked).isContinuation := by
    have hlength : (e.stack.takeWhile (·.endsAt line.indent (LineShape.ofLine line.masked).isContinuation)).length =
        count + ((e.stack.drop count).takeWhile
          (·.endsAt line.indent (LineShape.ofLine line.masked).isContinuation)).length := by
      conv => lhs; rw [← List.take_append_drop count e.stack]
      rw [List.takeWhile_append_of_pos (List.all_eq_true.1 h), List.length_append, List.length_take,
        Nat.min_eq_left hcount]
    rw [dedent, dedent, stack_popMany, hlength, popMany_add]
  unfold Emitter.line
  dsimp only
  rw [hdedent]

theorem line_of_empty {line : ScannedLine} (h : Text.trim line.masked = []) (raw : List Char) :
    (e.line line raw).2 = (e.dedent line.indent false).statement
      (Text.trimEnd (e.target.comment (commentText (Text.trim raw)))) := by
  have hplain := LineShape.ofLine_of_trim_eq_nil h
  cases e.lineCase line raw with
  | comment _ heq => rw [heq]
  | plain _ nonempty => exact absurd h nonempty
  | continues _ shape | opens _ _ shape | closes _ _ shape =>
    rw [hplain] at shape
    cases shape

/-- What is made of a line depends on its masked text, its indentation and its code. -/
theorem line_eq_of_code {line line' : ScannedLine} (hmasked : line'.masked = line.masked)
    (hindent : line'.indent = line.indent) (hsome : Text.trim line.masked ≠ []) {raw raw' : List Char}
    (hcode : FrameStep.codeOf line' raw' = FrameStep.codeOf line raw) : e.line line' raw' = e.line line raw := by
  have hempty : (Text.trim line.masked).isEmpty = false := by
    rwa [List.isEmpty_eq_false_iff]
  unfold FrameStep.codeOf at hcode
  rw [hmasked] at hcode
  unfold Emitter.line
  dsimp only
  rw [hmasked, hindent, hempty, hcode]
  rfl

end Emitter

namespace Generation

open Progress

theorem Progress.emitter_feed_inside {p : Progress} (hregion : p.scanner.region ≠ .code) (raw : List Char) :
    (p.feed raw).emitter = p.emitter.emit (Text.trimEnd raw) := by
  rw [emitter_feed, Scanner.startsInLiteral_of_region hregion, if_pos rfl]

/-- The first generation reads the source without its comments, and has read all that the second one has read.  The
frames that lines with only a comment have ended for the second one are still open for the first one. -/
structure CaughtUp (texts : List (List Char)) (ended : List Frame) (q p : Progress) : Prop where
  style : q.scanner.style = p.scanner.style
  mode : q.scanner.mode.Alike p.scanner.mode.uncommented
  literal : p.scanner.region = .literal → ended = []
  frames : (q.emitter.stack.take ended.length).map bare = ended.map bare
  emitters : Emitter.Alongside (q.emitter.popMany ended.length) texts p.emitter

namespace CaughtUp

variable {texts : List (List Char)} {ended : List Frame} {p q : Progress} {raw : List Char}

theorem length_le (h : CaughtUp texts ended q p) : ended.length ≤ q.emitter.stack.length := by
  have hlength := congrArg List.length h.frames
  simp only [List.length_map, List.length_take] at hlength
  omega

theorem target_eq (h : CaughtUp texts ended q p) : p.emitter.target = q.emitter.target :=
  h.emitters.target_eq.trans (Emitter.target_popMany _ _)

/-- What is left of the first stack is the second one. -/
theorem map_bare_drop (h : CaughtUp texts ended q p) :
    (q.emitter.stack.drop ended.length).map bare = p.emitter.stack.map bare := by
  rw [h.emitters.map_bare_stack, Emitter.stack_popMany]

/-- At the end of the source both end the blocks that are still open. -/
theorem codeLines_written (h : CaughtUp texts ended q p) : DifferByAll q.emitter.target
    (q.emitter.target.codeLines (q.written [])) texts (q.emitter.target.codeLines (p.written [])) := by
  have hlength := congrArg List.length h.map_bare_drop
  rw [List.length_map, List.length_map, List.length_drop] at hlength
  have hle := h.length_le
  have hends := (Emitter.carries_popMany p.emitter.stack.length).alongside h.emitters
  rw [← Emitter.popMany_add, show ended.length + p.emitter.stack.length = q.emitter.stack.length by omega] at hends
  have hlines := hends.codeLines
  rwa [Emitter.target_popMany] at hlines

theorem mode_code (h : CaughtUp texts ended q p) (hregion : p.scanner.region ≠ .literal) : q.scanner.mode = .code :=
  (Scanner.alike_uncommented_iff hregion).1 h.mode

theorem alike (h : CaughtUp texts ended q p) (hregion : p.scanner.region ≠ .comment) : q.scanner.Alike p.scanner := by
  have hmode : p.scanner.mode.uncommented = p.scanner.mode := by
    unfold Scanner.region at hregion
    split at hregion
    · next hmode => rw [hmode]; rfl
    · next hmode => rw [hmode]; rfl
    · exact absurd rfl hregion
  exact ⟨h.style, hmode ▸ h.mode⟩

theorem style_feed (h : CaughtUp texts ended q p) (raw' : List Char) :
    (q.feed raw').scanner.style = (p.feed raw).scanner.style := by
  rw [(q.feed_keeps raw').1, (p.feed_keeps raw).1, Scanner.feed_style, Scanner.feed_style, h.style]

/-- Of a line inside of a comment the first generation has nothing to read. -/
theorem inComment (h : CaughtUp texts ended q p) (hregion : p.scanner.region = .comment)
    (hkept : p.scanner.lineKept raw = []) :
    CaughtUp (texts ++ q.emitter.target.codeLines [Text.trimEnd raw]) ended q (p.feed raw) := by
  have hliteral : p.scanner.region ≠ .literal := by simp [hregion]
  have hbehind : (p.feed raw).scanner.region ≠ .literal := by
    rw [(p.feed_keeps raw).1]
    exact (Scanner.feed_of_blank hliteral (by rw [hkept]; rfl)).1
  refine ⟨?_, ?_, fun hin => absurd hin hbehind, h.frames, ?_⟩
  · rw [(p.feed_keeps raw).1, Scanner.feed_style, h.style]
  · exact (Scanner.alike_uncommented_iff hbehind).2 (h.mode_code hliteral)
  · rw [emitter_feed_inside (by simp [hregion]), ← h.target_eq]
    exact h.emitters.trans (Emitter.Alongside.emit p.emitter _)

/-- A line inside of a literal stands in both as it is. -/
theorem inLiteral (h : CaughtUp texts ended q p) (hregion : p.scanner.region = .literal)
    (hkept : Text.trimEnd (p.scanner.lineKept raw) = Text.trimEnd raw) (hrescans : p.scanner.rescans raw = true) :
    CaughtUp texts ended (q.feed (p.scanner.lineKept raw)) (p.feed raw) := by
  have halike := h.alike (by simp [hregion])
  have hmode : (p.scanner.feed (p.scanner.lineKept raw)).2.mode = (p.scanner.feed raw).2.mode.uncommented :=
    eq_of_beq (Bool.and_eq_true_iff.1 hrescans).2
  have hnone : ended = [] := h.literal hregion
  have hq : (q.feed (p.scanner.lineKept raw)).emitter = q.emitter.emit (Text.trimEnd raw) := by
    rw [← hkept, emitter_feed, (halike.feed _).1.startsInLiteral, Scanner.startsInLiteral_of_region (by simp [hregion]),
      if_pos rfl]
  subst hnone
  refine ⟨h.style_feed _, ?_, fun _ => rfl, rfl, ?_⟩
  · rw [(q.feed_keeps _).1, (p.feed_keeps raw).1, ← hmode]
    exact (halike.feed _).2.mode
  · rw [hq, emitter_feed_inside (by simp [hregion])]
    exact (Emitter.carries_emit (Text.trimEnd raw)).alongside h.emitters

/-- Of a line that nothing is left of the first generation reads a blank line, and behind it the second one stands in no
literal. -/
theorem feed_kept_blank (h : CaughtUp texts ended q p) (hregion : p.scanner.region = .code)
    (hkept : Text.isBlank (p.scanner.lineKept raw) = true) : (p.feed raw).scanner.region ≠ .literal ∧
      (q.feed (p.scanner.lineKept raw)).scanner.mode.Alike (p.feed raw).scanner.mode.uncommented ∧
      (q.feed (p.scanner.lineKept raw)).emitter = q.emitter.emit [] := by
  have hliteral : p.scanner.region ≠ .literal := by simp [hregion]
  have hbehind : (p.feed raw).scanner.region ≠ .literal := by
    rw [(p.feed_keeps raw).1]
    exact (Scanner.feed_of_blank hliteral hkept).1
  refine ⟨hbehind, (Scanner.alike_uncommented_iff hbehind).2 ?_, ?_⟩
  · rw [(q.feed_keeps _).1]
    exact Scanner.mode_feed_blank_of_code (h.mode_code hliteral) hkept
  · rw [feed_blank (h.mode_code hliteral) hkept]

theorem blank (h : CaughtUp texts ended q p) (hregion : p.scanner.region = .code)
    (hkept : Text.isBlank (p.scanner.lineKept raw) = true) (hraw : Text.isBlank raw = true) :
    CaughtUp texts ended (q.feed (p.scanner.lineKept raw)) (p.feed raw) := by
  obtain ⟨hbehind, hmode, hq⟩ := h.feed_kept_blank hregion hkept
  refine ⟨h.style_feed _, hmode, fun hin => absurd hin hbehind, ?_, ?_⟩
  · rw [hq]
    exact h.frames
  · rw [hq, feed_blank (Scanner.mode_of_region hregion) hraw]
    have hblank := (Emitter.carries_popMany ended.length).alongside (Emitter.Alongside.of_blank q.emitter)
    exact (hblank.trans h.emitters).blank

/-- A line that has only a comment may end blocks. -/
theorem comment (h : CaughtUp texts ended q p) (hregion : p.scanner.region = .code)
    (hkept : Text.isBlank (p.scanner.lineKept raw) = true) (hraw : Text.isBlank raw = false) :
    CaughtUp texts (ended ++ p.emitter.stack.takeWhile (·.endsAt (p.scanner.feed raw).1.indent false))
      (q.feed (p.scanner.lineKept raw)) (p.feed raw) := by
  obtain ⟨hbehind, hmode, hq⟩ := h.feed_kept_blank hregion hkept
  have hempty := (Scanner.feed_of_blank (s := p.scanner) (by simp [hregion]) hkept).2
  have hp : (p.feed raw).emitter = (p.emitter.dedent (p.scanner.feed raw).1.indent false).statement
      (Text.trimEnd (p.emitter.target.comment (Emitter.commentText (Text.trim raw)))) := by
    rw [emitter_feed_line (Scanner.mode_of_region hregion) hraw, Emitter.line_of_empty hempty]
  generalize hindent : (p.scanner.feed raw).1.indent = indent at hp ⊢
  -- the second stack is what is left of the first one, so that the same frames of both end at the comment
  have hended : (p.emitter.stack.takeWhile (·.endsAt indent false)).map bare =
      ((q.emitter.stack.drop ended.length).takeWhile (·.endsAt indent false)).map bare := by
    rw [Frame.map_bare_takeWhile, Frame.map_bare_takeWhile, h.map_bare_drop]
  have hcount := congrArg List.length hended
  rw [List.length_map, List.length_map] at hcount
  refine ⟨h.style_feed _, hmode, fun hin => absurd hin hbehind, ?_, ?_⟩
  · have htake : (q.emitter.stack.drop ended.length).take
        ((q.emitter.stack.drop ended.length).takeWhile (·.endsAt indent false)).length =
          (q.emitter.stack.drop ended.length).takeWhile (·.endsAt indent false) :=
      (List.prefix_iff_eq_take.1 (List.takeWhile_prefix _)).symm
    rw [hq, List.length_append, hcount]
    show ((q.emitter.stack.take _).map bare) = _
    rw [List.take_add, htake, List.map_append, List.map_append, h.frames, hended]
  · have hdedent : Emitter.popMany (p.emitter.stack.takeWhile (·.endsAt indent false)).length
        (q.emitter.popMany ended.length) = (q.emitter.popMany ended.length).dedent indent false := by
      rw [Emitter.dedent, Emitter.stack_popMany, hcount]
    have hcarries := Emitter.carries_popMany (ended ++ p.emitter.stack.takeWhile (·.endsAt indent false)).length
    have hblank := hcarries.alongside (Emitter.Alongside.of_blank q.emitter)
    have hends := (Emitter.carries_dedent indent false).alongside h.emitters
    have htarget : (Emitter.popMany (ended ++ p.emitter.stack.takeWhile (·.endsAt indent false)).length
        (q.emitter.emit [])).target = p.emitter.target := (Emitter.target_popMany _ _).trans h.target_eq.symm
    rw [hq, hp]
    rw [← hdedent, ← Emitter.popMany_add, ← List.length_append] at hends
    refine (hblank.trans hends).statement ?_
    rw [htarget]
    exact Target.isCode_comment _ _

theorem code (h : CaughtUp texts ended q p) (hregion : p.scanner.region = .code)
    (hkept : Text.isBlank (p.scanner.lineKept raw) = false)
    (hfront : Text.trim (p.scanner.lineKept raw) <+: Text.trim raw) (hrescans : p.scanner.rescans raw = true)
    (hended : ended.all (·.endsAt (p.scanner.feed raw).1.indent
      (LineShape.ofLine (p.scanner.feed raw).1.masked).isContinuation) = true) :
    CaughtUp texts [] (q.feed (p.scanner.lineKept raw)) (p.feed raw) := by
  have halike := h.alike (by simp [hregion])
  obtain ⟨⟨hmasked, hindent⟩, hmode⟩ : (_ ∧ _) ∧ _ := by
    simpa only [Scanner.rescans, Bool.and_eq_true, beq_iff_eq] using hrescans
  have hcode := (Scanner.codeOf_eq_iff (Scanner.mode_of_region hregion) raw).2 hfront
  have hsome := Scanner.trim_masked_ne_nil (s := p.scanner) (by simp [hregion]) hkept
  have hraw : Text.isBlank raw = false := by
    cases hblank : Text.isBlank raw with
    | false => rfl
    | true =>
      rw [Text.trim_eq_nil hblank, List.prefix_nil] at hfront
      rw [Text.isBlank_of_trim_eq_nil hfront] at hkept
      cases hkept
  -- the code begins the line, so that both lines are cut where it ends
  have hsame : FrameStep.codeOf (p.scanner.feed (p.scanner.lineKept raw)).1 (p.scanner.lineKept raw) =
      FrameStep.codeOf (p.scanner.feed raw).1 raw := by
    rw [hcode, FrameStep.codeOf, hmasked]
    refine List.take_of_length_le ?_
    rw [← hcode]
    exact List.length_take_le _ _
  have hq : (q.feed (p.scanner.lineKept raw)).emitter = (q.emitter.line (p.scanner.feed raw).1 raw).2 := by
    rw [emitter_feed_line (h.mode_code (by simp [hregion])) hkept, Emitter.line_congr (halike.feed _).1,
      Emitter.line_eq_of_code hmasked hindent hsome hsame]
  have hp := emitter_feed_line (Scanner.mode_of_region hregion) hraw
  refine ⟨h.style_feed _, ?_, fun _ => rfl, rfl, ?_⟩
  · rw [(q.feed_keeps _).1, (p.feed_keeps raw).1, ← hmode]
    exact (halike.feed _).2.mode
  · rw [hq, hp]
    -- the blocks that only the second one has ended end at this line for the first one
    have hline : (q.emitter.popMany ended.length).line (p.scanner.feed raw).1 raw =
        q.emitter.line (p.scanner.feed raw).1 raw := by
      refine Emitter.line_popMany ?_ h.length_le raw
      rw [Frame.all_endsAt_of_bare h.frames, hended]
    have hlines := (Emitter.carries_line (p.scanner.feed raw).1 raw).alongside h.emitters
    rw [hline] at hlines
    exact hlines

end CaughtUp

/-- The lines inside of comments that are code as they stand there. -/
def Progress.insideCode (p : Progress) (raws : List (List Char)) : List (List Char) :=
  p.emitter.target.codeLines (p.scanner.inside raws)

theorem insideCode_cons (p : Progress) (raw : List Char) (raws : List (List Char)) : p.insideCode (raw :: raws) =
    p.emitter.target.codeLines (if p.scanner.region = .comment then [Text.trimEnd raw] else []) ++
      (p.feed raw).insideCode raws := by
  rw [Progress.insideCode, Scanner.inside, Target.codeLines_append, Progress.insideCode, (p.feed_keeps raw).1,
    (p.feed_keeps raw).2]

/-- What the first generation has read when the comment has ended that the second one is inside of. -/
def Progress.caughtUp (base : Progress) (front : List Char) (p : Progress) : Progress :=
  if p.scanner.region = .comment then base.feed front else base

theorem CaughtUp.step {texts : List (List Char)} {ended : List Frame} {base p : Progress} {front raw : List Char}
    (h : CaughtUp texts ended (base.caughtUp front p) p) (hfront : p.scanner.region ≠ .comment → front = [])
    (hharmless : p.lineHarmless ended raw = true) :
    CaughtUp (texts ++ p.emitter.target.codeLines (if p.scanner.region = .comment then [Text.trimEnd raw] else []))
      (p.endedBehind ended raw) (base.feed (front ++ p.scanner.lineKept raw)) (p.feed raw) := by
  unfold lineHarmless at hharmless
  unfold endedBehind
  unfold caughtUp at h
  dsimp only at hharmless
  cases hregion : p.scanner.region with
  | comment =>
    rw [hregion] at h hharmless
    have hkept : p.scanner.lineKept raw = [] := List.isEmpty_iff.1 hharmless
    rw [if_pos rfl, if_neg (by decide), hkept, List.append_nil, h.target_eq]
    exact h.inComment hregion hkept
  | literal =>
    rw [hregion] at h hharmless
    obtain ⟨hkept, hrescans⟩ := Bool.and_eq_true_iff.1 hharmless
    have hliteral := h.inLiteral hregion (eq_of_beq hkept) hrescans
    simpa [hfront (by simp [hregion]), Target.codeLines] using hliteral
  | code =>
    rw [hregion] at h hharmless
    have hnext : CaughtUp texts
        (if Text.isBlank (p.scanner.lineKept raw) then
          ended ++ if Text.isBlank raw then [] else
            p.emitter.stack.takeWhile (·.endsAt (p.scanner.feed raw).1.indent false)
        else []) (base.feed (p.scanner.lineKept raw)) (p.feed raw) := by
      cases hkept : Text.isBlank (p.scanner.lineKept raw) with
      | true =>
        cases hraw : Text.isBlank raw with
        | true => simpa using h.blank hregion hkept hraw
        | false => simpa using h.comment hregion hkept hraw
      | false =>
        rw [hkept, Bool.false_or, Bool.and_eq_true, Bool.and_eq_true] at hharmless
        obtain ⟨⟨hbegins, hrescans⟩, hended⟩ := hharmless
        exact h.code hregion hkept (List.isPrefixOf_iff_prefix.1 hbegins) hrescans hended
    simpa [hfront (by simp [hregion]), Target.codeLines] using hnext

/-- The generation of the source without its comments writes what the other one writes. -/
theorem CaughtUp.differByAll {texts : List (List Char)} {ended : List Frame} {base p : Progress} {front : List Char}
    {raws : List (List Char)} (h : CaughtUp texts ended (base.caughtUp front p) p)
    (hfront : p.scanner.region ≠ .comment → front = []) (hharmless : p.harmless ended raws = true) :
    DifferByAll p.emitter.target (p.emitter.target.codeLines (base.written (p.scanner.uncomment front raws)))
      (texts ++ p.insideCode raws) (p.emitter.target.codeLines (p.written raws)) := by
  induction raws generalizing texts ended base p front with
  | nil =>
    have hwritten : base.written (p.scanner.uncomment front []) = (base.caughtUp front p).written [] := by
      unfold Scanner.uncomment caughtUp
      split <;> rfl
    rw [hwritten, h.target_eq, show texts ++ p.insideCode [] = texts from List.append_nil texts]
    exact h.codeLines_written
  | cons raw raws ih =>
    obtain ⟨hline, hrest⟩ := Bool.and_eq_true_iff.1 hharmless
    have hstep := h.step hfront hline
    obtain ⟨hscanner, htarget⟩ := p.feed_keeps raw
    rw [written_cons, insideCode_cons, ← List.append_assoc, Scanner.uncomment, ← htarget, ← hscanner]
    rw [← htarget] at hstep
    by_cases hcomment : (p.feed raw).scanner.region = .comment
    -- the first generation waits for the end of the comment, with what is kept so far of its line
    · rw [if_pos hcomment]
      refine ih ?_ (fun hno => absurd hcomment hno) hrest
      rwa [caughtUp, if_pos hcomment]
    · rw [if_neg hcomment, written_cons]
      refine ih ?_ (fun _ => rfl) hrest
      rwa [caughtUp, if_neg hcomment]

theorem caughtUp_begin (target : Target) (width : Nat) (setting : Setting) :
    CaughtUp [] [] (begin target width setting) (begin target width setting) :=
  ⟨rfl, .code, fun _ => rfl, rfl, .refl⟩

/-- The lines of a source without its comments. -/
def uncommented (source : List Char) : List (List Char) :=
  ({ style := .pseudocode } : Scanner).uncomment [] (Text.lines source)

/-- The lines of a source that begin inside of a comment and are code as they stand there. -/
def insideCode (target : Target) (source : List Char) : List (List Char) :=
  target.codeLines (({ style := .pseudocode } : Scanner).inside (Text.lines source))

/-- Without its comments a source has the same lines of code, if they do no harm, but for lines inside of comments that
are taken for code, and in Python for some `pass`.  A line that begins inside of a comment stands in the code as it is,
whatever it says. -/
theorem codeLines_uncommented (target : Target) (width : Nat) (source : List Char) :
    ((begin target width {}).harmless [] (Text.lines source) = true →
      DifferByAll target (target.codeLines ((begin target width {}).written (uncommented source)))
          (insideCode target source) (target.codeLines ((begin target width {}).written (Text.lines source))) ∧
        (target = .javascript → insideCode target source = [] →
          target.codeLines ((begin target width {}).written (Text.lines source)) =
            target.codeLines ((begin target width {}).written (uncommented source)))) ∧
    ∀ before raw after, Text.lines source = before ++ raw :: after →
      (before.foldl Progress.feed (begin target width {})).scanner.region = .comment →
        ∃ behind, (ofSource target width {} source).code =
          joinLines ((before.foldl Progress.feed (begin target width {})).emitter.out.toList ++
            Text.trimEnd raw :: behind) := by
  constructor
  · intro hharmless
    have hbegin : CaughtUp [] [] ((begin target width {}).caughtUp [] (begin target width {}))
        (begin target width {}) := caughtUp_begin target width {}
    have hdiffer := hbegin.differByAll (fun _ => rfl) hharmless
    refine ⟨hdiffer, ?_⟩
    rintro rfl hinside
    rw [List.nil_append, show (begin .javascript width {}).insideCode (Text.lines source) = [] from hinside] at hdiffer
    exact hdiffer.eq
  · intro before raw after hlines hregion
    have hsplit : Text.lines source = (before ++ [raw]) ++ after := by rw [hlines, List.append_assoc]; rfl
    obtain ⟨behind, hcode⟩ := exists_code target width {} hsplit
    refine ⟨behind, ?_⟩
    rw [hcode, List.foldl_append, List.foldl_cons, List.foldl_nil, emitter_feed_inside (by simp [hregion])]
    simp [Emitter.emit]

/-- A block with comments, the last of which has lines of its own. -/
theorem codeLines_uncommented_block :
    (begin .javascript 4 {}).harmless []
        (Text.lines "IF a THEN # c\n    # d\n    x = 1\nEND IF /* e\n f\n*/\n".toList) = true ∧
      DifferByAll .javascript ["if (a) \x7b".toList, "    let x = 1;".toList, "\x7d".toList]
        [" f".toList, "*/".toList]
        ["if (a) \x7b".toList, "    let x = 1;".toList, "\x7d".toList, " f".toList, "*/".toList] ∧
      ∃ behind, (ofSource .javascript 4 {} "IF a THEN # c\n    # d\n    x = 1\nEND IF /* e\n f\n*/\n".toList).code =
        joinLines (["if (a) \x7b".toList, "    // d".toList, "    let x = 1;".toList, "\x7d".toList] ++
          " f".toList :: behind) := by
  have h := codeLines_uncommented .javascript 4 "IF a THEN # c\n    # d\n    x = 1\nEND IF /* e\n f\n*/\n".toList
  have hlines : Text.lines "IF a THEN # c\n    # d\n    x = 1\nEND IF /* e\n f\n*/\n".toList =
      ["IF a THEN # c".toList, "    # d".toList, "    x = 1".toList, "END IF /* e".toList] ++
        " f".toList :: ["*/".toList] := by
    decide +kernel
  have hharmless : (begin .javascript 4 {}).harmless []
      (Text.lines "IF a THEN # c\n    # d\n    x = 1\nEND IF /* e\n f\n*/\n".toList) = true := by
    decide +kernel
  refine ⟨hharmless, ?_, ?_⟩
  · have hdiffer := (h.1 hharmless).1
    have hwithout : Target.javascript.codeLines ((begin .javascript 4 {}).written (uncommented
        "IF a THEN # c\n    # d\n    x = 1\nEND IF /* e\n f\n*/\n".toList)) =
          ["if (a) \x7b".toList, "    let x = 1;".toList, "\x7d".toList] := by
      decide +kernel
    have hinside : insideCode .javascript "IF a THEN # c\n    # d\n    x = 1\nEND IF /* e\n f\n*/\n".toList =
        [" f".toList, "*/".toList] := by
      decide +kernel
    have hwith : Target.javascript.codeLines ((begin .javascript 4 {}).written
        (Text.lines "IF a THEN # c\n    # d\n    x = 1\nEND IF /* e\n f\n*/\n".toList)) =
          ["if (a) \x7b".toList, "    let x = 1;".toList, "\x7d".toList, " f".toList, "*/".toList] := by
      decide +kernel
    rwa [hwithout, hinside, hwith] at hdiffer
  · have hinside := h.2 _ _ _ hlines (by decide +kernel)
    have hwritten : (["IF a THEN # c".toList, "    # d".toList, "    x = 1".toList, "END IF /* e".toList].foldl
        Progress.feed (begin .javascript 4 {})).emitter.out.toList =
          ["if (a) \x7b".toList, "    // d".toList, "    let x = 1;".toList, "\x7d".toList] := by
      decide +kernel
    rw [hwritten] at hinside
    exact hinside

/-- A comment that stands in the code takes the end of that, and what is inside of a comment stands in the code. -/
theorem code_ne_uncommented :
    uncommented "x = /* c */ 1\n".toList = ["x =  1".toList] ∧
      (ofSource .python 4 {} "x =  1\n".toList).code = "x = 1\n".toList ∧
      (ofSource .python 4 {} "x = /* c */ 1\n".toList).code = "x = /*\n".toList ∧
    uncommented "x = 1 /* c\n foo bar\n*/\ny = 2\n".toList = ["x = 1 ".toList, "y = 2".toList] ∧
      (ofSource .javascript 4 {} "x = 1 /* c\n foo bar\n*/\ny = 2\n".toList).code =
        "let x = 1;\n foo bar\n*/\nlet y = 2;\n".toList := by
  decide +kernel

end Generation

end Pseudoscribe
