import Pseudoscribe.Proofs.Code.Literals
import Pseudoscribe.Proofs.Scan.Kept

/-!
# Lines that say nothing known

A header or a plain line that says nothing known is kept in the code as a comment of its own, in the order of the
source.  A line that would carry a block on and says nothing known, or finds no block open, is reported in the same
way but leaves nothing.
-/

namespace Pseudoscribe

namespace Text

theorem pieces_replicate_newline (k : Nat) : pieces (List.replicate k '\n') = List.replicate k ['\n'] := by
  induction k with
  | zero => rfl
  | succ k ih => rw [List.replicate_succ, pieces_newline_cons, ih, List.replicate_succ]

/-- Lines that are put under one another are found again, if they hold no newline. -/
theorem sublist_pieces {part lines : List (List Char)} (h : part.Sublist lines) (hline : ∀ l ∈ part, '\n' ∉ l) :
    (part.map (· ++ ['\n'])).Sublist (pieces (lines.map (· ++ ['\n'])).flatten) := by
  induction h with
  | slnil => exact List.nil_sublist _
  | cons l _ ih =>
    rw [List.map_cons, List.flatten_cons, pieces_append (closed_line l)]
    exact (ih hline).trans (List.sublist_append_right _ _)
  | cons_cons l _ ih =>
    obtain ⟨hl, hpart⟩ := List.forall_mem_cons.1 hline
    rw [List.map_cons, List.map_cons, List.flatten_cons, pieces_append (closed_line l), pieces_line hl]
    exact (ih hpart).cons_cons _

/-- A line holds no newline. -/
theorem newline_notMem_of_mem_lines {cs line : List Char} (h : line ∈ lines cs) : '\n' ∉ line := by
  obtain ⟨piece, hpiece, rfl⟩ := List.mem_map.1 h
  have hfront := newline_notMem_dropLast hpiece
  obtain ⟨rev, rfl⟩ : ∃ rev, piece = rev.reverse := ⟨piece.reverse, piece.reverse_reverse.symm⟩
  rw [List.dropLast_reverse, List.mem_reverse] at hfront
  unfold chomp
  rw [List.reverse_reverse]
  split
  · exact fun hmem => hfront (List.mem_cons_of_mem _ (List.mem_reverse.1 hmem))
  · exact fun hmem => hfront (List.mem_reverse.1 hmem)
  · next hno =>
    cases rev with
    | nil => exact List.not_mem_nil
    | cons c rest =>
      rw [List.mem_reverse, List.mem_cons, not_or]
      exact ⟨fun hc => hno rest (by rw [← hc]), hfront⟩

/-- What is trimmed ends with something else than a blank. -/
theorem isSpace_last_trimEnd {cs ds : List Char} {d : Char} (h : trimEnd cs = ds ++ [d]) : isSpace d = false := by
  have hhead := List.head?_dropWhile_not isSpace cs.reverse
  have hreverse : cs.reverse.dropWhile isSpace = d :: ds.reverse := by
    rw [← List.reverse_reverse (cs.reverse.dropWhile isSpace)]
    show (trimEnd cs).reverse = _
    rw [h, List.reverse_append]
    rfl
  rw [hreverse] at hhead
  exact hhead

end Text

namespace Generation

/-- Of lines that are put together only blank ones at the end are lost. -/
theorem exists_joinLines (lines : List (List Char)) : ∃ k,
    Text.unlines lines ++ ['\n'] = joinLines lines ++ List.replicate k '\n' ∧ Text.Closed (joinLines lines) := by
  obtain ⟨ends, hends, hall⟩ := exists_strip (Text.unlines lines).reverse
  have hnewlines : ends.reverse = List.replicate ends.length '\n' := by
    rw [List.eq_replicate_of_mem hall, List.reverse_replicate, List.length_replicate]
  have hunlines : Text.unlines lines =
      (joinLines.strip (Text.unlines lines).reverse).reverse ++ List.replicate ends.length '\n' := by
    rw [← hnewlines, ← List.reverse_append, ← hends, List.reverse_reverse]
  have hlast (k : Nat) : List.replicate k '\n' ++ ['\n'] = List.replicate (k + 1) '\n' := List.replicate_succ'.symm
  unfold joinLines
  split
  · next hnil =>
    rw [hnil, List.reverse_nil, List.nil_append] at hunlines
    exact ⟨ends.length + 1, by rw [hunlines, hlast, List.nil_append], Text.closed_nil⟩
  · next rest hcons =>
    rw [hcons] at hunlines
    refine ⟨ends.length + 1, by rw [hunlines, List.append_assoc, hlast], ?_⟩
    rw [List.reverse_cons]
    exact Text.closed_line _
  · refine ⟨ends.length, ?_, ?_⟩
    · conv => lhs; rw [hunlines]
      rw [List.reverse_cons, List.append_assoc, List.append_assoc, hlast, List.replicate_succ]
      rfl
    · rw [List.reverse_cons]
      exact Text.closed_line _

/-- Lines that hold no newline, are not empty and end with no carriage return are lines of the code. -/
theorem sublist_lines_joinLines {part lines : List (List Char)} (h : part.Sublist lines)
    (hline : ∀ l ∈ part, '\n' ∉ l ∧ ∃ cs c, l = cs ++ [c] ∧ c ≠ '\r') :
    part.Sublist (Text.lines (joinLines lines)) := by
  obtain ⟨k, hjoin, hclosed⟩ := exists_joinLines lines
  have hpieces := Text.sublist_pieces h fun l hl => (hline l hl).1
  by_cases hnil : lines = []
  · subst hnil
    rw [List.sublist_nil.1 h]
    exact List.nil_sublist _
  · rw [← Text.unlines_append_newline hnil, hjoin, Text.pieces_append hclosed, Text.pieces_replicate_newline] at hpieces
    -- what is dropped is only newlines, and no line of the part is one
    have hfiltered := hpieces.filter (· != ['\n'])
    have hpart : (part.map (· ++ ['\n'])).filter (· != ['\n']) = part.map (· ++ ['\n']) := by
      refine List.filter_eq_self.2 fun p hp => ?_
      obtain ⟨l, hl, rfl⟩ := List.mem_map.1 hp
      obtain ⟨-, cs, c, rfl, -⟩ := hline l hl
      have hlength : (cs ++ [c] ++ ['\n']).length ≠ ['\n'].length := by simp
      exact bne_iff_ne.2 fun heq => hlength (congrArg List.length heq)
    rw [List.filter_append, hpart, List.filter_replicate_of_neg (by simp), List.append_nil] at hfiltered
    have hchomp : (part.map (· ++ ['\n'])).map Text.chomp = part := by
      rw [List.map_map]
      refine (List.map_congr_left fun l hl => ?_).trans (List.map_id _)
      obtain ⟨-, cs, c, rfl, hc⟩ := hline l hl
      simp [Text.chomp, hc]
    rw [← hchomp]
    exact (hfiltered.trans List.filter_sublist).map Text.chomp

end Generation

/-! ## What is kept of a line -/

namespace ReadLine

/-- The line carries a block on. -/
def carriesOn (l : ReadLine) : Bool := (LineShape.ofLine l.scanned.masked).isContinuation

/-- What is kept of a line that says nothing known: its code without what opens a block or ends a statement.  Nothing
is kept of a line that carries a block on. -/
def remark? (l : ReadLine) : Option (List Char) :=
  match LineShape.ofLine l.scanned.masked with
  | .continues _ => none
  | .opens _ _ => some (Header.strip l.code)
  | .plain | .closes _ _ => some (Statement.strip l.code)

theorem remark?_eq_none {l : ReadLine} (h : l.carriesOn = true) : l.remark? = none := by
  unfold carriesOn LineShape.isContinuation at h
  unfold remark?
  split at h
  · next shape => rw [shape]
  · cases h

end ReadLine

/-- The line is a comment with this text, behind some blanks. -/
def Target.IsComment (t : Target) (text line : List Char) : Prop :=
  ∃ blanks, line = List.replicate blanks ' ' ++ t.comment text

namespace Emitter

theorem plain_unknown {e : Emitter} {code : List Char} (h : (e.plain code).1 = false) :
    (e.plain code).2 = e.statement (e.target.comment (Statement.strip code)) := by
  revert h
  unfold plain
  dsimp only
  split
  · exact fun _ => rfl
  · exact fun h => nomatch h
  · exact fun h => nomatch h

theorem opens_unknown {e : Emitter} {code : List Char} {kind : BlockKind} {style : BlockStyle} {indent : Nat}
    (h : (e.opens code kind style indent).1 = false) : (e.opens code kind style indent).2 =
      (e.statement (e.target.comment (Header.strip code))).push .group style indent := by
  revert h
  unfold opens
  dsimp only
  split
  · exact fun h => nomatch h
  · exact fun _ => rfl
  · exact fun h => nomatch h

theorem carryOn_unknown {e : Emitter} {code : List Char} (h : (e.carryOn code).1 = false) : (e.carryOn code).2 = e := by
  revert h
  unfold carryOn
  split
  · exact fun h => nomatch h
  · exact fun _ => rfl

/-- Between the two emitters this line was written last. -/
def WritesLast (e e' : Emitter) (line : List Char) : Prop :=
  ∃ before, e.out.toList <+: before ∧ e'.out.toList = before ++ [line]

theorem Extends.writesLast_comment {e d : Emitter} (h : e.Extends d) (text : List Char) :
    ∃ line, e.target.IsComment text line ∧ e.WritesLast (d.statement (d.target.comment text)) line := by
  refine ⟨_, ⟨d.depth * d.width, rfl⟩, d.out.toList, h.out, ?_⟩
  rw [← h.target]
  exact Array.toList_push

/-- What a line leaves that says nothing known. -/
inductive Unknown (e : Emitter) (l : ReadLine) (e' : Emitter) : Prop
  | remark (text line : List Char) (said : l.remark? = some text) (comment : e.target.IsComment text line)
    (written : e.WritesLast e' line)
  | lost (said : l.remark? = none) (ends : e' = e.dedent l.scanned.indent true)

/-- A line that says nothing known leaves a comment, or nothing if it would carry a block on. -/
theorem line_unknown {e : Emitter} {l : ReadLine} (h : (e.line l.scanned l.raw).1 = false) :
    e.Unknown l (e.line l.scanned l.raw).2 := by
  have hdedent : e.Extends (e.dedent l.scanned.indent false) := extends_popMany _ e
  cases e.lineCase l.scanned l.raw with
  | comment _ heq | closes _ _ _ heq =>
    rw [heq] at h
    cases h
  | plain shape _ heq =>
    rw [heq] at h ⊢
    obtain ⟨line, hcomment, hwritten⟩ := hdedent.writesLast_comment (Statement.strip l.code)
    exact .remark _ line (by rw [ReadLine.remark?, shape]) hcomment (by rwa [plain_unknown h])
  | opens kind style shape heq =>
    rw [heq] at h ⊢
    obtain ⟨line, hcomment, hwritten⟩ := hdedent.writesLast_comment (Header.strip l.code)
    exact .remark _ line (by rw [ReadLine.remark?, shape]) hcomment (by rw [opens_unknown h]; exact hwritten)
  | continues style shape heq =>
    rw [heq] at h ⊢
    exact .lost (by rw [ReadLine.remark?, shape]) (carryOn_unknown h)

end Emitter

namespace Generation

/-- The unknown lines of a source, and what is written of them between the two emitters. -/
structure Remarks (unknown : List ReadLine) (e e' : Emitter) : Prop where
  exists_comments : ∃ written comments, e'.out.toList = e.out.toList ++ written ∧ comments.Sublist written ∧
    List.Forall₂ e.target.IsComment (unknown.filterMap ReadLine.remark?) comments

theorem remarks_extends {e e' : Emitter} (h : e.Extends e') : Remarks [] e e' := by
  obtain ⟨written, hout⟩ := h.out
  exact ⟨written, [], hout.symm, List.nil_sublist _, .nil⟩

theorem Remarks.append {unknown unknown' : List ReadLine} {e e' e'' : Emitter} (h : Remarks unknown e e')
    (h' : Remarks unknown' e' e'') (htarget : e'.target = e.target) : Remarks (unknown ++ unknown') e e'' := by
  obtain ⟨written, comments, hout, hsub, hall⟩ := h
  obtain ⟨written', comments', hout', hsub', hall'⟩ := h'
  rw [htarget] at hall'
  refine ⟨written ++ written', comments ++ comments', by rw [hout', hout, List.append_assoc], hsub.append hsub', ?_⟩
  rw [List.filterMap_append]
  exact List.rel_append hall hall'

theorem remarks_unknown {e e' : Emitter} {l : ReadLine} (h : e.Unknown l e') : Remarks [l] e e' := by
  cases h with
  | remark text line said comment written =>
    obtain ⟨before, ⟨more, hmore⟩, hout⟩ := written
    refine ⟨more ++ [line], [line], by rw [hout, ← hmore, List.append_assoc], List.sublist_append_right _ _, ?_⟩
    rw [List.filterMap_cons_some said]
    exact .cons comment .nil
  | lost said ends =>
    obtain ⟨written, hout⟩ := (Emitter.extends_popMany _ e : e.Extends (e.dedent l.scanned.indent true)).out
    refine ⟨written, [], by rw [ends]; exact hout.symm, List.nil_sublist _, ?_⟩
    rw [List.filterMap_cons_none said]
    exact .nil

namespace Progress

/-- The next line says nothing known. -/
def isUnknown (p : Progress) (raw : List Char) : Bool :=
  !(p.scanner.feed raw).1.startsInLiteral && !Text.isBlank raw && !(p.emitter.line (p.scanner.feed raw).1 raw).1

/-- The lines that say nothing known. -/
def unknown (p : Progress) : List (List Char) → List ReadLine
  | [] => []
  | raw :: raws => (if p.isUnknown raw then [p.scanner.read raw] else []) ++ (p.feed raw).unknown raws

theorem unknown_append (p : Progress) (xs ys : List (List Char)) :
    p.unknown (xs ++ ys) = p.unknown xs ++ (xs.foldl feed p).unknown ys := by
  induction xs generalizing p with
  | nil => rfl
  | cons x xs ih => rw [List.cons_append, unknown, ih, unknown, List.append_assoc, List.foldl_cons]

theorem sublist_unknown (p : Progress) (raws : List (List Char)) :
    (p.unknown raws).Sublist (p.scanner.readAll raws) := by
  induction raws generalizing p with
  | nil => exact List.Sublist.refl _
  | cons raw raws ih =>
    have hrest := ih (p.feed raw)
    rw [(p.feed_keeps raw).1] at hrest
    have hfirst : (if p.isUnknown raw then [p.scanner.read raw] else []).Sublist [p.scanner.read raw] := by
      split
      · exact List.Sublist.refl _
      · exact List.nil_sublist _
    exact hfirst.append hrest

theorem unrecognized_feed (p : Progress) (raw : List Char) : (p.feed raw).unrecognized.toList =
    p.unrecognized.toList ++ if p.isUnknown raw then [(p.scanner.feed raw).1.number] else [] := by
  unfold feed isUnknown
  dsimp only
  cases (p.scanner.feed raw).1.startsInLiteral
  · cases Text.isBlank raw
    · cases (p.emitter.line (p.scanner.feed raw).1 raw).1 <;> simp
    · simp
  · simp

theorem unrecognized_foldl (p : Progress) (raws : List (List Char)) : (raws.foldl feed p).unrecognized.toList =
    p.unrecognized.toList ++ (p.unknown raws).map (·.scanned.number) := by
  induction raws generalizing p with
  | nil => exact (List.append_nil _).symm
  | cons raw raws ih =>
    rw [List.foldl_cons, ih, unrecognized_feed, unknown, List.map_append, List.append_assoc]
    congr 2
    split <;> rfl

theorem line_of_isUnknown {p : Progress} {raw : List Char} (h : p.isUnknown raw = true) :
    p.scanner.mode = .code ∧ p.emitter.Unknown (p.scanner.read raw) (p.feed raw).emitter := by
  unfold isUnknown at h
  simp only [Bool.and_eq_true, Bool.not_eq_true'] at h
  obtain ⟨⟨hcode, hblank⟩, hline⟩ := h
  constructor
  · have hmode : (!p.scanner.mode.isCode) = false := hcode
    cases hs : p.scanner.mode with
    | code => rfl
    | literal | comment =>
      rw [hs] at hmode
      cases hmode
  · rw [emitter_feed, hcode, hblank, if_neg Bool.false_ne_true, if_neg Bool.false_ne_true]
    exact Emitter.line_unknown (l := p.scanner.read raw) hline

theorem remarks_foldl (p : Progress) (raws : List (List Char)) :
    Remarks (p.unknown raws) p.emitter (raws.foldl feed p).emitter := by
  induction raws generalizing p with
  | nil => exact remarks_extends p.emitter.extends_refl
  | cons raw raws ih =>
    refine Remarks.append ?_ (ih (p.feed raw)) (p.feed_keeps raw).2
    split
    · next hunknown => exact remarks_unknown (line_of_isUnknown hunknown).2
    · exact remarks_extends (p.extends_feed raw)

theorem mem_unknown {p : Progress} {raws : List (List Char)} {l : ReadLine} (h : l ∈ p.unknown raws) :
    ∃ s : Scanner, s.mode = .code ∧ l = s.read l.raw := by
  induction raws generalizing p with
  | nil => cases h
  | cons raw raws ih =>
    rcases List.mem_append.1 h with h | h
    · split at h
      · next hunknown =>
        rw [List.mem_singleton.1 h]
        exact ⟨p.scanner, (line_of_isUnknown hunknown).1, rfl⟩
      · cases h
    · exact ih h

theorem mem_numbers {p : Progress} {raws : List (List Char)} {n : Nat}
    (h : n ∈ (p.unknown raws).map (·.scanned.number)) : p.scanner.line < n ∧ n ≤ p.scanner.line + raws.length := by
  have hmem := ((p.sublist_unknown raws).map (·.scanned.number)).subset h
  have hnumbers := Scanner.numbers_feedAll p.scanner raws
  rw [← Scanner.map_scanned_readAll, List.map_map] at hnumbers
  rw [show (fun l : ReadLine => l.scanned.number) = ScannedLine.number ∘ ReadLine.scanned from rfl, hnumbers,
    List.mem_range'_1] at hmem
  omega

theorem scanner_foldl (p : Progress) (raws : List (List Char)) :
    (raws.foldl feed p).scanner = (p.scanner.feedAll raws).2 := by
  induction raws generalizing p with
  | nil => rfl
  | cons raw raws ih => rw [List.foldl_cons, ih, (p.feed_keeps raw).1, Scanner.feedAll]

/-- The line whose number is reported says nothing known. -/
theorem isUnknown_of_mem {p : Progress} {before : List (List Char)} {raw : List Char} {after : List (List Char)}
    (hbegin : p.scanner.line = 0)
    (h : before.length + 1 ∈ (p.unknown (before ++ raw :: after)).map (·.scanned.number)) :
    (before.foldl feed p).isUnknown raw = true := by
  have hline : (before.foldl feed p).scanner.line = before.length := by
    have hfollows := (Scanner.follows_feedAll p.scanner before).line
    rwa [← scanner_foldl, hbegin, Nat.zero_add] at hfollows
  rw [unknown_append, List.map_append, List.mem_append] at h
  rcases h with h | h
  · have hnumbers := mem_numbers h
    omega
  · rw [unknown, List.map_append, List.mem_append] at h
    rcases h with h | h
    · split at h
      · next hunknown => exact hunknown
      · cases h
    · have hnumbers := mem_numbers h
      rw [((before.foldl feed p).feed_keeps raw).1, Scanner.feed_line, hline] at hnumbers
      omega

end Progress

theorem Target.isLine_of_isComment {t : Target} {cs text line : List Char} (hline : t.IsComment text line)
    (htext : text = Text.trim cs) (hnewline : '\n' ∉ cs) : '\n' ∉ line ∧ ∃ ds d, line = ds ++ [d] ∧ d ≠ '\r' := by
  obtain ⟨blanks, rfl⟩ := hline
  subst htext
  constructor
  · have hmark : '\n' ∉ t.commentMark := by cases t <;> decide
    have hcs : '\n' ∉ Text.trim cs := fun hmem => hnewline (Text.trim_subset cs hmem)
    simp [Target.comment, hmark, hcs]
  · rcases List.eq_nil_or_concat (Text.trim cs) with hnil | ⟨ds, d, hconcat⟩
    · exact ⟨List.replicate blanks ' ' ++ t.commentMark, ' ', by simp [Target.comment, hnil], by decide⟩
    · rw [List.concat_eq_append] at hconcat
      refine ⟨List.replicate blanks ' ' ++ (t.commentMark ++ ' ' :: ds), d, by simp [Target.comment, hconcat], ?_⟩
      rintro rfl
      exact absurd (Text.isSpace_last_trimEnd hconcat) (by decide)

/-- What becomes of the lines of a source that say nothing known. -/
structure KeepsUnknown (target : Target) (width : Nat) (setting : Setting) (source : List Char)
    (unknown : List ReadLine) : Prop where
  /-- they are lines of the source, in its order -/
  lines : unknown.Sublist (readText .pseudocode source)
  /-- and just those whose numbers are reported -/
  numbers : (ofSource target width setting source).unrecognized = unknown.map (·.scanned.number)
  /-- each that does not carry a block on has a comment of its own in the code, in the same order -/
  comments : List.SublistForall₂ target.IsComment (unknown.filterMap ReadLine.remark?)
    (Text.lines (ofSource target width setting source).code)
  /-- which says the code of the line exactly if the line begins with it -/
  code : ∀ l ∈ unknown, l.code = Text.trim l.kept ↔ Text.trim l.kept <+: Text.trim l.raw
  /-- the others leave nothing but the ends of blocks -/
  lost : ∀ before raw after, Text.lines source = before ++ raw :: after →
    before.length + 1 ∈ (ofSource target width setting source).unrecognized →
    ((before.foldl Progress.feed (begin target width setting)).scanner.read raw).carriesOn = true →
      ((before ++ [raw]).foldl Progress.feed (begin target width setting)).emitter =
        (before.foldl Progress.feed (begin target width setting)).emitter.dedent
          ((before.foldl Progress.feed (begin target width setting)).scanner.feed raw).1.indent true

theorem isLine_of_remark {target : Target} {source : List Char} {unknown : List ReadLine}
    (hlines : unknown.Sublist (readText .pseudocode source))
    {comments : List (List Char)} (hall : List.Forall₂ target.IsComment (unknown.filterMap ReadLine.remark?) comments)
    {line : List Char} (hline : line ∈ comments) : '\n' ∉ line ∧ ∃ ds d, line = ds ++ [d] ∧ d ≠ '\r' := by
  obtain ⟨i, hi, rfl⟩ := List.getElem_of_mem hline
  obtain ⟨hlength, hget⟩ := List.forall₂_iff_get.1 hall
  have hi' : i < (unknown.filterMap ReadLine.remark?).length := hlength ▸ hi
  obtain ⟨l, hl, hremark⟩ := List.mem_filterMap.1 (List.getElem_mem hi')
  have hraw : '\n' ∉ l.raw := by
    refine Text.newline_notMem_of_mem_lines (?_ : l.raw ∈ Text.lines source)
    rw [← Scanner.map_raw_readAll { style := .pseudocode } (Text.lines source)]
    exact List.mem_map_of_mem (hlines.subset hl)
  have hcode : '\n' ∉ l.code := fun hmem => hraw (Text.trim_subset _ (List.mem_of_mem_take hmem))
  have hdrop (p : Char → Bool) : '\n' ∉ Text.dropEndWhile p l.code :=
    fun hmem => hcode (Text.dropEndWhile_subset p l.code hmem)
  have hcomment := hget i hi' hi
  unfold ReadLine.remark? at hremark
  split at hremark
  · cases hremark
  all_goals exact Target.isLine_of_isComment hcomment (Option.some.inj hremark).symm (hdrop _)

/-- Headers and plain lines that say nothing known are kept as comments, and what would carry a block on is not. -/
theorem exists_keepsUnknown (target : Target) (width : Nat) (setting : Setting) (source : List Char) :
    ∃ unknown, KeepsUnknown target width setting source unknown := by
  have hlines := (begin target width setting).sublist_unknown (Text.lines source)
  have hnumbers : (ofSource target width setting source).unrecognized =
      ((begin target width setting).unknown (Text.lines source)).map (·.scanned.number) :=
    Progress.unrecognized_foldl (begin target width setting) (Text.lines source)
  refine ⟨(begin target width setting).unknown (Text.lines source), hlines, hnumbers, ?_, ?_, ?_⟩
  · obtain ⟨written, comments, hout, hsub, hall⟩ := (begin target width setting).remarks_foldl (Text.lines source)
    obtain ⟨behind, hcode⟩ := exists_code target width setting (List.append_nil (Text.lines source)).symm
    have hpart : comments.Sublist ((begin target width setting).emitter.out.toList ++ written ++ behind) :=
      (hsub.trans (List.sublist_append_right _ _)).trans (List.sublist_append_left _ _)
    refine List.sublistForall₂_iff.2 ⟨comments, hall, ?_⟩
    rw [hcode, hout]
    exact sublist_lines_joinLines hpart fun line hline => isLine_of_remark hlines hall hline
  · intro l hl
    obtain ⟨s, hmode, heq⟩ := Progress.mem_unknown hl
    have hiff := Scanner.codeOf_eq_iff hmode l.raw
    rw [heq]
    exact hiff
  · intro before raw after hsplit hmem hcarries
    rw [hnumbers, hsplit] at hmem
    have hunknown := Progress.isUnknown_of_mem rfl hmem
    rw [List.foldl_append]
    cases (Progress.line_of_isUnknown hunknown).2 with
    | lost said ends => exact ends
    | remark text line said =>
      rw [ReadLine.remark?_eq_none hcarries] at said
      cases said

/-- The line is reported as kept, and no line of the code holds it. -/
theorem otherwise_lost_unopened :
    (ofSource .python 4 {} "x = 1\nELSE\n".toList).unrecognized = [2] ∧
      Text.lines (ofSource .python 4 {} "x = 1\nELSE\n".toList).code = ["x = 1".toList] := by
  decide +kernel

end Generation

end Pseudoscribe
