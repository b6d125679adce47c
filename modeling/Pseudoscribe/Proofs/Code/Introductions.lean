import Pseudoscribe.Proofs.Code.Assignments
import Pseudoscribe.Proofs.Code.Braces

/-!
# Names that are introduced chunk by chunk

In JavaScript a name is introduced by the first line that assigns to it, with `let`.  A generation for a chunk knows of
the lines before only what its context shows, so it introduces a name anew that is declared there and that the context
does not show.  Apart from that, chunk by chunk a name is introduced at most as often as in one piece.
-/

namespace Pseudoscribe

open Text

/-! ## Lines that introduce a name -/

namespace Text

/-- Behind some characters that are no newlines the lines of a text are as before, but for the first one. -/
theorem pieces_front_append {front cs : List Char} (hfront : '\n' ∉ front) (hne : cs ≠ []) :
    ∃ p ps, pieces cs = p :: ps ∧ p <+: cs ∧ pieces (front ++ cs) = (front ++ p) :: ps := by
  induction front with
  | nil =>
    have hjoin := flatten_pieces cs
    cases hpieces : pieces cs with
    | nil =>
      rw [hpieces] at hjoin
      exact absurd hjoin.symm hne
    | cons p ps =>
      rw [hpieces] at hjoin
      exact ⟨p, ps, rfl, ⟨_, hjoin⟩, hpieces⟩
  | cons c front ih =>
    rw [List.mem_cons, not_or] at hfront
    obtain ⟨p, ps, hpieces, hp, hwhole⟩ := ih hfront.2
    exact ⟨p, ps, hpieces, hp, pieces_cons (by simpa using Ne.symm hfront.1) hwhole⟩

end Text

namespace Generation

/-- The line of code introduces the name: behind blanks it begins with `let`, the name and an equals sign. -/
def introduces (name : String) (line : List Char) : Bool :=
  ("let ".toList ++ (name.toList ++ " = ".toList)).isPrefixOf (trimStart line)

/-- How many lines of the code introduce the name. -/
def introductions (name : String) (code : List Char) : Nat := (pieces code).countP (introduces name)

/-- An assignment to the other text begins like one to the name: the other text is the name, or goes on behind it with an
equals sign. -/
def likens (name other : String) : Bool := (name.toList ++ " = ".toList).isPrefixOf (other.toList ++ " = ".toList)

variable {name : String}

theorem introductions_append {xs : List Char} (h : Closed xs) (ys : List Char) :
    introductions name (xs ++ ys) = introductions name xs + introductions name ys := by
  rw [introductions, pieces_append h, List.countP_append]
  rfl

theorem introductions_flatMap {α : Type} {f : α → List Char} (h : ∀ a, Closed (f a)) (xs : List α) :
    introductions name (xs.flatMap f) = Pseudoscribe.total (xs.map fun a => introductions name (f a)) := by
  induction xs with
  | nil => rfl
  | cons x xs ih => rw [List.flatMap_cons, introductions_append (h x), ih, List.map_cons, total_cons]

theorem introductions_newlines (k : Nat) : introductions name (List.replicate k '\n') = 0 := by
  rw [introductions, pieces_replicate_newline, List.countP_replicate, if_neg fun h => nomatch h]

theorem introductions_joinLines (lines : List (List Char)) :
    introductions name (joinLines lines) = Pseudoscribe.total (lines.map fun l => introductions name (l ++ ['\n'])) := by
  by_cases hnil : lines = []
  · subst hnil
    rfl
  · obtain ⟨k, hjoin, hclosed⟩ := exists_joinLines lines
    rw [unlines_append_newline hnil, ← List.flatMap_def] at hjoin
    rw [← introductions_flatMap closed_line, hjoin, introductions_append hclosed, introductions_newlines, Nat.add_zero]

/-- What is put in front of a text changes its first line only. -/
theorem exists_first_line (name : String) {front : List Char} (hfront : '\n' ∉ front) (text : List Char) :
    ∃ first behind, first <+: text ++ ['\n'] ∧
      introductions name (text ++ ['\n']) = behind + (if introduces name first then 1 else 0) ∧
      introductions name (front ++ text ++ ['\n']) = behind + if introduces name (front ++ first) then 1 else 0 := by
  obtain ⟨first, rest, hpieces, hfirst, hwhole⟩ :=
    pieces_front_append hfront (List.append_ne_nil_of_right_ne_nil text (List.cons_ne_nil '\n' []))
  refine ⟨first, rest.countP (introduces name), hfirst, ?_, ?_⟩
  · rw [introductions, hpieces, List.countP_cons]
  · rw [List.append_assoc, introductions, hwhole, List.countP_cons]

/-- Indentation changes nothing. -/
theorem introductions_indented (blanks : Nat) (text : List Char) :
    introductions name (List.replicate blanks ' ' ++ text ++ ['\n']) = introductions name (text ++ ['\n']) := by
  have hblanks : ∀ c ∈ List.replicate blanks ' ', isSpace c = true := by
    intro c hc
    rw [List.eq_of_mem_replicate hc]
    rfl
  have hnewline : '\n' ∉ List.replicate blanks ' ' := fun h => nomatch List.eq_of_mem_replicate h
  obtain ⟨first, behind, -, htext, hwhole⟩ := exists_first_line name hnewline text
  rw [htext, hwhole, introduces, introduces, trimStart, List.dropWhile_append_of_pos hblanks]
  rfl

/-- A line that begins with a brace introduces nothing. -/
theorem introductions_brace {text : List Char} (h : '\n' ∉ text) :
    introductions name ('}' :: text ++ ['\n']) = 0 := by
  have hline : '\n' ∉ '}' :: text := by simpa using h
  rw [introductions, pieces_line hline]
  rfl

theorem likens_of_begins (hname : Phrase.isName name.toList = true) {other : String} {value : List Char}
    (h : name.toList ++ " = ".toList <+: other.toList ++ " = ".toList ++ value) : likens name other = true := by
  obtain ⟨-, -, -, -, hword⟩ := Phrase.isName_spec hname
  rw [likens, List.isPrefixOf_iff_prefix]
  by_cases hlength : name.toList.length ≤ other.toList.length
  · exact List.prefix_of_prefix_length_le h (List.prefix_append _ _)
      (by simpa only [List.length_append, Nat.add_le_add_iff_right])
  · -- a blank behind the shorter text would be a character of the name
    have hother : other.toList ++ [' '] <+: other.toList ++ " = ".toList ++ value := ⟨"= ".toList ++ value, by simp⟩
    have hblank : other.toList ++ [' '] <+: name.toList :=
      List.prefix_of_prefix_length_le hother ((List.prefix_append _ _).trans h) (by
        rw [List.length_append, List.length_singleton]
        omega)
    have hmem : ' ' ∈ name.toList := hblank.subset (by simp)
    exact absurd (hword _ hmem) (by decide)

/-- An assignment to a name begins like one to no other name. -/
theorem likens_iff {other : String} (hname : Phrase.isName name.toList = true)
    (hother : Phrase.isName other.toList = true) : likens name other = true ↔ other = name := by
  obtain ⟨-, -, -, -, hword⟩ := Phrase.isName_spec hname
  obtain ⟨-, -, -, -, hword'⟩ := Phrase.isName_spec hother
  rw [likens, List.isPrefixOf_iff_prefix]
  constructor
  · rintro ⟨behind, hsame⟩
    have hblank : name.toList ++ ' ' :: ("= ".toList ++ behind) = other.toList ++ ' ' :: "= ".toList := by
      simpa using hsame
    have hwords := congrArg (List.takeWhile isWordChar) hblank
    rw [takeWhile_word hword (by decide), takeWhile_word hword' (by decide)] at hwords
    exact (String.toList_inj.1 hwords).symm
  · rintro rfl
    exact List.prefix_refl _

/-- With `let` in front of it an assignment introduces the name at most once more, and only if it begins like one to it. -/
theorem introductions_let_le (hname : Phrase.isName name.toList = true) (other : String) (value : List Char) :
    introductions name ("let ".toList ++ (other.toList ++ " = ".toList ++ value) ++ ['\n']) ≤
      introductions name (other.toList ++ " = ".toList ++ value ++ ['\n']) +
        if likens name other then 1 else 0 := by
  obtain ⟨first, behind, hfirst, htext, hwhole⟩ :=
    @exists_first_line name "let ".toList (by decide) (other.toList ++ " = ".toList ++ value)
  have hlikens : introduces name ("let ".toList ++ first) = true → likens name other = true := by
    intro h
    have hstart : trimStart ("let ".toList ++ first) = "let ".toList ++ first := rfl
    rw [introduces, hstart, List.isPrefixOf_iff_prefix, List.prefix_append_right_inj] at h
    have hbegins := h.trans hfirst
    rw [List.append_assoc _ value] at hbegins
    exact likens_of_begins hname hbegins
  rw [htext, hwhole]
  split
  · next h =>
    rw [if_pos (hlikens h)]
    omega
  · omega

/-- With `let` in front of it an assignment to some name introduces the name no less. -/
theorem introductions_le_let (hname : Phrase.isName name.toList = true) {other : String}
    (hother : Phrase.isName other.toList = true) (value : List Char) :
    introductions name (other.toList ++ " = ".toList ++ value ++ ['\n']) ≤
      introductions name ("let ".toList ++ (other.toList ++ " = ".toList ++ value) ++ ['\n']) := by
  obtain ⟨first, behind, hfirst, htext, hwhole⟩ :=
    @exists_first_line name "let ".toList (by decide) (other.toList ++ " = ".toList ++ value)
  have hnot : ¬ introduces name first = true := by
    intro h
    obtain ⟨c, rest, hcons, hstart, -⟩ := Phrase.isName_spec hname
    obtain ⟨d, letters, hletters, -, hword⟩ := Phrase.isName_spec hother
    have hvisible : trimStart first = first := by
      cases first with
      | nil => rfl
      | cons e first =>
        rw [hletters] at hfirst
        obtain rfl : e = d := (List.cons_prefix_cons.1 hfirst).1
        exact List.dropWhile_cons_of_neg (by simp [isSpace_of_isWordChar (hword e (by simp [hletters]))])
    rw [introduces, hvisible, List.isPrefixOf_iff_prefix] at h
    obtain ⟨behind, hsame⟩ := h.trans hfirst
    -- the assigned name would be `let`, with the name in place of the equals sign
    have hlet : "let".toList ++ ' ' :: (name.toList ++ " = ".toList ++ behind) =
        other.toList ++ ' ' :: ("= ".toList ++ value ++ ['\n']) := by simpa using hsame
    have hwords := congrArg (List.takeWhile isWordChar) hlet
    rw [takeWhile_word (List.all_eq_true.1 (by decide)) (by decide), takeWhile_word hword (by decide)] at hwords
    rw [hwords, hcons] at hlet
    obtain rfl : c = '=' := (List.cons.inj (List.cons.inj (List.append_cancel_left hlet)).2).1
    exact absurd hstart (by decide)
  rw [htext, hwhole, if_neg hnot]
  omega

end Generation

/-! ## What a line says -/

theorem Expression.newline_notMem_renderCondition (t : Target) {cs : List Char} (h : '\n' ∉ cs) :
    '\n' ∉ renderCondition t cs := fun hmem =>
  (List.mem_append.1 (renderCondition_subset t cs hmem)).elim h (by decide)

/-- A line that carries a block on begins with a brace. -/
theorem Form.exists_continuation {c : Continuation} {line : List Char}
    (hline : continuation .javascript c = some line) (htexts : ∀ t ∈ c.texts, '\n' ∉ t) :
    ∃ text, line = '}' :: text ∧ '\n' ∉ text := by
  cases c with
  | elseIf test =>
    have htest := Expression.newline_notMem_renderCondition .javascript (htexts test (by simp [Continuation.texts]))
    cases hline
    exact ⟨_, rfl, by simp [braced, htest]⟩
  | otherwise =>
    cases hline
    exact ⟨_, rfl, by decide⟩
  | rescue name =>
    have hname := htexts name (by simp [Continuation.texts])
    cases hline
    refine ⟨_, rfl, ?_⟩
    cases name.isEmpty <;> simp [braced, hname]
  | always =>
    cases hline
    exact ⟨_, rfl, by decide⟩
  | unknown => cases hline

/-- A plain line of code as it is written in JavaScript. -/
def Form.plain? (code : List Char) (declares : Bool) : Option (List Char) :=
  let text := Statement.strip code
  if Statement.ofCode text = .unknown then some (Target.javascript.comment text)
  else statement .javascript declares (Statement.ofCode text)

/-- A line of code that opens a block as it is written in JavaScript. -/
def Form.opener? (code : List Char) (kind : BlockKind) : Option (List Char) :=
  let text := Header.strip code
  if Header.ofText kind text = .group then none
  else (header .javascript (Header.ofText kind text)).or (some (Target.javascript.comment text))

namespace ReadLine

/-- The line as it is written in JavaScript, if it neither ends a block nor carries one on.  `declares` says whether the name
that it assigns to is new. -/
def said? (l : ReadLine) (declares : Bool) : Option (List Char) :=
  match LineShape.ofLine l.scanned.masked with
  | .plain =>
    if trim l.scanned.masked = [] then some (trimEnd (Target.javascript.comment (Emitter.commentText (trim l.raw))))
    else Form.plain? l.code declares
  | .opens kind _ => Form.opener? l.code kind
  | .continues _ | .closes _ _ => none

/-- How often the line introduces the name. -/
def introductions (l : ReadLine) (name : String) (declares : Bool) : Nat :=
  (l.said? declares).elim 0 fun text => Generation.introductions name (text ++ ['\n'])

/-- The names of a line: those that it binds as a header, and the one that it assigns to. -/
def names (l : ReadLine) : List String := l.headed ++ l.assigned?.toList

/-- A line that assigns to a name is written as an assignment to it, with `let` if the name is new. -/
theorem said?_of_assigned? {l : ReadLine} {name : String} (h : l.assigned? = some name) : ∃ value, ∀ declares,
    l.said? declares = some ((if declares then "let ".toList else []) ++ (name.toList ++ " = ".toList ++ value)) := by
  have hne : trim l.scanned.masked ≠ [] := fun hempty => by
    rw [assigned?_of_empty hempty] at h
    cases h
  unfold assigned? at h
  split at h
  · next shape =>
    obtain ⟨cs, hcs, rfl⟩ := Option.map_eq_some_iff.1 h
    obtain ⟨value, hvalue⟩ := Form.statement_of_newName? hcs
    refine ⟨value ++ [';'], fun declares => ?_⟩
    unfold said?
    rw [shape]
    dsimp only
    have hknown : Statement.ofCode (Statement.strip l.code) ≠ .unknown := fun hunknown => by
      rw [hunknown] at hcs
      cases hcs
    have htext : (String.ofList cs).toList = cs := String.toList_ofList
    rw [if_neg hne, Form.plain?, if_neg hknown, hvalue declares, htext]
    simp only [List.append_assoc]
  · cases h

end ReadLine

/-! ## What is written -/

namespace Emitter

/-- How many lines so far introduce the name. -/
def introductions (e : Emitter) (name : String) : Nat :=
  total (e.out.toList.map fun line => Generation.introductions name (line ++ ['\n']))

/-- The name is one that the code has not declared. -/
def isNew (e : Emitter) (name : Option String) : Bool := (name.filter (!e.declared.contains ·)).isSome

variable {e : Emitter} {name : String}

theorem introductions_emit (line : List Char) :
    (e.emit line).introductions name = e.introductions name + Generation.introductions name (line ++ ['\n']) := by
  simp [introductions, emit]

theorem introductions_emitAt (depth : Nat) (text : List Char) :
    (e.emitAt depth text).introductions name = e.introductions name + Generation.introductions name (text ++ ['\n']) := by
  rw [emitAt, introductions_emit, Generation.introductions_indented]

theorem introductions_statement (text : List Char) :
    (e.statement text).introductions name = e.introductions name + Generation.introductions name (text ++ ['\n']) :=
  introductions_emitAt _ text

theorem introductions_declare (names : List String) : (e.declare names).introductions name = e.introductions name := rfl

theorem introductions_push (kind : FrameKind) (style : BlockStyle) (indent : Nat) :
    (e.push kind style indent).introductions name = e.introductions name := rfl

theorem introductions_closing (h : e.target = .javascript) (f : Frame) :
    (e.closing f).introductions name = e.introductions name := by
  unfold closing
  rw [h]
  split
  · rfl
  · dsimp only
    rw [introductions_emitAt]
    split <;> exact congrArg _ (Generation.introductions_brace (by decide))

theorem introductions_popMany (count : Nat) (h : e.target = .javascript) :
    (popMany count e).introductions name = e.introductions name := by
  induction count generalizing e with
  | zero => rfl
  | succ k ih =>
    have hpop : e.pop.introductions name = e.introductions name := by
      unfold pop
      split
      · rfl
      · next f fs _ => exact introductions_closing (e := { e with stack := fs }) h f
    rw [popMany, ih (e.pop_keeps.2.trans h), hpop]

theorem introductions_close (h : e.target = .javascript) (kind : Option BlockKind) {code : List Char}
    (hcode : '\n' ∉ code) : (e.close kind code).introductions name = e.introductions name := by
  unfold close
  dsimp only
  split
  · next test above htest hloop =>
    have hnewline : '\n' ∉ test := by
      unfold untilTest? at htest
      split at htest
      · cases htest
        exact fun hmem => hcode (List.mem_of_mem_drop (trim_subset _ hmem))
      · cases htest
    have hrender := Expression.newline_notMem_renderCondition .javascript hnewline
    have htarget := (target_popMany above e).trans h
    rw [← introductions_popMany above h, popUntil, htarget]
    dsimp only
    rw [introductions_emitAt, Form.untilCloser]
    exact congrArg _ (Generation.introductions_brace (by simp [hrender]))
  · split
    · exact introductions_popMany _ h
    · rfl

theorem introductions_carryOn (h : e.target = .javascript) {code : List Char} (hcode : '\n' ∉ code) :
    (e.carryOn code).2.introductions name = e.introductions name := by
  unfold carryOn
  rw [h]
  split
  · next line f fs hline hs =>
    obtain ⟨text, rfl, htext⟩ := Form.exists_continuation hline fun t ht hmem =>
      hcode (Continuation.subset_of_mem_texts ht hmem)
    show (e.emitAt (e.depth - 1) ('}' :: text)).introductions name = _
    rw [introductions_emitAt]
    exact congrArg _ (Generation.introductions_brace htext)
  · rfl

theorem introductions_plain (h : e.target = .javascript) {l : ReadLine}
    (shape : LineShape.ofLine l.scanned.masked = .plain) (hne : trim l.scanned.masked ≠ []) : (e.plain l.code).2.introductions name =
      e.introductions name + l.introductions name (e.isNew l.assigned?) := by
  have hnew : e.isNew l.assigned? =
      (((Form.newName? (Statement.ofCode (Statement.strip l.code))).map String.ofList).filter
        (!e.declared.contains ·)).isSome := by
    rw [isNew, ReadLine.assigned?, shape]
  have hsaid : l.said? (e.isNew l.assigned?) = Form.plain? l.code (e.isNew l.assigned?) := by
    rw [ReadLine.said?, shape]
    exact if_neg hne
  rw [ReadLine.introductions, hsaid, hnew]
  unfold plain Form.plain?
  rw [h]
  dsimp only
  rw [if_pos rfl]
  split
  · next hunknown =>
    rw [if_pos hunknown, introductions_statement, Option.elim_some]
  · next hnone hknown =>
    rw [if_neg hknown, hnone, Option.elim_none, Nat.add_zero]
  · next hline hknown =>
    rw [if_neg hknown, hline, introductions_statement, introductions_declare, Option.elim_some]

theorem introductions_opens (h : e.target = .javascript) {l : ReadLine} {kind : BlockKind} {style : BlockStyle}
    (shape : LineShape.ofLine l.scanned.masked = .opens kind style) (indent : Nat) (declares : Bool) :
    (e.opens l.code kind style indent).2.introductions name = e.introductions name + l.introductions name declares := by
  have hsaid : l.said? declares = Form.opener? l.code kind := by rw [ReadLine.said?, shape]
  rw [ReadLine.introductions, hsaid]
  unfold opens Form.opener?
  rw [h]
  dsimp only
  split
  · next hgroup => rw [if_pos hgroup, introductions_push, Option.elim_none, Nat.add_zero]
  · next hnone hgroup =>
    rw [if_neg hgroup, hnone, introductions_push, introductions_statement, Option.none_or, Option.elim_some]
  · next hline hgroup =>
    rw [if_neg hgroup, hline, introductions_push, introductions_statement, introductions_declare, Option.some_or,
      Option.elim_some]

/-- A line introduces what it says; the ends of blocks introduce nothing. -/
theorem introductions_line (h : e.target = .javascript) {l : ReadLine} (hraw : '\n' ∉ l.raw) :
    (e.line l.scanned l.raw).2.introductions name =
      e.introductions name + l.introductions name (e.isNew l.assigned?) := by
  have hcode : '\n' ∉ l.code := fun hmem => hraw (trim_subset _ (List.mem_of_mem_take hmem))
  have htarget (continuation : Bool) : (e.dedent l.scanned.indent continuation).target = .javascript :=
    (target_dedent e _ _).trans h
  have hdedent (continuation : Bool) :
      (e.dedent l.scanned.indent continuation).introductions name = e.introductions name := introductions_popMany _ h
  have hnothing {l : ReadLine} {declares : Bool} (hsaid : l.said? declares = none) :
      l.introductions name declares = 0 := by
    rw [ReadLine.introductions, hsaid]
    rfl
  cases e.lineCase l.scanned l.raw with
  | comment hempty heq =>
    rw [heq, h, introductions_statement, hdedent]
    unfold ReadLine.introductions ReadLine.said?
    rw [LineShape.ofLine_of_trim_eq_nil hempty]
    dsimp only
    rw [if_pos hempty]
    rfl
  | plain shape hne heq =>
    have hnew : (e.dedent l.scanned.indent false).isNew l.assigned? = e.isNew l.assigned? := by
      rw [isNew, declared_dedent]
      rfl
    rw [heq, ← hdedent false, ← hnew]
    exact introductions_plain (htarget false) shape hne
  | continues style shape heq =>
    have hsaid : l.said? (e.isNew l.assigned?) = none := by rw [ReadLine.said?, shape]
    rw [heq, hnothing hsaid, Nat.add_zero, ← hdedent true]
    exact introductions_carryOn (htarget true) hcode
  | opens kind style shape heq =>
    rw [heq, ← hdedent false]
    exact introductions_opens (htarget false) shape _ _
  | closes kind style shape heq =>
    have hsaid : l.said? (e.isNew l.assigned?) = none := by rw [ReadLine.said?, shape]
    rw [heq, hnothing hsaid, Nat.add_zero, ← hdedent false]
    exact introductions_close (htarget false) kind hcode

end Emitter

namespace Generation

namespace Progress

/-- How often the next line introduces the name. -/
def gain (p : Progress) (name : String) (raw : List Char) : Nat :=
  match p.next? raw with
  | none => introductions name (trimEnd raw ++ ['\n'])
  | some l => l.introductions name (p.emitter.isNew l.assigned?)

/-- How often the lines introduce the name. -/
def gains (p : Progress) (name : String) : List (List Char) → Nat
  | [] => 0
  | raw :: raws => p.gain name raw + (p.feed raw).gains name raws

theorem introductions_feed {p : Progress} (h : p.emitter.target = .javascript) (name : String) {raw : List Char}
    (hraw : '\n' ∉ raw) : (p.feed raw).emitter.introductions name = p.emitter.introductions name + p.gain name raw := by
  unfold gain
  cases hnext : p.next? raw with
  | none => rw [feed_of_no_next hnext, Emitter.introductions_emit]
  | some l =>
    obtain ⟨-, rfl⟩ : _ ∧ l = p.scanner.read raw := by
      unfold next? at hnext
      split at hnext
      · cases hnext
      · next hlook => exact ⟨hlook, (Option.some.inj hnext).symm⟩
    rw [feed_of_next hnext, Emitter.introductions_line h hraw]

theorem gains_append (p : Progress) (name : String) (xs ys : List (List Char)) :
    p.gains name (xs ++ ys) = p.gains name xs + (xs.foldl feed p).gains name ys := by
  induction xs generalizing p with
  | nil => exact (Nat.zero_add _).symm
  | cons raw xs ih => rw [List.cons_append, gains, gains, ih, List.foldl_cons, Nat.add_assoc]

theorem introductions_foldl {p : Progress} (h : p.emitter.target = .javascript) (name : String)
    {raws : List (List Char)} (hraws : ∀ raw ∈ raws, '\n' ∉ raw) :
    (raws.foldl feed p).emitter.introductions name = p.emitter.introductions name + p.gains name raws := by
  induction raws generalizing p with
  | nil => rfl
  | cons raw raws ih =>
    obtain ⟨hraw, hraws⟩ := List.forall_mem_cons.1 hraws
    rw [List.foldl_cons, ih ((p.feed_keeps raw).2.trans h) hraws, introductions_feed h name hraw, gains, Nat.add_assoc]

/-- The lines that hold more than blanks and do not begin inside of a literal. -/
def readLines (p : Progress) : List (List Char) → List ReadLine
  | [] => []
  | raw :: raws => (p.next? raw).toList ++ (p.feed raw).readLines raws

end Progress

/-- The names that lines assign to before they bind them, each once. -/
def introduced : List ReadLine → List String
  | [] => []
  | l :: ls => l.assigned?.toList ++ (introduced ls).filter (!l.names.contains ·)

theorem countP_introduced (f : String → Bool) (l? : Option ReadLine) (ls : List ReadLine) :
    (introduced (l?.toList ++ ls)).countP f = (l?.bind ReadLine.assigned?).toList.countP f +
      (introduced ls).countP fun n => f n && l?.all (!·.names.contains n) := by
  cases l? with
  | none => simp
  | some l =>
    rw [Option.toList_some, List.singleton_append, introduced, List.countP_append, List.countP_filter]
    rfl

/-- An assignment to the other text begins like one to the name, and the text is among what is known and not among what is
shown. -/
def lacks (name : String) (known shown : List String) (other : String) : Bool :=
  likens name other && known.contains other && !shown.contains other

/-! ## Two runs over the same lines -/

section Runs

variable {p q : Progress} {name : String}

theorem next?_alike (h : q.scanner.Alike p.scanner) (raw : List Char) :
    (p.next? raw = none ∧ q.next? raw = none) ∨ ∃ l l', p.next? raw = some l ∧ q.next? raw = some l' ∧
      l'.assigned? = l.assigned? ∧ l'.headed = l.headed ∧ ∀ declares, l'.said? declares = l.said? declares := by
  obtain ⟨hsame, -⟩ := h.feed raw
  have hcode : (q.scanner.read raw).code = (p.scanner.read raw).code := by
    show FrameStep.codeOf (q.scanner.feed raw).1 raw = FrameStep.codeOf (p.scanner.feed raw).1 raw
    rw [FrameStep.codeOf, FrameStep.codeOf, hsame.masked]
  have hmasked : (q.scanner.read raw).scanned.masked = (p.scanner.read raw).scanned.masked := hsame.masked
  have hraw : (q.scanner.read raw).raw = (p.scanner.read raw).raw := rfl
  unfold Progress.next?
  rw [hsame.startsInLiteral]
  split
  · exact .inl ⟨rfl, rfl⟩
  · refine .inr ⟨_, _, rfl, rfl, ?_, ?_, fun declares => ?_⟩
    · rw [ReadLine.assigned?, ReadLine.assigned?, hmasked, hcode]
    · rw [ReadLine.headed, ReadLine.headed, hmasked, hcode]
    · rw [ReadLine.said?, ReadLine.said?, hmasked, hcode, hraw]

/-- Every name that the second run knows is known to the first one, but for some that are identifiers. -/
def KnowsFewer (p q : Progress) : Prop :=
  ∀ n ∈ q.emitter.declared, n ∈ p.emitter.declared ∨ Phrase.isName n.toList = true

/-- A line introduces at most as much in the run that knows more, unless it assigns to a name that the other lacks. -/
theorem gain_le (hname : Phrase.isName name.toList = true) (h : KnowsFewer p q)
    (hscan : q.scanner.Alike p.scanner) (raw : List Char) : q.gain name raw ≤ p.gain name raw +
      ((p.next? raw).bind ReadLine.assigned?).toList.countP (lacks name p.emitter.declared q.emitter.declared) := by
  unfold Progress.gain
  rcases next?_alike hscan raw with ⟨hnone, hnone'⟩ | ⟨l, l', hl, hl', hassigned, -, hsaid⟩
  · rw [hnone, hnone']
    exact Nat.le_add_right _ _
  · rw [hl, hl', Option.bind_some]
    dsimp only
    have hsame (declares : Bool) : l'.introductions name declares = l.introductions name declares := by
      rw [ReadLine.introductions, ReadLine.introductions, hsaid]
    rw [hsame, hassigned]
    cases hl : l.assigned? with
    | none => exact Nat.le_add_right _ _
    | some n =>
      obtain ⟨value, hvalue⟩ := ReadLine.said?_of_assigned? hl
      have hintroduces (declares : Bool) : l.introductions name declares = introductions name
          ((if declares then "let ".toList else []) ++ (n.toList ++ " = ".toList ++ value) ++ ['\n']) := by
        rw [ReadLine.introductions, hvalue, Option.elim_some]
      have hnew (e : Emitter) : e.isNew (some n) = !e.declared.contains n := by
        rw [Emitter.isNew, Option.filter_some]
        cases e.declared.contains n <;> rfl
      rw [hintroduces, hintroduces, hnew, hnew, Option.toList_some, List.countP_singleton, lacks]
      cases hp : p.emitter.declared.contains n with
      | true =>
        cases hq : q.emitter.declared.contains n with
        | true => exact Nat.le_add_right _ _
        | false => simpa using introductions_let_le hname n value
      | false =>
        cases hq : q.emitter.declared.contains n with
        | true =>
          have hidentifier : Phrase.isName n.toList = true :=
            (h n (List.contains_iff_mem.1 hq)).resolve_left fun hmem => by
              rw [List.contains_iff_mem.2 hmem] at hp
              cases hp
          simpa using introductions_le_let hname hidentifier value
        | false => exact Nat.le_add_right _ _

/-- Behind a line its names are known, besides those that were known before. -/
theorem mem_declared_feed (h : p.emitter.target = .javascript) {raw : List Char} {n : String} :
    n ∈ (p.feed raw).emitter.declared ↔ n ∈ p.emitter.declared ∨ ∃ l, p.next? raw = some l ∧ n ∈ l.names := by
  rw [Progress.declared_feed h, List.mem_append, or_comm, Progress.declares]
  cases p.next? raw with
  | none => simp
  | some l =>
    have hfresh : n ∈ p.emitter.fresh l.assigned? ↔ l.assigned? = some n ∧ n ∉ p.emitter.declared := by
      rw [Emitter.fresh, Option.mem_toList, Option.filter_eq_some_iff]
      simp
    have hnames : n ∈ l.names ↔ n ∈ l.headed ∨ l.assigned? = some n := by
      rw [ReadLine.names, List.mem_append, Option.mem_toList]
    dsimp only
    rw [List.mem_append, hfresh]
    simp only [Option.some.injEq, exists_eq_left', hnames]
    tauto

theorem names_alike (h : q.scanner.Alike p.scanner) {raw : List Char} {n : String} :
    (∃ l, q.next? raw = some l ∧ n ∈ l.names) ↔ ∃ l, p.next? raw = some l ∧ n ∈ l.names := by
  rcases next?_alike h raw with ⟨hnone, hnone'⟩ | ⟨l, l', hl, hl', hassigned, hheaded, -⟩
  · rw [hnone, hnone']
  · have hnames : l'.names = l.names := by rw [ReadLine.names, ReadLine.names, hassigned, hheaded]
    rw [hl, hl']
    simp [hnames]

variable (hp : p.emitter.target = .javascript) (hq : q.emitter.target = .javascript) (hscan : q.scanner.Alike p.scanner)

include hp hq hscan

theorem KnowsFewer.feed (h : KnowsFewer p q) (raw : List Char) : KnowsFewer (p.feed raw) (q.feed raw) := by
  intro n hn
  rw [mem_declared_feed hp]
  rcases (mem_declared_feed hq).1 hn with hbefore | hnames
  · exact (h n hbefore).imp_left .inl
  · exact .inl (.inr ((names_alike hscan).1 hnames))

/-- What is lacking behind a line was lacking before it, and is no name of the line. -/
theorem lacks_of_feed {raw : List Char} {n : String}
    (h : lacks name (p.feed raw).emitter.declared (q.feed raw).emitter.declared n = true) :
    (lacks name p.emitter.declared q.emitter.declared n && (p.next? raw).all (!·.names.contains n)) = true := by
  simp only [lacks, Bool.and_eq_true, Bool.not_eq_true', ← Bool.not_eq_true, List.contains_iff_mem,
    mem_declared_feed hp, mem_declared_feed hq, names_alike hscan, Option.all_eq_true] at h ⊢
  obtain ⟨⟨hlikens, hknown⟩, hlacks⟩ := h
  rw [not_or] at hlacks
  exact ⟨⟨⟨hlikens, hknown.resolve_right hlacks.2⟩, hlacks.1⟩, fun l hl hmem => hlacks.2 ⟨l, hl, hmem⟩⟩

/-- A run introduces at most as much as one that knows more, and beside that the names that it lacks and assigns to before
it binds them. -/
theorem gains_le (hname : Phrase.isName name.toList = true) (h : KnowsFewer p q) (raws : List (List Char)) :
    q.gains name raws ≤ p.gains name raws +
      (introduced (p.readLines raws)).countP (lacks name p.emitter.declared q.emitter.declared) := by
  -- a name that is lacking is introduced by the first line that names it, and is lacking no more behind that
  induction raws generalizing p q with
  | nil => exact Nat.zero_le _
  | cons raw raws ih =>
    have hfirst := gain_le hname h hscan raw
    have hrest := ih ((p.feed_keeps raw).2.trans hp) ((q.feed_keeps raw).2.trans hq)
      (by rw [(p.feed_keeps raw).1, (q.feed_keeps raw).1]; exact (hscan.feed raw).2) (h.feed hp hq hscan raw)
    have hlacks := List.countP_mono_left (l := introduced ((p.feed raw).readLines raws))
      fun n _ => @lacks_of_feed p q name hp hq hscan raw n
    rw [Progress.gains, Progress.gains, Progress.readLines, countP_introduced]
    omega

end Runs

/-! ## Chunk by chunk -/

/-- The code of the chunks, one behind the other. -/
def codeOfChunks (width : Nat) (chunks : List Chunk) : List Char :=
  chunks.flatMap fun c => (ofSource .javascript width ⟨c.context, c.depth, c.continues⟩ c.text.toList).code

namespace Progress

/-- The uncut run stands in code where a chunk begins. -/
def cutInCode (p : Progress) : List Chunk → Bool
  | [] => true
  | c :: cs => p.scanner.mode.isCode && (c.lines.foldl feed p).cutInCode cs

/-- How often a chunk assigns to the name before it binds it, although the code before the chunk declares it, where the
context of the chunk does not show that. -/
def unshown (p : Progress) (name : String) : List Chunk → Nat
  | [] => 0
  | c :: cs => (introduced (p.readLines c.lines)).countP (lacks name p.emitter.declared (contextNames c.context)) +
      (c.lines.foldl feed p).unshown name cs

end Progress

theorem isName_of_mem_contextNames {context : Option String} {n : String} (h : n ∈ contextNames context) :
    Phrase.isName n.toList = true := by
  unfold contextNames at h
  split at h
  · cases h
  · obtain ⟨line, -, hline⟩ := List.mem_filterMap.1 h
    unfold Phrase.declaredName? at hline
    obtain ⟨candidate, -, hcandidate⟩ := Option.bind_eq_some_iff.1 hline
    dsimp only at hcandidate
    split at hcandidate
    · next hname =>
      rw [← Option.some.inj hcandidate, String.toList_ofList]
      exact hname
    · cases hcandidate

/-- Code ends with a newline, so that what is put behind it begins a line. -/
theorem closed_code (target : Target) (width : Nat) (setting : Setting) (source : List Char) :
    Closed (ofSource target width setting source).code := by
  obtain ⟨-, -, hclosed⟩ := exists_joinLines _
  exact hclosed

/-- The ends of blocks that are written at the end of a source introduce nothing. -/
theorem introductions_ofSource (name : String) (width : Nat) (setting : Setting) (source : List Char) :
    introductions name (ofSource .javascript width setting source).code =
      (begin .javascript width setting).gains name (lines source) := by
  have hrun := Progress.introductions_foldl (p := begin .javascript width setting) rfl name
    fun raw (hraw : raw ∈ lines source) => newline_notMem_of_mem_lines hraw
  have htarget := target_foldl (begin .javascript width setting) (lines source)
  rw [show (begin .javascript width setting).emitter.introductions name = 0 from rfl, Nat.zero_add] at hrun
  rw [← hrun]
  refine (introductions_joinLines _).trans ?_
  cases setting.leaveOpen with
  | true => rfl
  | false => exact Emitter.introductions_popMany _ htarget

theorem introductions_codeOfChunks_le {p : Progress} (hp : p.emitter.target = .javascript) (hreads : Reads p) (width : Nat)
    {name : String} (hname : Phrase.isName name.toList = true) {chunks : List Chunk}
    (hcuts : p.cutInCode chunks = true) : introductions name (codeOfChunks width chunks) ≤
      p.gains name (chunks.flatMap Chunk.lines) + p.unshown name chunks := by
  induction chunks generalizing p with
  | nil => exact Nat.zero_le _
  | cons c cs ih =>
    obtain ⟨hcode, hcuts⟩ := Bool.and_eq_true_iff.1 hcuts
    have hrest := ih ((target_foldl p c.lines).trans hp) (hreads.foldl c.lines) hcuts
    have hscan := hreads.alike_beginChunk width c hcode
    rw [hp] at hscan
    have hfirst := gains_le (q := beginChunk .javascript width c) hp rfl hscan hname
      (fun n hn => .inr (isName_of_mem_contextNames hn)) c.lines
    rw [codeOfChunks, List.flatMap_cons, introductions_append (closed_code _ _ _ _), introductions_ofSource,
      List.flatMap_cons, Progress.gains_append, Progress.unshown]
    have hdeclared : (beginChunk .javascript width c).emitter.declared = contextNames c.context := rfl
    rw [hdeclared] at hfirst
    unfold codeOfChunks at hrest
    show (beginChunk .javascript width c).gains name c.lines + _ ≤ _
    omega

/-- Chunk by chunk a name is introduced at most as often as in one piece, and once more for each chunk that assigns to it
before it binds it, though the code before declares it, where the context of the chunk does not show it. -/
theorem introductions_chunks_le (width : Nat) (limits : ChunkLimits) (source : List Char) {name : String}
    (hname : Phrase.isName name.toList = true)
    (hcuts : (begin .javascript width {}).cutInCode (ChunkPlan.ofText limits source).chunks = true) :
    introductions name (codeOfChunks width (ChunkPlan.ofText limits source).chunks) ≤
      introductions name (ofSource .javascript width {} source).code +
        (begin .javascript width {}).unshown name (ChunkPlan.ofText limits source).chunks := by
  have h := introductions_codeOfChunks_le (p := begin .javascript width {}) rfl (reads_begin .javascript width {}) width
    hname hcuts
  rwa [ChunkPlan.lines_ofText, ← introductions_ofSource] at h

/-- The context of the second chunk shows where the name is introduced. -/
theorem introductions_of_shown :
    let source := "x = 1\ny = x\nx = 2\n".toList
    let chunks := (ChunkPlan.ofText ⟨12, 2⟩ source).chunks
    chunks.length = 2 ∧ Phrase.isName "x".toList = true ∧ (begin .javascript 4 {}).cutInCode chunks = true ∧
      (begin .javascript 4 {}).unshown "x" chunks = 0 ∧
      introductions "x" (codeOfChunks 4 chunks) ≤ introductions "x" (ofSource .javascript 4 {} source).code +
        (begin .javascript 4 {}).unshown "x" chunks := by
  refine ⟨by decide +kernel, by decide +kernel, by decide +kernel, by decide +kernel, ?_⟩
  exact introductions_chunks_le 4 ⟨12, 2⟩ "x = 1\ny = x\nx = 2\n".toList (by decide +kernel) (by decide +kernel)

/-- A chunk that begins with a unit of its own has no context, and introduces the name again. -/
theorem introduced_again_without_context :
    let source := "x = 1\nIF a THEN\nf(x)\nEND IF\nx = 2\n".toList
    let chunks := (ChunkPlan.ofText ⟨28, 3⟩ source).chunks
    (ChunkPlan.ofText ⟨28, 3⟩ source).issues = [] ∧
      (ofSource .javascript 4 {} source).code = "let x = 1;\nif (a) \x7b\n    f(x);\n\x7d\nx = 2;\n".toList ∧
      codeOfChunks 4 chunks = "let x = 1;\nif (a) \x7b\n    f(x);\n\x7d\nlet x = 2;\n".toList ∧
      ¬ introductions "x" (codeOfChunks 4 chunks) ≤ introductions "x" (ofSource .javascript 4 {} source).code := by
  decide +kernel

end Generation

end Pseudoscribe
