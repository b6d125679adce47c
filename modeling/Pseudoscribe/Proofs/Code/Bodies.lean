import Pseudoscribe.Proofs.Code.ChunkedNesting
import Pseudoscribe.Proofs.Code.Output
import Pseudoscribe.Proofs.Text.Pieces

/-!
# The bodies of blocks in Python

Behind the header of a block the next line that is more than a comment has to be deeper than the header.  The
emitter writes `pass` where a block has no statement, but comments count as statements, so a block is left empty
if it ends, or is carried on, while nothing but comments is in it.  As long as this does not happen, and no line of
a literal comes first, every block has a body.
-/

namespace Pseudoscribe

open Pseudoscribe.Frame

/-! ## Lines of code -/

namespace Generation

/-- No code: a blank line, or a comment. -/
def isRemark (line : List Char) : Bool := (Text.trimStart line).head?.all (· == '#')

/-- How many spaces a line begins with. -/
def indentOf (line : List Char) : Nat := (line.takeWhile (· == ' ')).length

/-- There is a line of code that is deeper than the header, before any that is not. -/
def Filled (header : List Char) (behind : List (List Char)) : Prop :=
  ∃ line ∈ behind.takeWhile (fun l => isRemark l || indentOf header < indentOf l), isRemark line = false

instance (header : List Char) (behind : List (List Char)) : Decidable (Filled header behind) :=
  inferInstanceAs (Decidable (∃ line ∈ _, _))

/-- The first line of code has more spaces before it than this. -/
def Deeper (n : Nat) (lines : List (List Char)) : Prop :=
  ∃ quiet line rest, lines = quiet ++ line :: rest ∧ (∀ l ∈ quiet, isRemark l = true) ∧
    isRemark line = false ∧ n < indentOf line

theorem Deeper.filled {header : List Char} {behind : List (List Char)} (h : Deeper (indentOf header) behind) :
    Filled header behind := by
  obtain ⟨quiet, line, rest, rfl, hquiet, hline, hdeep⟩ := h
  refine ⟨line, ?_, hline⟩
  rw [List.takeWhile_append_of_pos fun l hl => by rw [hquiet l hl, Bool.true_or],
    List.takeWhile_cons_of_pos (by simp [hdeep])]
  simp

theorem Deeper.append_right {n : Nat} {xs : List (List Char)} (h : Deeper n xs) (ys : List (List Char)) :
    Deeper n (xs ++ ys) := by
  obtain ⟨quiet, line, rest, rfl, hquiet, hline, hdeep⟩ := h
  exact ⟨quiet, line, rest ++ ys, by simp, hquiet, hline, hdeep⟩

theorem Deeper.append_left {n : Nat} {xs ys : List (List Char)} (hxs : ∀ l ∈ xs, isRemark l = true)
    (h : Deeper n ys) : Deeper n (xs ++ ys) := by
  obtain ⟨quiet, line, rest, rfl, hquiet, hline, hdeep⟩ := h
  refine ⟨xs ++ quiet, line, rest, by simp, ?_, hline, hdeep⟩
  intro l hl
  rcases List.mem_append.1 hl with hl | hl
  · exact hxs l hl
  · exact hquiet l hl

@[simp]
theorem isRemark_replicate_append (n : Nat) (text : List Char) :
    isRemark (List.replicate n ' ' ++ text) = isRemark text := by
  have hblanks : ∀ c ∈ List.replicate n ' ', Text.isSpace c = true := by
    intro c hc
    rw [List.eq_of_mem_replicate hc]
    decide
  rw [isRemark, Text.trimStart, List.dropWhile_append_of_pos hblanks]
  rfl

theorem le_indentOf (n : Nat) (text : List Char) : n ≤ indentOf (List.replicate n ' ' ++ text) := by
  rw [indentOf, List.takeWhile_append_of_pos (by simp), List.length_append, List.length_replicate]
  exact Nat.le_add_right _ _

theorem indentOf_replicate_append (n : Nat) {text : List Char} (h : text.head? ≠ some ' ') :
    indentOf (List.replicate n ' ' ++ text) = n := by
  have hnone : text.takeWhile (· == ' ') = [] := by
    cases text with
    | nil => rfl
    | cons c cs => exact List.takeWhile_cons_of_neg (by simpa using h)
  rw [indentOf, List.takeWhile_append_of_pos (by simp), hnone, List.append_nil, List.length_replicate]

theorem deeper_singleton {n m : Nat} (hn : n < m) {text : List Char} (h : isRemark text = false) :
    Deeper n [List.replicate m ' ' ++ text] :=
  ⟨[], _, [], rfl, by simp, by rw [isRemark_replicate_append, h], Nat.lt_of_lt_of_le hn (le_indentOf m text)⟩

theorem isRemark_pass : isRemark "pass".toList = false := by decide

end Generation

namespace Form

open Generation

/-- The line begins with neither a blank nor a comment. -/
def BeginsCode (line : List Char) : Prop :=
  ∃ c cs, line = c :: cs ∧ Text.isSpace c = false ∧ c ≠ '#'

theorem beginsCode_append {word : List Char} (h : BeginsCode word) (rest : List Char) :
    BeginsCode (word ++ rest) := by
  obtain ⟨c, cs, rfl, hspace, hhash⟩ := h
  exact ⟨c, cs ++ rest, rfl, hspace, hhash⟩

theorem BeginsCode.isRemark_eq_false {line : List Char} (h : BeginsCode line) : isRemark line = false := by
  obtain ⟨c, cs, rfl, hspace, hhash⟩ := h
  rw [isRemark, Text.trimStart, List.dropWhile_cons_of_neg (by simp [hspace])]
  simpa using hhash

theorem BeginsCode.head?_ne {line : List Char} (h : BeginsCode line) : line.head? ≠ some ' ' := by
  obtain ⟨c, cs, rfl, hspace, -⟩ := h
  intro hc
  rw [Option.some.inj hc] at hspace
  cases hspace

theorem beginsCode_coloned {word : String} (h : BeginsCode word.toList) (test : List Char) :
    BeginsCode (coloned word test) :=
  beginsCode_append (beginsCode_append (beginsCode_append h _) _) _

theorem beginsCode_header {h : Header} {line : List Char} (hline : header .python h = some line) :
    BeginsCode line := by
  have hdef : BeginsCode "def ".toList := ⟨'d', _, rfl, by decide, by decide⟩
  have hclass : BeginsCode "class ".toList := ⟨'c', _, rfl, by decide, by decide⟩
  have hif : BeginsCode "if".toList := ⟨'i', _, rfl, by decide, by decide⟩
  have hwhile : BeginsCode "while".toList := ⟨'w', _, rfl, by decide, by decide⟩
  have hfor : BeginsCode "for ".toList := ⟨'f', _, rfl, by decide, by decide⟩
  have htrue : BeginsCode "while True:".toList := ⟨'w', _, rfl, by decide, by decide⟩
  have htry : BeginsCode "try:".toList := ⟨'t', _, rfl, by decide, by decide⟩
  cases h with
  | function name params =>
    cases hline
    exact beginsCode_append (beginsCode_append hdef _) _
  | record name base =>
    cases hline
    unfold record
    cases base with
    | none => exact beginsCode_append (beginsCode_append hclass _) _
    | some base =>
      exact beginsCode_append (beginsCode_append (beginsCode_append (beginsCode_append hclass _) _) _) _
  | condition test =>
    cases hline
    exact beginsCode_coloned hif _
  | loopWhile test =>
    cases hline
    exact beginsCode_coloned hwhile _
  | loopUntil => cases hline; exact htrue
  | loopForever => cases hline; exact htrue
  | loopRange var start stop step =>
    cases hline
    unfold range
    dsimp only
    simp only [List.append_assoc]
    exact beginsCode_append hfor _
  | loopEach var items =>
    cases hline
    unfold each
    simp only [List.append_assoc]
    exact beginsCode_append hfor _
  | attempt => cases hline; exact htry
  | group => cases hline
  | unknown => cases hline

theorem beginsCode_continuation {c : Continuation} {line : List Char} (hline : continuation .python c = some line) :
    BeginsCode line := by
  cases c with
  | elseIf test =>
    cases hline
    exact beginsCode_coloned ⟨'e', _, rfl, by decide, by decide⟩ _
  | otherwise => cases hline; exact ⟨'e', _, rfl, by decide, by decide⟩
  | rescue name =>
    have hexcept : BeginsCode "except Exception:".toList := ⟨'e', _, rfl, by decide, by decide⟩
    have hnamed : BeginsCode "except Exception as".toList := ⟨'e', _, rfl, by decide, by decide⟩
    cases hline
    dsimp only
    split
    · exact hexcept
    · exact beginsCode_coloned hnamed _
  | always => cases hline; exact ⟨'f', _, rfl, by decide, by decide⟩
  | unknown => cases hline

end Form

/-! ## What is written stays -/

namespace Emitter

/-- The second emitter has written on behind the first. -/
structure Extends (e e' : Emitter) : Prop where
  out : e.out.toList <+: e'.out.toList
  width : e'.width = e.width
  target : e'.target = e.target

theorem Extends.trans {e e' e'' : Emitter} (h : Extends e e') (h' : Extends e' e'') : Extends e e'' :=
  ⟨h.out.trans h'.out, h'.width.trans h.width, h'.target.trans h.target⟩

theorem extends_refl (e : Emitter) : Extends e e := ⟨List.prefix_refl _, rfl, rfl⟩

theorem extends_restack (e : Emitter) (stack : List Frame) : Extends e { e with stack } :=
  ⟨List.prefix_refl _, rfl, rfl⟩

theorem extends_declare (e : Emitter) (names : List String) : Extends e (e.declare names) :=
  ⟨List.prefix_refl _, rfl, rfl⟩

theorem extends_emit (e : Emitter) (line : List Char) : Extends e (e.emit line) :=
  ⟨by simp [emit], rfl, rfl⟩

theorem extends_emitAt (e : Emitter) (depth : Nat) (text : List Char) : Extends e (e.emitAt depth text) :=
  e.extends_emit _

theorem extends_statement (e : Emitter) (text : List Char) : Extends e (e.statement text) :=
  (e.extends_restack (markBody e.stack)).trans (extends_emitAt _ e.depth text)

theorem extends_closing (e : Emitter) (f : Frame) : Extends e (e.closing f) := by
  unfold closing
  split
  · exact e.extends_refl
  · split
    · split
      · exact e.extends_refl
      · exact e.extends_emitAt _ _
    · exact e.extends_emitAt _ _

theorem extends_pop (e : Emitter) : Extends e e.pop := by
  unfold pop
  split
  · exact e.extends_refl
  · next f fs _ => exact (e.extends_restack fs).trans (extends_closing _ f)

theorem extends_popMany (count : Nat) (e : Emitter) : Extends e (popMany count e) := by
  induction count generalizing e with
  | zero => exact e.extends_refl
  | succ k ih => exact e.extends_pop.trans (ih e.pop)

theorem extends_popUntil (e : Emitter) (test : List Char) : Extends e (e.popUntil test) := by
  unfold popUntil
  dsimp only
  split
  · exact ((e.extends_emitAt _ _).trans (extends_emitAt _ _ _)).trans (extends_restack _ _)
  · exact (e.extends_restack (e.stack.drop 1)).trans (extends_emitAt _ _ _)

theorem extends_close (e : Emitter) (kind : Option BlockKind) (code : List Char) : Extends e (e.close kind code) := by
  unfold close
  dsimp only
  split
  · exact (extends_popMany _ e).trans (extends_popUntil _ _)
  · split
    · exact extends_popMany _ e
    · exact e.extends_refl

theorem extends_carryOn (e : Emitter) (code : List Char) : Extends e (e.carryOn code).2 := by
  unfold carryOn
  split
  · next line f fs _ _ =>
    dsimp only
    refine Extends.trans (Extends.trans ?_ (extends_emitAt _ (e.depth - 1) line)) (extends_restack _ _)
    split
    · exact e.extends_emitAt _ _
    · exact e.extends_refl
  · exact e.extends_refl

theorem extends_plain (e : Emitter) (code : List Char) : Extends e (e.plain code).2 := by
  unfold plain
  dsimp only
  split
  · exact e.extends_statement _
  · exact e.extends_refl
  · exact (e.extends_declare _).trans (extends_statement _ _)

theorem extends_opens (e : Emitter) (code : List Char) (kind : BlockKind) (style : BlockStyle) (indent : Nat) :
    Extends e (e.opens code kind style indent).2 := by
  unfold opens
  dsimp only
  split
  · exact e.extends_restack _
  · exact (e.extends_statement _).trans (extends_restack _ _)
  · exact ((e.extends_declare _).trans (extends_statement _ _)).trans (extends_restack _ _)

theorem extends_line (e : Emitter) (line : ScannedLine) (raw : List Char) : Extends e (e.line line raw).2 := by
  have hdedent (continuation : Bool) : Extends e (e.dedent line.indent continuation) := extends_popMany _ e
  cases e.lineCase line raw with
  | comment _ heq =>
    rw [heq]
    exact (hdedent false).trans (extends_statement _ _)
  | plain _ _ heq =>
    rw [heq]
    exact (hdedent false).trans (extends_plain _ _)
  | continues _ _ heq =>
    rw [heq]
    exact (hdedent true).trans (extends_carryOn _ _)
  | opens kind style _ heq =>
    rw [heq]
    exact (hdedent false).trans (extends_opens _ _ _ _ _)
  | closes kind _ _ heq =>
    rw [heq]
    exact (hdedent false).trans (extends_close _ _ _)

end Emitter

namespace Generation.Progress

theorem extends_feed (p : Progress) (raw : List Char) : p.emitter.Extends (p.feed raw).emitter := by
  rw [emitter_feed]
  split
  · exact p.emitter.extends_emit _
  · split
    · exact p.emitter.extends_emit _
    · exact p.emitter.extends_line _ raw

theorem extends_foldl (p : Progress) (raws : List (List Char)) :
    p.emitter.Extends (raws.foldl feed p).emitter := by
  induction raws generalizing p with
  | nil => exact p.emitter.extends_refl
  | cons raw raws ih => exact (p.extends_feed raw).trans (ih (p.feed raw))

theorem prefix_written (p : Progress) (raws : List (List Char)) : p.emitter.out.toList <+: p.written raws :=
  ((p.extends_foldl raws).trans (Emitter.extends_popMany _ _)).out

end Generation.Progress

/-! ## The innermost block -/

namespace Emitter

open Generation

/-- The innermost block of the code has a note of a statement. -/
def noted (e : Emitter) : Bool := (e.stack.find? (!·.isGroup)).any (·.hasBody)

/-- The line of code that is written first is deeper than this. -/
def Coded (n : Nat) (e e' : Emitter) : Prop :=
  ∃ added, e'.out.toList = e.out.toList ++ added ∧ Deeper n added

/-- The line of code that is written first is deeper than this, or none is written and the block goes on. -/
inductive Fills (n : Nat) (e e' : Emitter) : Prop
  | code (h : Coded n e e')
  | quiet (added : List (List Char)) (out : e'.out.toList = e.out.toList ++ added)
    (remarks : ∀ l ∈ added, isRemark l = true) (depth : e'.depth = e.depth)

variable {n : Nat} {e e' e'' : Emitter}

/-- Once the block has a line of code it does not matter what is written behind it. -/
theorem Coded.extends (h : Coded n e e') (hext : Extends e' e'') : Coded n e e'' := by
  obtain ⟨added, out, deeper⟩ := h
  obtain ⟨rest, hrest⟩ := hext.out
  exact ⟨added ++ rest, by rw [← hrest, out, List.append_assoc], deeper.append_right rest⟩

theorem Fills.then (h : Fills n e e') (hext : Extends e' e'') (hquiet : e'.depth = e.depth → Fills n e' e'') :
    Fills n e e'' := by
  cases h with
  | code h => exact .code (h.extends hext)
  | quiet added out remarks depth =>
    cases hquiet depth with
    | code h =>
      obtain ⟨added', out', deeper'⟩ := h
      exact .code ⟨added ++ added', by rw [out', out, List.append_assoc], deeper'.append_left remarks⟩
    | quiet added' out' remarks' depth' =>
      refine .quiet (added ++ added') (by rw [out', out, List.append_assoc]) ?_ (depth'.trans depth)
      intro l hl
      rcases List.mem_append.1 hl with hl | hl
      · exact remarks l hl
      · exact remarks' l hl

theorem Fills.of_eq (h : Fills n e e') (hout : e''.out = e'.out) (hdepth : e''.depth = e'.depth) : Fills n e e'' := by
  cases h with
  | code h =>
    obtain ⟨added, out, deeper⟩ := h
    exact .code ⟨added, by rw [hout, out], deeper⟩
  | quiet added out remarks depth => exact .quiet added (by rw [hout, out]) remarks (hdepth.trans depth)

theorem fills_of_eq (hout : e'.out = e.out) (hdepth : e'.depth = e.depth) : Fills n e e' :=
  .quiet [] (by rw [hout, List.append_nil]) (by simp) hdepth

theorem coded_push {depth : Nat} (hn : n < depth * e.width) {text : List Char} (h : isRemark text = false)
    (hout : e'.out = e.out.push (List.replicate (depth * e.width) ' ' ++ text)) : Coded n e e' :=
  ⟨_, by rw [hout, Array.toList_push], deeper_singleton hn h⟩

/-- A statement of the block: code that is deeper than its header, or a remark. -/
theorem fills_statement (hn : n < e.depth * e.width) (text : List Char) : Fills n e (e.statement text) := by
  cases h : isRemark text with
  | false => exact .code (coded_push hn h rfl)
  | true =>
    exact .quiet [List.replicate (e.depth * e.width) ' ' ++ text] Array.toList_push (by simp [h])
      (depth_statement e text)

theorem closing_python (htarget : e.target = .python) {f : Frame} (hf : f.isGroup = false)
    (hbody : f.hasBody = false) : e.closing f = e.emitAt (e.depth + 1) "pass".toList := by
  unfold closing
  rw [hf, if_neg Bool.false_ne_true, htarget, hbody]
  rfl

/-- A block that ends without a note of a statement has `pass`. -/
theorem fills_pop (htarget : e.target = .python) (hn : n < e.depth * e.width) (hnoted : e.noted = false) :
    Fills n e e.pop := by
  unfold pop
  split
  · exact fills_of_eq rfl rfl
  · next f fs hs =>
    rw [noted, hs] at hnoted
    have hdepth : e.depth = (if f.isGroup then 0 else 1) + ({ e with stack := fs } : Emitter).depth := by
      rw [depth_eq_blocks_stack, hs, blocks_cons]
      rfl
    cases hf : f.isGroup with
    | true =>
      rw [hf, if_pos rfl, Nat.zero_add] at hdepth
      rw [closing, if_pos hf]
      exact fills_of_eq rfl hdepth.symm
    | false =>
      rw [hf, if_neg Bool.false_ne_true, Nat.add_comm] at hdepth
      have hbody : f.hasBody = false := by simpa [hf] using hnoted
      rw [closing_python (e := { e with stack := fs }) htarget hf hbody]
      rw [hdepth] at hn
      exact .code (coded_push hn isRemark_pass rfl)

theorem blocks_take_add_depth {k : Nat} (hs : e'.stack = e.stack.drop k) :
    blocks (e.stack.take k) + e'.depth = e.depth := by
  rw [depth_eq_blocks_stack, depth_eq_blocks_stack, hs, ← blocks_take_add_drop e.stack k]

/-- Where only groups end, the innermost block is the same. -/
theorem noted_of_drop {k : Nat} (hs : e'.stack = e.stack.drop k) (hdepth : e'.depth = e.depth) :
    e'.noted = e.noted := by
  have hsplit := blocks_take_add_depth hs
  have hzero : blocks (e.stack.take k) = 0 := by omega
  have hgroups : (e.stack.take k).find? (!·.isGroup) = none := by
    rw [List.find?_eq_none]
    intro f hf
    simp [blocks_eq_zero_iff.1 hzero f hf]
  have hfind : e.stack.find? (!·.isGroup) = (e.stack.drop k).find? (!·.isGroup) := by
    conv => lhs; rw [← List.take_append_drop k e.stack]
    rw [List.find?_append, hgroups, Option.none_or]
  rw [noted, noted, hs, hfind]

theorem fills_popMany (count : Nat) (htarget : e.target = .python) (hn : n < e.depth * e.width)
    (hnoted : e.noted = false) : Fills n e (popMany count e) := by
  induction count generalizing e with
  | zero => exact fills_of_eq rfl rfl
  | succ k ih =>
    refine (fills_pop htarget hn hnoted).then (extends_popMany k e.pop) fun hdepth => ?_
    refine ih (e.extends_pop.target.trans htarget) ?_ ?_
    · rwa [hdepth, e.extends_pop.width]
    · rw [noted_of_drop (k := 1) (by rw [e.pop_keeps.1, List.drop_one]) hdepth, hnoted]

/-- Where only groups end, nothing is written. -/
theorem out_popMany_of_depth {count : Nat} (hdepth : (popMany count e).depth = e.depth) :
    (popMany count e).out = e.out := by
  have hsplit := blocks_take_add_depth (stack_popMany count e)
  have hzero : blocks (e.stack.take count) = 0 := by omega
  rw [popMany_silent]
  rw [List.all_eq_true]
  intro f hf
  rw [endsSilently, blocks_eq_zero_iff.1 hzero f hf, Bool.true_or]

/-- Blocks end after the innermost one got a body: it has no note of a statement, or it stays open. -/
theorem fills_popMany_of (count : Nat) (htarget : e.target = .python) (hn : n < e.depth * e.width)
    (h : (popMany count e).depth < e.depth → e.noted = false) : Fills n e (popMany count e) := by
  by_cases hdepth : (popMany count e).depth = e.depth
  · exact fills_of_eq (out_popMany_of_depth hdepth) hdepth
  · refine fills_popMany count htarget hn (h ?_)
    have hsplit := blocks_take_add_depth (stack_popMany count e)
    omega

theorem fills_plain (hn : n < e.depth * e.width) (code : List Char) : Fills n e (e.plain code).2 := by
  unfold plain
  dsimp only
  split
  · exact fills_statement hn _
  · exact fills_of_eq rfl rfl
  · exact (fills_statement hn _).of_eq rfl rfl

theorem fills_opens (htarget : e.target = .python) (hn : n < e.depth * e.width) (code : List Char)
    (kind : BlockKind) (style : BlockStyle) (indent : Nat) : Fills n e (e.opens code kind style indent).2 := by
  unfold opens
  rw [htarget]
  dsimp only
  split
  · exact fills_of_eq rfl (depth_push_group e style indent)
  · exact (fills_statement hn _).of_eq rfl (depth_push_group _ style indent)
  · next line hline _ =>
    exact .code (coded_push hn (Form.beginsCode_header hline).isRemark_eq_false rfl)

/-- A block that is carried on without a note of a statement has `pass`. -/
theorem fills_carryOn (htarget : e.target = .python) (hn : n < e.depth * e.width) (code : List Char)
    (h : ((e.carryOn code).1 && e.stack.head?.any (·.hasBody)) = false) : Fills n e (e.carryOn code).2 := by
  obtain hs | ⟨f, fs, hs⟩ : e.stack = [] ∨ ∃ f fs, e.stack = f :: fs := by cases e.stack <;> simp
  · rw [carryOn_of_nil hs]
    exact fills_of_eq rfl rfl
  · cases hline : Form.continuation e.target (Continuation.ofCode code) with
    | none =>
      rw [carryOn_of_none hline]
      exact fills_of_eq rfl rfl
    | some line =>
      have hknown : (e.carryOn code).1 = true := by
        unfold carryOn
        rw [hline, hs]
      have hbody : f.hasBody = false := by simpa [hknown, hs] using h
      have hdepth : e.depth - 1 + 1 = e.depth := by
        have hpos : 0 < e.depth := Nat.pos_of_mul_pos_right (Nat.lt_of_le_of_lt (Nat.zero_le n) hn)
        omega
      rw [carryOn_of_cons hline hs, htarget, hbody, hdepth]
      have hpass : Coded n e ((e.carried f fs).emitAt e.depth "pass".toList) :=
        coded_push hn isRemark_pass rfl
      exact .code (hpass.extends (extends_emitAt _ _ line))

theorem popUntil_python (htarget : e.target = .python) (test : List Char) :
    e.popUntil test = { (e.emitAt e.depth (Form.coloned "if" (Expression.renderCondition .python test))).emitAt
      (e.depth + 1) "break".toList with stack := e.stack.drop 1 } := by
  unfold popUntil
  rw [htarget]
  rfl

theorem coded_popUntil (htarget : e.target = .python) (hn : n < e.depth * e.width) (test : List Char) :
    Coded n e (e.popUntil test) := by
  have hif : Form.BeginsCode "if".toList := ⟨'i', _, rfl, by decide, by decide⟩
  have htest : Coded n e (e.emitAt e.depth (Form.coloned "if" (Expression.renderCondition .python test))) :=
    coded_push hn (Form.beginsCode_coloned hif _).isRemark_eq_false rfl
  rw [popUntil_python htarget]
  exact htest.extends ((extends_emitAt _ _ _).trans (extends_restack _ _))

theorem exists_loop {stack : List Frame} (h : FrameStep.hasLoop stack = true) :
    ∃ i, stack.findIdx? (·.kind == .loopUntil) = some i := by
  refine Option.ne_none_iff_exists'.1 fun hnone => ?_
  rw [FrameStep.findIdx?_loop_eq_none_iff.1 hnone] at h
  cases h

theorem close_of_loop (kind : Option BlockKind) {code test : List Char} {i : Nat}
    (htest : untilTest? code = some test) (hi : e.stack.findIdx? (·.kind == .loopUntil) = some i) :
    e.close kind code = (popMany i e).popUntil test := by
  unfold close
  rw [htest, hi]

theorem close_of_fits {kind : Option BlockKind} {code : List Char} {above : Nat}
    (htest : (untilTest? code).isSome = true → FrameStep.hasLoop e.stack = false)
    (hfits : e.stack.findIdx? (·.fits kind) = some above) : e.close kind code = popMany (above + 1) e := by
  unfold close
  dsimp only
  split
  · next test i hsome hi =>
    rw [FrameStep.findIdx?_loop_eq_none_iff.2 (htest (by rw [hsome]; rfl))] at hi
    cases hi
  · rw [hfits]

/-- A closer ends the innermost block after it got a body, or leaves it open; the test of a loop is its body. -/
theorem fills_close (htarget : e.target = .python) (hn : n < e.depth * e.width) (kind : Option BlockKind)
    (code : List Char)
    (h : (e.close kind code).depth + FrameStep.testLevel .python (untilTest? code).isSome e.stack < e.depth →
      e.noted = false) : Fills n e (e.close kind code) := by
  by_cases hloop : (untilTest? code).isSome = true ∧ FrameStep.hasLoop e.stack = true
  · -- the frames above the loop end before its test is written, and the loop itself after it
    obtain ⟨test, htest⟩ := Option.isSome_iff_exists.1 hloop.1
    obtain ⟨i, hi⟩ := exists_loop hloop.2
    have hclose := close_of_loop kind htest hi
    have hlevel : (e.close kind code).depth + FrameStep.testLevel .python (untilTest? code).isSome e.stack =
        (popMany i e).depth := by
      obtain ⟨hlt, hkind, -⟩ := List.findIdx?_eq_some_iff_getElem.1 hi
      have hgroup : (e.stack[i]).isGroup = false := by
        rw [isGroup, eq_of_beq hkind]
        rfl
      rw [FrameStep.testLevel, if_pos ⟨rfl, hloop⟩, hclose, depth_eq_blocks_stack, (popUntil_keeps _ test).1,
        depth_eq_blocks_stack, stack_popMany, List.drop_drop, List.drop_eq_getElem_cons hlt, blocks_cons, hgroup,
        if_neg Bool.false_ne_true, Nat.add_comm 1]
    rw [hlevel] at h
    rw [hclose]
    refine (fills_popMany_of i htarget hn h).then (extends_popUntil _ test) fun hdepth => ?_
    refine .code (coded_popUntil ((target_popMany i e).trans htarget) ?_ test)
    rwa [hdepth, width_popMany]
  · have htest : (untilTest? code).isSome = true → FrameStep.hasLoop e.stack = false :=
      fun hsome => Bool.eq_false_iff.2 fun hhas => hloop ⟨hsome, hhas⟩
    have hlevel : FrameStep.testLevel .python (untilTest? code).isSome e.stack = 0 :=
      if_neg fun hall => hloop hall.2
    rw [hlevel, Nat.add_zero] at h
    cases hi : closeIndex? kind (untilTest? code).isSome e.stack with
    | none =>
      rw [close_of_none hi]
      exact fills_of_eq rfl rfl
    | some i =>
      rw [FrameStep.closeIndex?_of_noLoop kind htest] at hi
      rw [close_of_fits htest hi] at h ⊢
      exact fills_popMany_of (i + 1) htarget hn h

/-- The line ends the innermost block, or carries a block on, where nothing but a note stands for a body. -/
def leavesNoted (e : Emitter) (line : ScannedLine) (raw : List Char) : Bool :=
  let shape := LineShape.ofLine line.masked
  let d := e.dedent line.indent shape.isContinuation
  if d.depth < e.depth then e.noted
  else match shape with
    | .continues _ => (d.carryOn (FrameStep.codeOf line raw)).1 && d.stack.head?.any (·.hasBody)
    | .closes _ _ => (e.nesting line raw).level < d.depth && d.noted
    | _ => false

theorem fills_line (htarget : e.target = .python) (hn : n < e.depth * e.width) {line : ScannedLine}
    {raw : List Char} (h : e.leavesNoted line raw = false) : Fills n e (e.line line raw).2 := by
  -- a block that ends by its indentation has its body then, or the line finds the block still open
  have behind {continuation : Bool} (hc : (LineShape.ofLine line.masked).isContinuation = continuation)
      {e' : Emitter} (hext : Extends (e.dedent line.indent continuation) e')
      (hfills : ¬ (e.dedent line.indent continuation).depth < e.depth →
        (e.dedent line.indent continuation).target = .python →
          n < (e.dedent line.indent continuation).depth * (e.dedent line.indent continuation).width →
            Fills n (e.dedent line.indent continuation) e') : Fills n e e' := by
    have hdedent : Fills n e (e.dedent line.indent continuation) := by
      refine fills_popMany_of _ htarget hn fun hlt => ?_
      rw [leavesNoted, hc] at h
      exact (if_pos hlt).symm.trans h
    refine hdedent.then hext fun hdepth =>
      hfills (Nat.not_lt.2 (Nat.le_of_eq hdepth.symm)) ((target_dedent e _ _).trans htarget) ?_
    rwa [hdepth, dedent, width_popMany]
  cases e.lineCase line raw with
  | comment hempty heq =>
    have hplain := LineShape.ofLine_of_trim_eq_nil hempty
    rw [heq]
    exact behind (by rw [hplain]; rfl) (extends_statement _ _) fun _ _ hn => fills_statement hn _
  | plain hplain _ heq =>
    rw [heq]
    exact behind (by rw [hplain]; rfl) (extends_plain _ _) fun _ _ hn => fills_plain hn _
  | continues style hcontinues heq =>
    rw [heq]
    refine behind (by rw [hcontinues]; rfl) (extends_carryOn _ _) fun hopen htarget hn =>
      fills_carryOn htarget hn _ ?_
    rw [leavesNoted, hcontinues] at h
    exact (if_neg hopen).symm.trans h
  | opens kind style hopens heq =>
    rw [heq]
    exact behind (by rw [hopens]; rfl) (extends_opens _ _ _ _ _) fun _ htarget hn => fills_opens htarget hn _ _ _ _
  | closes kind style hcloses heq =>
    rw [heq]
    refine behind (by rw [hcloses]; rfl) (extends_close _ _ _) fun hopen htarget' hn =>
      fills_close htarget' hn _ _ ?_
    intro hlevel
    have hnesting : (e.nesting line raw).level =
        ((e.dedent line.indent false).close kind (FrameStep.codeOf line raw)).depth +
          FrameStep.testLevel .python (untilTest? (FrameStep.codeOf line raw)).isSome
            (e.dedent line.indent false).stack := by
      unfold nesting
      rw [hcloses, heq, htarget]
      rfl
    rw [← hnesting] at hlevel
    rw [leavesNoted, hcloses] at h
    have hnoted := (if_neg hopen).symm.trans h
    simpa [LineShape.isContinuation, hlevel] using hnoted

end Emitter

/-! ## Whole texts -/

namespace Generation

namespace Progress

open Emitter

/-- The innermost block gets a line of code before it ends or is carried on, or it has no statement by then, not
even a comment; and no line of a literal comes first that is not deeper than its header. -/
def bodied (p : Progress) : List (List Char) → Bool
  | [] => !p.emitter.noted
  | raw :: raws =>
    let line := (p.scanner.feed raw).1
    let added := (p.feed raw).emitter.out.toList.drop p.emitter.out.size
    if line.startsInLiteral then
      if isRemark (Text.trimEnd raw) then (p.feed raw).bodied raws
      else (p.emitter.depth - 1) * p.emitter.width < indentOf (Text.trimEnd raw)
    else if Text.isBlank raw then (p.feed raw).bodied raws
    else !p.emitter.leavesNoted line raw && (!added.all isRemark || (p.feed raw).bodied raws)

theorem deeper_written_of_coded {p q : Progress} {n : Nat} (h : Coded n p.emitter q.emitter)
    (raws : List (List Char)) : ∃ added, q.written raws = p.emitter.out.toList ++ added ∧ Deeper n added := by
  obtain ⟨added, out, deeper⟩ := h
  obtain ⟨rest, hrest⟩ := q.prefix_written raws
  exact ⟨added ++ rest, by rw [← hrest, out, List.append_assoc], deeper.append_right rest⟩

/-- At the end of the text all blocks end, the innermost one first. -/
theorem coded_end {e : Emitter} {n : Nat} (htarget : e.target = .python) (hn : n < e.depth * e.width)
    (h : e.noted = false) : Coded n e (popMany e.stack.length e) := by
  cases fills_popMany e.stack.length htarget hn h with
  | code h => exact h
  | quiet added out remarks depth =>
    -- a block is open, and at the end none is
    rw [depth_eq_blocks_stack, stack_popMany, List.drop_length] at depth
    rw [← depth, show blocks [] = 0 from rfl, Nat.zero_mul] at hn
    exact absurd hn (Nat.not_lt_zero n)

theorem header_lt_body {e : Emitter} (hdepth : 0 < e.depth) (hwidth : 0 < e.width) :
    (e.depth - 1) * e.width < e.depth * e.width :=
  Nat.mul_lt_mul_of_pos_right (Nat.sub_lt hdepth Nat.one_pos) hwidth

theorem deeper_written {p : Progress} (htarget : p.emitter.target = .python) (hdepth : 0 < p.emitter.depth)
    (hwidth : 0 < p.emitter.width) {raws : List (List Char)} (h : p.bodied raws = true) :
    ∃ added, p.written raws = p.emitter.out.toList ++ added ∧
      Deeper ((p.emitter.depth - 1) * p.emitter.width) added := by
  induction raws generalizing p with
  | nil => exact coded_end htarget (header_lt_body hdepth hwidth) (by simpa [bodied] using h)
  | cons raw raws ih =>
    have hext := p.extends_feed raw
    rw [written_cons]
    -- while only remarks are written the block stays the innermost one
    have hrest {added : List (List Char)}
        (out : (p.feed raw).emitter.out.toList = p.emitter.out.toList ++ added)
        (remarks : ∀ l ∈ added, isRemark l = true) (depth : (p.feed raw).emitter.depth = p.emitter.depth)
        (hbodied : (p.feed raw).bodied raws = true) :
        ∃ added, (p.feed raw).written raws = p.emitter.out.toList ++ added ∧
          Deeper ((p.emitter.depth - 1) * p.emitter.width) added := by
      have hdepth' : 0 < (p.feed raw).emitter.depth := by rwa [depth]
      have hwidth' : 0 < (p.feed raw).emitter.width := by rwa [hext.width]
      obtain ⟨added', hwritten, deeper⟩ := ih (hext.target.trans htarget) hdepth' hwidth' hbodied
      rw [depth, hext.width] at deeper
      exact ⟨added ++ added', by rw [hwritten, out, List.append_assoc], deeper.append_left remarks⟩
    have hfeed := p.emitter_feed raw
    unfold bodied at h
    dsimp only at h
    split at h
    · next hlit =>
      rw [if_pos hlit] at hfeed
      have hout : (p.feed raw).emitter.out.toList = p.emitter.out.toList ++ [Text.trimEnd raw] := by
        rw [hfeed, emit, Array.toList_push]
      split at h
      · next hremark => exact hrest hout (by simp [hremark]) (by rw [hfeed]; rfl) h
      · next hremark =>
        refine deeper_written_of_coded ⟨_, hout, [], _, [], rfl, by simp, ?_, by simpa using h⟩ raws
        exact Bool.eq_false_iff.2 hremark
    · next hlit =>
      rw [if_neg hlit] at hfeed
      split at h
      · next hblank =>
        rw [if_pos hblank] at hfeed
        have hout : (p.feed raw).emitter.out.toList = p.emitter.out.toList ++ [[]] := by
          rw [hfeed, emit, Array.toList_push]
        exact hrest hout (by simp [isRemark, Text.trimStart]) (by rw [hfeed]; rfl) h
      · next hblank =>
        rw [if_neg hblank] at hfeed
        rw [Bool.and_eq_true, Bool.not_eq_true'] at h
        obtain ⟨hstays, hbodied⟩ := h
        have hfills := fills_line htarget (header_lt_body hdepth hwidth) hstays
        rw [← hfeed] at hfills
        cases hfills with
        | code hcoded => exact deeper_written_of_coded hcoded raws
        | quiet added out remarks depth =>
          have hadded : (p.feed raw).emitter.out.toList.drop p.emitter.out.size = added := by
            rw [out, ← Array.length_toList, List.drop_left]
          rw [hadded, List.all_eq_true.2 remarks, Bool.not_true, Bool.false_or] at hbodied
          exact hrest out remarks depth hbodied

/-- Where the next line writes the header of a block of the code: as its last line, or before the `break` of a test
that ends a loop. -/
def headerAt? (p : Progress) (raw : List Char) : Option Nat :=
  let line := (p.scanner.feed raw).1
  let shape := LineShape.ofLine line.masked
  let d := p.emitter.dedent line.indent shape.isContinuation
  let code := FrameStep.codeOf line raw
  let size := (p.feed raw).emitter.out.size
  if line.startsInLiteral || Text.isBlank raw then none
  else match shape with
    | .opens kind _ => if FrameStep.headerKind p.emitter.target kind code = .group then none else some (size - 1)
    | .continues _ => if (d.carryOn code).1 then some (size - 1) else none
    | .closes _ _ => if (untilTest? code).isSome && FrameStep.hasLoop d.stack then some (size - 2) else none
    | .plain => none

/-- The block of the header that the next line writes gets a body.  A test that ends a loop has its `break`. -/
def bodiedBehind (p : Progress) (raw : List Char) (raws : List (List Char)) : Bool :=
  match LineShape.ofLine (p.scanner.feed raw).1.masked with
  | .closes _ _ => true
  | _ => 0 < (p.feed raw).emitter.depth && (p.feed raw).bodied raws

theorem filled_behind_test {q : Progress} (hwidth : 0 < q.emitter.width) {raws : List (List Char)}
    {lines : Array (List Char)} {depth : Nat} {test : List Char}
    (hout : q.emitter.out = (lines.push (List.replicate (depth * q.emitter.width) ' ' ++ Form.coloned "if" test)).push
      (List.replicate ((depth + 1) * q.emitter.width) ' ' ++ "break".toList)) :
    ∃ header, (q.written raws)[q.emitter.out.size - 2]? = some header ∧
      Filled header ((q.written raws).drop (q.emitter.out.size - 2 + 1)) := by
  have hif : Form.BeginsCode "if".toList := ⟨'i', _, rfl, by decide, by decide⟩
  have hline := Form.beginsCode_coloned hif test
  obtain ⟨rest, hrest⟩ := q.prefix_written raws
  rw [hout, Array.toList_push, Array.toList_push, List.append_assoc, List.append_assoc] at hrest
  have hsize : q.emitter.out.size - 2 = lines.toList.length := by
    rw [hout, Array.size_push, Array.size_push, Array.length_toList]
    rfl
  have hdeep : depth * q.emitter.width < (depth + 1) * q.emitter.width :=
    Nat.mul_lt_mul_of_pos_right (Nat.lt_succ_self depth) hwidth
  have hbreak : isRemark "break".toList = false := by decide
  refine ⟨_, by rw [← hrest, hsize, List.getElem?_append_right (Nat.le_refl _), Nat.sub_self]; rfl, Deeper.filled ?_⟩
  rw [indentOf_replicate_append _ hline.head?_ne, ← hrest, hsize, List.drop_length_add_append]
  exact (deeper_singleton hdeep hbreak).append_right rest

theorem filled_behind_header {q : Progress} (htarget : q.emitter.target = .python) (hwidth : 0 < q.emitter.width)
    {raws : List (List Char)} (h : (0 < q.emitter.depth && q.bodied raws) = true) {lines : Array (List Char)}
    {line : List Char} (hline : Form.BeginsCode line)
    (hout : q.emitter.out = lines.push (List.replicate ((q.emitter.depth - 1) * q.emitter.width) ' ' ++ line)) :
    ∃ header, (q.written raws)[q.emitter.out.size - 1]? = some header ∧
      Filled header ((q.written raws).drop (q.emitter.out.size - 1 + 1)) := by
  rw [Bool.and_eq_true, decide_eq_true_eq] at h
  obtain ⟨added, hwritten, deeper⟩ := deeper_written htarget h.1 hwidth h.2
  rw [hout, Array.toList_push] at hwritten
  have hsize : q.emitter.out.size - 1 = lines.toList.length := by
    rw [hout, Array.size_push, Array.length_toList, Nat.add_sub_cancel]
  refine ⟨_, by rw [hwritten, hsize, List.append_assoc, List.getElem?_append_right (Nat.le_refl _), Nat.sub_self]; rfl,
    Deeper.filled ?_⟩
  rw [indentOf_replicate_append _ hline.head?_ne, hwritten, hsize]
  have hdrop : (lines.toList ++ [List.replicate ((q.emitter.depth - 1) * q.emitter.width) ' ' ++ line] ++ added).drop
      (lines.toList.length + 1) = added := by
    rw [List.drop_append_of_le_length (by simp), List.drop_of_length_le (by simp), List.nil_append]
  rwa [hdrop]

end Progress

end Generation

/-! ## Headers -/

namespace Emitter

open Generation

variable {e : Emitter}

theorem exists_header_opens (htarget : e.target = .python) {code : List Char} {kind : BlockKind}
    (h : FrameStep.headerKind .python kind code ≠ .group) (style : BlockStyle) (indent : Nat) :
    ∃ line, Form.BeginsCode line ∧
      (e.opens code kind style indent).2.out = e.out.push (List.replicate (e.depth * e.width) ' ' ++ line) ∧
      (e.opens code kind style indent).2.depth = e.depth + 1 := by
  unfold FrameStep.headerKind at h
  unfold opens
  rw [htarget]
  dsimp only at h ⊢
  split
  · next hopens => exact absurd (if_pos (.inl hopens)) h
  · next hnone _ => exact absurd (if_pos (.inr (by rw [hnone]; rfl))) h
  · next line hline _ =>
    exact ⟨line, Form.beginsCode_header hline, rfl, depth_header (e.declare _) line _ kind style indent⟩

theorem exists_header_carryOn (htarget : e.target = .python) {code : List Char} (h : (e.carryOn code).1 = true) :
    ∃ line, ∃ lines : Array (List Char), Form.BeginsCode line ∧
      (e.carryOn code).2.out = lines.push (List.replicate ((e.depth - 1) * e.width) ' ' ++ line) ∧
      (e.carryOn code).2.depth = e.depth := by
  have hdepth : (e.carryOn code).2.depth = e.depth := by
    rw [depth_eq_blocks, depth_eq_blocks, (e.carryOn_keeps code).1]
  cases hline : Form.continuation e.target (Continuation.ofCode code) with
  | none =>
    unfold carryOn at h
    rw [hline] at h
    cases h
  | some line =>
    cases hs : e.stack with
    | nil =>
      unfold carryOn at h
      rw [hline, hs] at h
      cases h
    | cons f fs =>
      have hbegins := Form.beginsCode_continuation (htarget ▸ hline)
      obtain ⟨d, hcarried, hwidth⟩ : ∃ d, (e.carryOn code).2 = emitAt d (e.depth - 1) line ∧ d.width = e.width :=
        ⟨_, carryOn_of_cons hline hs, by split <;> rfl⟩
      exact ⟨line, d.out, hbegins, by rw [hcarried, emitAt, emit, hwidth], hdepth⟩

/-- In Python the test of a loop is a block of its own. -/
theorem exists_test_close (htarget : e.target = .python) (kind : Option BlockKind) {code : List Char}
    (h : ((untilTest? code).isSome && FrameStep.hasLoop e.stack) = true) :
    ∃ lines : Array (List Char), ∃ depth test, (e.close kind code).out =
      (lines.push (List.replicate (depth * e.width) ' ' ++ Form.coloned "if" test)).push
        (List.replicate ((depth + 1) * e.width) ' ' ++ "break".toList) := by
  obtain ⟨htest, hloop⟩ := Bool.and_eq_true_iff.1 h
  obtain ⟨test, htest⟩ := Option.isSome_iff_exists.1 htest
  obtain ⟨i, hi⟩ := exists_loop hloop
  rw [close_of_loop kind htest hi, popUntil_python ((target_popMany i e).trans htarget)]
  exact ⟨(popMany i e).out, (popMany i e).depth, Expression.renderCondition .python test, by simp [emitAt, emit]⟩

end Emitter

namespace Generation

namespace Progress

open Emitter

theorem filled_headerAt {p : Progress} (htarget : p.emitter.target = .python) (hwidth : 0 < p.emitter.width)
    {raw : List Char} {raws : List (List Char)} {k : Nat} (hk : p.headerAt? raw = some k)
    (h : p.bodiedBehind raw raws = true) :
    ∃ header, (p.written (raw :: raws))[k]? = some header ∧ Filled header ((p.written (raw :: raws)).drop (k + 1)) := by
  have hfeed := p.emitter_feed raw
  have htarget' : (p.feed raw).emitter.target = .python := (p.extends_feed raw).target.trans htarget
  have hwidth' : 0 < (p.feed raw).emitter.width := by rwa [(p.extends_feed raw).width]
  have hd (continuation : Bool) :
      (p.emitter.dedent (p.scanner.feed raw).1.indent continuation).target = .python ∧
        (p.emitter.dedent (p.scanner.feed raw).1.indent continuation).width = (p.feed raw).emitter.width :=
    ⟨(target_dedent _ _ _).trans htarget, (width_popMany _ _).trans (p.extends_feed raw).width.symm⟩
  rw [written_cons]
  unfold headerAt? at hk
  unfold bodiedBehind at h
  dsimp only at hk
  split at hk
  · cases hk
  · next hmute =>
    rw [Bool.or_eq_true, not_or] at hmute
    rw [if_neg hmute.1, if_neg hmute.2] at hfeed
    cases p.emitter.lineCase (p.scanner.feed raw).1 raw with
    | comment hempty heq =>
      rw [LineShape.ofLine_of_trim_eq_nil hempty] at hk
      cases hk
    | plain hshape _ heq =>
      rw [hshape] at hk
      cases hk
    | continues style hshape heq =>
      -- the header is the last line so far, one level above the depth behind it
      rw [hshape] at hk h
      obtain ⟨hknown, hk⟩ := Option.ite_none_right_eq_some.1 hk
      cases hk
      obtain ⟨line, lines, hline, hout, hdepth⟩ := exists_header_carryOn (hd true).1 hknown
      rw [heq] at hfeed
      rw [← hfeed, (hd true).2] at hout
      rw [← hfeed] at hdepth
      rw [← hdepth] at hout
      exact filled_behind_header htarget' hwidth' h hline hout
    | opens kind style hshape heq =>
      rw [hshape] at hk h
      obtain ⟨hkind, hk⟩ := Option.ite_none_left_eq_some.1 hk
      cases hk
      rw [htarget] at hkind
      obtain ⟨line, hline, hout, hdepth⟩ :=
        exists_header_opens (hd false).1 hkind style (p.scanner.feed raw).1.indent
      rw [heq] at hfeed
      rw [← hfeed, (hd false).2, ← Nat.add_sub_cancel (n := Emitter.depth _) (m := 1)] at hout
      rw [← hfeed] at hdepth
      rw [← hdepth] at hout
      exact filled_behind_header htarget' hwidth' h hline hout
    | closes kind style hshape heq =>
      rw [hshape] at hk
      obtain ⟨htest, hk⟩ := Option.ite_none_right_eq_some.1 hk
      cases hk
      obtain ⟨lines, depth, test, hout⟩ := exists_test_close (hd false).1 kind htest
      have hclose : (p.feed raw).emitter = (p.emitter.dedent (p.scanner.feed raw).1.indent false).close kind
          (FrameStep.codeOf (p.scanner.feed raw).1 raw) := by
        rw [hfeed, heq]
      rw [← hclose, (hd false).2] at hout
      exact filled_behind_test hwidth' hout

end Progress

/-- Behind each block header of the Python code there is a line of code that is deeper, before any that is not, if
its block gets a line of code before it ends or is carried on, or has no statement by then. -/
theorem filled_header (width : Nat) {source : List Char} {before after : List (List Char)} {raw : List Char}
    (hlines : Text.lines source = before ++ raw :: after) {k : Nat}
    (hk : (before.foldl Progress.feed (begin .python width {})).headerAt? raw = some k)
    (h : (before.foldl Progress.feed (begin .python width {})).bodiedBehind raw after = true) :
    ∃ header, ((begin .python width {}).written (Text.lines source))[k]? = some header ∧
      Filled header (((begin .python width {}).written (Text.lines source)).drop (k + 1)) := by
  have hext := (begin .python width {}).extends_foldl before
  have hwidth : 0 < (before.foldl Progress.feed (begin .python width {})).emitter.width := by
    rw [hext.width]
    exact Nat.le_max_right width 1
  rw [hlines, Progress.written_append]
  exact Progress.filled_headerAt hext.target hwidth hk h

/-- A branch that begins with a comment, and one that has no statement. -/
theorem filled_else :
    Text.lines "IF x THEN\n# c\na = 1\nELSE\nEND IF\n".toList =
        ["IF x THEN".toList, "# c".toList, "a = 1".toList] ++ "ELSE".toList :: ["END IF".toList] ∧
      ∃ header, ((begin .python 4 {}).written
          (Text.lines "IF x THEN\n# c\na = 1\nELSE\nEND IF\n".toList))[3]? = some header ∧
        Filled header (((begin .python 4 {}).written
          (Text.lines "IF x THEN\n# c\na = 1\nELSE\nEND IF\n".toList)).drop 4) := by
  have hlines : Text.lines "IF x THEN\n# c\na = 1\nELSE\nEND IF\n".toList =
      ["IF x THEN".toList, "# c".toList, "a = 1".toList] ++ "ELSE".toList :: ["END IF".toList] := by
    decide +kernel
  exact ⟨hlines, filled_header 4 hlines (by decide +kernel) (by decide +kernel)⟩

/-- A block with nothing but a comment in it. -/
theorem comment_is_no_body :
    (begin .python 4 {}).headerAt? "IF x THEN".toList = some 0 ∧
      ∃ header ∈ ((begin .python 4 {}).written (Text.lines "IF x THEN\n# c\nEND IF\n".toList))[0]?,
        ¬ Filled header (((begin .python 4 {}).written (Text.lines "IF x THEN\n# c\nEND IF\n".toList)).drop 1) := by
  decide +kernel

end Generation

end Pseudoscribe
