import Pseudoscribe.Number.Total
import Pseudoscribe.Proofs.Block.Forest

/-!
# How deep a line lies

How many blocks of an outline a line is inside of is settled by the next line that counts, which may be the line
itself: it is inside of the blocks that are open, less those that had their last line before.  No later line
changes that, because a block that ends later has the line within.
-/

namespace Pseudoscribe

namespace Block

theorem forestDepthAt_append (line : Nat) (xs ys : List Block) :
    forestDepthAt line (xs ++ ys) = forestDepthAt line xs + forestDepthAt line ys := by
  induction xs with
  | nil => rw [List.nil_append, forestDepthAt, Nat.zero_add]
  | cons b bs ih => rw [List.cons_append, forestDepthAt, forestDepthAt, ih, Nat.add_assoc]

mutual

/-- A line behind a block is not inside of it. -/
theorem Within.depthAt_eq_zero {lo line : Nat} :
    ∀ {b : Block}, b.Within lo → b.endLine < line → b.depthAt line = 0
  | ⟨_, _, _, startLine, endLine, _, children⟩, h, hline => by
    rw [Within] at h
    have hout : ¬line ≤ endLine := Nat.not_le.2 hline
    rw [depthAt, h.2.depthAt_eq_zero hline, if_neg (by simp [isInside, hout])]

/-- A line behind a forest is inside of none of its blocks. -/
theorem ForestWithin.depthAt_eq_zero {lo hi line : Nat} :
    ∀ {bs : List Block}, ForestWithin lo hi bs → hi < line → forestDepthAt line bs = 0
  | [], _, _ => by rw [forestDepthAt]
  | _ :: _, h, hline => by
    rw [ForestWithin] at h
    have hle := h.2.le
    rw [forestDepthAt, h.1.depthAt_eq_zero (by omega), h.2.depthAt_eq_zero hline]

end

end Block

open Block

/-- How many blocks a line is inside of, this open block and the blocks in it, unless the block ends before. -/
def OpenBlock.depthAt (line : Nat) (o : OpenBlock) : Nat :=
  (if o.startLine < line then 1 else 0) + forestDepthAt line o.children

theorem OpenBlock.depthAt_close {line endLine : Nat} (o : OpenBlock) (closed : Bool) (h : line ≤ endLine) :
    forestDepthAt line [o.close endLine closed] = o.depthAt line := by
  have hinside : (line ≤ max endLine o.startLine) := Nat.le_trans h (Nat.le_max_left _ _)
  simp [forestDepthAt, Block.depthAt, OpenBlock.close, OpenBlock.depthAt, isInside, hinside]

namespace Nesting

/-- How many blocks a line is inside of, unless an open block ends before the line. -/
def depthAt (n : Nesting) (line : Nat) : Nat :=
  forestDepthAt line n.roots + total (n.stack.map (·.depthAt line))

theorem Layered.depthAt {roots : List Block} {hi line : Nat} {stack : List OpenBlock}
    (h : Layered roots hi stack) (hline : hi < line) :
    forestDepthAt line roots + total (stack.map (·.depthAt line)) = stack.length := by
  induction stack generalizing hi with
  | nil =>
    rw [ForestWithin.depthAt_eq_zero h hline]
    rfl
  | cons o outer ih =>
    obtain ⟨hpos, hin, hout⟩ := h
    have hle := hin.le
    have hrest := ih hout (by omega)
    rw [List.map_cons, total_cons, List.length_cons, OpenBlock.depthAt, hin.depthAt_eq_zero hline,
      if_pos (by omega)]
    omega

/-- The line that is read next is inside of all open blocks. -/
theorem Ordered.depthAt {n : Nesting} (h : n.Ordered) {line : Nat} (hline : n.lastCode < line) :
    n.depthAt line = n.stack.length :=
  Layered.depthAt h hline

/-- A block that does not end before the line leaves it as deep as it is. -/
theorem depthAt_pop {n : Nesting} {line endLine : Nat} (closed : Bool) (h : line ≤ endLine) :
    (n.pop endLine closed).depthAt line = n.depthAt line := by
  obtain ⟨stack, roots, issues, lastCode⟩ := n
  match stack with
  | [] => rfl
  | [o] =>
    have hclose := o.depthAt_close closed h
    simp only [pop, depthAt, forestDepthAt_append, hclose, List.map_cons, List.map_nil, total_cons,
      total_nil, Nat.add_zero]
  | o :: parent :: rest =>
    have hclose := o.depthAt_close closed h
    simp only [pop, depthAt, OpenBlock.depthAt, forestDepthAt_append, hclose, List.map_cons, total_cons]
    omega

theorem depthAt_popMany {line : Nat} (complain : OpenBlock → Option Issue) (count : Nat) {n : Nesting}
    (h : line ≤ n.lastCode) : (popMany complain count n).depthAt line = n.depthAt line := by
  fun_induction popMany complain count n with
  | case1 => rfl
  | case2 => rfl
  | case3 count n o rest hs noted ih =>
    have hn : noted.depthAt line = n.depthAt line ∧ noted.lastCode = n.lastCode := by
      dsimp only [noted]
      split <;> exact ⟨rfl, rfl⟩
    rw [ih (by rw [lastCode_pop, hn.2]; exact h), depthAt_pop _ h, hn.1]

/-- How many blocks a closer passes on the way to the one that it closes. -/
def passedBy (n : Nesting) (shape : LineShape) : Nat :=
  match shape with
  | .closes kind style => (n.stack.findIdx? (·.fits kind style)).getD 0
  | _ => 0

/-- A line up to the one that is read now is inside of the open blocks, less those that a closer passes. -/
theorem depthAt_enter {n : Nesting} (h : n.Ordered) {line : Nat} (hline : n.lastCode < line)
    {now : ScannedLine} (hnow : line ≤ now.number) (raw : List Char) (shape : LineShape) :
    (n.enter now raw shape).depthAt line + n.passedBy shape = n.stack.length := by
  have hall := h.depthAt hline
  cases shape with
  | plain => exact hall
  | continues => exact hall
  | opens kind style =>
    simp only [enter, depthAt, List.map_cons, total_cons, OpenBlock.depthAt, Nat.not_lt.2 hnow, if_false,
      forestDepthAt, Nat.zero_add]
    exact hall
  | closes kind style =>
    unfold enter close passedBy
    dsimp only
    split
    · next hnone =>
      rw [hnone]
      exact hall
    · next above hsome =>
      obtain ⟨habove, -⟩ := List.findIdx?_eq_some_iff_getElem.1 hsome
      rw [hsome, depthAt_pop _ hnow, Option.getD_some, (h.popMany _ _).depthAt
        (by rwa [lastCode_popMany]), length_stack_popMany]
      omega

theorem depthAt_enter_later {n : Nesting} {line : Nat} (h : line ≤ n.lastCode) {next : ScannedLine}
    (raw : List Char) (shape : LineShape) (hnext : line < next.number) :
    (n.enter next raw shape).depthAt line = n.depthAt line := by
  cases shape with
  | plain => rfl
  | continues => rfl
  | opens kind style =>
    simp only [enter, depthAt, List.map_cons, total_cons, OpenBlock.depthAt, forestDepthAt]
    rw [if_neg (by omega)]
    omega
  | closes kind style =>
    unfold enter close
    dsimp only
    split
    · rfl
    · rw [depthAt_pop _ (Nat.le_of_lt hnext), depthAt_popMany _ _ h]

theorem depthAt_feed_later {n : Nesting} {line : Nat} (h : line ≤ n.lastCode) {next : ScannedLine}
    (raw : List Char) (hnext : line < next.number) :
    (n.feed next raw).depthAt line = n.depthAt line ∧ line ≤ (n.feed next raw).lastCode := by
  unfold feed
  split
  · exact ⟨rfl, Nat.le_of_lt hnext⟩
  · split
    · exact ⟨rfl, h⟩
    · have hdedent : (n.dedent next.indent (LineShape.ofLine next.masked).isContinuation).depthAt line =
          n.depthAt line := depthAt_popMany _ _ h
      rw [← hdedent]
      exact ⟨depthAt_enter_later (by rwa [dedent, lastCode_popMany]) raw _ hnext, Nat.le_of_lt hnext⟩

theorem depthAt_feedAll_later {n : Nesting} {line : Nat} (h : line ≤ n.lastCode)
    {lines : List (ScannedLine × List Char)} (hlines : ∀ l ∈ lines, line < l.1.number) :
    (n.feedAll lines).depthAt line = n.depthAt line ∧ line ≤ (n.feedAll lines).lastCode := by
  induction lines generalizing n with
  | nil => exact ⟨rfl, h⟩
  | cons l lines ih =>
    obtain ⟨hl, hlines⟩ := List.forall_mem_cons.1 hlines
    obtain ⟨hdepth, hlast⟩ := depthAt_feed_later h l.2 hl
    obtain ⟨hrest, hall⟩ := ih hlast hlines
    exact ⟨hrest.trans hdepth, hall⟩

theorem depthAt_finish {n : Nesting} {line : Nat} (h : line ≤ n.lastCode) :
    forestDepthAt line n.finish.roots = n.depthAt line := by
  have hlen := length_stack_popMany (leftOpen n.lastCode) n.stack.length n
  rw [Nat.sub_self] at hlen
  have hdepth := depthAt_popMany (leftOpen n.lastCode) n.stack.length h
  rwa [depthAt, List.eq_nil_of_length_eq_zero hlen, List.map_nil, total_nil, Nat.add_zero] at hdepth

/-- The blocks that a line's indentation leaves open. -/
def around (n : Nesting) (line : ScannedLine) : Nesting :=
  n.dedent line.indent (LineShape.ofLine line.masked).isContinuation

theorem feed_code {n : Nesting} {line : ScannedLine} (raw : List Char) (hcode : line.startsInLiteral = false)
    (hblank : line.isBlank = false) : n.feed line raw =
      { (n.around line).enter line raw (LineShape.ofLine line.masked) with lastCode := line.number } := by
  rw [feed, hcode, hblank, if_neg Bool.false_ne_true, if_neg Bool.false_ne_true]
  rfl

/-- How many of the open blocks have had their last line, when these lines follow: the next line of code ends
them by its indentation, or its closer passes them.  A line inside of a literal ends none, and the end of the
text ends them all. -/
def spent (n : Nesting) : List (ScannedLine × List Char) → Nat
  | [] => n.stack.length
  | (line, _) :: rest =>
    if line.startsInLiteral then 0
    else if line.isBlank then n.spent rest
    else
      (n.stack.takeWhile (·.endsAt line.indent (LineShape.ofLine line.masked).isContinuation)).length +
        (n.around line).passedBy (LineShape.ofLine line.masked)

/-- At a line of code the blocks have had their last line that its indentation ends or its closer passes. -/
theorem spent_code (n : Nesting) {line : ScannedLine} (hcode : line.startsInLiteral = false)
    (hblank : line.isBlank = false) (raw : List Char) (rest : List (ScannedLine × List Char)) :
    n.spent ((line, raw) :: rest) + (n.around line).stack.length =
      n.stack.length + (n.around line).passedBy (LineShape.ofLine line.masked) := by
  have haround : (n.around line).stack.length = n.stack.length -
      (n.stack.takeWhile (·.endsAt line.indent (LineShape.ofLine line.masked).isContinuation)).length :=
    length_stack_popMany _ _ _
  have hle := (List.takeWhile_sublist (·.endsAt line.indent (LineShape.ofLine line.masked).isContinuation)
    (l := n.stack)).length_le
  rw [spent, if_neg (Bool.eq_false_iff.1 hcode), if_neg (Bool.eq_false_iff.1 hblank)]
  omega

/-- A line that counts settles how deep the lines lie that no line before it has settled. -/
theorem depthAt_feed {n : Nesting} (h : n.Ordered) {line : Nat} (hline : n.lastCode < line) {now : ScannedLine}
    (hnow : line ≤ now.number) (raw : List Char) (hcounts : now.isBlank = false)
    (rest : List (ScannedLine × List Char)) :
    (n.feed now raw).lastCode = now.number ∧
      (n.feed now raw).depthAt line + n.spent ((now, raw) :: rest) = n.stack.length := by
  cases hcode : now.startsInLiteral with
  | true =>
    have hfeed : n.feed now raw = { n with lastCode := now.number } := if_pos hcode
    rw [spent, if_pos hcode, hfeed]
    exact ⟨rfl, h.depthAt hline⟩
  | false =>
    have hspent := n.spent_code hcode hcounts raw rest
    have hentered : ((n.around now).enter now raw (LineShape.ofLine now.masked)).depthAt line +
        (n.around now).passedBy (LineShape.ofLine now.masked) = (n.around now).stack.length :=
      depthAt_enter (h.popMany _ _) (by rwa [lastCode_popMany]) hnow raw _
    rw [feed_code raw hcode hcounts]
    refine ⟨rfl, ?_⟩
    change ((n.around now).enter now raw (LineShape.ofLine now.masked)).depthAt line + _ = _
    omega

/-- A line behind the last line that counts is inside of the open blocks that have not had their last line. -/
theorem depthAt_feedAll {n : Nesting} (h : n.Ordered) {line first : Nat} (hline : n.lastCode < line)
    (hfirst : line ≤ first) {rest : List (ScannedLine × List Char)}
    (hrest : rest.map (·.1.number) = List.range' first rest.length) :
    forestDepthAt line ((n.feedAll rest).finish.roots) + n.spent rest = n.stack.length := by
  induction rest generalizing first with
  | nil => exact (congrArg (· + n.stack.length) (h.finish.depthAt_eq_zero hline)).trans (Nat.zero_add _)
  | cons l rest ih =>
    obtain ⟨now, raw⟩ := l
    rw [List.map_cons, List.length_cons, List.range'_succ] at hrest
    obtain ⟨rfl, hrest⟩ := List.cons.inj hrest
    change forestDepthAt line (((n.feed now raw).feedAll rest).finish.roots) + _ = _
    cases hblank : now.isBlank with
    | true =>
      have hcode : ¬now.startsInLiteral = true := by
        rw [ScannedLine.isBlank, Bool.and_eq_true, Bool.not_eq_true'] at hblank
        exact Bool.eq_false_iff.1 hblank.1
      rw [feed, spent, if_neg hcode, if_neg hcode, if_pos hblank, if_pos hblank]
      exact ih (Nat.le_succ_of_le hfirst) hrest
    | false =>
      have hlater : ∀ l ∈ rest, line < l.1.number := by
        intro l hl
        have hmem := List.mem_map_of_mem (f := (·.1.number)) hl
        rw [hrest, List.mem_range'_1] at hmem
        omega
      obtain ⟨hlast, hdepth⟩ := depthAt_feed h hline hfirst raw hblank rest
      obtain ⟨hsame, hall⟩ := depthAt_feedAll_later (hlast ▸ hfirst) hlater
      rw [depthAt_finish hall, hsame, hdepth]

end Nesting

end Pseudoscribe
