import Pseudoscribe.Block.Nesting
import Pseudoscribe.Proofs.Scan.Alike

/-!
# The blocks of an outline form a forest of lines

Keyword blocks, braces and indentation may be mixed and may be faulty in any way.  The blocks that are read
off a text still lie one after the other, each behind the header of the block around it and within
its end.  The invariant speaks about the blocks that are still open: what has ended inside of an open block
lies before the header of the next block that is open inside of it.

Which blocks are open behind a line depends on the heads of the open blocks, not on what is inside of them.  Blocks
that are ended one after the other are the innermost ones, and what is noted about them is noted about their heads.
-/

namespace Pseudoscribe

/-! ## Forests -/

namespace Block

mutual

/-- The block begins behind the line `lo`, and the blocks inside lie between its header and its end. -/
def Within (lo : Nat) : Block → Prop
  | ⟨_, _, _, startLine, endLine, _, children⟩ =>
    lo < startLine ∧ ForestWithin startLine endLine children

/-- The blocks lie one after the other, behind the line `lo` and up to the line `hi`. -/
def ForestWithin (lo hi : Nat) : List Block → Prop
  | [] => lo ≤ hi
  | b :: bs => Within lo b ∧ ForestWithin b.endLine hi bs

end

mutual

theorem Within.lt_endLine {lo : Nat} : ∀ {b : Block}, b.Within lo → lo < b.endLine
  | ⟨_, _, _, _, _, _, _⟩, h => by
    rw [Within] at h
    exact Nat.lt_of_lt_of_le h.1 h.2.le

theorem ForestWithin.le {lo hi : Nat} : ∀ {bs : List Block}, ForestWithin lo hi bs → lo ≤ hi
  | [], h => by rwa [ForestWithin] at h
  | _ :: _, h => by
    rw [ForestWithin] at h
    exact Nat.le_trans (Nat.le_of_lt h.1.lt_endLine) h.2.le

end

theorem Within.startLine {lo : Nat} {b : Block} (h : b.Within lo) :
    lo < b.startLine ∧ b.startLine ≤ b.endLine := by
  obtain ⟨_, _, _, startLine, endLine, _, children⟩ := b
  rw [Within] at h
  exact ⟨h.1, h.2.le⟩

theorem Within.mono {lo lo' : Nat} {b : Block} (h : b.Within lo) (hlo : lo' ≤ lo) :
    b.Within lo' := by
  obtain ⟨_, _, _, startLine, endLine, _, children⟩ := b
  rw [Within] at h ⊢
  exact ⟨Nat.lt_of_le_of_lt hlo h.1, h.2⟩

theorem ForestWithin.mono_left {lo lo' hi : Nat} {bs : List Block} (h : ForestWithin lo hi bs)
    (hlo : lo' ≤ lo) : ForestWithin lo' hi bs := by
  cases bs with
  | nil =>
    rw [ForestWithin] at h ⊢
    omega
  | cons b bs =>
    rw [ForestWithin] at h ⊢
    exact ⟨h.1.mono hlo, h.2⟩

theorem ForestWithin.append {lo mid hi : Nat} {xs ys : List Block} (hx : ForestWithin lo mid xs)
    (hy : ForestWithin mid hi ys) : ForestWithin lo hi (xs ++ ys) := by
  induction xs generalizing lo with
  | nil => exact hy.mono_left hx.le
  | cons b bs ih =>
    rw [ForestWithin] at hx
    rw [List.cons_append, ForestWithin]
    exact ⟨hx.1, ih hx.2⟩

theorem ForestWithin.mono_right {lo hi hi' : Nat} {bs : List Block} (h : ForestWithin lo hi bs)
    (hhi : hi ≤ hi') : ForestWithin lo hi' bs := by
  rw [← List.append_nil bs]
  refine h.append ?_
  rwa [ForestWithin]

end Block

open Block

/-! ## Open blocks -/

/-- An open block without the blocks inside of it. -/
def OpenBlock.head (o : OpenBlock) : OpenBlock := { o with children := [] }

namespace Nesting

/-- The open blocks, innermost first, and the blocks that have ended lie in order up to the line `hi`. -/
def Layered (roots : List Block) : Nat → List OpenBlock → Prop
  | hi, [] => ForestWithin 0 hi roots
  | hi, o :: outer =>
    0 < o.startLine ∧ ForestWithin o.startLine hi o.children ∧ Layered roots (o.startLine - 1) outer

/-- The blocks of a nesting lie in order up to the last line of code. -/
def Ordered (n : Nesting) : Prop := Layered n.roots n.lastCode n.stack

theorem Layered.mono {roots : List Block} {hi hi' : Nat} {stack : List OpenBlock}
    (h : Layered roots hi stack) (hhi : hi ≤ hi') : Layered roots hi' stack := by
  cases stack with
  | nil => exact ForestWithin.mono_right h hhi
  | cons o outer => exact ⟨h.1, h.2.1.mono_right hhi, h.2.2⟩

theorem forestWithin_close {o : OpenBlock} {hi : Nat} (closed : Bool) (hpos : 0 < o.startLine)
    (h : ForestWithin o.startLine hi o.children) :
    ForestWithin (o.startLine - 1) hi [o.close hi closed] := by
  have hle := h.le
  simp only [OpenBlock.close, ForestWithin, Within, Nat.max_eq_left hle]
  exact ⟨⟨by omega, h⟩, Nat.le_refl hi⟩

theorem layered_pop {n : Nesting} {hi : Nat} (closed : Bool) (h : Layered n.roots hi n.stack) :
    Layered (n.pop hi closed).roots hi (n.pop hi closed).stack := by
  obtain ⟨stack, roots, issues, lastCode⟩ := n
  -- a block that ends becomes the last one of the block around it, or of the roots
  match stack, h with
  | [], h => exact h
  | [o], ⟨hpos, hin, hout⟩ => exact ForestWithin.append hout (forestWithin_close closed hpos hin)
  | o :: parent :: rest, ⟨hpos, hin, ppos, pin, pout⟩ =>
    exact ⟨ppos, pin.append (forestWithin_close closed hpos hin), pout⟩

@[simp]
theorem lastCode_pop (n : Nesting) (endLine : Nat) (closed : Bool) :
    (n.pop endLine closed).lastCode = n.lastCode := by
  unfold pop
  split <;> rfl

theorem length_stack_pop (n : Nesting) (endLine : Nat) (closed : Bool) :
    (n.pop endLine closed).stack.length = n.stack.length - 1 := by
  unfold pop
  split <;> simp [*]

@[simp]
theorem lastCode_popMany (complain : OpenBlock → Option Issue) (count : Nat) (n : Nesting) :
    (popMany complain count n).lastCode = n.lastCode := by
  fun_induction popMany complain count n with
  | case1 => rfl
  | case2 => rfl
  | case3 count n o rest hs noted ih =>
    rw [ih, lastCode_pop]
    dsimp only [noted]
    split <;> rfl

theorem length_stack_popMany (complain : OpenBlock → Option Issue) (count : Nat) (n : Nesting) :
    (popMany complain count n).stack.length = n.stack.length - count := by
  fun_induction popMany complain count n with
  | case1 => rfl
  | case2 n count hs => simp [hs]
  | case3 count n o rest hs noted ih =>
    have hn : noted.stack = n.stack := by
      dsimp only [noted]
      split <;> rfl
    rw [ih, length_stack_pop, hn]
    omega

theorem Ordered.popMany {n : Nesting} (h : n.Ordered) (complain : OpenBlock → Option Issue)
    (count : Nat) : (popMany complain count n).Ordered := by
  fun_induction Nesting.popMany complain count n with
  | case1 => exact h
  | case2 => exact h
  | case3 count n o rest hs noted ih =>
    -- the invariant does not ask for the issues that are noted
    refine ih ?_
    have hn : noted.Ordered ∧ noted.lastCode = n.lastCode := by
      dsimp only [noted]
      split <;> exact ⟨h, rfl⟩
    unfold Ordered
    rw [lastCode_pop, hn.2]
    exact layered_pop _ (hn.2 ▸ hn.1)

/-! ## Heads of open blocks -/

/-- The heads of the open blocks, innermost first. -/
def heads (n : Nesting) : List OpenBlock := n.stack.map OpenBlock.head

theorem heads_pop (n : Nesting) (endLine : Nat) (closed : Bool) :
    (n.pop endLine closed).heads = n.heads.tail := by
  obtain ⟨stack, roots, issues, lastCode⟩ := n
  match stack with
  | [] => rfl
  | [_] => rfl
  | _ :: _ :: _ => rfl

theorem issues_pop (n : Nesting) (endLine : Nat) (closed : Bool) :
    (n.pop endLine closed).issues = n.issues := by
  unfold pop
  split <;> rfl

theorem heads_popMany (complain : OpenBlock → Option Issue) (count : Nat) (n : Nesting) :
    (popMany complain count n).heads = n.heads.drop count := by
  fun_induction popMany complain count n with
  | case1 => rfl
  | case2 n count hs => rw [heads, hs, List.map_nil, List.drop_nil]
  | case3 count n o rest hs noted ih =>
    have hn : noted.heads = n.heads := by
      dsimp only [noted]
      split <;> rfl
    rw [ih, heads_pop, hn, List.drop_tail]

theorem length_takeWhile_heads (n : Nesting) (indent : Nat) (continuation : Bool) :
    (n.stack.takeWhile (·.endsAt indent continuation)).length =
      (n.heads.takeWhile (·.endsAt indent continuation)).length := by
  rw [heads, List.takeWhile_map, List.length_map]
  rfl

theorem heads_dedent (n : Nesting) (indent : Nat) (continuation : Bool) :
    (n.dedent indent continuation).heads = n.heads.dropWhile (·.endsAt indent continuation) := by
  have hsplit := List.takeWhile_append_dropWhile (p := (·.endsAt indent continuation)) (l := n.heads)
  rw [dedent, heads_popMany, length_takeWhile_heads]
  exact (congrArg _ hsplit.symm).trans List.drop_left

theorem findIdx?_heads (n : Nesting) (kind : Option BlockKind) (style : BlockStyle) :
    n.heads.findIdx? (·.fits kind style) = n.stack.findIdx? (·.fits kind style) := by
  rw [heads, List.findIdx?_map]
  rfl

theorem issues_popMany {complain : OpenBlock → Option Issue} (hc : ∀ o, complain o.head = complain o) (count : Nat)
    (n : Nesting) :
    (popMany complain count n).issues.toList = n.issues.toList ++ (n.heads.take count).filterMap complain := by
  fun_induction popMany complain count n with
  | case1 n => simp
  | case2 n count hs => simp [heads, hs]
  | case3 count n o rest hs noted ih =>
    have hheads : n.heads = o.head :: rest.map OpenBlock.head := by rw [heads, hs, List.map_cons]
    have hnoted : noted.heads = n.heads ∧ noted.issues.toList = n.issues.toList ++ (complain o).toList := by
      dsimp only [noted]
      cases complain o with
      | none => exact ⟨rfl, (List.append_nil _).symm⟩
      | some i => exact ⟨rfl, Array.toList_push⟩
    rw [ih, issues_pop, heads_pop, hnoted.1, hnoted.2, hheads, List.tail_cons, List.take_succ_cons, List.append_assoc]
    congr 1
    rw [List.filterMap_cons, hc]
    cases complain o <;> rfl

/-! ## Reading lines -/

theorem layered_closer {n : Nesting} (h : n.Ordered) {line : Nat} (hline : n.lastCode ≤ line)
    (kind : Option BlockKind) (style : BlockStyle) :
    Layered (n.close line kind style).roots line (n.close line kind style).stack := by
  unfold close
  split
  · exact h.mono hline
  · refine layered_pop true ((h.popMany _ _).mono ?_)
    rwa [lastCode_popMany]

theorem layered_enter {n : Nesting} (h : n.Ordered) (line : ScannedLine) (raw : List Char)
    (shape : LineShape) (hline : n.lastCode < line.number) :
    Layered (n.enter line raw shape).roots line.number (n.enter line raw shape).stack := by
  have hkeep : Layered n.roots line.number n.stack := h.mono (Nat.le_of_lt hline)
  cases shape with
  | plain => exact hkeep
  | continues => exact hkeep
  | opens kind style =>
    refine ⟨Nat.lt_of_le_of_lt (Nat.zero_le _) hline, ?_, h.mono (Nat.le_sub_one_of_lt hline)⟩
    exact Nat.le_refl line.number
  | closes kind style => exact layered_closer h (Nat.le_of_lt hline) kind style

theorem Ordered.feed {n : Nesting} (h : n.Ordered) (line : ScannedLine) (raw : List Char)
    (hline : n.lastCode < line.number) :
    (n.feed line raw).Ordered ∧ (n.feed line raw).lastCode ≤ line.number := by
  unfold Nesting.feed
  split
  · exact ⟨h.mono (Nat.le_of_lt hline), Nat.le_refl _⟩
  · split
    · exact ⟨h, Nat.le_of_lt hline⟩
    · refine ⟨layered_enter (h.popMany _ _) line raw _ ?_, Nat.le_refl _⟩
      rwa [lastCode_popMany]

theorem Ordered.feedAll {n : Nesting} {first : Nat} {lines : List (ScannedLine × List Char)}
    (h : n.Ordered) (hfirst : n.lastCode < first)
    (hlines : lines.map (fun l => l.1.number) = List.range' first lines.length) :
    (n.feedAll lines).Ordered ∧ (n.feedAll lines).lastCode < first + lines.length := by
  induction lines generalizing n first with
  | nil => exact ⟨h, hfirst⟩
  | cons l lines ih =>
    rw [List.map_cons, List.length_cons, List.range'_succ] at hlines
    obtain ⟨hl, hlines⟩ := List.cons.inj hlines
    obtain ⟨hn, hlast⟩ := h.feed l.1 l.2 (hl ▸ hfirst)
    obtain ⟨hall, hlt⟩ := ih hn (by omega) hlines
    refine ⟨hall, ?_⟩
    rw [List.length_cons]
    show (Nesting.feedAll (n.feed l.1 l.2) lines).lastCode < _
    omega

/-- The blocks of a text that was read up to some line lie in order. -/
theorem ordered_scanned (style : CommentStyle) (raws : List (List Char)) :
    (({} : Nesting).feedAll ((({ style } : Scanner).feedAll raws).1.zip raws)).Ordered ∧
      (({} : Nesting).feedAll ((({ style } : Scanner).feedAll raws).1.zip raws)).lastCode ≤ raws.length := by
  obtain ⟨hord, hlast⟩ := Ordered.feedAll (n := {}) (show ForestWithin 0 0 [] from Nat.le_refl 0)
    (Nat.lt_succ_self 0) (Scanner.numbers_zip_feedAll { style } raws)
  rw [List.length_zip, Scanner.length_feedAll, Nat.min_self] at hlast
  exact ⟨hord, by omega⟩

/-- At the end of a text every block has ended. -/
theorem Ordered.finish {n : Nesting} (h : n.Ordered) : ForestWithin 0 n.lastCode n.finish.roots := by
  have hlen := length_stack_popMany (leftOpen n.lastCode) n.stack.length n
  rw [Nat.sub_self] at hlen
  have hall := h.popMany (leftOpen n.lastCode) n.stack.length
  rw [Ordered, List.eq_nil_of_length_eq_zero hlen, lastCode_popMany] at hall
  exact hall

end Nesting

/-! ## Outlines -/

namespace Outline

theorem lineCount_ofText {text : List Char} {o : Outline} (h : (ofText text).1 = some o) :
    o.lineCount = (Text.pieces text).length := by
  unfold ofText at h
  split at h
  · cases h
  · cases h
    exact (length_scan .pseudocode text).trans (Text.length_lines text)

/-- The blocks of an outline form a forest within the lines of the text. -/
theorem forestWithin_ofText {text : List Char} {o : Outline} (h : (ofText text).1 = some o) :
    ForestWithin 0 o.lineCount o.blocks := by
  rw [lineCount_ofText h]
  unfold ofText at h
  split at h
  · cases h
  · cases h
    obtain ⟨hord, hlast⟩ := Nesting.ordered_scanned .pseudocode (Text.lines text)
    refine hord.finish.mono_right ?_
    rwa [← Text.length_lines]

end Outline

end Pseudoscribe
