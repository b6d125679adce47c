import Pseudoscribe.Block.Nesting
import Pseudoscribe.Proofs.Scan.Content

/-!
# Outlines with blurred headers

The header of a block is the only part of an outline that the letters of a line go into.  Blurring the headers
commutes with all that is done to the open blocks, so reading blurred lines gives the outline with blurred
headers, and texts that differ in the content of literals have the same blocks but for their headers.
-/

namespace Pseudoscribe

open Text

namespace Block

mutual

/-- A block whose headers are blurred, and those of the blocks inside. -/
def blurred : Block → Block
  | ⟨kind, style, header, startLine, endLine, closed, children⟩ =>
    ⟨kind, style, blurText header, startLine, endLine, closed, forestBlurred children⟩

/-- The same for a forest. -/
def forestBlurred : List Block → List Block
  | [] => []
  | b :: bs => blurred b :: forestBlurred bs

end

theorem forestBlurred_append (bs cs : List Block) :
    forestBlurred (bs ++ cs) = forestBlurred bs ++ forestBlurred cs := by
  induction bs with
  | nil => rfl
  | cons b bs ih => exact congrArg (b.blurred :: ·) ih

@[simp] theorem span_blurred (b : Block) : b.blurred.span = b.span := by
  cases b
  rfl

theorem spans_forestBlurred (bs : List Block) : (forestBlurred bs).map span = bs.map span := by
  induction bs with
  | nil => rfl
  | cons b bs ih => rw [forestBlurred, List.map_cons, List.map_cons, span_blurred, ih]

mutual

@[simp] theorem depthAt_blurred (line : Nat) : ∀ b : Block, b.blurred.depthAt line = b.depthAt line
  | ⟨kind, style, header, startLine, endLine, closed, children⟩ => by
    rw [blurred, depthAt, depthAt, forestDepthAt_blurred line children]
    rfl

@[simp] theorem forestDepthAt_blurred (line : Nat) :
    ∀ bs : List Block, forestDepthAt line (forestBlurred bs) = forestDepthAt line bs
  | [] => rfl
  | b :: bs => by
    rw [forestBlurred, forestDepthAt, forestDepthAt, depthAt_blurred line b, forestDepthAt_blurred line bs]

end

mutual

@[simp] theorem endsWithin_blurred (first last : Nat) :
    ∀ b : Block, b.blurred.endsWithin first last = b.endsWithin first last
  | ⟨kind, style, header, startLine, endLine, closed, children⟩ => by
    rw [blurred, endsWithin, endsWithin, forestEndsWithin_blurred first last children]

@[simp] theorem forestEndsWithin_blurred (first last : Nat) :
    ∀ bs : List Block, forestEndsWithin first last (forestBlurred bs) = forestEndsWithin first last bs
  | [] => rfl
  | b :: bs => by
    rw [forestBlurred, forestEndsWithin, forestEndsWithin, endsWithin_blurred first last b,
      forestEndsWithin_blurred first last bs]

end

end Block

/-- An open block whose headers are blurred, and those of the blocks inside. -/
def OpenBlock.blurred (o : OpenBlock) : OpenBlock :=
  { o with header := blurText o.header, children := Block.forestBlurred o.children }

theorem OpenBlock.close_blurred (o : OpenBlock) (endLine : Nat) (closed : Bool) :
    o.blurred.close endLine closed = (o.close endLine closed).blurred := rfl

namespace Nesting

/-- The same blocks with blurred headers. -/
def blurred (n : Nesting) : Nesting :=
  { n with stack := n.stack.map OpenBlock.blurred, roots := Block.forestBlurred n.roots }

/-- A complaint about a block that does not look at its header. -/
def HeaderFree (complain : OpenBlock → Option Issue) : Prop := ∀ o, complain o.blurred = complain o

theorem pop_blurred (n : Nesting) (endLine : Nat) (closed : Bool) :
    n.blurred.pop endLine closed = (n.pop endLine closed).blurred := by
  obtain ⟨stack, roots, issues, lastCode⟩ := n
  match stack with
  | [] => rfl
  | [o] =>
    have happend := Block.forestBlurred_append roots [o.close endLine closed]
    exact congrArg (fun bs => Nesting.mk [] bs issues lastCode) happend.symm
  | o :: parent :: rest =>
    have happend := Block.forestBlurred_append parent.children [o.close endLine closed]
    exact congrArg (fun bs => Nesting.mk ({ parent.blurred with children := bs } :: rest.map OpenBlock.blurred)
      (Block.forestBlurred roots) issues lastCode) happend.symm

theorem popMany_succ (complain : OpenBlock → Option Issue) (count : Nat) {n : Nesting} {o : OpenBlock}
    {rest : List OpenBlock} (hs : n.stack = o :: rest) :
    popMany complain (count + 1) n =
      popMany complain count (pop { n with issues := (complain o).elim n.issues n.issues.push }
        n.lastCode (o.style == .indent)) := by
  rw [popMany, hs]
  dsimp only
  cases complain o with
  | none => rw [Option.elim_none, ← hs]
  | some i => rw [Option.elim_some, ← hs]

theorem popMany_blurred {complain : OpenBlock → Option Issue} (hc : HeaderFree complain) (count : Nat)
    (n : Nesting) : popMany complain count n.blurred = (popMany complain count n).blurred := by
  induction count generalizing n with
  | zero => rfl
  | succ count ih =>
    cases hs : n.stack with
    | nil => simp only [popMany, blurred, hs, List.map_nil]
    | cons o rest =>
      have hstack : n.blurred.stack = o.blurred :: rest.map OpenBlock.blurred := by
        rw [blurred, hs, List.map_cons]
      rw [popMany_succ complain count hs, popMany_succ complain count hstack, hc o, ← ih, ← pop_blurred]
      rfl

theorem dedent_blurred (n : Nesting) (indent : Nat) (continuation : Bool) :
    n.blurred.dedent indent continuation = (n.dedent indent continuation).blurred := by
  have hcount : (n.blurred.stack.takeWhile (·.endsAt indent continuation)).length =
      (n.stack.takeWhile (·.endsAt indent continuation)).length := by
    rw [blurred, List.takeWhile_map, List.length_map]
    rfl
  rw [dedent, hcount]
  exact popMany_blurred (fun _ => rfl) _ n

theorem close_blurred (n : Nesting) (line : Nat) (kind : Option BlockKind) (style : BlockStyle) :
    n.blurred.close line kind style = (n.close line kind style).blurred := by
  have hfind : n.blurred.stack.findIdx? (·.fits kind style) = n.stack.findIdx? (·.fits kind style) := by
    rw [blurred, List.findIdx?_map]
    rfl
  rw [close, close, hfind]
  cases n.stack.findIdx? (·.fits kind style) with
  | none => rfl
  | some above =>
    dsimp only
    rw [popMany_blurred (fun _ => rfl) above n, pop_blurred]

theorem headerText_blur (raw : List Char) : headerText (raw.map blur) = blurText (headerText raw) := by
  have hdots : "...".toList.map blur = "...".toList := by decide
  unfold headerText
  rw [blurText_ofList, trim_map_blur]
  dsimp only
  rw [List.length_map]
  split
  · rw [List.map_append, hdots, List.map_take]
  · rfl

theorem enter_blurred (n : Nesting) (line : ScannedLine) (raw : List Char) (shape : LineShape) :
    n.blurred.enter line (raw.map blur) shape = (n.enter line raw shape).blurred := by
  cases shape with
  | plain => rfl
  | continues style => rfl
  | opens kind style =>
    rw [enter, enter, headerText_blur]
    rfl
  | closes kind style => exact close_blurred n line.number kind style

theorem feed_blurred (n : Nesting) (line : ScannedLine) (raw : List Char) :
    n.blurred.feed line (raw.map blur) = (n.feed line raw).blurred := by
  unfold feed
  by_cases hliteral : line.startsInLiteral
  · rw [if_pos hliteral, if_pos hliteral]
    rfl
  · rw [if_neg hliteral, if_neg hliteral]
    by_cases hblank : line.isBlank
    · rw [if_pos hblank, if_pos hblank]
    · rw [if_neg hblank, if_neg hblank]
      dsimp only
      rw [dedent_blurred, enter_blurred]
      rfl

theorem feedAll_blurred (n : Nesting) (scanned : List ScannedLine) (raws : List (List Char)) :
    n.blurred.feedAll (scanned.zip (raws.map (List.map blur))) = (n.feedAll (scanned.zip raws)).blurred := by
  induction scanned generalizing n raws with
  | nil => rfl
  | cons line scanned ih =>
    cases raws with
    | nil => rfl
    | cons raw raws =>
      rw [List.map_cons, List.zip_cons_cons, List.zip_cons_cons, feedAll, List.foldl_cons, feed_blurred]
      exact ih (n.feed line raw) raws

theorem finish_blurred (n : Nesting) : n.blurred.finish = n.finish.blurred := by
  have hcount : n.blurred.stack.length = n.stack.length := List.length_map _
  have hleft : HeaderFree (leftOpen n.lastCode) := fun _ => rfl
  rw [finish, hcount]
  exact popMany_blurred hleft _ n

/-- The blocks of lines that are scanned alike and alike but for their letters. -/
theorem finish_feedAll_of_blur (scanned : List ScannedLine) {raws raws' : List (List Char)}
    (h : raws.map (List.map blur) = raws'.map (List.map blur)) :
    (({} : Nesting).feedAll (scanned.zip raws)).finish.blurred =
      (({} : Nesting).feedAll (scanned.zip raws')).finish.blurred := by
  rw [← finish_blurred, ← feedAll_blurred, h, feedAll_blurred, finish_blurred]

end Nesting

namespace Outline

/-- The outline with blurred headers. -/
def blurred (o : Outline) : Outline := { o with blocks := Block.forestBlurred o.blocks }

theorem spans_blurred (o : Outline) : o.blurred.spans = o.spans := Block.spans_forestBlurred o.blocks

theorem depthAt_blurred (o : Outline) (line : Nat) : o.blurred.depthAt line = o.depthAt line :=
  Block.forestDepthAt_blurred line o.blocks

theorem innerEnds_blurred (o : Outline) : o.blurred.innerEnds = o.innerEnds := by
  funext first last
  rw [innerEnds, innerEnds]
  exact congrArg (fun ends => (ends.mergeSort (· ≤ ·)).eraseDups)
    (Block.forestEndsWithin_blurred first last o.blocks)

/-- The texts have the same issues and the same blocks, but for letters in the headers. -/
theorem ofText_of_differ {text text' : List Char} (h : DifferInLiterals .pseudocode text text') :
    (ofText text).1.map blurred = (ofText text').1.map blurred ∧ (ofText text).2 = (ofText text').2 := by
  have hblank : Text.isBlank text = Text.isBlank text' := by
    rw [← isBlank_map_blur, h.map_blur, isBlank_map_blur]
  have hraws : (Text.lines text).map (List.map blur) = (Text.lines text').map (List.map blur) := by
    rw [← lines_map_blur, h.map_blur, lines_map_blur]
  have hnesting := Nesting.finish_feedAll_of_blur (scan .pseudocode text').1 hraws
  unfold ofText
  rw [hblank, scan_of_differ h]
  split
  · exact ⟨rfl, rfl⟩
  · have hroots := congrArg Nesting.roots hnesting
    have hissues := congrArg Nesting.issues hnesting
    constructor
    · exact congrArg (fun blocks => some (Outline.mk blocks (scan .pseudocode text').1)) hroots
    · exact congrArg (fun issues => Issue.sorted ((scan .pseudocode text').2 ++ issues.toList)) hissues

end Outline

end Pseudoscribe
