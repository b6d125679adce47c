import Pseudoscribe.Proofs.Block.Depth
import Pseudoscribe.Proofs.Code.FrameBlock
import Pseudoscribe.Proofs.Code.Nesting
import Pseudoscribe.Proofs.Text.Pieces

/-!
# The outline and the code agree on what is open

A text is read for its outline and for its code at once, line by line.  As long as nothing parts them the
frames stand for the open blocks.  They part where a comment line ends a block that the code goes on in, at the
closer of a block that the target language does not know, and at a test that ends another loop than the
outline says.  The outline counts a line only to the blocks that it or a later line of code belongs to, which
on a comment line and at a closer may be fewer than are open.
-/

namespace Pseudoscribe

open Pseudoscribe.Frame

/-- A text that was read up to some line for its outline and for its code. -/
structure Reading where
  nesting : Nesting := {}
  progress : Generation.Progress
  /-- the least indentation of the comment lines since the last line of code -/
  comment : Option Nat := none

namespace Reading

open Generation.Progress

variable (r : Reading) (raw : List Char)

def begin (target : Target) (width : Nat) : Reading :=
  { progress := { emitter := Generation.start target width {} } }

/-- The next line as the scanner sees it. -/
def next : ScannedLine := (r.progress.scanner.feed raw).1

def shape : LineShape := LineShape.ofLine (r.next raw).masked

/-- The line begins inside of a literal or is blank. -/
def isMute : Bool := (r.next raw).startsInLiteral || Text.isBlank raw

/-- The line begins in code and holds code. -/
def isCode : Bool := !(r.next raw).startsInLiteral && !(r.next raw).isBlank

def feed : Reading where
  nesting := r.nesting.feed (r.next raw) raw
  progress := r.progress.feed raw
  comment :=
    if r.isCode raw then none
    else if r.isMute raw then r.comment
    else some (r.comment.elim (r.next raw).indent (min (r.next raw).indent))

/-- Read lines one after the other. -/
def read (raws : List (List Char)) : Reading := raws.foldl feed r

/-- The frames that the line's indentation leaves open. -/
def framesAround : List Frame :=
  (r.progress.emitter.dedent (r.next raw).indent (r.shape raw).isContinuation).stack

/-- The open blocks that the comment lines since the last line of code do not stand outside of. -/
def openBlocks : List OpenBlock := r.nesting.stack.dropWhile (·.endsAtComment r.comment)

/-- Of these blocks the ones that the line's indentation leaves open. -/
def blocksAround : List OpenBlock :=
  r.openBlocks.dropWhile (·.endsAt (r.next raw).indent (r.shape raw).isContinuation)

/-- The line itself ends the blocks that the comment lines before it stand outside of. -/
def endsWithComments : Bool :=
  (r.nesting.stack.takeWhile (·.endsAtComment r.comment)).all
    (·.endsAt (r.next raw).indent (r.shape raw).isContinuation)

/-- A closer that names a kind of block finds no group in the place of its block, and a test finds the
innermost loop that tests at its end there. -/
def closesOwn : Bool :=
  match r.shape raw with
  | .closes kind style =>
    match (r.blocksAround raw).findIdx? (·.fits kind style) with
    | some above =>
      (kind == none || kind == some .generic || ((r.framesAround raw)[above]?).all (!·.isGroup)) &&
        (!(Emitter.untilTest? (FrameStep.codeOf (r.next raw) raw)).isSome ||
          ((r.framesAround raw).findIdx? (·.kind == .loopUntil)).all (· == above))
    | none => true
  | _ => true

/-- The frames stand for the blocks that the comment lines leave open. -/
def Together : Prop :=
  Paired (r.progress.emitter.stack.map bare) (r.openBlocks.map OpenBlock.head)

/-- In none of the lines do frames and blocks part company. -/
def staysTogether (r : Reading) : List (List Char) → Bool
  | [] => true
  | raw :: raws =>
    (!r.isCode raw || (r.endsWithComments raw && r.closesOwn raw)) && (r.feed raw).staysTogether raws

variable {r raw}

theorem map_bare_framesAround : (r.framesAround raw).map bare =
    (r.progress.emitter.stack.map bare).dropWhile
      (·.endsAt (r.next raw).indent (r.shape raw).isContinuation) := by
  rw [framesAround, Emitter.stack_dedent, List.dropWhile_map]
  rfl

theorem stack_feed : (r.feed raw).progress.emitter.stack.map bare =
    if r.isMute raw then r.progress.emitter.stack.map bare
    else (FrameStep.ofLine r.progress.emitter.target (r.next raw) raw).behind
      (r.progress.emitter.stack.map bare) :=
  r.progress.stack_feed raw

theorem map_head_openBlocks :
    r.openBlocks.map OpenBlock.head = r.nesting.heads.dropWhile (·.endsAtComment r.comment) := by
  rw [openBlocks, Nesting.heads, List.dropWhile_map]
  rfl

theorem map_head_blocksAround : (r.blocksAround raw).map OpenBlock.head =
    (r.openBlocks.map OpenBlock.head).dropWhile
      (·.endsAt (r.next raw).indent (r.shape raw).isContinuation) := by
  rw [blocksAround, List.dropWhile_map]
  rfl

/-- The line's indentation ends the frames and the blocks alike. -/
theorem Together.around (h : r.Together) (raw : List Char) :
    Paired ((r.framesAround raw).map bare) ((r.blocksAround raw).map OpenBlock.head) := by
  rw [map_bare_framesAround, map_head_blocksAround]
  exact h.dropWhile _ _

/-- A line of code that itself ends what the comment lines before it stand outside of leaves the blocks open
that it leaves open for the outline. -/
theorem heads_around (hends : r.endsWithComments raw = true) :
    (r.nesting.around (r.next raw)).heads = (r.blocksAround raw).map OpenBlock.head := by
  rw [map_head_blocksAround, map_head_openBlocks]
  refine (Nesting.heads_dedent _ _ _).trans ?_
  conv_lhs =>
    rw [← List.takeWhile_append_dropWhile (p := (·.endsAtComment r.comment)) (l := r.nesting.heads)]
  refine List.dropWhile_append_of_pos fun o ho => ?_
  rw [Nesting.heads, List.takeWhile_map] at ho
  obtain ⟨x, hx, rfl⟩ := List.mem_map.1 ho
  exact List.all_eq_true.1 hends x hx

theorem isCode_of_isMute (h : r.isMute raw = true) : r.isCode raw = false := by
  unfold isCode
  cases hlit : (r.next raw).startsInLiteral with
  | true => rfl
  | false =>
    rw [isMute, hlit, Bool.false_or] at h
    have hblank : (r.next raw).isBlank = true := Scanner.isBlank_feed_blank hlit h
    rw [hblank]
    rfl

theorem heads_feed_of_not_code (h : r.isCode raw = false) : (r.feed raw).nesting.heads = r.nesting.heads := by
  unfold feed Nesting.feed
  dsimp only
  split
  · rfl
  · next hlit =>
    rw [isCode, Bool.eq_false_iff.2 hlit, Bool.not_false, Bool.true_and, Bool.not_eq_false'] at h
    rw [h, if_pos rfl]

/-- A comment line has no shape. -/
theorem shape_of_not_code (hcode : r.isCode raw = false) (hlit : (r.next raw).startsInLiteral = false) :
    r.shape raw = .plain := by
  rw [isCode, hlit, Bool.not_false, Bool.true_and, Bool.not_eq_false', ScannedLine.isBlank, hlit,
    Bool.not_false, Bool.true_and] at hcode
  exact LineShape.ofLine_of_trim_eq_nil (Text.trim_eq_nil hcode)

theorem closesOwn_at (h : r.closesOwn raw = true) {kind : Option BlockKind} {style : BlockStyle} {above : Nat}
    (hshape : r.shape raw = .closes kind style)
    (hfind : ((r.blocksAround raw).map OpenBlock.head).findIdx? (·.fits kind style) = some above) :
    (∀ f, ((r.framesAround raw).map bare)[above]? = some f →
      kind = none ∨ kind = some .generic ∨ f.isGroup = false) ∧
    ((Emitter.untilTest? (FrameStep.codeOf (r.next raw) raw)).isSome = true →
      ∀ i, ((r.framesAround raw).map bare).findIdx? (·.kind == .loopUntil) = some i → i = above) := by
  rw [List.findIdx?_map] at hfind
  change (r.blocksAround raw).findIdx? (·.fits kind style) = some above at hfind
  simp only [closesOwn, hshape, hfind, Bool.and_eq_true, Bool.or_eq_true, beq_iff_eq,
    Option.all_eq_true, Bool.not_eq_true', or_assoc] at h
  obtain ⟨hgroup, htest⟩ := h
  constructor
  · intro f hf
    rw [List.getElem?_map] at hf
    obtain ⟨g, hg, rfl⟩ := Option.map_eq_some_iff.1 hf
    exact hgroup.imp_right (·.imp_right fun h => h g hg)
  · intro hsome i hi
    rw [List.findIdx?_map] at hi
    rw [hsome] at htest
    exact htest.resolve_left (by simp) i hi

theorem nesting_feed_of_code (hcode : r.isCode raw = true) : (r.feed raw).nesting =
    { (r.nesting.around (r.next raw)).enter (r.next raw) raw (r.shape raw) with
      lastCode := (r.next raw).number } := by
  obtain ⟨hlit, hblank⟩ : (r.next raw).startsInLiteral = false ∧ (r.next raw).isBlank = false := by
    simpa [isCode] using hcode
  exact Nesting.feed_code raw hlit hblank

/-- A line of code is read alike for the outline and for the code. -/
theorem Together.feed_code (h : r.Together) (hquiet : (r.feed raw).nesting.issues = #[])
    (hcode : r.isCode raw = true) (hends : r.endsWithComments raw = true) (hcloses : r.closesOwn raw = true) :
    (r.feed raw).Together := by
  have haround := h.around raw
  have hheads := heads_around hends
  have hcomment : (r.feed raw).comment = none := if_pos hcode
  have hmute : ¬r.isMute raw = true := fun hmute =>
    Bool.false_ne_true ((isCode_of_isMute hmute).symm.trans hcode)
  have hframes : ((FrameStep.ofLine r.progress.emitter.target (r.next raw) raw).dedented
      (r.progress.emitter.stack.map bare)) = (r.framesAround raw).map bare := map_bare_framesAround.symm
  rw [Together, map_head_openBlocks, hcomment, OpenBlock.dropWhile_endsAtComment_none]
  rw [nesting_feed_of_code hcode] at hquiet ⊢
  change (Nesting.enter _ _ _ _).issues = #[] at hquiet
  rw [stack_feed, if_neg hmute, FrameStep.behind, hframes]
  rw [← hheads] at haround
  change Paired _ ((r.nesting.around (r.next raw)).enter (r.next raw) raw (r.shape raw)).heads
  have hshape : LineShape.ofLine (r.next raw).masked = r.shape raw := rfl
  rw [FrameStep.ofLine, hshape]
  cases hshape : r.shape raw with
  | plain => exact haround
  | continues => exact haround
  | opens kind style => exact .cons (FrameStep.standsFor_opens _ _ _ _ _ _ _) haround
  | closes kind style =>
    rw [hshape] at hquiet
    obtain ⟨-, above, hfind, hpass, hbehind⟩ := Nesting.quiet_of_close hquiet
    obtain ⟨hgroup, htest⟩ := closesOwn_at hcloses hshape (hheads ▸ hfind)
    have hclose := FrameStep.closed_of_some (haround.closeIndex? hfind hpass hgroup htest)
    change Paired (closed kind _ _) (Nesting.close _ _ kind style).heads
    rw [hbehind, hclose]
    exact List.forall₂_drop _ haround

theorem Together.feed (h : r.Together) (hquiet : (r.feed raw).nesting.issues = #[])
    (hstays : r.isCode raw = true → r.endsWithComments raw = true ∧ r.closesOwn raw = true) :
    (r.feed raw).Together := by
  by_cases hcode : r.isCode raw = true
  · obtain ⟨hends, hcloses⟩ := hstays hcode
    exact h.feed_code hquiet hcode hends hcloses
  · have hheads := heads_feed_of_not_code (Bool.eq_false_iff.2 hcode)
    rw [Together, map_head_openBlocks] at h ⊢
    rw [hheads]
    by_cases hmute : r.isMute raw = true
    · -- a line that says nothing leaves both accounts alone
      have hcomment : (r.feed raw).comment = r.comment := (if_neg hcode).trans (if_pos hmute)
      rw [hcomment, stack_feed, if_pos hmute]
      exact h
    · have hcomment : (r.feed raw).comment =
          some (r.comment.elim (r.next raw).indent (min (r.next raw).indent)) :=
        (if_neg hcode).trans (if_neg hmute)
      have hlit : (r.next raw).startsInLiteral = false := by
        rw [isMute, Bool.or_eq_true, not_or] at hmute
        exact Bool.eq_false_iff.2 hmute.1
      have hshape := shape_of_not_code (Bool.eq_false_iff.2 hcode) hlit
      have hstep : FrameStep.ofLine r.progress.emitter.target (r.next raw) raw =
          ⟨(r.next raw).indent, false, .keep⟩ := by
        unfold shape at hshape
        rw [FrameStep.ofLine, hshape]
        rfl
      rw [hcomment, ← OpenBlock.dropWhile_endsAtComment, stack_feed, if_neg hmute, hstep]
      exact h.dropWhile _ _

/-! ## Whole texts -/

theorem scanner_feed (r : Reading) (raw : List Char) :
    (r.feed raw).progress.scanner = (r.progress.scanner.feed raw).2 :=
  (r.progress.feed_keeps raw).1

theorem nesting_read (r : Reading) (raws : List (List Char)) : (r.read raws).nesting =
    r.nesting.feedAll ((r.progress.scanner.feedAll raws).1.zip raws) := by
  induction raws generalizing r with
  | nil => rfl
  | cons raw raws ih =>
    change ((r.feed raw).read raws).nesting = _
    rw [ih, scanner_feed]
    rfl

theorem line_read (r : Reading) (raws : List (List Char)) :
    (r.read raws).progress.scanner.line = r.progress.scanner.line + raws.length := by
  induction raws generalizing r with
  | nil => rfl
  | cons raw raws ih =>
    change ((r.feed raw).read raws).progress.scanner.line = _
    rw [ih, scanner_feed, Scanner.feed_line, List.length_cons]
    omega

theorem Together.read {r : Reading} (h : r.Together) {raws : List (List Char)}
    (hquiet : (r.read raws).nesting.issues = #[]) (hstays : r.staysTogether raws = true) :
    (r.read raws).Together := by
  induction raws generalizing r with
  | nil => exact h
  | cons raw raws ih =>
    obtain ⟨hline, hrest⟩ := Bool.and_eq_true_iff.1 hstays
    have hfeed : (r.feed raw).nesting.issues = #[] := by
      change ((r.feed raw).read raws).nesting.issues = #[] at hquiet
      rw [nesting_read] at hquiet
      exact Nesting.quiet_of_feedAll hquiet
    refine ih (h.feed hfeed fun hcode => ?_) hquiet hrest
    rw [hcode, Bool.not_true, Bool.false_or, Bool.and_eq_true] at hline
    exact hline

theorem together_begin (target : Target) (width : Nat) : (begin target width).Together := .nil

/-- The outline of a text without issues is made of what is read of it. -/
theorem ofText_eq {text : List Char} {o : Outline} (h : Outline.ofText text = (some o, []))
    (target : Target) (width : Nat) :
    o.blocks = ((begin target width).read (Text.lines text)).nesting.finish.roots ∧
      ((begin target width).read (Text.lines text)).nesting.issues = #[] := by
  have hread := nesting_read (begin target width) (Text.lines text)
  unfold Outline.ofText at h
  split at h
  · cases h
  · obtain ⟨ho, hissues⟩ := Prod.mk.inj h
    cases ho
    rw [hread]
    have hnone := congrArg List.length hissues
    rw [Issue.sorted, List.length_mergeSort, List.length_append, List.length_nil] at hnone
    refine ⟨rfl, Nesting.quiet_of_finish (Array.toList_eq_nil_iff.1 (List.eq_nil_of_length_eq_zero ?_))⟩
    exact Nat.eq_zero_of_add_eq_zero_left hnone

/-- How many blocks a closer passes on the way to the one that it closes. -/
def passes (r : Reading) (raw : List Char) : Nat := (r.nesting.around (r.next raw)).passedBy (r.shape raw)

/-- How many of the open blocks have had their last line, when these lines follow. -/
def spent (r : Reading) (raws : List (List Char)) : Nat :=
  r.nesting.spent ((r.progress.scanner.feedAll raws).1.zip raws)

/-- Each frame stands for a block that the line and the comment lines before it leave open, in front of the line
and behind it.  The line is inside of the open blocks that have not had their last line. -/
structure Corresponds (r : Reading) (raw : List Char) (after : List (List Char)) (o : Outline) (line : Nat) :
    Prop where
  around : Paired (r.framesAround raw) (r.blocksAround raw)
  behind : Paired (r.feed raw).progress.emitter.stack (r.feed raw).openBlocks
  depth : o.depthAt line + r.spent (raw :: after) = r.nesting.stack.length
  /-- a line of code is as deep as there are frames, but for indented blocks that its closer passes -/
  code : r.isCode raw = true → (r.framesAround raw).length = o.depthAt line + r.passes raw ∧
    ∀ b ∈ (r.blocksAround raw).take (r.passes raw), b.style = .indent
  /-- the line is as deep as there are frames exactly if it leaves those blocks open -/
  agree : (r.framesAround raw).length = o.depthAt line ↔
    r.blocksAround raw = r.nesting.stack.drop (r.spent (raw :: after))

theorem paired_of_bare {frames : List Frame} {blocks : List OpenBlock}
    (h : Paired (frames.map bare) (blocks.map OpenBlock.head)) : Paired frames blocks := by
  rw [Paired, List.forall₂_map_left_iff, List.forall₂_map_right_iff] at h
  exact h.imp fun f o hf => ⟨hf.style, hf.indent, hf.kind⟩

theorem ordered_read (target : Target) (width : Nat) (raws : List (List Char)) :
    ((begin target width).read raws).nesting.Ordered ∧
      ((begin target width).read raws).nesting.lastCode ≤ raws.length := by
  rw [nesting_read]
  exact Nesting.ordered_scanned .pseudocode raws

theorem staysTogether_append (r : Reading) (xs ys : List (List Char)) :
    r.staysTogether (xs ++ ys) = (r.staysTogether xs && (r.read xs).staysTogether ys) := by
  induction xs generalizing r with
  | nil => rfl
  | cons x xs ih =>
    rw [List.cons_append, staysTogether, staysTogether, ih, Bool.and_assoc]
    rfl

/-- The blocks that a closer passes without an issue are marked by indentation. -/
theorem style_of_passed {r : Reading} {raw : List Char} (hcode : r.isCode raw = true)
    (hends : r.endsWithComments raw = true) (hquiet : (r.feed raw).nesting.issues = #[]) :
    ∀ b ∈ (r.blocksAround raw).take (r.passes raw), b.style = .indent := by
  intro b hb
  cases hshape : r.shape raw with
  | closes kind style =>
    rw [nesting_feed_of_code hcode, hshape] at hquiet
    obtain ⟨-, above, hfind, hpass, -⟩ := Nesting.quiet_of_close hquiet
    rw [heads_around hends] at hpass
    rw [Nesting.findIdx?_heads] at hfind
    rw [passes, hshape, Nesting.passedBy, hfind, Option.getD_some] at hb
    refine hpass b.head ?_
    rw [← List.map_take]
    exact List.mem_map_of_mem hb
  | plain | continues | opens =>
    rw [passes, hshape] at hb
    cases hb

theorem length_blocksAround {r : Reading} {raw : List Char} (hends : r.endsWithComments raw = true) :
    (r.blocksAround raw).length = (r.nesting.around (r.next raw)).stack.length := by
  have hlen := congrArg List.length (heads_around hends)
  rw [Nesting.heads, List.length_map, List.length_map] at hlen
  exact hlen.symm

/-- Both are what is left of one list: they are the same if they are equally long. -/
theorem blocksAround_eq_drop_iff (r : Reading) (raw : List Char) (count : Nat) :
    r.blocksAround raw = r.nesting.stack.drop count ↔
      (r.blocksAround raw).length = r.nesting.stack.length - count := by
  have hsuffix : r.blocksAround raw <:+ r.nesting.stack :=
    (List.dropWhile_suffix _).trans (List.dropWhile_suffix _)
  constructor
  · intro h
    rw [h, List.length_drop]
  · intro h
    rw [← List.length_drop] at h
    exact (List.suffix_of_suffix_length_le hsuffix (List.drop_suffix _ _) (Nat.le_of_eq h)).eq_of_length h

/-- Where nothing parts them, the frames of a text without issues stand for the blocks of its outline. -/
theorem corresponds (target : Target) (width : Nat) {text : List Char} {o : Outline}
    (hparse : Outline.ofText text = (some o, [])) {before after : List (List Char)} {raw : List Char}
    (hsplit : Text.lines text = before ++ raw :: after)
    (hspeaks : ((begin target width).read before).isMute raw = false)
    (hstays : (begin target width).staysTogether (before ++ [raw]) = true) :
    Corresponds ((begin target width).read before) raw after o (before.length + 1) := by
  obtain ⟨hblocks, hquiet⟩ := ofText_eq hparse target width
  obtain ⟨hord, hlast⟩ := ordered_read target width before
  have hline : ((begin target width).read before).progress.scanner.line = before.length :=
    (line_read _ _).trans (Nat.zero_add _)
  have hread : (begin target width).read (Text.lines text) =
      ((begin target width).read before).read (raw :: after) := by
    rw [hsplit, read, List.foldl_append]
    rfl
  rw [staysTogether_append, Bool.and_eq_true] at hstays
  obtain ⟨hbefore, hstays⟩ := hstays
  rw [hread, nesting_read] at hblocks hquiet
  generalize hr : (begin target width).read before = r at *
  have hfeed : (r.feed raw).nesting.issues = #[] := Nesting.quiet_of_feedAll hquiet
  have htogether : r.Together := by
    subst hr
    exact (together_begin target width).read (Nesting.quiet_of_feed hfeed) hbefore
  have hcode : r.isCode raw = true → r.endsWithComments raw = true ∧ r.closesOwn raw = true := by
    intro hcode
    simpa [staysTogether, hcode] using hstays
  have haround : Paired (r.framesAround raw) (r.blocksAround raw) := paired_of_bare (htogether.around raw)
  have hdepth : o.depthAt (before.length + 1) + r.spent (raw :: after) = r.nesting.stack.length := by
    rw [Outline.depthAt, hblocks, ← hline]
    exact Nesting.depthAt_feedAll hord (by omega) (Nat.le_refl _) (Scanner.numbers_zip_feedAll _ _)
  refine ⟨haround, paired_of_bare (htogether.feed hfeed hcode), hdepth, fun h => ?_, ?_⟩
  · obtain ⟨hends, -⟩ := hcode h
    obtain ⟨hlit, hblank⟩ : (r.next raw).startsInLiteral = false ∧ (r.next raw).isBlank = false := by
      simpa [isCode] using h
    refine ⟨?_, style_of_passed h hends hfeed⟩
    have hlen := length_blocksAround hends
    have hspent : r.spent (raw :: after) + (r.nesting.around (r.next raw)).stack.length =
        r.nesting.stack.length + r.passes raw := r.nesting.spent_code hlit hblank raw _
    rw [haround.length_eq]
    omega
  · rw [haround.length_eq, blocksAround_eq_drop_iff]
    omega

/-- The closer of a loop that tests at its end, in a group. -/
theorem corresponds_until : ∃ o,
    Outline.ofText "BEGIN\n  REPEAT\n    x = 1\n  UNTIL x > 0\nEND\n".toList = (some o, []) ∧
    Corresponds ((begin .python 4).read ["BEGIN".toList, "  REPEAT".toList, "    x = 1".toList])
      "  UNTIL x > 0".toList ["END".toList] o 4 := by
  have hsome : (Outline.ofText "BEGIN\n  REPEAT\n    x = 1\n  UNTIL x > 0\nEND\n".toList).1.isSome = true := by
    decide +kernel
  have hissues : (Outline.ofText "BEGIN\n  REPEAT\n    x = 1\n  UNTIL x > 0\nEND\n".toList).2 = [] := by
    decide +kernel
  obtain ⟨o, ho⟩ := Option.isSome_iff_exists.1 hsome
  have hparse := Prod.ext (y := (some o, [])) ho hissues
  exact ⟨o, hparse, @corresponds .python 4 _ o hparse _ _ _ (by decide +kernel) (by decide +kernel)
    (by decide +kernel)⟩

/-- How many frames a line leaves open, counted from 1, unless it is blank or begins inside of a literal. -/
def framesAt (target : Target) (width : Nat) (text : List Char) (line : Nat) : Option Nat :=
  (Text.lines text)[line - 1]?.bind fun raw =>
    let r := (begin target width).read ((Text.lines text).take (line - 1))
    if r.isMute raw then none else some (r.framesAround raw).length

/-- The text is without issues, and the line has so many blocks around it and leaves so many frames open. -/
def CountsAt (text : String) (line blocks frames : Nat) : Prop :=
  (Outline.ofText text.toList).2 = [] ∧
    (Outline.ofText text.toList).1.map (·.depthAt line) = some blocks ∧
    framesAt .python 4 text.toList line = some frames

instance (text : String) (line blocks frames : Nat) : Decidable (CountsAt text line blocks frames) :=
  inferInstanceAs (Decidable (_ ∧ _ ∧ _))

/-- Where frames and blocks part: at a closer behind the end of a block that it passes, at a comment line behind
the last line of code of its block, behind a comment line outside of a block that goes on, behind the closer of
a block that the target language does not know, and behind a test in another loop than the one that it ends. -/
theorem frames_part :
    CountsAt "IF a THEN\n  for x in xs:\n    y = 1\n    END IF\n" 4 1 2 ∧
    CountsAt "for x in xs:\n  y = 1\n  # note\nz = 2\n" 3 0 1 ∧
    CountsAt "for x in xs:\n  y = 1\n# note\n  z = 2\n" 4 1 0 ∧
    CountsAt "SWITCH x\n  y = 1\nEND SWITCH\nz = 2\n" 4 0 1 ∧
    CountsAt "REPEAT\n  FOR a IN b\n    x = 1\n  UNTIL x\nEND REPEAT\n" 5 1 0 := by
  decide +kernel

end Reading

end Pseudoscribe
