import Mathlib.Data.List.Forall2
import Pseudoscribe.Proofs.Block.Forest
import Pseudoscribe.Proofs.Code.Resume

/-!
# Frames and the blocks that they stand for

The outline of a text and its code are made apart, each with its own account of the blocks that are open.  A
frame stands for a block if both end at the same indentation and are of one kind.  Frames and blocks that
stand for each other one by one are ended alike, by indentation and by closers.

Where no issue is noted every closer closes a block, and the blocks that it passes on the way are marked by
indentation.
-/

namespace Pseudoscribe

/-! ## Reading without issues -/

namespace Nesting

/-- Blocks that are ended without an issue gave no reason for a complaint. -/
theorem quiet_of_popMany {complain : OpenBlock → Option Issue} (hc : ∀ o, complain o.head = complain o)
    {count : Nat} {n : Nesting} (h : (popMany complain count n).issues = #[]) :
    n.issues = #[] ∧ ∀ o ∈ n.heads.take count, complain o = none := by
  have hlist := issues_popMany hc count n
  rw [h] at hlist
  obtain ⟨hissues, hnone⟩ := List.append_eq_nil_iff.1 hlist.symm
  exact ⟨Array.toList_eq_nil_iff.1 hissues, List.filterMap_eq_nil_iff.1 hnone⟩

theorem quiet_of_dedent {n : Nesting} {indent : Nat} {continuation : Bool}
    (h : (n.dedent indent continuation).issues = #[]) : n.issues = #[] :=
  (quiet_of_popMany (fun _ => rfl) h).1

/-- A closer without an issue closes a block and passes only blocks that are marked by indentation. -/
theorem quiet_of_close {n : Nesting} {line : Nat} {kind : Option BlockKind} {style : BlockStyle}
    (h : (n.close line kind style).issues = #[]) : n.issues = #[] ∧
      ∃ above, n.heads.findIdx? (·.fits kind style) = some above ∧
        (∀ o ∈ n.heads.take above, o.style = .indent) ∧
        (n.close line kind style).heads = n.heads.drop (above + 1) := by
  rw [findIdx?_heads]
  unfold close at h ⊢
  split at h
  · exact absurd h Array.push_ne_empty
  · next above hsome =>
    rw [issues_pop] at h
    obtain ⟨hissues, hall⟩ := quiet_of_popMany (fun _ => rfl) h
    refine ⟨hissues, above, hsome, fun o ho => ?_, ?_⟩
    · have hnone := hall o ho
      unfold cutOff at hnone
      split at hnone
      · assumption
      · cases hnone
    · rw [heads_pop, heads_popMany, List.tail_drop]

theorem quiet_of_enter {n : Nesting} {line : ScannedLine} {raw : List Char} {shape : LineShape}
    (h : (n.enter line raw shape).issues = #[]) : n.issues = #[] := by
  cases shape with
  | plain | continues | opens => exact h
  | closes => exact (quiet_of_close h).1

/-- Issues are never taken back. -/
theorem quiet_of_feed {n : Nesting} {line : ScannedLine} {raw : List Char}
    (h : (n.feed line raw).issues = #[]) : n.issues = #[] := by
  unfold feed at h
  split at h
  · exact h
  · split at h
    · exact h
    · exact quiet_of_dedent (quiet_of_enter h)

theorem quiet_of_feedAll {n : Nesting} {lines : List (ScannedLine × List Char)}
    (h : (n.feedAll lines).issues = #[]) : n.issues = #[] := by
  induction lines generalizing n with
  | nil => exact h
  | cons l lines ih => exact quiet_of_feed (ih h)

theorem quiet_of_finish {n : Nesting} (h : n.finish.issues = #[]) : n.issues = #[] :=
  (quiet_of_popMany (fun _ => rfl) h).1

end Nesting

open Pseudoscribe.Frame

namespace Frame

/-- The frame stands for the open block. -/
structure StandsFor (f : Frame) (o : OpenBlock) : Prop where
  style : f.style = o.style
  indent : f.indent = o.indent
  kind : f.kind = .group ∨ f.kind = .block o.kind ∨ (f.kind = .loopUntil ∧ o.kind = .loop)

theorem StandsFor.endsAt {f : Frame} {o : OpenBlock} (h : StandsFor f o) (indent : Nat)
    (continuation : Bool) : f.endsAt indent continuation = o.endsAt indent continuation := by
  rw [Frame.endsAt, OpenBlock.endsAt, h.style, h.indent]

/-- A closer that fits a block fits its frame, unless the frame is a group and the closer asks for more. -/
theorem StandsFor.fits {f : Frame} {o : OpenBlock} (h : StandsFor f o) {kind : Option BlockKind}
    {style : BlockStyle} (hfits : o.fits kind style = true)
    (hgroup : kind = none ∨ kind = some .generic ∨ f.isGroup = false) : f.fits kind = true := by
  obtain ⟨hstyle, hkind⟩ := Bool.and_eq_true_iff.1 hfits
  have hindent : (f.style != .indent) = true := by
    rw [h.style, eq_of_beq hstyle]
    split <;> rfl
  unfold Frame.fits
  rw [hindent, Bool.true_and]
  cases kind with
  | none => cases f.kind <;> rfl
  | some k =>
    obtain rfl : k = o.kind := by simpa using hkind
    obtain hf | hf | ⟨hf, hloop⟩ := h.kind
    · have hgeneric : o.kind = .generic := by simpa [isGroup, hf] using hgroup
      rw [hf, hgeneric]
      rfl
    · rw [hf]
      exact beq_self_eq_true _
    · rw [hf, hloop]

/-- Frames and open blocks, one for one. -/
abbrev Paired (frames : List Frame) (blocks : List OpenBlock) : Prop := List.Forall₂ StandsFor frames blocks

theorem Paired.dropWhile {frames : List Frame} {blocks : List OpenBlock} (h : Paired frames blocks)
    (indent : Nat) (continuation : Bool) :
    Paired (frames.dropWhile (·.endsAt indent continuation))
      (blocks.dropWhile (·.endsAt indent continuation)) := by
  induction h with
  | nil => exact .nil
  | @cons f o frames blocks hf hrest ih =>
    rw [List.dropWhile_cons, List.dropWhile_cons, hf.endsAt]
    split
    · exact ih
    · exact .cons hf hrest

/-- A closer that fits a block and passes only indented ones closes the frame of that block. -/
theorem Paired.closeIndex? {frames : List Frame} {blocks : List OpenBlock} (h : Paired frames blocks)
    {kind : Option BlockKind} {style : BlockStyle} {test : Bool} {above : Nat}
    (hfind : blocks.findIdx? (·.fits kind style) = some above)
    (hpass : ∀ o ∈ blocks.take above, o.style = .indent)
    (hgroup : ∀ f, frames[above]? = some f → kind = none ∨ kind = some .generic ∨ f.isGroup = false)
    (htest : test = true → ∀ i, frames.findIdx? (·.kind == .loopUntil) = some i → i = above) :
    Frame.closeIndex? kind test frames = some above := by
  have hlen := h.length_eq
  obtain ⟨habove, hfits, -⟩ := List.findIdx?_eq_some_iff_getElem.1 hfind
  have hown : frames.findIdx? (·.fits kind) = some above := by
    refine List.findIdx?_eq_some_iff_getElem.2 ⟨by omega, ?_, fun i hi => ?_⟩
    · exact (h.get (by omega) habove).fits hfits (hgroup _ (List.getElem?_eq_getElem _))
    · have hindent : blocks[i].style = .indent :=
        hpass _ (List.mem_take_iff_getElem.2 ⟨i, by omega, rfl⟩)
      rw [Bool.not_eq_true]
      exact FrameStep.not_fits_of_indent ((h.get (by omega) (by omega)).style.trans hindent) kind
  unfold Frame.closeIndex?
  cases test with
  | false => exact hown
  | true =>
    rw [if_pos rfl]
    cases hloop : frames.findIdx? (·.kind == .loopUntil) with
    | none => exact hown
    | some i => rw [htest rfl i hloop, Option.some_or]

end Frame

/-! ## Headers -/

theorem Header.loop_of_loopUntil {kind : BlockKind} {text : List Char}
    (h : Header.ofText kind text = .loopUntil) : kind = .loop := by
  cases kind with
  | loop => rfl
  | function | record => cases h
  | conditional =>
    simp only [Header.ofText] at h
    split at h <;> cases h
  | generic =>
    simp only [Header.ofText] at h
    split at h <;> cases h

/-- The frame that a header opens stands for the block that it opens. -/
theorem FrameStep.standsFor_opens (target : Target) (kind : BlockKind) (style : BlockStyle)
    (code : List Char) (header : String) (startLine indent : Nat) :
    StandsFor ⟨headerKind target kind code, style, indent, false⟩
      ⟨kind, style, header, startLine, indent, []⟩ := by
  refine ⟨rfl, rfl, ?_⟩
  unfold headerKind
  dsimp only
  split
  · exact .inl rfl
  · split
    · next hloop => exact .inr (.inr ⟨rfl, Header.loop_of_loopUntil hloop⟩)
    · exact .inr (.inl rfl)

/-! ## Comment lines -/

namespace OpenBlock

/-- Comment lines of which the least indented stands at `comment` stand outside of the block. -/
def endsAtComment (comment : Option Nat) (o : OpenBlock) : Bool := comment.any (o.endsAt · false)

theorem dropWhile_endsAtComment_none (blocks : List OpenBlock) :
    blocks.dropWhile (·.endsAtComment none) = blocks := by
  cases blocks <;> rfl

theorem endsAt_mono {o : OpenBlock} {indent indent' : Nat} (h : o.endsAt indent' false = true)
    (hle : indent ≤ indent') : o.endsAt indent false = true := by
  simp only [endsAt, Bool.and_eq_true, Bool.false_eq_true, if_false, decide_eq_true_eq] at h ⊢
  exact ⟨h.1, Nat.le_trans hle h.2⟩

/-- Of several comment lines the least indented one counts. -/
theorem dropWhile_endsAtComment (comment : Option Nat) (indent : Nat) (blocks : List OpenBlock) :
    (blocks.dropWhile (·.endsAtComment comment)).dropWhile (·.endsAt indent false) =
      blocks.dropWhile (·.endsAtComment (some (comment.elim indent (min indent)))) := by
  induction blocks with
  | nil => rfl
  | cons o blocks ih =>
    cases comment with
    | none => rw [dropWhile_endsAtComment_none]; rfl
    | some least =>
      have hmin : o.endsAtComment (some (min indent least)) =
          (o.endsAt indent false || o.endsAtComment (some least)) := by
        have hle : min indent least ≤ o.indent ↔ indent ≤ o.indent ∨ least ≤ o.indent := by omega
        rw [Bool.eq_iff_iff]
        simp only [endsAtComment, endsAt, Option.any_some, Bool.or_eq_true, Bool.and_eq_true,
          Bool.false_eq_true, if_false, decide_eq_true_eq, ← and_or_left, hle]
      rw [List.dropWhile_cons, List.dropWhile_cons, Option.elim_some, hmin]
      cases hleast : o.endsAtComment (some least) with
      | true =>
        rw [if_pos rfl, Bool.or_true, if_pos rfl]
        exact ih
      | false =>
        rw [if_neg Bool.false_ne_true, List.dropWhile_cons, Bool.or_false]
        split
        · next hends =>
          -- a block that only the new line ends stands less deep than the lines before
          have hlt : indent ≤ least := by
            by_contra hlt
            have hleast' := endsAt_mono hends (Nat.le_of_lt (Nat.lt_of_not_le hlt))
            exact Bool.false_ne_true (hleast.symm.trans hleast')
          rw [Nat.min_eq_left hlt]
          rfl
        · rfl

end OpenBlock

end Pseudoscribe
