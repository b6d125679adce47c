import Mathlib.Data.List.Basic
import Pseudoscribe.Proofs.Block.Intervals
import Pseudoscribe.Proofs.Scan.Steps

/-!
# The accounts of the blocks

Whatever order headers and closers come in, every line that opens a block is the header of one block of the outline, and
every closer either ends one or is complained of.  A block that no closer ends is marked by indentation, or it is
complained of once.  While the text is read, the blocks that have ended and those that are still open are accounted for
together: ending a block moves it from the one side to the other.
-/

namespace Pseudoscribe

/-! ## What is accounted for -/

/-- The line, the kind and the style that a block is opened with. -/
structure Opening where
  line : Nat
  kind : BlockKind
  style : BlockStyle
deriving DecidableEq, Repr

/-- A block that has ended, as far as the accounts go. -/
structure Entry where
  opening : Opening
  closed : Bool
deriving DecidableEq, Repr

namespace LineShape

def opening? (line : Nat) : LineShape → Option Opening
  | opens kind style => some ⟨line, kind, style⟩
  | _ => none

def isCloser : LineShape → Bool
  | closes _ _ => true
  | _ => false

end LineShape

namespace ScannedLine

/-- The shape of a line of code.  A line that is blank or begins inside a literal has none. -/
def shape? (l : ScannedLine) : Option LineShape :=
  if l.startsInLiteral || l.isBlank then none else some (LineShape.ofLine l.masked)

/-- What the line opens, if it opens a block. -/
def opening? (l : ScannedLine) : Option Opening := l.shape?.bind (·.opening? l.number)

/-- The line is shaped like one that ends a block. -/
def isCloser (l : ScannedLine) : Bool := l.shape?.any (·.isCloser)

end ScannedLine

namespace Fault

/-- The kind and the header of a block that was not closed. -/
def leftOpen? : Fault → Option (BlockKind × Nat)
  | notClosedBefore kind opened _ => some (kind, opened)
  | neverClosed kind opened => some (kind, opened)
  | _ => none

/-- A closer has no matching opener. -/
def isStray : Fault → Bool
  | strayCloser _ => true
  | _ => false

end Fault

/-- A complaint that a block was not closed: where it stands, and what it says of the block. -/
def Issue.leftOpen? (i : Issue) : Option (Nat × BlockKind × Nat) := i.fault.leftOpen?.map (i.place.line, ·)

namespace Entry

/-- The complaint that is due for a block that was not closed. -/
def leftOpen? (e : Entry) : Option (Nat × BlockKind × Nat) :=
  if e.closed then none else some (e.opening.line, e.opening.kind, e.opening.line)

/-- The block was ended by a closer. -/
def hasCloser (e : Entry) : Bool := e.closed && e.opening.style != .indent

end Entry

def OpenBlock.opening (o : OpenBlock) : Opening := ⟨o.startLine, o.kind, o.style⟩

namespace Block

def opening (b : Block) : Opening := ⟨b.startLine, b.kind, b.style⟩

def entry (b : Block) : Entry := ⟨b.opening, b.closed⟩

end Block

namespace Nesting

open Block

/-- The blocks that have ended. -/
def entries (n : Nesting) : List Entry :=
  (forestPreorder n.roots ++ n.stack.flatMap fun o => forestPreorder o.children).map Block.entry

/-- The blocks that have ended, those that are open and the issues agree with what was opened so far and with the number
of closers so far. -/
structure Accounts (n : Nesting) (openings : List Opening) (closers : Nat) : Prop where
  openings : (n.entries.map Entry.opening ++ n.heads.map OpenBlock.opening).Perm openings
  complaints : (n.entries.filterMap Entry.leftOpen?).Perm (n.issues.toList.filterMap Issue.leftOpen?)
  marked : ∀ e ∈ n.entries, e.closed = false → e.opening.style ≠ .indent
  closers : closers = n.entries.countP Entry.hasCloser + n.issues.toList.countP (·.fault.isStray)

/-! ## Ending blocks -/

theorem entries_pop {n : Nesting} {o : OpenBlock} {outer : List OpenBlock} (h : n.stack = o :: outer) (endLine : Nat)
    (closed : Bool) : (n.pop endLine closed).entries.Perm (⟨o.opening, closed⟩ :: n.entries) := by
  have hclose : forestPreorder [o.close endLine closed] = o.close endLine closed :: forestPreorder o.children := by
    rw [forestPreorder, OpenBlock.close, preorder, forestPreorder, List.append_nil]
  obtain ⟨stack, roots, issues, lastCode⟩ := n
  obtain rfl : stack = o :: outer := h
  -- the block goes to the roots or to the block around it, and the blocks inside of it go along
  cases outer with
  | nil =>
    simp only [pop, entries, forestPreorder_append, hclose, List.flatMap_cons, List.flatMap_nil, List.append_nil]
    exact List.perm_middle.map Block.entry
  | cons parent rest =>
    simp only [pop, entries, forestPreorder_append, hclose, List.flatMap_cons]
    have hswap : (forestPreorder parent.children ++ o.close endLine closed :: forestPreorder o.children).Perm
        (o.close endLine closed :: (forestPreorder o.children ++ forestPreorder parent.children)) :=
      List.perm_append_comm
    rw [← List.append_assoc (forestPreorder o.children)]
    exact (((hswap.append_right _).append_left _).trans List.perm_middle).map Block.entry

theorem entries_popMany (complain : OpenBlock → Option Issue) (count : Nat) (n : Nesting) :
    (popMany complain count n).entries.Perm
      ((n.heads.take count).map (fun o => ⟨o.opening, o.style == .indent⟩) ++ n.entries) := by
  fun_induction popMany complain count n with
  | case1 n => exact .refl _
  | case2 n count hs =>
    rw [heads, hs]
    exact .refl _
  | case3 count n o rest hs noted ih =>
    have hheads : n.heads = o.head :: rest.map OpenBlock.head := by rw [heads, hs, List.map_cons]
    have hnoted : noted.heads = n.heads ∧ noted.stack = o :: rest ∧ noted.entries = n.entries := by
      dsimp only [noted]
      split <;> exact ⟨rfl, hs, rfl⟩
    have hpop := entries_pop hnoted.2.1 n.lastCode (o.style == .indent)
    rw [hnoted.2.2] at hpop
    rw [heads_pop, hnoted.1, hheads, List.tail_cons] at ih
    rw [hheads, List.take_succ_cons]
    exact (ih.trans (hpop.append_left _)).trans List.perm_middle

/-- What is complained of a block that is ended without a closer is due for it. -/
structure Fair (complain : OpenBlock → Option Issue) (o : OpenBlock) : Prop where
  due : (complain o).bind Issue.leftOpen? = Entry.leftOpen? ⟨o.opening, o.style == .indent⟩
  stray : ∀ i ∈ complain o, i.fault.isStray = false

theorem fair_cutOff (line : Nat) (o : OpenBlock) : Fair (cutOff line) o := by
  unfold cutOff
  constructor
  · by_cases hstyle : o.style = .indent
    · simp [hstyle, Entry.leftOpen?]
    · simp [hstyle, Entry.leftOpen?, Issue.leftOpen?, Fault.leftOpen?, OpenBlock.place, OpenBlock.opening]
  · intro i hi
    split at hi <;> cases hi
    rfl

theorem fair_emptyBody (lastCode : Nat) {o : OpenBlock} (h : o.style = .indent) : Fair (emptyBody lastCode) o := by
  unfold emptyBody
  constructor
  · split <;> simp [h, Entry.leftOpen?, Issue.leftOpen?, Fault.leftOpen?]
  · intro i hi
    split at hi <;> cases hi
    rfl

theorem fair_leftOpen (lastCode : Nat) (o : OpenBlock) : Fair (leftOpen lastCode) o := by
  by_cases hstyle : o.style = .indent
  · have hsame : leftOpen lastCode o = emptyBody lastCode o := if_pos hstyle
    obtain ⟨hdue, hstray⟩ := fair_emptyBody lastCode hstyle
    rw [← hsame] at hdue hstray
    exact ⟨hdue, hstray⟩
  · have hsome : leftOpen lastCode o = some ⟨o.place, .neverClosed o.kind o.startLine⟩ := if_neg hstyle
    constructor
    · rw [hsome]
      simp [hstyle, Entry.leftOpen?, Issue.leftOpen?, Fault.leftOpen?, OpenBlock.place, OpenBlock.opening]
    · intro i hi
      rw [hsome] at hi
      cases hi
      rfl

variable {n : Nesting} {openings : List Opening} {closers : Nat}

/-- Blocks may be ended without a closer as long as what is complained of them is due. -/
theorem Accounts.popMany (h : n.Accounts openings closers) {complain : OpenBlock → Option Issue}
    (hc : ∀ o, complain o.head = complain o) {count : Nat} (hfair : ∀ o ∈ n.heads.take count, Fair complain o) :
    (popMany complain count n).Accounts openings closers := by
  have hentries := entries_popMany complain count n
  have hissues := issues_popMany hc count n
  refine ⟨?_, ?_, ?_, ?_⟩
  · have hopenings := hentries.map Entry.opening
    rw [List.map_append, List.map_map] at hopenings
    have hheads : n.heads.map OpenBlock.opening =
        (n.heads.take count).map OpenBlock.opening ++ (n.heads.drop count).map OpenBlock.opening := by
      rw [← List.map_append, List.take_append_drop]
    refine List.Perm.trans ?_ h.openings
    rw [heads_popMany, hheads, ← List.append_assoc]
    exact (hopenings.trans List.perm_append_comm).append_right _
  · -- what is newly complained of is what is due for the blocks that have newly ended
    have hdue : ((n.heads.take count).filterMap complain).filterMap Issue.leftOpen? =
        ((n.heads.take count).map fun o => (⟨o.opening, o.style == .indent⟩ : Entry)).filterMap Entry.leftOpen? := by
      rw [List.filterMap_filterMap, List.filterMap_map]
      exact List.filterMap_congr fun o ho => (hfair o ho).due
    rw [hissues, List.filterMap_append, hdue]
    refine (hentries.filterMap Entry.leftOpen?).trans ?_
    rw [List.filterMap_append]
    exact (h.complaints.append_left _).trans List.perm_append_comm
  · intro e he hopen
    rcases List.mem_append.1 (hentries.mem_iff.1 he) with he | he
    · obtain ⟨o, -, rfl⟩ := List.mem_map.1 he
      exact beq_eq_false_iff_ne.1 hopen
    · exact h.marked e he hopen
  · have hcloser : ((n.heads.take count).map fun o => (⟨o.opening, o.style == .indent⟩ : Entry)).countP
        Entry.hasCloser = 0 := by
      rw [List.countP_eq_zero]
      intro e he
      obtain ⟨o, -, rfl⟩ := List.mem_map.1 he
      cases hstyle : o.style == .indent <;> simp_all [Entry.hasCloser, OpenBlock.opening]
    have hstray : ((n.heads.take count).filterMap complain).countP (·.fault.isStray) = 0 := by
      rw [List.countP_eq_zero]
      intro i hi
      obtain ⟨o, ho, hi⟩ := List.mem_filterMap.1 hi
      rw [(hfair o ho).stray i hi]
      exact Bool.false_ne_true
    rw [hissues, List.countP_append, hstray, hentries.countP_eq, List.countP_append, hcloser, Nat.zero_add,
      Nat.add_zero]
    exact h.closers

theorem Accounts.dedent (h : n.Accounts openings closers) (indent : Nat) (continuation : Bool) :
    (n.dedent indent continuation).Accounts openings closers := by
  refine h.popMany (fun _ => rfl) fun o ho => fair_emptyBody n.lastCode ?_
  rw [length_takeWhile_heads, ← List.prefix_iff_eq_take.1 (List.takeWhile_prefix _)] at ho
  have hends := List.all_eq_true.1 List.all_takeWhile o ho
  exact eq_of_beq (Bool.and_eq_true_iff.1 hends).1

/-- The innermost open block may be ended as closed when it is not marked by indentation. -/
theorem Accounts.pop (h : n.Accounts openings closers) {o : OpenBlock} {outer : List OpenBlock}
    (hstack : n.stack = o :: outer) (hstyle : o.style ≠ .indent) (line : Nat) :
    (n.pop line true).Accounts openings (closers + 1) := by
  have hentries := entries_pop hstack line true
  have hcloser : Entry.hasCloser ⟨o.opening, true⟩ = true := bne_iff_ne.2 hstyle
  refine ⟨?_, ?_, ?_, ?_⟩
  · have hheads : n.heads = o.head :: (n.pop line true).heads := by
      rw [heads_pop, heads, hstack]
      rfl
    have hopenings := (hentries.map Entry.opening).append_right ((n.pop line true).heads.map OpenBlock.opening)
    refine hopenings.trans (List.Perm.trans ?_ h.openings)
    rw [hheads]
    exact List.perm_middle.symm
  · rw [issues_pop]
    exact (hentries.filterMap Entry.leftOpen?).trans h.complaints
  · intro e he hopen
    rcases List.mem_cons.1 (hentries.mem_iff.1 he) with rfl | he
    · cases hopen
    · exact h.marked e he hopen
  · rw [issues_pop, hentries.countP_eq, List.countP_cons_of_pos hcloser, h.closers]
    omega

/-- A closer ends a block or is complained of. -/
theorem Accounts.close (h : n.Accounts openings closers) (line : Nat) (kind : Option BlockKind) (style : BlockStyle) :
    (n.close line kind style).Accounts openings (closers + 1) := by
  unfold Nesting.close
  split
  · refine ⟨h.openings, ?_, h.marked, ?_⟩
    · have hnone : [(⟨⟨line, 1⟩, .strayCloser kind⟩ : Issue)].filterMap Issue.leftOpen? = [] := rfl
      rw [Array.toList_push, List.filterMap_append, hnone, List.append_nil]
      exact h.complaints
    · rw [Array.toList_push, List.countP_append, h.closers]
      rfl
  · next above hfind =>
    have hpassed : (Nesting.popMany (cutOff line) above n).Accounts openings closers :=
      h.popMany (fun _ => rfl) fun o _ => fair_cutOff line o
    rw [← findIdx?_heads, List.findIdx?_eq_some_iff_getElem] at hfind
    obtain ⟨hlt, hfits, -⟩ := hfind
    -- the block that the closer fits is the innermost one that is left
    have hheads := heads_popMany (cutOff line) above n
    rw [List.drop_eq_getElem_cons hlt, heads, List.map_eq_cons_iff] at hheads
    obtain ⟨o, outer, hstack, hhead, -⟩ := hheads
    rw [← hhead] at hfits
    refine hpassed.pop hstack (fun hindent => ?_) line
    have hmark := eq_of_beq (Bool.and_eq_true_iff.1 hfits).1
    rw [OpenBlock.head, hindent] at hmark
    split at hmark <;> cases hmark

theorem Accounts.enter (h : n.Accounts openings closers) (line : ScannedLine) (raw : List Char) (shape : LineShape) :
    (n.enter line raw shape).Accounts (openings ++ (shape.opening? line.number).toList)
      (closers + if shape.isCloser then 1 else 0) := by
  cases shape with
  | plain | continues =>
    show n.Accounts (openings ++ []) closers
    rwa [List.append_nil]
  | opens kind style =>
    refine ⟨?_, h.complaints, h.marked, h.closers⟩
    exact List.perm_middle.trans ((h.openings.cons _).trans (List.perm_append_singleton _ _).symm)
  | closes kind style =>
    show (n.close line.number kind style).Accounts (openings ++ []) (closers + 1)
    rw [List.append_nil]
    exact h.close line.number kind style

theorem Accounts.feed (h : n.Accounts openings closers) (line : ScannedLine) (raw : List Char) :
    (n.feed line raw).Accounts (openings ++ line.opening?.toList) (closers + if line.isCloser then 1 else 0) := by
  unfold Nesting.feed
  split
  · next hliteral =>
    have hnone : line.shape? = none := by rw [ScannedLine.shape?, hliteral, Bool.true_or, if_pos rfl]
    rw [ScannedLine.opening?, ScannedLine.isCloser, hnone]
    show Accounts _ (openings ++ []) closers
    rw [List.append_nil]
    exact ⟨h.openings, h.complaints, h.marked, h.closers⟩
  · split
    · next hblank =>
      have hnone : line.shape? = none := by rw [ScannedLine.shape?, hblank, Bool.or_true, if_pos rfl]
      rw [ScannedLine.opening?, ScannedLine.isCloser, hnone]
      show Accounts _ (openings ++ []) closers
      rwa [List.append_nil]
    · next hliteral hblank =>
      have hsome : line.shape? = some (LineShape.ofLine line.masked) := by
        rw [ScannedLine.shape?, Bool.eq_false_iff.2 hliteral, Bool.eq_false_iff.2 hblank]
        rfl
      rw [ScannedLine.opening?, ScannedLine.isCloser, hsome]
      have hentered := (h.dedent line.indent (LineShape.ofLine line.masked).isContinuation).enter line raw
        (LineShape.ofLine line.masked)
      exact ⟨hentered.openings, hentered.complaints, hentered.marked, hentered.closers⟩

theorem Accounts.feedAll (h : n.Accounts openings closers) (lines : List (ScannedLine × List Char)) :
    (n.feedAll lines).Accounts (openings ++ (lines.map Prod.fst).filterMap ScannedLine.opening?)
      (closers + (lines.map Prod.fst).countP ScannedLine.isCloser) := by
  induction lines generalizing n openings closers with
  | nil => rwa [List.map_nil, List.filterMap_nil, List.append_nil]
  | cons l lines ih =>
    have hopenings : ((l :: lines).map Prod.fst).filterMap ScannedLine.opening? =
        l.1.opening?.toList ++ (lines.map Prod.fst).filterMap ScannedLine.opening? := by
      rw [List.map_cons, List.filterMap_cons]
      cases l.1.opening? <;> rfl
    have hall := ih (h.feed l.1 l.2)
    rw [List.append_assoc, Nat.add_assoc] at hall
    rw [hopenings, List.map_cons, List.countP_cons, Nat.add_comm (List.countP _ _)]
    exact hall

theorem Accounts.finish (h : n.Accounts openings closers) :
    n.finish.Accounts openings closers ∧ n.finish.stack = [] := by
  refine ⟨h.popMany (fun _ => rfl) fun o _ => fair_leftOpen n.lastCode o, ?_⟩
  have hlength := length_stack_popMany (leftOpen n.lastCode) n.stack.length n
  rw [Nat.sub_self] at hlength
  exact List.eq_nil_of_length_eq_zero hlength

end Nesting

/-! ## Outlines -/

namespace Issue

/-- The issue complains that the block with this header line was not closed. -/
def isLeftOpenAt (line : Nat) (i : Issue) : Bool := i.fault.leftOpen?.isSome && i.place.line == line

theorem filter_leftOpen? (line : Nat) (issues : List Issue) :
    (issues.filterMap leftOpen?).filter (·.1 == line) = (issues.filter (isLeftOpenAt line)).filterMap leftOpen? := by
  rw [List.filter_filterMap, List.filterMap_filter]
  refine List.filterMap_congr fun i _ => ?_
  unfold leftOpen? isLeftOpenAt
  cases i.fault.leftOpen? with
  | none => rfl
  | some said => rfl

theorem eq_singleton_of_filterMap {line : Nat} {issues : List Issue} {said : Nat × BlockKind × Nat}
    (h : (issues.filter (isLeftOpenAt line)).filterMap leftOpen? = [said]) :
    ∃ i, issues.filter (isLeftOpenAt line) = [i] ∧ i.leftOpen? = some said := by
  have hsome : ∀ i ∈ issues.filter (isLeftOpenAt line), i.leftOpen?.isSome = true := by
    intro i hi
    rw [leftOpen?, Option.isSome_map]
    exact (Bool.and_eq_true_iff.1 (List.mem_filter.1 hi).2).1
  have hlength : (issues.filter (isLeftOpenAt line)).length = 1 := by
    rw [← List.countP_eq_length.2 hsome, ← List.length_filterMap_eq_countP, h, List.length_singleton]
  obtain ⟨i, hi⟩ := List.length_eq_one_iff.1 hlength
  obtain ⟨said', hsaid⟩ := Option.isSome_iff_exists.1 (hsome i (hi ▸ List.mem_singleton_self i))
  rw [hi, List.filterMap_cons_some hsaid] at h
  exact ⟨i, hi, hsaid.trans (congrArg some (List.cons.inj h).1)⟩

/-- A complaint about brackets, literals and comments is none about blocks. -/
theorem not_about_blocks {issues : List Issue} (h : ∀ i ∈ issues, i.fault.isLexical = true) :
    issues.filterMap leftOpen? = [] ∧ issues.countP (·.fault.isStray) = 0 := by
  have hnone : ∀ i ∈ issues, i.leftOpen? = none ∧ i.fault.isStray = false := by
    intro i hi
    have hlexical := h i hi
    unfold leftOpen?
    cases hfault : i.fault with
    | notClosedBefore | neverClosed | strayCloser =>
      rw [hfault] at hlexical
      cases hlexical
    | _ => exact ⟨rfl, rfl⟩
  refine ⟨List.filterMap_eq_nil_iff.2 fun i hi => (hnone i hi).1, List.countP_eq_zero.2 fun i hi => ?_⟩
  rw [(hnone i hi).2]
  exact Bool.false_ne_true

end Issue

namespace Block

/-- The complaint that is due for the block. -/
def leftOpen? (b : Block) : Option (Nat × BlockKind × Nat) := b.entry.leftOpen?

theorem leftOpen?_eq_some {b : Block} {said : Nat × BlockKind × Nat} :
    b.leftOpen? = some said ↔ b.closed = false ∧ said = (b.startLine, b.kind, b.startLine) := by
  rw [leftOpen?, entry, Entry.leftOpen?]
  cases b.closed with
  | true => simp
  | false => simp [opening, eq_comm]

/-- Among blocks with header lines one behind the other no two are left open at one line. -/
theorem filter_leftOpen? {bs : List Block} (h : bs.Pairwise (·.startLine < ·.startLine)) {b : Block} (hb : b ∈ bs)
    (hopen : b.closed = false) :
    (bs.filterMap leftOpen?).filter (·.1 == b.startLine) = [(b.startLine, b.kind, b.startLine)] := by
  have hdue := leftOpen?_eq_some.2 ⟨hopen, rfl⟩
  induction h with
  | nil => cases hb
  | @cons c cs hlt hcs ih =>
    rcases List.mem_cons.1 hb with rfl | hb
    · have hnone : (cs.filterMap leftOpen?).filter (·.1 == b.startLine) = [] := by
        rw [List.filter_eq_nil_iff]
        intro said hsaid
        obtain ⟨d, hd, hsaid⟩ := List.mem_filterMap.1 hsaid
        rw [(leftOpen?_eq_some.1 hsaid).2, beq_iff_eq]
        exact Nat.ne_of_gt (hlt d hd)
      rw [List.filterMap_cons_some hdue, List.filter_cons, if_pos (beq_self_eq_true b.startLine), hnone]
    · cases hc : c.leftOpen? with
      | none =>
        rw [List.filterMap_cons_none hc]
        exact ih hb
      | some said =>
        have hother : ¬(said.1 == b.startLine) = true := by
          rw [(leftOpen?_eq_some.1 hc).2, beq_iff_eq]
          exact Nat.ne_of_lt (hlt b hb)
        rw [List.filterMap_cons_some hc, List.filter_cons, if_neg hother]
        exact ih hb

end Block

namespace Outline

open Block

/-- The outline and the issues of a text account for its headers and its closers. -/
structure Accounted (o : Outline) (issues : List Issue) : Prop where
  /-- every line that opens a block is the header of one, of that kind and style -/
  openings : (o.all.map Block.opening).Perm (o.lines.filterMap ScannedLine.opening?)
  blocks : o.all.length = o.lines.countP (·.opening?.isSome)
  /-- of a block that was not closed is complained once, at its header -/
  unclosed : ∀ b ∈ o.all, b.closed = false → (b.style = .keyword ∨ b.style = .brace) ∧
    ∃ i, issues.filter (·.isLeftOpenAt b.startLine) = [i] ∧ i.fault.leftOpen? = some (b.kind, b.startLine)
  complaints : ∀ i ∈ issues, i.fault.leftOpen?.isSome → ∃ b ∈ o.all, b.closed = false ∧ b.startLine = i.place.line
  /-- a closer ends a block or has no matching opener -/
  closers : o.lines.countP ScannedLine.isCloser =
    o.all.countP (fun b => b.closed && b.style != .indent) + issues.countP (·.fault.isStray)

/-- At the end of a text, where no block is open, the accounts are those of the outline. -/
theorem accounted_of_accounts {o : Outline} {issues : List Issue} {n : Nesting} (hroots : o.blocks = n.roots)
    (hstack : n.stack = [])
    (hn : n.Accounts (o.lines.filterMap ScannedLine.opening?) (o.lines.countP ScannedLine.isCloser))
    (hordered : o.all.Pairwise (·.startLine < ·.startLine))
    (hissues : (issues.filterMap Issue.leftOpen?).Perm (n.issues.toList.filterMap Issue.leftOpen?))
    (hstray : issues.countP (·.fault.isStray) = n.issues.toList.countP (·.fault.isStray)) : o.Accounted issues := by
  have hentries : n.entries = o.all.map Block.entry := by
    rw [Nesting.entries, hstack, ← hroots, List.flatMap_nil, List.append_nil, all]
  have hopenings : (o.all.map Block.opening).Perm (o.lines.filterMap ScannedLine.opening?) := by
    have hperm := hn.openings
    rwa [hentries, Nesting.heads, hstack, List.map_nil, List.map_nil, List.append_nil, List.map_map] at hperm
  have hcomplaints : (o.all.filterMap Block.leftOpen?).Perm (issues.filterMap Issue.leftOpen?) := by
    have hperm := hn.complaints.trans hissues.symm
    rwa [hentries, List.filterMap_map] at hperm
  refine ⟨hopenings, ?_, fun b hb hopen => ⟨?_, ?_⟩, fun i hi hsome => ?_, ?_⟩
  · rw [← List.length_map (f := Block.opening), hopenings.length_eq]
    exact List.length_filterMap_eq_countP ..
  · have hstyle : b.style ≠ .indent := hn.marked b.entry (hentries ▸ List.mem_map_of_mem hb) hopen
    cases hmark : b.style with
    | keyword => exact .inl rfl
    | brace => exact .inr rfl
    | indent => exact absurd hmark hstyle
  · -- no other block begins at this line, so that no other complaint can be due there
    have hone := (hcomplaints.filter (·.1 == b.startLine)).symm
    rw [Block.filter_leftOpen? hordered hb hopen, Issue.filter_leftOpen?, List.perm_singleton] at hone
    obtain ⟨i, hi, hsaid⟩ := Issue.eq_singleton_of_filterMap hone
    obtain ⟨said', hfault, heq⟩ := Option.map_eq_some_iff.1 hsaid
    exact ⟨i, hi, hfault.trans (congrArg some (Prod.mk.inj heq).2)⟩
  · obtain ⟨said, hsaid⟩ := Option.isSome_iff_exists.1 hsome
    have hmem : (i.place.line, said) ∈ issues.filterMap Issue.leftOpen? :=
      List.mem_filterMap.2 ⟨i, hi, by rw [Issue.leftOpen?, hsaid, Option.map_some]⟩
    obtain ⟨b, hb, hdue⟩ := List.mem_filterMap.1 (hcomplaints.mem_iff.2 hmem)
    obtain ⟨hopen, heq⟩ := Block.leftOpen?_eq_some.1 hdue
    exact ⟨b, hb, hopen, (congrArg Prod.fst heq).symm⟩
  · rw [hn.closers, hentries, List.countP_map, hstray]
    rfl

/-- Whatever order the headers and closers of a text come in, its outline accounts for all of them. -/
theorem accounted_ofText {text : List Char} (h : Text.isBlank text = false) :
    ∃ o, (ofText text).1 = some o ∧ o.Accounted (ofText text).2 := by
  have hbegin : ({} : Nesting).Accounts [] 0 := by
    refine ⟨.refl _, .refl _, fun e he => ?_, rfl⟩
    cases he
  have hread := hbegin.feedAll ((scan .pseudocode text).1.zip (Text.lines text))
  rw [List.map_fst_zip (Nat.le_of_eq (length_scan .pseudocode text)), List.nil_append, Nat.zero_add] at hread
  obtain ⟨hall, hstack⟩ := hread.finish
  generalize hn : (({} : Nesting).feedAll ((scan .pseudocode text).1.zip (Text.lines text))).finish = n at hall hstack
  have htext : ofText text = (some ⟨n.roots, (scan .pseudocode text).1⟩,
      Issue.sorted ((scan .pseudocode text).2 ++ n.issues.toList)) := by
    rw [ofText, h, ← hn]
    rfl
  have hissues := List.mergeSort_perm ((scan .pseudocode text).2 ++ n.issues.toList) Issue.notAfter
  have hlexical : ∀ i ∈ (scan .pseudocode text).2, i.fault.isLexical = true := fun i hi => isLexical_of_mem_scan hi
  obtain ⟨hscan, hscanned⟩ := Issue.not_about_blocks hlexical
  have hordered := (forestWithin_ofText (congrArg Prod.fst htext)).pairwise_preorder
  rw [htext]
  refine ⟨_, rfl, accounted_of_accounts rfl hstack hall hordered ?_ ?_⟩
  · refine (hissues.filterMap Issue.leftOpen?).trans ?_
    rw [List.filterMap_append, hscan, List.nil_append]
  · rw [Issue.sorted, hissues.countP_eq, List.countP_append, hscanned, Nat.zero_add]

/-- A closer that cuts a loop off, the closer of this loop, which comes too late, and a loop without a closer. -/
theorem accounted_of_crossed_closers : ∃ o,
    (ofText ("IF a THEN\n  WHILE b\n    c = 1\nEND IF\nEND WHILE\n" ++
      "FOR i IN s\n  if x:\n    d = 2\n").toList).1 = some o ∧
      o.Accounted (ofText ("IF a THEN\n  WHILE b\n    c = 1\nEND IF\nEND WHILE\n" ++
        "FOR i IN s\n  if x:\n    d = 2\n").toList).2 ∧
      o.all.map (fun b => (b.startLine, b.style, b.closed)) =
        [(1, .keyword, true), (2, .keyword, false), (6, .keyword, false), (7, .indent, true)] := by
  have hblank : Text.isBlank ("IF a THEN\n  WHILE b\n    c = 1\nEND IF\nEND WHILE\n" ++
      "FOR i IN s\n  if x:\n    d = 2\n").toList = false := by
    decide +kernel
  have hblocks : ((ofText ("IF a THEN\n  WHILE b\n    c = 1\nEND IF\nEND WHILE\n" ++
      "FOR i IN s\n  if x:\n    d = 2\n").toList).1.map fun o =>
        o.all.map fun b => (b.startLine, b.style, b.closed)) =
      some [(1, .keyword, true), (2, .keyword, false), (6, .keyword, false), (7, .indent, true)] := by
    decide +kernel
  obtain ⟨o, ho, haccounted⟩ := accounted_ofText hblank
  rw [ho] at hblocks
  exact ⟨o, ho, haccounted, Option.some.inj hblocks⟩

end Outline

end Pseudoscribe
