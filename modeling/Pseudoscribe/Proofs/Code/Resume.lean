import Pseudoscribe.Proofs.Code.FrameStep

/-!
# Resuming with nothing but a depth

When a source is cut, the generation of the second part knows how many blocks are open at the cut, and not
which: it begins with that many inherited frames, none of which ends by its indentation and each of which
any closer fits.  Here the frames of an uncut run are split into those that were opened behind the cut and
those from before it, and it is said exactly when the run that resumes with a depth nests every line as the
uncut run does.
-/

namespace Pseudoscribe

open Pseudoscribe.Frame

/-- How deep a line is nested. -/
structure LineNesting where
  /-- the level of indentation at which it is written; a closer is written at the level that it leaves -/
  level : Nat
  /-- how many blocks are open behind it -/
  behind : Nat
deriving DecidableEq, Repr

namespace FrameStep

/-- One of the frames is a loop that tests at its end. -/
def hasLoop (stack : List Frame) : Bool := stack.any (·.kind == .loopUntil)

/-- How much deeper than the frames that it leaves a closer is written: in Python the test of a loop is a
statement of the loop. -/
def testLevel (target : Target) (test : Bool) (stack : List Frame) : Nat :=
  if target = .python ∧ test = true ∧ hasLoop stack = true then 1 else 0

/-- How deep a line is nested that finds these frames open. -/
def nesting (target : Target) (s : FrameStep) (stack : List Frame) : LineNesting :=
  { behind := blocks (s.behind stack)
    level := match s.act with
      | .closes _ test => blocks (s.behind stack) + testLevel target test (s.dedented stack)
      | _ => if s.continuation then blocks (s.dedented stack) - 1 else blocks (s.dedented stack) }

/-- How deep lines are nested, one after the other; blank lines and lines inside of a literal are not. -/
def nestings (target : Target) : List Frame → List (Option FrameStep) → List (Option LineNesting)
  | _, [] => []
  | stack, none :: steps => none :: nestings target stack steps
  | stack, some s :: steps => some (s.nesting target stack) :: nestings target (s.behind stack) steps

/-- What a line leaves open follows from its level, unless it carries on where no block is open or is a test
that is written in one run only. -/
theorem nesting_eq_of_level_eq (target : Target) (s : FrameStep) {xs ys : List Frame}
    (hlevel : (s.nesting target xs).level = (s.nesting target ys).level)
    (hcont : s.continuation = true → blocks (s.dedented xs) ≠ 0 ∧ blocks (s.dedented ys) ≠ 0)
    (htest : ∀ kind test, s.act = .closes kind test →
      testLevel target test (s.dedented xs) = testLevel target test (s.dedented ys)) :
    s.nesting target xs = s.nesting target ys := by
  have hopen : (if s.continuation then blocks (s.dedented xs) - 1 else blocks (s.dedented xs)) =
      (if s.continuation then blocks (s.dedented ys) - 1 else blocks (s.dedented ys)) →
        blocks (s.dedented xs) = blocks (s.dedented ys) := by
    intro h
    by_cases hc : s.continuation = true
    · have hpos := hcont hc
      rw [if_pos hc, if_pos hc] at h
      omega
    · rwa [if_neg hc, if_neg hc] at h
  unfold nesting behind at hlevel ⊢
  cases hact : s.act with
  | keep =>
    rw [hact] at hlevel
    dsimp only at hlevel ⊢
    rw [hlevel, hopen hlevel]
  | opens f =>
    rw [hact] at hlevel
    dsimp only at hlevel ⊢
    rw [hlevel, blocks_cons, blocks_cons, hopen hlevel]
  | closes kind test =>
    rw [hact] at hlevel
    have hsame := htest kind test hact
    dsimp only at hlevel ⊢
    rw [LineNesting.mk.injEq]
    exact ⟨hlevel, by omega⟩

/-- Can a run that knows of `n` blocks only go on for the uncut run?  `own` are the frames that were opened
behind the cut, `base` those from before it.  A line that closes nothing has to find `n` blocks of `base`
open.  A closer that finds its frame among `own` has to end it in the uncut run too.  Any other closer ends
one of the `n` blocks, so that it has to leave one less in the uncut run; when none is left it ends
nothing. -/
def Resumes (target : Target) : List Frame → List Frame → Nat → List (Option FrameStep) → Prop
  | _, _, _, [] => True
  | own, base, n, none :: steps => Resumes target own base n steps
  | own, base, n, some s :: steps =>
    let own := s.dedented own
    let base := if own = [] then s.dedented base else base
    match s.act with
    | .keep => blocks base = n ∧ Resumes target own base n steps
    | .opens f => blocks base = n ∧ Resumes target (f :: own) base n steps
    | .closes kind test =>
      let left := closed kind test (own ++ base)
      match closeIndex? kind test own with
      | some i =>
        closeIndex? kind test (own ++ base) = some i ∧ blocks base = n ∧
          Resumes target (own.drop (i + 1)) base n steps
      | none =>
        testLevel target test base = 0 ∧
          if n ≠ 0 then blocks left + 1 = n ∧ Resumes target [] left (n - 1) steps
          else blocks left = blocks own ∧
            if closeIndex? kind test base = none then Resumes target own base 0 steps
            else Resumes target [] left 0 steps

/-! ## Frames that stand for the depth -/

/-- The frames that a run which began with a depth has below its own: inherited ones, or, when these are
used up, groups of its own that no closer fits any more. -/
structure Remains (n : Nat) (rest : List Frame) : Prop where
  inherited : n ≠ 0 → rest = List.replicate n inherited.bare
  groups : n = 0 → ∀ f ∈ rest, f.isGroup = true ∧ f.style = .indent

theorem remains_replicate (n : Nat) : Remains n (List.replicate n inherited.bare) :=
  ⟨fun _ => rfl, fun h => by simp [h]⟩

theorem Remains.blocks {n : Nat} {rest : List Frame} (h : Remains n rest) : blocks rest = n := by
  by_cases hn : n = 0
  · rw [hn, blocks_eq_zero_iff]
    exact fun f hf => (h.groups hn f hf).1
  · rw [h.inherited hn]
    unfold Frame.blocks
    rw [List.filter_replicate_of_pos rfl, List.length_replicate]

theorem Remains.dedented {n : Nat} {rest : List Frame} (h : Remains n rest) (s : FrameStep) :
    Remains n (s.dedented rest) := by
  refine ⟨fun hn => ?_, fun hn f hf => h.groups hn f (List.dropWhile_subset _ hf)⟩
  rw [h.inherited hn]
  obtain ⟨k, rfl⟩ := Nat.exists_eq_succ_of_ne_zero hn
  rfl

theorem Remains.drop_one {n : Nat} {rest : List Frame} (h : Remains n rest) (hn : n ≠ 0) :
    Remains (n - 1) (rest.drop 1) := by
  rw [h.inherited hn, List.drop_replicate]
  exact remains_replicate (n - 1)

theorem not_fits_of_indent {f : Frame} (h : f.style = .indent) (kind : Option BlockKind) :
    f.fits kind = false := by
  simp [fits, h]

/-! ## Closers -/

theorem hasLoop_append (xs ys : List Frame) : hasLoop (xs ++ ys) = (hasLoop xs || hasLoop ys) :=
  List.any_append

theorem findIdx?_loop_eq_none_iff {stack : List Frame} :
    stack.findIdx? (·.kind == .loopUntil) = none ↔ hasLoop stack = false := by
  rw [List.findIdx?_eq_none_iff, hasLoop, List.any_eq_false]
  simp only [Bool.not_eq_true]

theorem blocks_pos_of_hasLoop {stack : List Frame} (h : hasLoop stack = true) :
    0 < Frame.blocks stack := by
  obtain ⟨f, hf, hloop⟩ := List.any_eq_true.1 h
  rw [Nat.pos_iff_ne_zero, ne_eq, blocks_eq_zero_iff]
  intro hall
  have hgroup := hall f hf
  simp only [isGroup, beq_iff_eq] at hgroup hloop
  rw [hgroup] at hloop
  cases hloop

theorem Remains.hasLoop {n : Nat} {rest : List Frame} (h : Remains n rest) :
    hasLoop rest = false := by
  rw [FrameStep.hasLoop, List.any_eq_false]
  intro f hf
  by_cases hn : n = 0
  · have hgroup := (h.groups hn f hf).1
    simp only [isGroup, beq_iff_eq] at hgroup
    simp [hgroup]
  · rw [h.inherited hn] at hf
    rw [List.eq_of_mem_replicate hf]
    decide

theorem Remains.findIdx?_fits {n : Nat} {rest : List Frame} (h : Remains n rest)
    (kind : Option BlockKind) :
    rest.findIdx? (·.fits kind) = if n = 0 then none else some 0 := by
  split
  · next hn =>
    rw [List.findIdx?_eq_none_iff]
    exact fun f hf => not_fits_of_indent (h.groups hn f hf).2 kind
  · next hn =>
    obtain ⟨k, rfl⟩ := Nat.exists_eq_succ_of_ne_zero hn
    rw [h.inherited hn, List.replicate_succ, List.findIdx?_cons]
    cases kind <;> rfl

/-- A closer that finds nothing among the frames opened behind the cut ends one inherited frame, if there
is one left. -/
theorem Remains.closeIndex?_append {n : Nat} {rest : List Frame} (h : Remains n rest)
    (kind : Option BlockKind) (test : Bool) (own : List Frame) :
    closeIndex? kind test (own ++ rest) =
      (closeIndex? kind test own).or (if n = 0 then none else some own.length) := by
  unfold closeIndex?
  rw [List.findIdx?_append, List.findIdx?_append, findIdx?_loop_eq_none_iff.2 h.hasLoop,
    h.findIdx?_fits]
  by_cases hn : n = 0 <;> cases test <;> simp [hn]

theorem Remains.closeIndex?_own {n : Nat} {rest own : List Frame} (h : Remains n rest)
    {kind : Option BlockKind} {test : Bool} {i : Nat} (hown : closeIndex? kind test own = some i) :
    closeIndex? kind test (own ++ rest) = some i := by
  rw [h.closeIndex?_append, hown, Option.some_or]

theorem Remains.closeIndex?_none {rest own : List Frame} (h : Remains 0 rest)
    {kind : Option BlockKind} {test : Bool} (hown : closeIndex? kind test own = none) :
    closeIndex? kind test (own ++ rest) = none := by
  rw [h.closeIndex?_append, hown, Option.none_or, if_pos rfl]

/-- Where a closer finds its frame in the uncut run. -/
inductive Reach (kind : Option BlockKind) (test : Bool) (own base : List Frame) : Prop
  /-- behind the cut -/
  | own (i : Nat) (lt : i < own.length) (own_eq : closeIndex? kind test own = some i)
    (eq : closeIndex? kind test (own ++ base) = some i)
    (loop : test = true → hasLoop own = true ∨ hasLoop base = false)
  /-- before the cut -/
  | base (j : Nat) (base_eq : closeIndex? kind test base = some j)
    (eq : closeIndex? kind test (own ++ base) = some (own.length + j))
    (loop : test = true → hasLoop own = false)
    (passed : closeIndex? kind test own = none ∨ hasLoop (base.take (j + 1)) = true)
  /-- nowhere -/
  | none (own_eq : closeIndex? kind test own = none) (base_eq : closeIndex? kind test base = none)
    (eq : closeIndex? kind test (own ++ base) = none)
    (loop : test = true → hasLoop own = false ∧ hasLoop base = false)

theorem closeIndex?_of_loop {stack : List Frame} {i : Nat} (kind : Option BlockKind)
    (h : stack.findIdx? (·.kind == .loopUntil) = some i) : closeIndex? kind true stack = some i := by
  rw [closeIndex?, if_pos rfl, h, Option.some_or]

theorem closeIndex?_of_noLoop {stack : List Frame} {test : Bool} (kind : Option BlockKind)
    (h : test = true → hasLoop stack = false) :
    closeIndex? kind test stack = stack.findIdx? (·.fits kind) := by
  unfold closeIndex?
  split
  · next ht => rw [findIdx?_loop_eq_none_iff.2 (h ht), Option.none_or]
  · rw [Option.none_or]

theorem reach_of_noLoop (kind : Option BlockKind) {test : Bool} {own base : List Frame}
    (hown : test = true → hasLoop own = false) (hbase : test = true → hasLoop base = false) :
    Reach kind test own base := by
  have happ : test = true → hasLoop (own ++ base) = false := by
    intro ht
    rw [hasLoop_append, hown ht, hbase ht, Bool.or_self]
  have heq := closeIndex?_of_noLoop kind happ
  rw [List.findIdx?_append] at heq
  cases ho : own.findIdx? (·.fits kind) with
  | some i =>
    rw [ho, Option.some_or] at heq
    have hlt := (List.findIdx?_eq_some_iff_findIdx_eq.1 ho).1
    exact .own i hlt ((closeIndex?_of_noLoop kind hown).trans ho) heq fun ht => .inr (hbase ht)
  | none =>
    have hnone := (closeIndex?_of_noLoop kind hown).trans ho
    rw [ho, Option.none_or] at heq
    cases hb : base.findIdx? (·.fits kind) with
    | some j =>
      rw [hb, Option.map_some, Nat.add_comm] at heq
      exact .base j ((closeIndex?_of_noLoop kind hbase).trans hb) heq hown (.inl hnone)
    | none =>
      rw [hb] at heq
      exact .none hnone ((closeIndex?_of_noLoop kind hbase).trans hb) heq fun ht => ⟨hown ht, hbase ht⟩

theorem reach (kind : Option BlockKind) (test : Bool) (own base : List Frame) :
    Reach kind test own base := by
  cases test with
  | false => exact reach_of_noLoop kind (by simp) (by simp)
  | true =>
    have happ : (own ++ base).findIdx? (·.kind == .loopUntil) = _ := List.findIdx?_append
    cases ho : own.findIdx? (·.kind == .loopUntil) with
    | some i =>
      rw [ho, Option.some_or] at happ
      have hlt := (List.findIdx?_eq_some_iff_findIdx_eq.1 ho).1
      have hloop : hasLoop own = true := by
        rw [← Bool.not_eq_false, ← findIdx?_loop_eq_none_iff, ho]
        simp
      exact .own i hlt (closeIndex?_of_loop kind ho) (closeIndex?_of_loop kind happ) fun _ => .inl hloop
    | none =>
      have hown := findIdx?_loop_eq_none_iff.1 ho
      rw [ho, Option.none_or] at happ
      cases hb : base.findIdx? (·.kind == .loopUntil) with
      | none => exact reach_of_noLoop kind (fun _ => hown) fun _ => findIdx?_loop_eq_none_iff.1 hb
      | some j =>
        rw [hb, Option.map_some, Nat.add_comm] at happ
        obtain ⟨hlt, hloop, -⟩ := List.findIdx?_eq_some_iff_getElem.1 hb
        have hmem : base[j] ∈ base.take (j + 1) := List.mem_take_iff_getElem.2 ⟨j, by omega, rfl⟩
        exact .base j (closeIndex?_of_loop kind hb) (closeIndex?_of_loop kind happ) (fun _ => hown)
          (.inr (List.any_eq_true.2 ⟨base[j], hmem, hloop⟩))

theorem closeIndex?_lt {kind : Option BlockKind} {test : Bool} {stack : List Frame} {i : Nat}
    (h : closeIndex? kind test stack = some i) : i < stack.length := by
  rcases Option.or_eq_some_iff.1 h with h | ⟨-, h⟩
  · split at h
    · exact (List.findIdx?_eq_some_iff_findIdx_eq.1 h).1
    · cases h
  · exact (List.findIdx?_eq_some_iff_findIdx_eq.1 h).1

theorem closed_of_some {kind : Option BlockKind} {test : Bool} {stack : List Frame} {i : Nat}
    (h : closeIndex? kind test stack = some i) : closed kind test stack = stack.drop (i + 1) := by
  rw [closed, h]

theorem closed_of_none {kind : Option BlockKind} {test : Bool} {stack : List Frame}
    (h : closeIndex? kind test stack = none) : closed kind test stack = stack := by
  rw [closed, h]

theorem drop_length_add_succ (own base : List Frame) (j : Nat) :
    (own ++ base).drop (own.length + j + 1) = base.drop (j + 1) := by
  rw [Nat.add_assoc, List.drop_length_add_append]

/-- Frames that no closer of a kind fits while it fits a group are indented groups, if they are groups. -/
theorem remains_of_passed {kind : Option BlockKind} {test : Bool} {own base rest : List Frame} {j : Nat}
    (h : Remains 0 rest) (hown : blocks own = 0) (hbase : blocks base = 0)
    (hpass : closeIndex? kind test own = none) (hbaseIdx : closeIndex? kind test base = some j) :
    Remains 0 (own ++ rest) := by
  refine ⟨fun hn => absurd rfl hn, fun _ f hf => ?_⟩
  rcases List.mem_append.1 hf with hf | hf
  · have hnoLoop : hasLoop base = false := by
      rw [← Bool.not_eq_true]
      intro hloop
      have hpos := blocks_pos_of_hasLoop hloop
      omega
    rw [closeIndex?_of_noLoop kind fun _ => hnoLoop] at hbaseIdx
    obtain ⟨hlt, hfits, -⟩ := List.findIdx?_eq_some_iff_getElem.1 hbaseIdx
    have hgroup := blocks_eq_zero_iff.1 hbase _ (List.getElem_mem hlt)
    have hfgroup := blocks_eq_zero_iff.1 hown f hf
    have hffits : f.fits kind = false := by
      have hnone := Option.or_eq_none_iff.1 hpass
      exact List.findIdx?_eq_none_iff.1 hnone.2 f hf
    refine ⟨hfgroup, ?_⟩
    simp only [isGroup, beq_iff_eq] at hgroup hfgroup
    cases kind with
    | none => simpa [fits, hfgroup] using hffits
    | some k =>
      simp only [fits, hgroup, hfgroup, Bool.and_eq_true, beq_iff_eq] at hfits hffits
      simpa [hfits.2] using hffits
  · exact h.groups rfl f hf

theorem testLevel_of_noLoop (target : Target) {test : Bool} {stack : List Frame}
    (h : test = true → hasLoop stack = false) : testLevel target test stack = 0 := by
  unfold testLevel
  rw [if_neg]
  rintro ⟨-, ht, hloop⟩
  rw [h ht] at hloop
  cases hloop

theorem testLevel_congr (target : Target) {test : Bool} {xs ys : List Frame}
    (h : test = true → hasLoop xs = hasLoop ys) : testLevel target test xs = testLevel target test ys := by
  cases test with
  | false => simp [testLevel]
  | true => rw [testLevel, testLevel, h rfl]

theorem testLevel_append (target : Target) {test : Bool} {own : List Frame} (base : List Frame)
    (h : test = true → hasLoop own = false) :
    testLevel target test (own ++ base) = testLevel target test base := by
  refine testLevel_congr target fun ht => ?_
  rw [hasLoop_append, h ht, Bool.false_or]

/-- The two runs agree at a closer and behind it. -/
def ClosesAlike (target : Target) (kind : Option BlockKind) (test : Bool) (xs ys : List Frame)
    (steps : List (Option FrameStep)) : Prop :=
  blocks (closed kind test xs) = blocks (closed kind test ys) ∧
    testLevel target test xs = testLevel target test ys ∧
    nestings target (closed kind test xs) steps = nestings target (closed kind test ys) steps

variable {target : Target} {steps : List (Option FrameStep)}

section Closers

-- Only at the first line behind the cut can more blocks be open than the resumed run knows of: from then on
-- the runs agree, and the indentation of a line ends blocks of `base` and no inherited ones.
variable
  (ih : ∀ (own : List Frame) {base rest : List Frame} {n : Nat}, Remains n rest →
    (own = [] ∨ blocks base ≤ n) →
    (nestings target (own ++ rest) steps = nestings target (own ++ base) steps ↔
      Resumes target own base n steps))
  {kind : Option BlockKind} {test : Bool} {own base rest : List Frame} {n : Nat}
  (h : Remains n rest)

include ih h

theorem closesAlike_own {i : Nat} (hlt : i < own.length) (hown : closeIndex? kind test own = some i)
    (hwhole : closeIndex? kind test (own ++ base) = some i)
    (hloop : test = true → hasLoop own = true ∨ hasLoop base = false) :
    ClosesAlike target kind test (own ++ rest) (own ++ base) steps ↔
      blocks base = n ∧ Resumes target (own.drop (i + 1)) base n steps := by
  have hpart := h.closeIndex?_own hown
  have hlevel : testLevel target test (own ++ rest) = testLevel target test (own ++ base) := by
    refine testLevel_congr target fun ht => ?_
    rw [hasLoop_append, hasLoop_append, h.hasLoop]
    rcases hloop ht with hl | hl <;> simp [hl]
  unfold ClosesAlike
  rw [closed_of_some hpart, closed_of_some hwhole, List.drop_append_of_le_length hlt,
    List.drop_append_of_le_length hlt, blocks_append, blocks_append, h.blocks]
  constructor
  · rintro ⟨hblocks, -, htail⟩
    have hbase : blocks base = n := by omega
    exact ⟨hbase, (ih _ h (.inr (Nat.le_of_eq hbase))).1 htail⟩
  · rintro ⟨hbase, hres⟩
    exact ⟨by omega, hlevel, (ih _ h (.inr (Nat.le_of_eq hbase))).2 hres⟩

/-- The resumed run ends an inherited frame and the uncut run may end whatever it finds. -/
theorem closesAlike_inherited (hn : n ≠ 0) (hown : closeIndex? kind test own = none)
    (hloop : test = true → hasLoop own = false) :
    ClosesAlike target kind test (own ++ rest) (own ++ base) steps ↔
      testLevel target test base = 0 ∧ blocks (closed kind test (own ++ base)) + 1 = n ∧
        Resumes target [] (closed kind test (own ++ base)) (n - 1) steps := by
  have hpart := h.closeIndex?_append kind test own
  rw [hown, Option.none_or, if_neg hn] at hpart
  have hlevelPart := testLevel_append target rest hloop
  rw [testLevel_of_noLoop target fun _ => h.hasLoop] at hlevelPart
  have hlevelWhole := testLevel_append target base hloop
  have hih : nestings target ([] ++ rest.drop 1) steps =
      nestings target ([] ++ closed kind test (own ++ base)) steps ↔
        Resumes target [] (closed kind test (own ++ base)) (n - 1) steps :=
    ih [] (h.drop_one hn) (.inl rfl)
  rw [List.nil_append, List.nil_append] at hih
  unfold ClosesAlike
  rw [closed_of_some hpart, List.drop_length_add_append, (h.drop_one hn).blocks, hlevelPart,
    hlevelWhole, hih]
  constructor
  · rintro ⟨hblocks, hlevel, hres⟩
    exact ⟨hlevel.symm, by omega, hres⟩
  · rintro ⟨hlevel, hblocks, hres⟩
    exact ⟨by omega, hlevel.symm, hres⟩

theorem closesAlike_none (hown : closeIndex? kind test own = none)
    (hwhole : closeIndex? kind test (own ++ base) = none)
    (hloop : test = true → hasLoop base = false) (hn : n = 0) :
    ClosesAlike target kind test (own ++ rest) (own ++ base) steps ↔
      testLevel target test base = 0 ∧ blocks (own ++ base) = blocks own ∧
        Resumes target own base 0 steps := by
  subst hn
  have hpart := h.closeIndex?_none hown
  have hlevel : testLevel target test (own ++ rest) = testLevel target test (own ++ base) := by
    refine testLevel_congr target fun ht => ?_
    rw [hasLoop_append, hasLoop_append, h.hasLoop, hloop ht]
  unfold ClosesAlike
  rw [closed_of_none hpart, closed_of_none hwhole, testLevel_of_noLoop target hloop, blocks_append,
    blocks_append, h.blocks]
  constructor
  · rintro ⟨hblocks, -, htail⟩
    exact ⟨rfl, hblocks.symm, (ih own h (.inr (by omega))).1 htail⟩
  · rintro ⟨-, hblocks, hres⟩
    exact ⟨hblocks.symm, hlevel, (ih own h (.inr (by omega))).2 hres⟩

theorem closesAlike_base (hinv : own = [] ∨ blocks base ≤ n) {j : Nat}
    (hbaseIdx : closeIndex? kind test base = some j)
    (hwhole : closeIndex? kind test (own ++ base) = some (own.length + j))
    (hloop : test = true → hasLoop own = false) (hown : closeIndex? kind test own = none)
    (hn : n = 0) :
    ClosesAlike target kind test (own ++ rest) (own ++ base) steps ↔
      testLevel target test base = 0 ∧ blocks (base.drop (j + 1)) = blocks own ∧
        Resumes target [] (base.drop (j + 1)) 0 steps := by
  subst hn
  have hpart := h.closeIndex?_none hown
  have hlevelPart := testLevel_append target rest hloop
  rw [testLevel_of_noLoop target fun _ => h.hasLoop] at hlevelPart
  have hlevelWhole := testLevel_append target base hloop
  have hsplit := blocks_take_add_drop base (j + 1)
  have hremains (hblocks : blocks (base.drop (j + 1)) = blocks own) : Remains 0 (own ++ rest) := by
    -- the frames of the resumed run that are passed over can only be groups
    rcases hinv with rfl | hle
    · exact h
    · exact remains_of_passed h (by omega) (by omega) hown hbaseIdx
  unfold ClosesAlike
  rw [closed_of_none hpart, closed_of_some hwhole, drop_length_add_succ, hlevelPart, hlevelWhole,
    blocks_append, h.blocks]
  constructor
  · rintro ⟨hblocks, hlevel, htail⟩
    exact ⟨hlevel.symm, hblocks.symm, (ih [] (hremains hblocks.symm) (.inl rfl)).1 htail⟩
  · rintro ⟨hlevel, hblocks, hres⟩
    exact ⟨hblocks.symm, hlevel.symm, (ih [] (hremains hblocks) (.inl rfl)).2 hres⟩

omit ih in
/-- A closer that ends a loop from before the cut, although a frame behind the cut fits it, leaves fewer blocks
than the resumed run has inherited. -/
theorem not_closesAlike_passed (hinv : own = [] ∨ blocks base ≤ n) {i j : Nat}
    (hown : closeIndex? kind test own = some i)
    (hwhole : closeIndex? kind test (own ++ base) = some (own.length + j))
    (hpass : hasLoop (base.take (j + 1)) = true) :
    ¬ ClosesAlike target kind test (own ++ rest) (own ++ base) steps := by
  have hlt := closeIndex?_lt hown
  have hpart := h.closeIndex?_own hown
  have hpos := blocks_pos_of_hasLoop hpass
  have hsplit := blocks_take_add_drop base (j + 1)
  -- not the first line behind the cut, for then it would have no frames of its own
  have hle : blocks base ≤ n := by
    refine hinv.resolve_left ?_
    rintro rfl
    exact Nat.not_lt_zero i hlt
  rintro ⟨hblocks, -⟩
  rw [closed_of_some hpart, closed_of_some hwhole, drop_length_add_succ, List.drop_append_of_le_length hlt,
    blocks_append, h.blocks] at hblocks
  omega

theorem closesAlike_iff (hinv : own = [] ∨ blocks base ≤ n) :
    ClosesAlike target kind test (own ++ rest) (own ++ base) steps ↔
      match closeIndex? kind test own with
      | some i =>
        closeIndex? kind test (own ++ base) = some i ∧ blocks base = n ∧
          Resumes target (own.drop (i + 1)) base n steps
      | none =>
        testLevel target test base = 0 ∧
          if n ≠ 0 then
            blocks (closed kind test (own ++ base)) + 1 = n ∧
              Resumes target [] (closed kind test (own ++ base)) (n - 1) steps
          else blocks (closed kind test (own ++ base)) = blocks own ∧
            if closeIndex? kind test base = none then Resumes target own base 0 steps
            else Resumes target [] (closed kind test (own ++ base)) 0 steps := by
  cases reach kind test own base with
  | own i hlt hown hwhole hloop =>
    rw [closesAlike_own ih h hlt hown hwhole hloop, hown, hwhole]
    simp only [true_and]
  | base j hbaseIdx hwhole hloop hpass =>
    cases hown : closeIndex? kind test own with
    | some i =>
      have hlt := closeIndex?_lt hown
      have hne : own.length + j ≠ i := by omega
      have hnot : ¬ ClosesAlike target kind test (own ++ rest) (own ++ base) steps :=
        not_closesAlike_passed h hinv hown hwhole (hpass.resolve_left (by simp [hown]))
      simp only [hnot, hwhole, Option.some.injEq, hne, false_and]
    | none =>
      by_cases hn : n = 0
      · rw [closesAlike_base ih h hinv hbaseIdx hwhole hloop hown hn, closed_of_some hwhole,
          drop_length_add_succ]
        simp [hn, hbaseIdx]
      · rw [closesAlike_inherited ih h hn hown hloop]
        simp [hn]
  | none hown hbaseIdx hwhole hloop =>
    rw [hown]
    by_cases hn : n = 0
    · rw [closesAlike_none ih h hown hwhole (fun ht => (hloop ht).2) hn, closed_of_none hwhole]
      simp [hn, hbaseIdx]
    · rw [closesAlike_inherited ih h hn hown fun ht => (hloop ht).1]
      simp [hn]

end Closers

/-! ## Whole runs -/

theorem dedented_append (s : FrameStep) (own rest : List Frame) :
    s.dedented (own ++ rest) =
      s.dedented own ++ if s.dedented own = [] then s.dedented rest else rest := by
  unfold dedented
  rw [List.dropWhile_append]
  simp only [List.isEmpty_iff]
  split
  · next h => rw [h, List.nil_append]
  · rfl

/-- A run that begins with a depth nests its lines as the uncut run does exactly when it resumes it. -/
theorem nestings_eq_iff_resumes (own : List Frame) {base rest : List Frame} {n : Nat}
    (h : Remains n rest) (hinv : own = [] ∨ blocks base ≤ n) (steps : List (Option FrameStep)) :
    nestings target (own ++ rest) steps = nestings target (own ++ base) steps ↔
      Resumes target own base n steps := by
  induction steps generalizing own base rest n with
  | nil => simp [nestings, Resumes]
  | cons step steps ih =>
    cases step with
    | none => simp only [nestings, Resumes, List.cons.injEq, true_and, ih own h hinv]
    | some s =>
      have hrest : Remains n (if s.dedented own = [] then s.dedented rest else rest) := by
        split
        · exact h.dedented s
        · exact h
      have hinv' : s.dedented own = [] ∨
          blocks (if s.dedented own = [] then s.dedented base else base) ≤ n := by
        by_cases hown : s.dedented own = []
        · exact .inl hown
        · rw [if_neg hown]
          refine .inr (hinv.resolve_left ?_)
          rintro rfl
          exact hown rfl
      have hpart := s.dedented_append own rest
      have hwhole := s.dedented_append own base
      rw [nestings, nestings, Resumes, List.cons.injEq, Option.some.injEq]
      -- from here on only what the line finds open is of interest, not how it got there
      generalize (if s.dedented own = [] then s.dedented rest else rest) = rest' at hrest hpart
      generalize (if s.dedented own = [] then s.dedented base else base) = base' at hinv' hwhole ⊢
      generalize s.dedented own = own' at hinv' hpart hwhole ⊢
      have hblocks : blocks (own' ++ rest') = blocks (own' ++ base') ↔ blocks base' = n := by
        rw [blocks_append, blocks_append, hrest.blocks]
        omega
      unfold nesting behind
      rw [hpart, hwhole, LineNesting.mk.injEq]
      cases s.act with
      | keep =>
        dsimp only
        rw [hblocks]
        constructor
        · rintro ⟨⟨-, hb⟩, htail⟩
          exact ⟨hb, (ih own' hrest (.inr (Nat.le_of_eq hb))).1 htail⟩
        · rintro ⟨hb, hres⟩
          exact ⟨⟨by rw [hblocks.2 hb], hb⟩, (ih own' hrest (.inr (Nat.le_of_eq hb))).2 hres⟩
      | opens f =>
        have hih (hb : blocks base' = n) : nestings target (f :: own' ++ rest') steps =
            nestings target (f :: own' ++ base') steps ↔ Resumes target (f :: own') base' n steps :=
          ih (f :: own') hrest (.inr (Nat.le_of_eq hb))
        dsimp only
        rw [blocks_cons, blocks_cons, Nat.add_left_cancel_iff, hblocks]
        constructor
        · rintro ⟨⟨-, hb⟩, htail⟩
          exact ⟨hb, (hih hb).1 htail⟩
        · rintro ⟨hb, hres⟩
          exact ⟨⟨by rw [hblocks.2 hb], hb⟩, (hih hb).2 hres⟩
      | closes kind test =>
        dsimp only
        rw [← closesAlike_iff ih hrest hinv']
        unfold ClosesAlike
        constructor
        · rintro ⟨⟨hlevel, hbehind⟩, htail⟩
          exact ⟨hbehind, by omega, htail⟩
        · rintro ⟨hbehind, hlevel, htail⟩
          exact ⟨⟨by omega, hbehind⟩, htail⟩

/-- Where nothing is open there is nothing to resume. -/
theorem resumes_of_nothing_open (own : List Frame) (steps : List (Option FrameStep)) :
    Resumes target own [] 0 steps := by
  induction steps generalizing own with
  | nil => trivial
  | cons step steps ih =>
    cases step with
    | none => exact ih own
    | some s =>
      have hbase : (if s.dedented own = [] then s.dedented [] else []) = [] := by split <;> rfl
      rw [Resumes]
      dsimp only
      rw [hbase, List.append_nil]
      cases s.act with
      | keep => exact ⟨rfl, ih _⟩
      | opens f => exact ⟨rfl, ih _⟩
      | closes kind test =>
        dsimp only
        cases hi : closeIndex? kind test (s.dedented own) with
        | some i => exact ⟨rfl, rfl, ih _⟩
        | none =>
          have hnone : closeIndex? kind test [] = none := by cases test <;> rfl
          refine ⟨testLevel_of_noLoop target fun _ => rfl, ?_⟩
          rw [if_neg fun h => h rfl, closed_of_none hi, if_pos hnone]
          exact ⟨rfl, ih _⟩

end FrameStep

end Pseudoscribe
