import Pseudoscribe.Proofs.Block.Forest

/-!
# Blocks as intervals of lines

All blocks of an outline, with those inside of others, are intervals of the text's lines.  A block inside of
another begins behind its header and ends with it at the latest, and blocks side by side have no line in common.
So the blocks that hold a line are a chain from an outermost block inwards, and how deep a line lies is how many
blocks it is inside of.
-/

namespace Pseudoscribe

namespace Block

mutual

/-- The block and the blocks inside of it, each before those that it holds. -/
def preorder : Block → List Block
  | b@⟨_, _, _, _, _, _, children⟩ => b :: forestPreorder children

/-- The blocks of a forest and the blocks inside of them. -/
def forestPreorder : List Block → List Block
  | [] => []
  | b :: bs => preorder b ++ forestPreorder bs

end

/-- The line is the header of the block or lies inside of it. -/
def holds (b : Block) (line : Nat) : Bool := b.startLine ≤ line && line ≤ b.endLine

/-! ## Intervals -/

theorem Within.children {lo : Nat} {b : Block} (h : b.Within lo) :
    ForestWithin b.startLine b.endLine b.children := by
  obtain ⟨_, _, _, startLine, endLine, _, children⟩ := b
  rw [Within] at h
  exact h.2

theorem ForestWithin.head {lo hi : Nat} {b : Block} {bs : List Block} (h : ForestWithin lo hi (b :: bs)) :
    b.Within lo := by
  rw [ForestWithin] at h
  exact h.1

theorem ForestWithin.tail {lo hi : Nat} {b : Block} {bs : List Block} (h : ForestWithin lo hi (b :: bs)) :
    ForestWithin b.endLine hi bs := by
  rw [ForestWithin] at h
  exact h.2

theorem ForestWithin.of_mem {lo hi : Nat} {b : Block} {bs : List Block} (h : ForestWithin lo hi bs)
    (hb : b ∈ bs) : b.Within lo ∧ b.endLine ≤ hi := by
  induction bs generalizing lo with
  | nil => simp at hb
  | cons c cs ih =>
    rcases List.mem_cons.1 hb with rfl | hb
    · exact ⟨h.head, h.tail.le⟩
    · obtain ⟨hin, hend⟩ := ih h.tail hb
      exact ⟨hin.mono (Nat.le_of_lt h.head.lt_endLine), hend⟩

theorem ForestWithin.disjoint {lo hi : Nat} {bs : List Block} (h : ForestWithin lo hi bs) :
    bs.Pairwise (·.endLine < ·.startLine) := by
  induction bs generalizing lo with
  | nil => exact .nil
  | cons b bs ih =>
    refine .cons (fun c hc => ?_) (ih h.tail)
    exact (h.tail.of_mem hc).1.startLine.1

mutual

/-- A block inside of another lies between the lines that the other lies between. -/
theorem Within.of_mem_preorder {lo hi : Nat} :
    ∀ {b c : Block}, b.Within lo → b.endLine ≤ hi → c ∈ b.preorder → c.Within lo ∧ c.endLine ≤ hi
  | ⟨_, _, _, startLine, endLine, _, children⟩, c, h, hend, hc => by
    rw [preorder] at hc
    rcases List.mem_cons.1 hc with rfl | hc
    · exact ⟨h, hend⟩
    · obtain ⟨hin, hle⟩ := h.children.of_mem_preorder hc
      exact ⟨hin.mono (Nat.le_of_lt h.startLine.1), Nat.le_trans hle hend⟩

theorem ForestWithin.of_mem_preorder {lo hi : Nat} :
    ∀ {bs : List Block} {c : Block}, ForestWithin lo hi bs → c ∈ forestPreorder bs →
      c.Within lo ∧ c.endLine ≤ hi
  | b :: bs, c, h, hc => by
    rw [forestPreorder, List.mem_append] at hc
    rcases hc with hc | hc
    · exact h.head.of_mem_preorder h.tail.le hc
    · obtain ⟨hin, hle⟩ := h.tail.of_mem_preorder hc
      exact ⟨hin.mono (Nat.le_of_lt h.head.lt_endLine), hle⟩

end

theorem forestPreorder_append (xs ys : List Block) :
    forestPreorder (xs ++ ys) = forestPreorder xs ++ forestPreorder ys := by
  induction xs with
  | nil => rfl
  | cons x xs ih => rw [List.cons_append, forestPreorder, forestPreorder, ih, List.append_assoc]

mutual

/-- The headers of blocks that lie in order follow one another. -/
theorem Within.pairwise_preorder {lo : Nat} :
    ∀ {b : Block}, b.Within lo → b.preorder.Pairwise (·.startLine < ·.startLine)
  | ⟨_, _, _, _, _, _, children⟩, h => by
    rw [preorder]
    refine .cons (fun c hc => ?_) h.children.pairwise_preorder
    exact (h.children.of_mem_preorder hc).1.startLine.1

theorem ForestWithin.pairwise_preorder {lo hi : Nat} :
    ∀ {bs : List Block}, ForestWithin lo hi bs → (forestPreorder bs).Pairwise (·.startLine < ·.startLine)
  | [], _ => .nil
  | b :: bs, h => by
    rw [forestPreorder, List.pairwise_append]
    refine ⟨h.head.pairwise_preorder, h.tail.pairwise_preorder, fun c hc d hd => ?_⟩
    obtain ⟨hin, hend⟩ := h.head.of_mem_preorder (Nat.le_refl b.endLine) hc
    have hlast := hin.startLine.2
    have hnext := (h.tail.of_mem_preorder hd).1.startLine.1
    omega

end

/-! ## The blocks around a line -/

/-- The blocks of a forest that hold a line, from the outermost inwards. -/
def around (bs : List Block) (line : Nat) : List Block := (forestPreorder bs).filter (·.holds line)

/-- Blocks of which each is the parent of the next; the first is one of the given. -/
def ChainFrom : List Block → List Block → Prop
  | _, [] => True
  | bs, b :: rest => b ∈ bs ∧ ChainFrom b.children rest

theorem ChainFrom.mono {bs bs' rest : List Block} (h : ChainFrom bs rest) (hsub : bs ⊆ bs') :
    ChainFrom bs' rest := by
  cases rest with
  | nil => trivial
  | cons b rest => exact ⟨hsub h.1, h.2⟩

theorem filter_holds_eq_nil {lo hi line : Nat} {bs : List Block} (h : ForestWithin lo hi bs)
    (hline : line ≤ lo ∨ hi < line) : around bs line = [] := by
  rw [around, List.filter_eq_nil_iff]
  intro c hc
  obtain ⟨hin, hend⟩ := h.of_mem_preorder hc
  have hstart := hin.startLine
  simp only [holds, Bool.and_eq_true, decide_eq_true_eq]
  omega

mutual

theorem Within.chain {lo line : Nat} :
    ∀ {b : Block}, b.Within lo → ChainFrom [b] (b.preorder.filter (·.holds line))
  | ⟨kind, style, header, startLine, endLine, closed, children⟩, h => by
    rw [preorder, List.filter_cons]
    split
    · exact ⟨List.mem_singleton_self _, h.children.chain⟩
    · next hout =>
      -- a line that the block does not hold is held by none of the blocks inside
      have hnone : around children line = [] := by
        refine filter_holds_eq_nil h.children ?_
        simp only [holds, Bool.and_eq_true, decide_eq_true_eq] at hout
        show line ≤ startLine ∨ endLine < line
        omega
      show ChainFrom _ (around children line)
      rw [hnone]
      trivial

theorem ForestWithin.chain {lo hi line : Nat} :
    ∀ {bs : List Block}, ForestWithin lo hi bs → ChainFrom bs (around bs line)
  | [], _ => trivial
  | b :: bs, h => by
    rw [around, forestPreorder, List.filter_append]
    -- the line lies before all later blocks, or behind the first one
    by_cases hline : line ≤ b.endLine
    · have hnone : around bs line = [] := filter_holds_eq_nil h.tail (.inl hline)
      rw [around] at hnone
      rw [hnone, List.append_nil]
      exact h.head.chain.mono (List.cons_subset_cons b (List.nil_subset bs))
    · have hnone : b.preorder.filter (·.holds line) = [] := by
        rw [List.filter_eq_nil_iff]
        intro c hc
        obtain ⟨-, hend⟩ := h.head.of_mem_preorder (Nat.le_refl b.endLine) hc
        simp only [holds, Bool.and_eq_true, decide_eq_true_eq]
        omega
      rw [hnone, List.nil_append]
      exact h.tail.chain.mono (List.subset_cons_self b bs)

end

mutual

theorem depthAt_eq_countP (line : Nat) :
    ∀ b : Block, b.depthAt line = b.preorder.countP (·.isInside line)
  | ⟨kind, style, header, startLine, endLine, closed, children⟩ => by
    rw [depthAt, preorder, List.countP_cons, forestDepthAt_eq_countP line children, Nat.add_comm]

theorem forestDepthAt_eq_countP (line : Nat) :
    ∀ bs : List Block, forestDepthAt line bs = (forestPreorder bs).countP (·.isInside line)
  | [] => by rw [forestDepthAt, forestPreorder, List.countP_nil]
  | b :: bs => by
    rw [forestDepthAt, forestPreorder, List.countP_append, depthAt_eq_countP line b,
      forestDepthAt_eq_countP line bs]

end

theorem mem_preorder {b c : Block} : c ∈ b.preorder ↔ c = b ∨ c ∈ forestPreorder b.children := by
  obtain ⟨kind, style, header, startLine, endLine, closed, children⟩ := b
  rw [preorder, List.mem_cons]

/-- A line inside of some block is inside of an outermost one. -/
theorem ForestWithin.exists_isInside_iff {lo hi line : Nat} {bs : List Block} (h : ForestWithin lo hi bs) :
    (∃ c ∈ forestPreorder bs, c.isInside line = true) ↔ ∃ b ∈ bs, b.isInside line = true := by
  induction bs generalizing lo with
  | nil => simp [forestPreorder]
  | cons b bs ih =>
    have hhead : (∃ c ∈ b.preorder, c.isInside line = true) ↔ b.isInside line = true := by
      constructor
      · rintro ⟨c, hc, hin⟩
        rcases mem_preorder.1 hc with rfl | hc
        · exact hin
        · -- a block inside lies between the header and the last line of the block around it
          obtain ⟨hstart, hend⟩ := h.head.children.of_mem_preorder hc
          have hlo := hstart.startLine.1
          simp only [isInside, Bool.and_eq_true, decide_eq_true_eq] at hin ⊢
          omega
      · intro hin
        exact ⟨b, mem_preorder.2 (.inl rfl), hin⟩
    simp only [forestPreorder, List.mem_append, List.mem_cons, or_and_right, exists_or, exists_eq_left, hhead,
      ih h.tail]

theorem ForestWithin.depthAt_pos_iff {lo hi line : Nat} {bs : List Block} (h : ForestWithin lo hi bs) :
    0 < forestDepthAt line bs ↔ ∃ b ∈ bs, b.isInside line = true := by
  rw [forestDepthAt_eq_countP, List.countP_pos_iff]
  exact h.exists_isInside_iff

end Block

/-! ## Outlines -/

namespace Outline

open Block

/-- All blocks of an outline. -/
def all (o : Outline) : List Block := forestPreorder o.blocks

/-- The blocks of an outline are intervals of its lines that lie in order.  From this follows how deep a line lies,
which blocks hold it and where the outermost blocks are. -/
structure WellFormed (o : Outline) : Prop where
  bounds : ∀ b ∈ o.all, 1 ≤ b.startLine ∧ b.startLine ≤ b.endLine ∧ b.endLine ≤ o.lineCount
  nested : ∀ b ∈ o.all, ∀ c ∈ b.children, b.startLine < c.startLine ∧ c.endLine ≤ b.endLine
  outermost : o.blocks.Pairwise (·.endLine < ·.startLine)
  siblings : ∀ b ∈ o.all, b.children.Pairwise (·.endLine < ·.startLine)
  depth : ∀ line, o.depthAt line = o.all.countP fun b => b.startLine < line && line ≤ b.endLine
  chain : ∀ line, ChainFrom o.blocks (o.all.filter fun b => b.startLine ≤ line && line ≤ b.endLine)
  spans : o.spans.Pairwise (·.endLine < ·.startLine) ∧ ∀ s ∈ o.spans, s.startLine ≤ s.endLine

/-- Whatever faults a text has, the blocks of its outline are well formed. -/
theorem wellFormed_ofText {text : List Char} {o : Outline} (h : (ofText text).1 = some o) :
    o.WellFormed := by
  have hforest := forestWithin_ofText h
  refine ⟨?_, ?_, hforest.disjoint, ?_, fun line => forestDepthAt_eq_countP line o.blocks,
    fun line => hforest.chain, ?_, ?_⟩
  · intro b hb
    obtain ⟨hin, hend⟩ := hforest.of_mem_preorder hb
    exact ⟨hin.startLine.1, hin.startLine.2, hend⟩
  · intro b hb c hc
    obtain ⟨hin, -⟩ := hforest.of_mem_preorder hb
    obtain ⟨hchild, hend⟩ := hin.children.of_mem hc
    exact ⟨hchild.startLine.1, hend⟩
  · intro b hb
    exact (hforest.of_mem_preorder hb).1.children.disjoint
  · exact List.pairwise_map.2 hforest.disjoint
  · intro s hs
    obtain ⟨b, hb, rfl⟩ := List.mem_map.1 hs
    exact (hforest.of_mem hb).1.startLine.2

/-- Blocks that end by their indentation, at the closer of the block around them, by their own closer and at the
end of the text. -/
theorem wellFormed_of_four_ends : ∃ o,
    (ofText ("FUNCTION f()\n  if x:\n    a = 1\n  WHILE b\n    c = 2\nEND FUNCTION\n" ++
      "FOR i IN s\n  d = 3\n").toList).1 = some o ∧ o.WellFormed := by
  have hsome : (ofText ("FUNCTION f()\n  if x:\n    a = 1\n  WHILE b\n    c = 2\nEND FUNCTION\n" ++
      "FOR i IN s\n  d = 3\n").toList).1.isSome = true := by
    decide +kernel
  obtain ⟨o, ho⟩ := Option.isSome_iff_exists.1 hsome
  exact ⟨o, ho, wellFormed_ofText ho⟩

end Outline

end Pseudoscribe
