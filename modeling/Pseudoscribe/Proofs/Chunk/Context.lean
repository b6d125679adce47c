import Pseudoscribe.Proofs.Chunk.Greedy
import Pseudoscribe.Proofs.Text.Pieces

/-!
# What a piece takes over from the one before

A piece of a unit carries the last lines of the piece before it, and a piece of a block that is not the last one goes on
in the next.  Which chunks are pieces of which unit can be read off their lines: a unit that has to be cut shares no
line with a chunk of anything else.
-/

namespace Pseudoscribe

open Text

/-- The text of the last `k` lines of a chunk, or of all its lines if it has fewer. -/
def Chunk.lastLines (k : Nat) (c : Chunk) : List Char :=
  ((pieces c.text.toList).drop ((pieces c.text.toList).length - k)).flatten

theorem Chunk.lastLines_suffix (k : Nat) (c : Chunk) : c.lastLines k <:+ c.text.toList := by
  have hsplit := congrArg List.flatten (List.take_append_drop ((pieces c.text.toList).length - k) (pieces c.text.toList))
  rw [List.flatten_append, flatten_pieces] at hsplit
  exact ⟨_, hsplit⟩

namespace ChunkPlan

/-- The chunk lies within a unit that has to be cut: one that is too long for a chunk, or all of a text without
blocks. -/
structure IsPiece (text : List Char) (max : Nat) (u : ChunkUnit) (c : Chunk) : Prop where
  mem : u ∈ unitsIn text
  cut : Outline.boundaries text = [] ∨ max < u.length
  first : u.firstLine ≤ c.startLine
  last : c.endLine ≤ u.lastLine

/-! ## One chunk behind another -/

/-- How one chunk follows another: both are pieces of one unit, or the second begins with a unit. -/
inductive Joined (text : List Char) (limits : ChunkLimits) (p c : Chunk) : Prop
  | inside (u : ChunkUnit) (of : IsPiece text limits.maxSize u p) (next_of : IsPiece text limits.maxSize u c)
      (context : ∀ t, c.context = some t ↔ 0 < limits.overlap ∧ isBlank (p.lastLines limits.overlap) = false ∧
        t = String.ofList (p.lastLines limits.overlap))
      (continues : p.continues = u.isBlock)
      (kind : c.kind = if u.isBlock then .partialBlock else .leftoverFragment)
  | apart (u : ChunkUnit) (mem : u ∈ unitsIn text) (begins : c.startLine = u.firstLine) (context : c.context = none)
      (continues : p.continues = false)

/-- Two chunks that follow one another. -/
structure Adjacent (text : List Char) (limits : ChunkLimits) (p c : Chunk) : Prop where
  next : c.startLine = p.endLine + 1
  ordered : p.startLine ≤ p.endLine
  next_ordered : c.startLine ≤ c.endLine
  joined : Joined text limits p c

section Drafts

variable {limits : ChunkLimits} {text : List Char}

theorem contextOf_eq_some_iff {overlap : Nat} {piece : List Row} {t : String} : contextOf overlap piece = some t ↔
    0 < overlap ∧ isBlank (Row.join (piece.drop (piece.length - overlap))) = false ∧
      t = String.ofList (Row.join (piece.drop (piece.length - overlap))) := by
  simp only [contextOf]
  by_cases hzero : overlap = 0
  · simp [hzero]
  · cases hblank : isBlank (Row.join (piece.drop (piece.length - overlap))) with
    | true => simp
    | false => simp [hzero, Nat.pos_of_ne_zero hzero, eq_comm]

/-- The lines of a chunk are those that were drafted. -/
theorem pieces_join {outline : Option Outline} {ds : List ChunkDraft} (h : Holds ds (rowsOf outline text))
    {d : ChunkDraft} (hd : d ∈ ds) : pieces (Row.join d.rows) = d.rows.map Row.text := by
  have hsub : (d.rows.map Row.text).Sublist (pieces text) := by
    rw [← text_rowsOf outline text, ← h.rows_eq]
    exact (List.sublist_flatten_of_mem (List.mem_map_of_mem hd)).map Row.text
  exact pieces_flatten_of_sublist (by rw [flatten_pieces]) hsub

theorem lastLines_chunkOf {outline : Option Outline} {ds : List ChunkDraft} (h : Holds ds (rowsOf outline text))
    {d : ChunkDraft} (hd : d ∈ ds) (i k : Nat) :
    (chunkOf outline i d).lastLines k = Row.join (d.rows.drop (d.rows.length - k)) := by
  have hpieces : pieces (chunkOf outline i d).text.toList = d.rows.map Row.text := by
    rw [← pieces_join h hd]
    exact congrArg pieces String.toList_ofList
  rw [Chunk.lastLines, hpieces, List.length_map, Row.join, List.map_drop]

theorem PieceOf.isPiece {u : ChunkUnit} {d : ChunkDraft} (h : PieceOf limits (Outline.ofText text).1 u d)
    (mem : u ∈ unitsIn text) (hne : d.rows ≠ []) (i : Nat) :
    IsPiece text limits.maxSize u (chunkOf (Outline.ofText text).1 i d) := by
  obtain ⟨n, hrows⟩ := (numberedFrom_unitsIn text).of_mem_flatMap mem
  obtain ⟨hfirst, hlast⟩ := hrows.between_of_subset h.rows hne
  exact ⟨mem, mustCut_iff.1 h.must, hfirst, hlast⟩

theorem Follows.joined {ds : List ChunkDraft} (hholds : Holds ds (rowsOf (Outline.ofText text).1 text))
    {p c : ChunkDraft} (hp : p ∈ ds) (hc : c ∈ ds) (h : Follows limits (Outline.ofText text).1 (unitsIn text) p c)
    (i j : Nat) :
    Joined text limits (chunkOf (Outline.ofText text).1 i p) (chunkOf (Outline.ofText text).1 j c) := by
  cases h with
  | inside u mem of next_of context continues =>
    refine .inside u (of.isPiece mem (hholds.ne_nil p hp) i) (next_of.isPiece mem (hholds.ne_nil c hc) j) ?_
      continues next_of.kind
    intro t
    rw [lastLines_chunkOf hholds hp, ← contextOf_eq_some_iff, ← context]
    exact Iff.rfl
  | apart u mem begins context continues full => exact .apart u mem begins context continues

end Drafts

theorem adjacent_ofText (limits : ChunkLimits) (text : List Char) : (ofText limits text).chunks.IsChain
    (Adjacent text { limits with maxSize := limits.maxSize.max 1 }) := by
  obtain ⟨ds, hpacked, hholds, hchunks⟩ := exists_packed limits text
  have hcovers := covers_ofText limits text
  have hjoined : (ofText limits text).chunks.IsChain (Joined text { limits with maxSize := limits.maxSize.max 1 }) := by
    rw [hchunks]
    have hfollows := hpacked.follows rows_ne_nil_of_mem_unitsIn
    have hmem : ds.IsChain fun p c => p ∈ ds ∧ c ∈ ds ∧
        Follows { limits with maxSize := limits.maxSize.max 1 } (Outline.ofText text).1 (unitsIn text) p c :=
      hfollows.imp_of_mem_imp fun p c hp hc h => ⟨hp, hc, h⟩
    exact isChain_number hmem fun i p c h => h.2.2.joined hholds h.1 h.2.1 i (i + 1)
  rw [List.isChain_iff_getElem] at hjoined ⊢
  intro i hi
  have hnext := List.isChain_iff_getElem.1 hcovers.next i hi
  exact ⟨hnext, hcovers.ordered _ (List.getElem_mem _), hcovers.ordered _ (List.getElem_mem _), hjoined i hi⟩

/-! ## Pieces of the same unit -/

section Adjacent

variable {limits : ChunkLimits} {text : List Char} {u : ChunkUnit} {p c : Chunk}

/-- Behind a piece that does not end its unit there is another piece of the unit. -/
theorem Adjacent.inside_of_isPiece (h : Adjacent text limits p c) (hp : IsPiece text limits.maxSize u p)
    (hlast : c.startLine ≤ u.lastLine) :
    IsPiece text limits.maxSize u c ∧ p.continues = u.isBlock ∧
      c.kind = (if u.isBlock then .partialBlock else .leftoverFragment) ∧
      ∀ t, c.context = some t ↔ 0 < limits.overlap ∧ isBlank (p.lastLines limits.overlap) = false ∧
        t = String.ofList (p.lastLines limits.overlap) := by
  have hfirst := hp.first
  have hnext := h.next
  have hordered := h.ordered
  cases h.joined with
  | inside v of next_of context continues kind =>
    have hu : u.Holds p.startLine := ⟨hfirst, by omega⟩
    have hv : v.Holds p.startLine := ⟨of.first, Nat.le_trans hordered of.last⟩
    obtain rfl := eq_of_holds hp.mem of.mem hu hv
    exact ⟨next_of, continues, kind, context⟩
  | apart v mem begins context continues =>
    -- the second chunk would begin inside of the unit and with a unit
    have hu : u.Holds c.startLine := ⟨by omega, hlast⟩
    have hv : v.Holds c.startLine := begins ▸ ⟨Nat.le_refl _, firstLine_le_lastLine mem⟩
    obtain rfl := eq_of_holds hp.mem mem hu hv
    omega

theorem Adjacent.continues_iff (h : Adjacent text limits p c) : p.continues = true ↔
    ∃ u, IsPiece text limits.maxSize u p ∧ u.isBlock = true ∧ p.endLine < u.lastLine := by
  have hnext := h.next
  constructor
  · intro hcontinues
    cases h.joined with
    | inside u of next_of context continues kind =>
      refine ⟨u, of, continues.symm.trans hcontinues, ?_⟩
      have hlast := next_of.last
      have hordered := h.next_ordered
      omega
    | apart u mem begins context continues =>
      rw [continues] at hcontinues
      cases hcontinues
  · rintro ⟨u, hp, hblock, hlast⟩
    obtain ⟨-, hcontinues, -⟩ := h.inside_of_isPiece hp (by omega)
    rw [hcontinues, hblock]

theorem Adjacent.context_iff (h : Adjacent text limits p c) (t : String) : c.context = some t ↔
    0 < limits.overlap ∧ (∃ u, IsPiece text limits.maxSize u p ∧ IsPiece text limits.maxSize u c) ∧
      isBlank (p.lastLines limits.overlap) = false ∧ t = String.ofList (p.lastLines limits.overlap) := by
  constructor
  · intro hcontext
    cases h.joined with
    | inside u of next_of context continues kind =>
      obtain ⟨hpos, hblank, ht⟩ := (context t).1 hcontext
      exact ⟨hpos, ⟨u, of, next_of⟩, hblank, ht⟩
    | apart u mem begins context continues =>
      rw [context] at hcontext
      cases hcontext
  · rintro ⟨hpos, ⟨u, hp, hc⟩, hblank, ht⟩
    obtain ⟨-, -, -, hcontext⟩ := h.inside_of_isPiece hp (Nat.le_trans h.next_ordered hc.last)
    exact (hcontext t).2 ⟨hpos, hblank, ht⟩

/-- A chunk goes on in another piece of its block, which does not begin with the block. -/
theorem Adjacent.exists_block (h : Adjacent text limits p c) (hcontinues : p.continues = true) :
    ∃ u, u.isBlock = true ∧ IsPiece text limits.maxSize u p ∧ IsPiece text limits.maxSize u c ∧
      c.kind = .partialBlock ∧ u.firstLine < c.startLine ∧ c.startLine ≤ u.lastLine := by
  obtain ⟨u, hp, hblock, hlt⟩ := h.continues_iff.1 hcontinues
  have hnext := h.next
  have hordered := h.ordered
  have hfirst := hp.first
  obtain ⟨hc, -, hkind, -⟩ := h.inside_of_isPiece hp (by omega)
  rw [hblock, if_pos rfl] at hkind
  exact ⟨u, hblock, hp, hc, hkind, by omega, by omega⟩

end Adjacent

/-! ## The chunks of a text -/

theorem lastLine_le_length {text : List Char} {u : ChunkUnit} (hu : u ∈ unitsIn text) :
    u.lastLine ≤ (pieces text).length := by
  have hrows := numberedFrom_rowsOf (Outline.ofText text).1 text
  have hlength : (rowsOf (Outline.ofText text).1 text).length = (pieces text).length := by simp [rowsOf]
  obtain ⟨r, hr, hnumber⟩ := (exists_number_iff_holds hu).2 ⟨firstLine_le_lastLine hu, Nat.le_refl u.lastLine⟩
  have hmem : r ∈ rowsOf (Outline.ofText text).1 text := by
    rw [← rows_unitsIn]
    exact List.mem_flatMap.2 ⟨u, hu, hr⟩
  have hlt := hrows.exists_number_iff.1 ⟨r, hmem, hnumber⟩
  omega

theorem depth_pos_iff_of_mem {limits : ChunkLimits} {text : List Char} {c : Chunk}
    (hc : c ∈ (ofText limits text).chunks) : 0 < c.depth ↔
      ∃ u ∈ unitsIn text, u.isBlock = true ∧ u.firstLine < c.startLine ∧ c.startLine ≤ u.lastLine := by
  obtain ⟨i, d, -, rfl⟩ := exists_draft_of_mem hc
  exact depth_pos_iff text i d

/-- A chunk of whole units begins with a unit, and a line inside of a block is not the first of a unit. -/
theorem depth_whole {text : List Char} {us : List ChunkUnit} (hus : us <:+: unitsIn text) (hne : us ≠ []) (i : Nat) :
    (chunkOf (Outline.ofText text).1 i ⟨us.flatMap ChunkUnit.rows, .wholeBlock, none, false⟩).depth = 0 := by
  obtain ⟨u, us, rfl⟩ := List.exists_cons_of_ne_nil hne
  have hu : u ∈ unitsIn text := hus.subset List.mem_cons_self
  have hbegins : Row.firstNumber ((u :: us).flatMap ChunkUnit.rows) = u.firstLine :=
    firstNumber_flatMap (fun w hw => rows_ne_nil_of_mem_unitsIn w (hus.subset hw)) rfl
  apply Nat.eq_zero_of_not_pos
  rw [depth_pos_iff, hbegins]
  rintro ⟨v, hv, -, hlt, hle⟩
  have hholds : v.Holds u.firstLine := ⟨Nat.le_of_lt hlt, hle⟩
  obtain rfl := eq_of_holds hv hu hholds ⟨Nat.le_refl _, firstLine_le_lastLine hu⟩
  exact Nat.lt_irrefl _ hlt

/-- What holds of every element that another one follows, and of the last one, holds of all. -/
theorem forall_mem_of_isChain {α : Type} {P : α → Prop} {l : List α} (h : l.IsChain fun a _ => P a)
    (hlast : ∀ a ∈ l.getLast?, P a) : ∀ a ∈ l, P a := by
  induction l with
  | nil => simp
  | cons a l ih =>
    cases l with
    | nil => simpa using hlast
    | cons b l =>
      rw [List.isChain_cons_cons] at h
      rw [List.getLast?_cons_cons] at hlast
      exact List.forall_mem_cons.2 ⟨h.1, ih h.2 hlast⟩

/-- What the chunks of a text take over from one another. -/
structure Linked (text : List Char) (limits : ChunkLimits) (chunks : List Chunk) : Prop where
  first : ∀ c ∈ chunks.head?, c.context = none
  context : chunks.IsChain fun p c => ∀ t, c.context = some t ↔
    0 < limits.overlap ∧ (∃ u, IsPiece text limits.maxSize u p ∧ IsPiece text limits.maxSize u c) ∧
      isBlank (p.lastLines limits.overlap) = false ∧ t = String.ofList (p.lastLines limits.overlap)
  suffix : chunks.IsChain fun p c => ∀ t ∈ c.context, t.toList <:+ p.text.toList
  whole : ∀ c ∈ chunks, c.kind = .wholeBlock → c.context = none ∧ c.depth = 0 ∧ c.continues = false
  pieces : ∀ c ∈ chunks, c.kind ≠ .wholeBlock → ∃ u, IsPiece text limits.maxSize u c ∧
    c.kind = if u.isBlock then .partialBlock else .leftoverFragment
  /-- a chunk goes on exactly if it is a piece of a block and not the last one -/
  continues : ∀ c ∈ chunks, c.continues = true ↔
    ∃ u, IsPiece text limits.maxSize u c ∧ u.isBlock = true ∧ c.endLine < u.lastLine
  next : chunks.IsChain fun p c => p.continues = true → c.kind = .partialBlock ∧ 1 ≤ c.depth ∧
    ∃ u, u.isBlock = true ∧ IsPiece text limits.maxSize u p ∧ IsPiece text limits.maxSize u c
  last : ∀ c ∈ chunks.getLast?, c.continues = false

/-- Whatever the text and the limits, the chunks of a plan take over from one another what pieces of one unit do, and
nothing else. -/
theorem linked_ofText (limits : ChunkLimits) (text : List Char) :
    Linked text { limits with maxSize := limits.maxSize.max 1 } (ofText limits text).chunks := by
  obtain ⟨ds, hpacked, hholds, hchunks⟩ := exists_packed limits text
  have hadjacent := adjacent_ofText limits text
  have hlast : ∀ c ∈ (ofText limits text).chunks.getLast?, c.continues = false := by
    intro c hc
    rw [hchunks, number, List.getLast?_mapIdx, Option.mem_def, Option.map_eq_some_iff] at hc
    obtain ⟨d, hd, rfl⟩ := hc
    exact hpacked.last hd
  refine ⟨?_, ?_, ?_, ?_, ?_, ?_, ?_, hlast⟩
  · intro c hc
    rw [hchunks, number, List.head?_mapIdx, Option.mem_def, Option.map_eq_some_iff] at hc
    obtain ⟨d, hd, rfl⟩ := hc
    exact (hpacked.head rows_ne_nil_of_mem_unitsIn hd).1
  · exact hadjacent.imp fun p c h t => h.context_iff t
  · refine hadjacent.imp fun p c h t ht => ?_
    obtain ⟨-, -, -, rfl⟩ := (h.context_iff t).1 ht
    rw [String.toList_ofList]
    exact p.lastLines_suffix limits.overlap
  · rw [hchunks]
    intro c hc hkind
    obtain ⟨i, d, hd, rfl⟩ := exists_draft_of_mem hc
    cases hpacked.madeOf d hd with
    | whole us infix_units ne_nil eq fits =>
      subst eq
      exact ⟨rfl, depth_whole infix_units ne_nil i, rfl⟩
    | piece u mem of => exact absurd hkind of.kind_ne
  · rw [hchunks]
    intro c hc hkind
    obtain ⟨i, d, hd, rfl⟩ := exists_draft_of_mem hc
    cases hpacked.madeOf d hd with
    | whole us infix_units ne_nil eq fits =>
      subst eq
      exact absurd rfl hkind
    | piece u mem of => exact ⟨u, of.isPiece mem (hholds.ne_nil d hd) i, of.kind⟩
  · refine forall_mem_of_isChain (hadjacent.imp fun p c h => h.continues_iff) ?_
    intro c hc
    rw [hlast c hc]
    constructor
    · intro hcontinues
      cases hcontinues
    · rintro ⟨u, hpiece, -, hlt⟩
      have hend := (covers_ofText limits text).endLine hc
      have hle := lastLine_le_length hpiece.mem
      omega
  · refine hadjacent.imp_of_mem_imp fun p c _ hc h hcontinues => ?_
    obtain ⟨u, hblock, hp, hpiece, hkind, hfirst, hlast⟩ := h.exists_block hcontinues
    exact ⟨hkind, (depth_pos_iff_of_mem hc).2 ⟨u, hp.mem, hblock, hfirst, hlast⟩, u, hblock, hp, hpiece⟩

end ChunkPlan

end Pseudoscribe
