import Pseudoscribe.Proofs.Chunk.Size

/-!
# Chunks and the units they come from

A chunk is made of whole units or is a piece of one that has to be cut.  The chunk that follows is another piece of the
same unit, or it begins with a unit; in that case a chunk of whole units has no room left for that unit.  So no chunk of
whole units could take the next unit as well, and a unit that fits into a chunk is never cut.
-/

namespace Pseudoscribe

open Text

/-! ## The ends of lines put together -/

namespace Row

theorem firstNumber_append {xs : List Row} (hne : xs ≠ []) (ys : List Row) :
    firstNumber (xs ++ ys) = firstNumber xs := by
  unfold firstNumber
  rw [List.head?_append_of_ne_nil xs hne]

theorem lastNumber_append (xs : List Row) {ys : List Row} (hne : ys ≠ []) :
    lastNumber (xs ++ ys) = lastNumber ys := by
  obtain ⟨r, hr⟩ := Option.ne_none_iff_exists'.1 (mt List.getLast?_eq_none_iff.1 hne)
  rw [lastNumber, lastNumber, List.getLast?_append, hr]
  rfl

/-- Some of these lines lie between the first and the last of them. -/
theorem NumberedFrom.between_of_subset {first : Nat} {rows part : List Row} (h : NumberedFrom first rows)
    (hsub : part ⊆ rows) (hne : part ≠ []) :
    Row.firstNumber rows ≤ Row.firstNumber part ∧ Row.lastNumber part ≤ Row.lastNumber rows := by
  have hrows : rows ≠ [] := fun hnil => hne (List.subset_nil.1 (hnil ▸ hsub))
  obtain ⟨r, hr⟩ := Option.ne_none_iff_exists'.1 (mt List.head?_eq_none_iff.1 hne)
  obtain ⟨t, ht⟩ := Option.ne_none_iff_exists'.1 (mt List.getLast?_eq_none_iff.1 hne)
  have hfirst : Row.firstNumber part = r.number := by rw [Row.firstNumber, hr]; rfl
  have hlast : Row.lastNumber part = t.number := by rw [Row.lastNumber, ht]; rfl
  have hr := (h.exists_number_iff_between hrows).1 ⟨r, hsub (List.mem_of_head? hr), rfl⟩
  have ht := (h.exists_number_iff_between hrows).1 ⟨t, hsub (List.mem_of_getLast? ht), rfl⟩
  rw [hfirst, hlast]
  exact ⟨hr.1, ht.2⟩

end Row

namespace ChunkPlan

theorem firstNumber_flatMap {units : List ChunkUnit} (hne : ∀ u ∈ units, u.rows ≠ []) {u : ChunkUnit}
    (hu : u ∈ units.head?) : Row.firstNumber (units.flatMap ChunkUnit.rows) = u.firstLine := by
  obtain ⟨rest, rfl⟩ := List.head?_eq_some_iff.1 hu
  rw [List.flatMap_cons]
  exact Row.firstNumber_append (hne u List.mem_cons_self) _

theorem lastNumber_flatMap {units : List ChunkUnit} (hne : ∀ u ∈ units, u.rows ≠ []) {u : ChunkUnit}
    (hu : u ∈ units.getLast?) : Row.lastNumber (units.flatMap ChunkUnit.rows) = u.lastLine := by
  obtain ⟨front, rfl⟩ := List.getLast?_eq_some_iff.1 hu
  rw [List.flatMap_append, List.flatMap_singleton]
  exact Row.lastNumber_append _ (hne u (List.mem_append_right front (List.mem_singleton_self u)))

/-! ## The pieces of a unit -/

/-- The chunk is a piece of a unit that has to be cut. -/
structure PieceOf (limits : ChunkLimits) (outline : Option Outline) (u : ChunkUnit) (d : ChunkDraft) : Prop where
  must : mustCut limits outline u = true
  rows : d.rows ⊆ u.rows
  kind : d.kind = if u.isBlock then .partialBlock else .leftoverFragment

theorem PieceOf.kind_ne {limits : ChunkLimits} {outline : Option Outline} {u : ChunkUnit} {d : ChunkDraft}
    (h : PieceOf limits outline u d) : d.kind ≠ .wholeBlock := by
  rw [h.kind]
  split
  · decide
  · decide

theorem head_draftPieces {overlap : Nat} {kind : ChunkKind} {previous : Option (List Row)} {pieces : List (List Row)}
    {d : ChunkDraft} (hd : d ∈ (draftPieces overlap kind previous pieces).head?) :
    d.context = previous.bind (contextOf overlap) := by
  cases pieces with
  | nil => cases hd
  | cons p ps =>
    obtain rfl := Option.some.inj hd
    rfl

theorem last_draftPieces {overlap : Nat} {kind : ChunkKind} {previous : Option (List Row)} {pieces : List (List Row)}
    {d : ChunkDraft} (hd : d ∈ (draftPieces overlap kind previous pieces).getLast?) : d.continues = false := by
  induction pieces generalizing previous with
  | nil => cases hd
  | cons p ps ih =>
    cases ps with
    | nil =>
      obtain rfl := Option.some.inj hd
      exact Bool.and_false _
    | cons q qs =>
      rw [draftPieces, draftPieces, List.getLast?_cons_cons] at hd
      exact ih hd

/-- A piece carries the end of the piece before it, which goes on in it. -/
theorem isChain_draftPieces (overlap : Nat) (kind : ChunkKind) (previous : Option (List Row))
    (pieces : List (List Row)) : (draftPieces overlap kind previous pieces).IsChain fun p c =>
      c.context = contextOf overlap p.rows ∧ p.continues = (kind == .partialBlock) := by
  induction pieces generalizing previous with
  | nil => exact .nil
  | cons p ps ih =>
    refine List.isChain_cons.2 ⟨?_, ih (some p)⟩
    intro c hc
    refine ⟨head_draftPieces hc, ?_⟩
    cases ps with
    | nil => cases hc
    | cons q qs => exact Bool.and_true _

section Unit

variable {limits : ChunkLimits} {outline : Option Outline} {u : ChunkUnit} {d : ChunkDraft}

theorem pieceOf_of_mem_splitUnit (must : mustCut limits outline u = true) (hd : d ∈ (splitUnit limits u).1) :
    PieceOf limits outline u d :=
  ⟨must, fun _ hr => (holds_splitUnit limits u).mem hd hr, kind_of_mem_splitUnit hd⟩

/-- Lines that are drafted begin with the first draft. -/
theorem Holds.firstNumber {ds : List ChunkDraft} {rows : List Row} (h : Holds ds rows) (hd : d ∈ ds.head?) :
    Row.firstNumber d.rows = Row.firstNumber rows := by
  obtain ⟨rest, rfl⟩ := List.head?_eq_some_iff.1 hd
  rw [← h.rows_eq, List.flatMap_cons, Row.firstNumber_append (h.ne_nil d List.mem_cons_self)]

theorem splitUnit_ne_nil (limits : ChunkLimits) (hne : u.rows ≠ []) : (splitUnit limits u).1 ≠ [] := by
  intro hnil
  have hrows := (holds_splitUnit limits u).rows_eq
  rw [hnil] at hrows
  exact hne hrows.symm

end Unit

/-! ## What a chunk is made of -/

/-- A chunk is made of whole units or is a piece of one. -/
inductive MadeOf (limits : ChunkLimits) (outline : Option Outline) (units : List ChunkUnit) (d : ChunkDraft) : Prop
  | whole (us : List ChunkUnit) (infix_units : us <:+: units) (ne_nil : us ≠ [])
      (eq : d = ⟨us.flatMap ChunkUnit.rows, .wholeBlock, none, false⟩)
      (fits : Row.total d.rows ≤ limits.maxSize)
  | piece (u : ChunkUnit) (mem : u ∈ units) (of : PieceOf limits outline u d)

/-- How one chunk follows another: both are pieces of one unit, or the second begins with a unit.  A chunk of whole
units has no room for that one. -/
inductive Follows (limits : ChunkLimits) (outline : Option Outline) (units : List ChunkUnit) (p c : ChunkDraft) : Prop
  | inside (u : ChunkUnit) (mem : u ∈ units) (of : PieceOf limits outline u p) (next_of : PieceOf limits outline u c)
      (context : c.context = contextOf limits.overlap p.rows) (continues : p.continues = u.isBlock)
  | apart (u : ChunkUnit) (mem : u ∈ units) (begins : Row.firstNumber c.rows = u.firstLine)
      (context : c.context = none) (continues : p.continues = false)
      (full : p.kind = .wholeBlock → limits.maxSize < Row.total p.rows + u.length)

section Packed

variable {limits : ChunkLimits} {outline : Option Outline} {units more : List ChunkUnit} {ds : List ChunkDraft}
  {ws : List CutWarning} {p c d : ChunkDraft}

theorem MadeOf.mono (h : MadeOf limits outline units d) (hmore : units <:+: more) : MadeOf limits outline more d := by
  cases h with
  | whole us infix_units ne_nil eq fits => exact .whole us (infix_units.trans hmore) ne_nil eq fits
  | piece u mem of => exact .piece u (hmore.subset mem) of

theorem Follows.mono (h : Follows limits outline units p c) (hmore : units ⊆ more) :
    Follows limits outline more p c := by
  cases h with
  | inside u mem of next_of context continues => exact .inside u (hmore mem) of next_of context continues
  | apart u mem begins context continues full => exact .apart u (hmore mem) begins context continues full

theorem Packed.madeOf (h : Packed limits outline units ds ws) : ∀ d ∈ ds, MadeOf limits outline units d := by
  induction h with
  | nil => simp
  | @fill us rest ds ws ne_nil fits full next ih =>
    refine List.forall_mem_cons.2 ⟨?_, fun d hd => (ih d hd).mono (List.suffix_append us rest).isInfix⟩
    exact .whole us (List.prefix_append us rest).isInfix ne_nil rfl fits
  | @cut u rest ds ws must next ih =>
    refine List.forall_mem_append.2 ⟨?_, fun d hd => (ih d hd).mono (List.suffix_cons u rest).isInfix⟩
    intro d hd
    exact .piece u List.mem_cons_self (pieceOf_of_mem_splitUnit must hd)

/-- The first chunk begins with the first unit. -/
theorem Packed.head (h : Packed limits outline units ds ws) (hne : ∀ u ∈ units, u.rows ≠ []) (hd : d ∈ ds.head?) :
    d.context = none ∧ ∃ u ∈ units.head?, Row.firstNumber d.rows = u.firstLine := by
  cases h with
  | nil => cases hd
  | @fill us rest ds ws ne_nil fits full next =>
    obtain rfl := Option.some.inj hd
    obtain ⟨u, us, rfl⟩ := List.exists_cons_of_ne_nil ne_nil
    have hus : ∀ v ∈ u :: us, v.rows ≠ [] := fun v hv => hne v (List.mem_append_left rest hv)
    exact ⟨rfl, u, rfl, firstNumber_flatMap hus rfl⟩
  | @cut u rest ds ws must next =>
    have hsplit := splitUnit_ne_nil limits (hne u List.mem_cons_self)
    rw [List.head?_append_of_ne_nil _ hsplit] at hd
    exact ⟨head_draftPieces hd, u, rfl, (holds_splitUnit limits u).firstNumber hd⟩

/-- The last chunk does not go on. -/
theorem Packed.last (h : Packed limits outline units ds ws) (hd : d ∈ ds.getLast?) : d.continues = false := by
  induction h with
  | nil => cases hd
  | @fill us rest ds ws ne_nil fits full next ih =>
    cases ds with
    | nil =>
      obtain rfl := Option.some.inj hd
      rfl
    | cons e es =>
      rw [List.getLast?_cons_cons] at hd
      exact ih hd
  | @cut u rest ds ws must next ih =>
    rw [List.getLast?_append, Option.mem_def, Option.or_eq_some_iff] at hd
    rcases hd with hd | ⟨-, hd⟩
    · exact ih hd
    · exact last_draftPieces hd

theorem isChain_splitUnit {u : ChunkUnit} (mem : u ∈ units) (must : mustCut limits outline u = true) :
    (splitUnit limits u).1.IsChain (Follows limits outline units) := by
  have hchain := isChain_draftPieces limits.overlap (if u.isBlock then .partialBlock else .leftoverFragment) none
    ((Piece.split limits.maxSize u.preferred u.rows).map (·.1))
  refine List.IsChain.imp_of_mem_imp (fun p c hp hc h => ?_) hchain
  refine .inside u mem (pieceOf_of_mem_splitUnit must hp) (pieceOf_of_mem_splitUnit must hc) h.1 ?_
  rw [h.2]
  cases u.isBlock with
  | false => rfl
  | true => rfl

/-- Packing puts a unit behind the chunk that is being filled, or begins a chunk with it. -/
theorem Packed.follows (h : Packed limits outline units ds ws) (hne : ∀ u ∈ units, u.rows ≠ []) :
    ds.IsChain (Follows limits outline units) := by
  induction h with
  | nil => exact .nil
  | @fill us rest ds ws ne_nil fits full next ih =>
    have hrest : ∀ u ∈ rest, u.rows ≠ [] := fun u hu => hne u (List.mem_append_right us hu)
    have hsub : rest ⊆ us ++ rest := List.subset_append_right us rest
    refine List.isChain_cons.2 ⟨?_, (ih hrest).imp fun p c hfollows => hfollows.mono hsub⟩
    intro c hc
    obtain ⟨hcontext, u, hu, hbegins⟩ := next.head hrest hc
    exact .apart u (hsub (List.mem_of_head? hu)) hbegins hcontext rfl fun _ => full u hu
  | @cut u rest ds ws must next ih =>
    have hrest := (List.forall_mem_cons.1 hne).2
    have hsub : rest ⊆ u :: rest := List.subset_cons_self u rest
    refine List.isChain_append.2 ⟨isChain_splitUnit List.mem_cons_self must,
      (ih hrest).imp fun p c hfollows => hfollows.mono hsub, ?_⟩
    -- behind the last piece the next unit begins
    intro p hp c hc
    obtain ⟨hcontext, v, hv, hbegins⟩ := next.head hrest hc
    have hpiece := pieceOf_of_mem_splitUnit must (List.mem_of_getLast? hp)
    exact .apart v (hsub (List.mem_of_head? hv)) hbegins hcontext (last_draftPieces hp)
      fun hkind => absurd hkind hpiece.kind_ne

/-- A unit that need not be cut is part of a chunk of whole units. -/
theorem Packed.exists_whole (h : Packed limits outline units ds ws) {u : ChunkUnit} (hu : u ∈ units)
    (must : mustCut limits outline u = false) : ∃ d ∈ ds, d.kind = .wholeBlock ∧ u.rows ⊆ d.rows := by
  induction h with
  | nil => cases hu
  | @fill us rest ds ws ne_nil fits full next ih =>
    rcases List.mem_append.1 hu with hu | hu
    · refine ⟨_, List.mem_cons_self, rfl, ?_⟩
      intro r hr
      exact List.mem_flatMap.2 ⟨u, hu, hr⟩
    · obtain ⟨d, hd, hwhole⟩ := ih hu
      exact ⟨d, List.mem_cons_of_mem _ hd, hwhole⟩
  | @cut v rest ds ws hmust next ih =>
    rcases List.mem_cons.1 hu with rfl | hu
    · rw [must] at hmust
      cases hmust
    · obtain ⟨d, hd, hwhole⟩ := ih hu
      exact ⟨d, List.mem_append_right _ hd, hwhole⟩

end Packed

/-! ## The chunks of a text -/

theorem mustCut_iff {limits : ChunkLimits} {text : List Char} {u : ChunkUnit} :
    mustCut limits (Outline.ofText text).1 u = true ↔
      Outline.boundaries text = [] ∨ limits.maxSize < u.length := by
  unfold mustCut Outline.boundaries ChunkUnit.length
  rw [Bool.or_eq_true, decide_eq_true_eq]
  cases (Outline.ofText text).1 with
  | none => simp
  | some o => simp

theorem exists_mem_of_draft (outline : Option Outline) {ds : List ChunkDraft} {d : ChunkDraft} (hd : d ∈ ds) :
    ∃ i, chunkOf outline i d ∈ number outline ds := by
  obtain ⟨i, hi, rfl⟩ := List.getElem_of_mem hd
  exact ⟨i, List.mem_mapIdx.2 ⟨i, hi, rfl⟩⟩

/-- What holds of every two drafts that follow one another holds of their chunks. -/
theorem isChain_number {outline : Option Outline} {R : ChunkDraft → ChunkDraft → Prop} {S : Chunk → Chunk → Prop}
    {ds : List ChunkDraft} (h : ds.IsChain R)
    (himp : ∀ i p c, R p c → S (chunkOf outline i p) (chunkOf outline (i + 1) c)) :
    (number outline ds).IsChain S := by
  rw [List.isChain_iff_getElem] at h ⊢
  intro i hi
  rw [number, List.length_mapIdx] at hi
  simp only [number, List.getElem_mapIdx]
  exact himp i ds[i] ds[i + 1] (h i hi)

/-- Chunks of whole units take as many of the units as fit, and no unit is cut that fits into a chunk. -/
structure Greedy (text : List Char) (max : Nat) (chunks : List Chunk) : Prop where
  /-- the units are the outermost blocks and the gaps between them, and hold all lines of the text -/
  units : (unitsIn text).map ChunkUnit.extent = Extent.ofSpans (pieces text).length 0 (Outline.boundaries text) ∧
    (unitsIn text).flatMap (fun u => u.rows.map Row.text) = pieces text
  whole : ∀ c ∈ chunks, c.kind = .wholeBlock → ∃ us, us <:+: unitsIn text ∧ us ≠ [] ∧
    c.text.toList = Row.join (us.flatMap ChunkUnit.rows) ∧ us.head?.map ChunkUnit.firstLine = some c.startLine ∧
    us.getLast?.map ChunkUnit.lastLine = some c.endLine
  full : chunks.IsChain fun c d => c.kind = .wholeBlock →
    ∃ u ∈ unitsIn text, u.firstLine = d.startLine ∧ max < c.length + u.length
  uncut : ∀ u ∈ unitsIn text, u.length ≤ max →
    ∃ c ∈ chunks, c.kind = .wholeBlock ∧ c.startLine ≤ u.firstLine ∧ u.lastLine ≤ c.endLine

theorem greedy_ofText (limits : ChunkLimits) {text : List Char} (hblocks : Outline.boundaries text ≠ []) :
    Greedy text (limits.maxSize.max 1) (ofText limits text).chunks := by
  obtain ⟨ds, hpacked, hholds, hchunks⟩ := exists_packed limits text
  rw [hchunks]
  refine ⟨⟨extent_unitsIn text, ?_⟩, ?_, ?_, ?_⟩
  · rw [← text_rowsOf (Outline.ofText text).1 text, ← rows_unitsIn, List.map_flatMap]
  · intro c hc hkind
    obtain ⟨i, d, hd, rfl⟩ := exists_draft_of_mem hc
    cases hpacked.madeOf d hd with
    | whole us infix_units ne_nil eq fits =>
      subst eq
      have hne : ∀ u ∈ us, u.rows ≠ [] := fun u hu => rows_ne_nil_of_mem_unitsIn u (infix_units.subset hu)
      have hfirst := firstNumber_flatMap hne (List.head?_eq_some_head ne_nil)
      have hlast := lastNumber_flatMap hne (List.getLast?_eq_some_getLast ne_nil)
      refine ⟨us, infix_units, ne_nil, String.toList_ofList, ?_, ?_⟩
      · rw [List.head?_eq_some_head ne_nil, Option.map_some, ← hfirst]
        rfl
      · rw [List.getLast?_eq_some_getLast ne_nil, Option.map_some, ← hlast]
        rfl
    | piece u mem of => exact absurd hkind of.kind_ne
  · refine isChain_number (hpacked.follows rows_ne_nil_of_mem_unitsIn) ?_
    intro i p c hfollows hkind
    cases hfollows with
    | inside u mem of next_of context continues => exact absurd hkind of.kind_ne
    | apart u mem begins context continues full =>
      refine ⟨u, mem, begins.symm, ?_⟩
      rw [length_chunkOf]
      exact full hkind
  · intro u hu hfits
    have hnot : mustCut { limits with maxSize := limits.maxSize.max 1 } (Outline.ofText text).1 u = false := by
      rw [← Bool.not_eq_true, mustCut_iff, not_or, Nat.not_lt]
      exact ⟨hblocks, hfits⟩
    obtain ⟨d, hd, hkind, hsub⟩ := hpacked.exists_whole hu hnot
    obtain ⟨i, hmem⟩ := exists_mem_of_draft (Outline.ofText text).1 hd
    obtain ⟨n, hrows⟩ := hholds.exists_numberedFrom (numberedFrom_rowsOf _ text) hd
    exact ⟨_, hmem, hkind, hrows.between_of_subset hsub (rows_ne_nil_of_mem_unitsIn u hu)⟩

/-- A loose line and a function fill the first chunk, so that the next function begins another one. -/
theorem greedy_of_two_functions :
    Outline.boundaries "x = 1\nFUNCTION f()\nEND FUNCTION\nFUNCTION g()\nEND FUNCTION\n".toList ≠ [] ∧
    Greedy "x = 1\nFUNCTION f()\nEND FUNCTION\nFUNCTION g()\nEND FUNCTION\n".toList 32
      (ofText ⟨32, 0⟩ "x = 1\nFUNCTION f()\nEND FUNCTION\nFUNCTION g()\nEND FUNCTION\n".toList).chunks ∧
    (ofText ⟨32, 0⟩ "x = 1\nFUNCTION f()\nEND FUNCTION\nFUNCTION g()\nEND FUNCTION\n".toList).chunks.map
      (fun c => (c.startLine, c.endLine)) = [(1, 3), (4, 5)] := by
  have hblocks : Outline.boundaries
      "x = 1\nFUNCTION f()\nEND FUNCTION\nFUNCTION g()\nEND FUNCTION\n".toList ≠ [] := by
    decide +kernel
  exact ⟨hblocks, greedy_ofText ⟨32, 0⟩ hblocks, by decide +kernel⟩

end ChunkPlan

end Pseudoscribe
