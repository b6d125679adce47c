import Mathlib.Data.List.Nodup
import Mathlib.Data.List.Perm.Basic
import Pseudoscribe.Proofs.Chunk.Tiling
import Pseudoscribe.Proofs.Run.Stages
import Pseudoscribe.Run.Basic

/-!
# The moves of a run

What a move does is said once: it begins a chunk, changes one that is on its way, makes the run stop, or puts
the result together.  In every run the chunks are begun in the order of the plan, each once, and no more of
them are on their way than the request allows.
-/

namespace Pseudoscribe

/-- The end of a chunk that stands here, if it has ended. -/
def ChunkStage.final? : ChunkStage → Option ChunkEnd
  | ended final => some final
  | _ => none

theorem ChunkStage.final?_eq_some {s : ChunkStage} {final : ChunkEnd} :
    s.final? = some final ↔ s = .ended final := by
  cases s <;> simp [final?]

namespace Run

theorem mem_of_find? {r : Run} {i : Nat} {c : ChunkRun} (h : r.find? i = some c) :
    c ∈ r.onWay ∧ c.chunk.index = i := by
  have hi := List.find?_some h
  exact ⟨List.mem_of_find?_eq_some h, beq_iff_eq.1 hi⟩

/-! ## Putting a chunk back -/

/-- Only what is on the way changes, and the ends of chunks. -/
theorem place_fst (r : Run) (c : ChunkRun) (notes : List Note) : (r.place c notes).1 = { r with
    onWay := (r.place c notes).1.onWay
    finals := r.finals ++ (c.stage.final?.map (c.chunk.index, ·)).toList } := by
  unfold place
  dsimp only
  cases hstage : c.stage with
  | ended final => rfl
  | offered | underWay | resting =>
    dsimp only [ChunkStage.final?]
    rw [Option.map_none, Option.toList_none, List.append_nil]

section Place

variable (r : Run) (c : ChunkRun) (notes : List Note)

@[simp] theorem request_place : (r.place c notes).1.request = r.request := by rw [place_fst]

@[simp] theorem spec_place : (r.place c notes).1.spec = r.spec := by rw [place_fst]

@[simp] theorem plan_place : (r.place c notes).1.plan = r.plan := by rw [place_fst]

@[simp] theorem waiting_place : (r.place c notes).1.waiting = r.waiting := by rw [place_fst]

@[simp] theorem cancelled_place : (r.place c notes).1.cancelled = r.cancelled := by rw [place_fst]

@[simp] theorem result_place : (r.place c notes).1.result = r.result := by rw [place_fst]

@[simp] theorem options_place : (r.place c notes).1.options = r.options := by
  rw [options, request_place, options]

theorem finals_place : (r.place c notes).1.finals =
    r.finals ++ (c.stage.final?.map (c.chunk.index, ·)).toList := by rw [place_fst]

end Place

theorem onWay_place (r : Run) (c : ChunkRun) (notes : List Note) : (r.place c notes).1.onWay =
    if c.stage.final?.isSome then r.onWay.filter (·.chunk.index != c.chunk.index)
    else if r.onWay.any (·.chunk.index == c.chunk.index) then
      r.onWay.map fun x => if x.chunk.index == c.chunk.index then c else x
    else r.onWay ++ [c] := by
  unfold place
  dsimp only
  cases c.stage <;> rfl

/-- The chunk, if it goes on. -/
def remaining (c : ChunkRun) : List ChunkRun := if c.stage.final?.isSome then [] else [c]

theorem mem_remaining {c x : ChunkRun} (h : x ∈ remaining c) : x = c ∧ c.stage.final? = none := by
  unfold remaining at h
  cases hfinal : c.stage.final? with
  | none =>
    rw [hfinal] at h
    exact ⟨List.mem_singleton.1 h, rfl⟩
  | some final =>
    rw [hfinal] at h
    cases h

/-- What is on the way was there before or is the chunk that was put back. -/
theorem mem_onWay_place {r : Run} {c x : ChunkRun} {notes : List Note}
    (h : x ∈ (r.place c notes).1.onWay) : x ∈ r.onWay ∨ x ∈ remaining c := by
  rw [onWay_place] at h
  unfold remaining
  cases hfinal : c.stage.final?.isSome with
  | true =>
    rw [hfinal, if_pos rfl] at h
    exact .inl (List.mem_of_mem_filter h)
  | false =>
    rw [hfinal, if_neg Bool.false_ne_true] at h
    rw [if_neg Bool.false_ne_true]
    split at h
    · obtain ⟨y, hy, rfl⟩ := List.mem_map.1 h
      split
      · exact .inr (List.mem_singleton.2 rfl)
      · exact .inl hy
    · exact List.mem_append.1 h

theorem mem_finals_place {r : Run} {c : ChunkRun} {p : Nat × ChunkEnd}
    (h : p ∈ r.finals ++ (c.stage.final?.map (c.chunk.index, ·)).toList) :
    p ∈ r.finals ∨ (p.1 = c.chunk.index ∧ c.stage = .ended p.2) := by
  rcases List.mem_append.1 h with h | h
  · exact .inl h
  · obtain ⟨final, hfinal, rfl⟩ := Option.map_eq_some_iff.1 (Option.mem_toList.1 h)
    exact .inr ⟨rfl, ChunkStage.final?_eq_some.1 hfinal⟩

theorem length_remaining_le (c : ChunkRun) : (remaining c).length ≤ 1 := by
  unfold remaining
  split
  · exact Nat.zero_le 1
  · exact Nat.le_refl 1

/-- A chunk that was on the way leaves the others alone. -/
theorem exists_onWay_place_known {r : Run} {c c' : ChunkRun} (notes : List Note)
    (hnodup : (r.onWay.map (·.chunk.index)).Nodup) (hc : c ∈ r.onWay) (hchunk : c'.chunk = c.chunk) :
    ∃ others, r.onWay.Perm (c :: others) ∧
      (r.place c' notes).1.onWay.Perm (remaining c' ++ others) := by
  obtain ⟨before, behind, hsplit⟩ := List.append_of_mem hc
  rw [hsplit, List.map_append, List.map_cons, List.nodup_append, List.nodup_cons] at hnodup
  obtain ⟨-, ⟨hbehind, -⟩, hbefore⟩ := hnodup
  have hother (x : ChunkRun) (hx : x ∈ before ++ behind) : x.chunk.index ≠ c.chunk.index := by
    rcases List.mem_append.1 hx with hx | hx
    · exact hbefore _ (List.mem_map_of_mem hx) _ List.mem_cons_self
    · exact fun heq => hbehind (heq ▸ List.mem_map_of_mem hx)
  refine ⟨before ++ behind, hsplit ▸ List.perm_middle, ?_⟩
  rw [onWay_place, hchunk, hsplit, remaining]
  cases c'.stage.final?.isSome with
  | true =>
    have hkeep : (before ++ behind).filter (·.chunk.index != c.chunk.index) = before ++ behind :=
      List.filter_eq_self.2 fun x hx => bne_iff_ne.2 (hother x hx)
    rw [if_pos rfl, if_pos rfl, List.filter_append, List.filter_cons_of_neg (by simp), ← List.filter_append,
      hkeep]
    exact .refl _
  | false =>
    have hany : (before ++ c :: behind).any (·.chunk.index == c.chunk.index) = true :=
      List.any_eq_true.2 ⟨c, List.mem_append_right _ List.mem_cons_self, beq_self_eq_true _⟩
    have hkeep (xs : List ChunkRun) (hxs : ∀ x ∈ xs, x ∈ before ++ behind) :
        xs.map (fun x => if x.chunk.index == c.chunk.index then c' else x) = xs := by
      refine (List.map_congr_left fun x hx => ?_).trans (List.map_id xs)
      rw [if_neg (by rw [beq_iff_eq]; exact hother x (hxs x hx))]
      rfl
    rw [if_neg Bool.false_ne_true, if_neg Bool.false_ne_true, if_pos hany, List.map_append, List.map_cons,
      if_pos (beq_self_eq_true _), hkeep before fun x hx => List.mem_append_left _ hx,
      hkeep behind fun x hx => List.mem_append_right _ hx]
    exact List.perm_middle

/-- A chunk that was not on the way is put behind the others. -/
theorem onWay_place_new {r : Run} {c : ChunkRun} (notes : List Note)
    (hc : c.chunk.index ∉ r.onWay.map (·.chunk.index)) :
    (r.place c notes).1.onWay = r.onWay ++ remaining c := by
  have hother (x : ChunkRun) (hx : x ∈ r.onWay) : x.chunk.index ≠ c.chunk.index := fun heq =>
    hc (heq ▸ List.mem_map_of_mem hx)
  rw [onWay_place, remaining]
  cases c.stage.final?.isSome with
  | true =>
    rw [if_pos rfl, if_pos rfl, List.append_nil]
    exact List.filter_eq_self.2 fun x hx => bne_iff_ne.2 (hother x hx)
  | false =>
    have hany : r.onWay.any (·.chunk.index == c.chunk.index) = false :=
      List.any_eq_false.2 fun x hx heq => hother x hx (beq_iff_eq.1 heq)
    rw [if_neg Bool.false_ne_true, if_neg Bool.false_ne_true, hany, if_neg Bool.false_ne_true]

/-- The chunks that were begun: those on their way and those that have ended. -/
def begunChunks (r : Run) : List Nat := r.onWay.map (·.chunk.index) ++ r.finals.map Prod.fst

theorem index_remaining_or_final (c : ChunkRun) : (remaining c).map (·.chunk.index) ++
    (c.stage.final?.map (c.chunk.index, ·)).toList.map Prod.fst = [c.chunk.index] := by
  unfold remaining
  cases c.stage.final? <;> rfl

/-- Putting a chunk back, with the others that are on the way. -/
theorem begunChunks_place {r : Run} {c : ChunkRun} {notes : List Note} {others : List ChunkRun}
    (h : (r.place c notes).1.onWay.Perm (remaining c ++ others)) :
    (r.place c notes).1.begunChunks.Perm
      (c.chunk.index :: (others.map (·.chunk.index) ++ r.finals.map Prod.fst)) := by
  unfold begunChunks
  rw [finals_place, List.map_append]
  refine ((h.map _).append_right _).trans ?_
  rw [List.map_append, ← List.singleton_append, ← index_remaining_or_final c]
  generalize (remaining c).map (·.chunk.index) = as
  generalize others.map (·.chunk.index) = bs
  generalize r.finals.map Prod.fst = cs
  generalize (c.stage.final?.map (c.chunk.index, ·)).toList.map Prod.fst = ds
  rw [List.append_assoc, List.append_assoc]
  refine List.Perm.append_left as ?_
  rw [← List.append_assoc]
  exact List.perm_append_comm

/-! ## One move -/

/-- All that a move can do. -/
inductive Move (r : Run) (now : Nat) : RunMove → Run → Prop
  | next (chunk : Chunk) (rest : List Chunk) (waiting : r.waiting = chunk :: rest)
    (room : r.onWay.length < r.limit) (going : r.cancelled = false) :
    Move r now .next (({ r with waiting := rest }).place (ChunkRun.start now r.provenance chunk).1
      (ChunkRun.start now r.provenance chunk).2).1
  | chunk {i : Nat} {input : ChunkInput} {c c' : ChunkRun} {notes : List Note} (found : r.find? i = some c)
    (taken : c.step? now r.options input = some (c', notes)) (timed : r.timeout?.isSome = true)
    (mode : input.isWithdrawal = r.cancelled) :
    Move r now (.chunk i input) (r.place c' notes).1
  | cancel (going : r.cancelled = false) (unfinished : r.result = none) :
    Move r now .cancel { r with cancelled := true }
  | conclude (empty : r.onWay = []) (last : r.waiting = [] ∨ r.cancelled = true)
    (unfinished : r.result = none) :
    Move r now .conclude
      { r with result := some (report r.request.id r.request.language r.plan r.finals) }

theorem move_cases {r r' : Run} {now : Nat} {m : RunMove} {notes : List Note}
    (h : r.move? now m = some (r', notes)) : Move r now m r' := by
  have htaken {p : Run × List Note} (h : some p = some (r', notes)) : p.1 = r' :=
    congrArg Prod.fst (Option.some.inj h)
  cases m with
  | next =>
    rw [move?, next?] at h
    split at h
    · cases h
    · next chunk rest hwaiting =>
      split at h
      · next hroom =>
        simp only [Bool.and_eq_true, decide_eq_true_eq, Bool.not_eq_true'] at hroom
        obtain rfl := htaken h
        exact .next chunk rest hwaiting hroom.1 hroom.2
      · cases h
  | chunk i input =>
    rw [move?, stepChunk?] at h
    split at h
    · next hmode =>
      simp only [Bool.and_eq_true, beq_iff_eq] at hmode
      obtain ⟨c, hfound, h⟩ := Option.bind_eq_some_iff.1 h
      obtain ⟨⟨c', more⟩, htook, h⟩ := Option.bind_eq_some_iff.1 h
      obtain rfl := htaken h
      exact .chunk hfound htook hmode.1 hmode.2
    · cases h
  | cancel =>
    rw [move?] at h
    split at h
    · cases h
    · next hopen =>
      simp only [Bool.or_eq_true, not_or, Bool.not_eq_true, Option.isSome_eq_false_iff,
        Option.isNone_iff_eq_none] at hopen
      obtain rfl := htaken h
      exact .cancel hopen.1 hopen.2
  | conclude =>
    rw [move?, conclude?] at h
    split at h
    · next hopen =>
      simp only [Bool.and_eq_true, Bool.or_eq_true, List.isEmpty_iff, Option.isNone_iff_eq_none] at hopen
      obtain rfl := htaken h
      exact .conclude hopen.1.1 hopen.1.2 hopen.2
    · cases h

theorem move?_next {r : Run} {now : Nat} {chunk : Chunk} {rest : List Chunk}
    (waiting : r.waiting = chunk :: rest) (room : r.onWay.length < r.limit) (going : r.cancelled = false) :
    r.move? now .next = some (({ r with waiting := rest }).place (ChunkRun.start now r.provenance chunk).1
      (ChunkRun.start now r.provenance chunk).2) := by
  rw [move?, next?, waiting]
  dsimp only
  rw [if_pos (by rw [going]; exact Bool.and_eq_true_iff.2 ⟨decide_eq_true room, rfl⟩)]

theorem move?_cancel {r : Run} {now : Nat} (going : r.cancelled = false) (unfinished : r.result = none) :
    r.move? now .cancel = some ({ r with cancelled := true }, []) := by
  rw [move?, going, unfinished]
  rfl

theorem move?_conclude {r : Run} {now : Nat} (empty : r.onWay = []) (last : r.waiting = [] ∨ r.cancelled = true)
    (unfinished : r.result = none) : r.move? now .conclude =
      some ({ r with result := some (report r.request.id r.request.language r.plan r.finals) },
        r.lastNotes now (report r.request.id r.request.language r.plan r.finals)) := by
  rw [move?, conclude?, if_pos]
  rw [empty, unfinished]
  rcases last with hlast | hlast
  · rw [hlast]
    rfl
  · rw [hlast, Bool.or_true]
    rfl

theorem move?_chunk {r : Run} {now i : Nat} {input : ChunkInput} {c c' : ChunkRun} {notes : List Note}
    (found : r.find? i = some c) (taken : c.step? now r.options input = some (c', notes))
    (timed : r.timeout?.isSome = true) (mode : input.isWithdrawal = r.cancelled) :
    r.move? now (.chunk i input) = some (r.place c' notes) := by
  rw [move?, stepChunk?, if_pos (Bool.and_eq_true_iff.2 ⟨timed, beq_iff_eq.2 mode⟩), found]
  dsimp only [Option.bind_eq_bind, Option.bind_some]
  rw [taken]
  rfl

/-- A move that is possible can be made. -/
theorem exists_move {r r' : Run} {now : Nat} {m : RunMove} (h : Move r now m r') :
    (r.move? now m).isSome = true := by
  cases h with
  | next chunk rest hwaiting hroom hgoing => rw [move?_next hwaiting hroom hgoing, Option.isSome_some]
  | chunk hfound htaken htimed hmode => rw [move?_chunk hfound htaken htimed hmode, Option.isSome_some]
  | cancel hgoing hopen => rw [move?_cancel hgoing hopen, Option.isSome_some]
  | conclude hempty hlast hopen => rw [move?_conclude hempty hlast hopen, Option.isSome_some]

/-! ## Runs -/

/-- The chunk that a move begins. -/
def begins? (r : Run) : RunMove → Option Nat
  | .next => r.waiting.head?.map Chunk.index
  | _ => none

/-- Moves, each with its time, lead from one state of a run to another, and chunks are begun in this order.  Each
move is one that it may make in the state that it is made in. -/
inductive Leads (may : Run → RunMove → Prop) (r : Run) : List (Nat × RunMove) → List Nat → Run → Prop
  | refl : Leads may r [] [] r
  | step {ms : List (Nat × RunMove)} {begun : List Nat} {s t : Run} {notes : List Note} (now : Nat)
    (m : RunMove) (before : Leads may r ms begun s) (allowed : may s m)
    (made : s.move? now m = some (t, notes)) :
    Leads may r (ms ++ [(now, m)]) (begun ++ (s.begins? m).toList) t

/-- Any move. -/
def anyMove : Run → RunMove → Prop := fun _ _ => True

instance (r : Run) (m : RunMove) : Decidable (anyMove r m) := inferInstanceAs (Decidable True)

theorem Leads.trans {may : Run → RunMove → Prop} {r s t : Run} {ms ms' : List (Nat × RunMove)}
    {begun begun' : List Nat} (h : Leads may r ms begun s) (h' : Leads may s ms' begun' t) :
    Leads may r (ms ++ ms') (begun ++ begun') t := by
  induction h' with
  | refl =>
    rw [List.append_nil, List.append_nil]
    exact h
  | step now m before allowed made ih =>
    rw [← List.append_assoc, ← List.append_assoc]
    exact ih.step now m allowed made

theorem Leads.mono {may may' : Run → RunMove → Prop} {r s : Run} {ms : List (Nat × RunMove)}
    {begun : List Nat} (hmay : ∀ r m, may r m → may' r m) (h : Leads may r ms begun s) :
    Leads may' r ms begun s := by
  induction h with
  | refl => exact .refl
  | step now m before allowed made ih => exact ih.step now m (hmay _ _ allowed) made

/-- Making moves one after the other, where each may be made. -/
def makes? (may : Run → RunMove → Prop) [∀ r m, Decidable (may r m)] (r : Run) :
    List (Nat × RunMove) → Option Run
  | [] => some r
  | (now, m) :: ms =>
    if may r m then (r.move? now m).bind fun next => makes? may next.1 ms else none

theorem exists_leads_of_makes {may : Run → RunMove → Prop} [∀ r m, Decidable (may r m)] {r s : Run}
    {ms : List (Nat × RunMove)} (h : r.makes? may ms = some s) : ∃ begun, Leads may r ms begun s := by
  induction ms generalizing r with
  | nil =>
    obtain rfl := Option.some.inj h
    exact ⟨[], .refl⟩
  | cons p ms ih =>
    obtain ⟨now, m⟩ := p
    rw [makes?] at h
    split at h
    · next hmay =>
      obtain ⟨⟨t, notes⟩, hmade, hrest⟩ := Option.bind_eq_some_iff.1 h
      obtain ⟨begun, hleads⟩ := ih hrest
      exact ⟨_, (Leads.step now m .refl hmay hmade).trans hleads⟩
    · cases h

theorem exists_result_of_makes {may : Run → RunMove → Prop} [∀ r m, Decidable (may r m)] {r : Run}
    {ms : List (Nat × RunMove)} (h : ((r.makes? may ms).bind Run.result).isSome = true) :
    ∃ begun s a, Leads may r ms begun s ∧ s.result = some a := by
  obtain ⟨a, ha⟩ := Option.isSome_iff_exists.1 h
  obtain ⟨s, hmade, ha⟩ := Option.bind_eq_some_iff.1 ha
  obtain ⟨begun, hleads⟩ := exists_leads_of_makes hmade
  exact ⟨begun, s, a, hleads, ha⟩

/-- What is made of all moves that can be made is a run. -/
theorem exists_leads_makeAll (r : Run) (now : Nat) (ms : List RunMove) :
    ∃ made begun, Leads anyMove r made begun (r.makeAll now ms).1 := by
  induction ms generalizing r with
  | nil => exact ⟨[], [], .refl⟩
  | cons m ms ih =>
    rw [makeAll]
    cases hmade : r.move? now m with
    | none => exact ih r
    | some next =>
      obtain ⟨s, notes⟩ := next
      obtain ⟨made, begun, hleads⟩ := ih s
      exact ⟨_, _, (Leads.step now m .refl trivial hmade).trans hleads⟩

/-- A run that is started, and every step that it takes, is made of moves. -/
theorem exists_leads_start (now : Nat) (request : Request) (spec : BackendSpec) (cancelled : Bool) :
    ∃ made begun, Leads anyMove (new now request spec cancelled) made begun
      (start now request spec cancelled).1 := exists_leads_makeAll _ now _

theorem exists_leads_step {r s : Run} {now : Nat} {m : RunMove} {notes : List Note}
    (h : r.step? now m = some (s, notes)) : ∃ made begun, Leads anyMove r ((now, m) :: made) begun s := by
  obtain ⟨⟨t, first⟩, hmade, h⟩ := Option.bind_eq_some_iff.1 h
  obtain ⟨made, begun, hleads⟩ := exists_leads_makeAll t now t.ownMoves
  have hs : (t.settle now).1 = s := congrArg Prod.fst (Option.some.inj h)
  exact ⟨made, _, hs ▸ (Leads.step now m .refl trivial hmade).trans hleads⟩

/-! ## Order -/

/-- The state of a run in which these chunks were begun. -/
structure Orderly (r : Run) (begun : List Nat) : Prop where
  indexed : r.plan.chunks.map Chunk.index = List.range r.total
  /-- they were begun in the order of the plan -/
  order : begun = List.range begun.length
  waiting : r.waiting = r.plan.chunks.drop begun.length
  within : begun.length ≤ r.total
  /-- each of them once -/
  once : r.begunChunks.Perm begun
  own : ∀ c ∈ r.onWay, r.plan.chunks[c.chunk.index]? = some c.chunk
  going : ∀ c ∈ r.onWay, c.stage.final? = none
  early : ∀ c ∈ r.onWay, c.RestsEarly r.options
  /-- no more are on their way than the request allows -/
  room : r.onWay.length ≤ r.limit
  result : ∀ a, r.result = some a → r.onWay = [] ∧ (r.waiting = [] ∨ r.cancelled = true) ∧
    a = report r.request.id r.request.language r.plan r.finals

namespace Orderly

variable {r : Run} {begun : List Nat}

theorem nodup (h : r.Orderly begun) : r.begunChunks.Nodup := by
  rw [h.once.nodup_iff, h.order]
  exact List.nodup_range

theorem nodup_onWay (h : r.Orderly begun) : (r.onWay.map (·.chunk.index)).Nodup :=
  (List.nodup_append.1 h.nodup).1

/-- A chunk on its way is found by its index. -/
theorem find?_eq (h : r.Orderly begun) {c : ChunkRun} (hc : c ∈ r.onWay) : r.find? c.chunk.index = some c := by
  have hsome : (r.find? c.chunk.index).isSome = true := List.find?_isSome.2 ⟨c, hc, beq_self_eq_true _⟩
  obtain ⟨d, hd⟩ := Option.isSome_iff_exists.1 hsome
  obtain ⟨hmem, hindex⟩ := mem_of_find? hd
  rw [hd, List.inj_on_of_nodup_map h.nodup_onWay hmem hc hindex]

theorem index_of_getElem? (h : r.Orderly begun) {i : Nat} {c : Chunk} (hc : r.plan.chunks[i]? = some c) :
    c.index = i := by
  have hindex := congrArg (·[i]?) h.indexed
  have hi : i < r.total := by
    obtain ⟨hi, -⟩ := List.getElem?_eq_some_iff.1 hc
    exact hi
  simp only [List.getElem?_map, hc, Option.map_some, List.getElem?_range hi] at hindex
  exact Option.some.inj hindex

/-- While chunks are waiting, the first of them has the next number. -/
theorem next_waiting (h : r.Orderly begun) {chunk : Chunk} {rest : List Chunk}
    (hwaiting : r.waiting = chunk :: rest) :
    r.plan.chunks[begun.length]? = some chunk ∧ chunk.index = begun.length ∧
      begun.length < r.total ∧ rest = r.plan.chunks.drop (begun.length + 1) := by
  have hdrop := h.waiting
  rw [hwaiting] at hdrop
  have hfirst : r.plan.chunks[begun.length]? = some chunk := by
    have hget := congrArg (·[0]?) hdrop
    simp only [List.getElem?_cons_zero, List.getElem?_drop, Nat.add_zero] at hget
    exact hget.symm
  refine ⟨hfirst, h.index_of_getElem? hfirst, (List.getElem?_eq_some_iff.1 hfirst).1, ?_⟩
  rw [← List.drop_drop, ← hdrop, List.drop_one, List.tail_cons]

theorem result_none_of_waiting (h : r.Orderly begun) (hgoing : r.cancelled = false) {chunk : Chunk}
    {rest : List Chunk} (hwaiting : r.waiting = chunk :: rest) : r.result = none := by
  cases hresult : r.result with
  | none => rfl
  | some a =>
    obtain ⟨-, hlast, -⟩ := h.result a hresult
    rw [hwaiting, hgoing] at hlast
    rcases hlast with hlast | hlast <;> cases hlast

/-- The chunk that is begun next was not begun yet. -/
theorem index_notMem_begunChunks (h : r.Orderly begun) {chunk : Chunk} {rest : List Chunk}
    (hwaiting : r.waiting = chunk :: rest) : chunk.index ∉ r.begunChunks := by
  obtain ⟨-, hindex, -, -⟩ := h.next_waiting hwaiting
  rw [hindex]
  intro hmem
  -- its number is that of the chunks begun so far, and theirs are smaller
  have hbegun : begun.length ∈ begun := h.once.subset hmem
  rw [h.order, List.length_range] at hbegun
  exact absurd (List.mem_range.1 hbegun) (Nat.lt_irrefl _)

theorem index_notMem (h : r.Orderly begun) {chunk : Chunk} {rest : List Chunk}
    (hwaiting : r.waiting = chunk :: rest) : chunk.index ∉ r.onWay.map (·.chunk.index) :=
  fun hmem => h.index_notMem_begunChunks hwaiting (List.mem_append_left _ hmem)

/-- A chunk on its way has not ended. -/
theorem notMem_finals (h : r.Orderly begun) {c : ChunkRun} (hc : c ∈ r.onWay) :
    c.chunk.index ∉ r.finals.map Prod.fst := by
  obtain ⟨-, -, hdisjoint⟩ := List.nodup_append.1 h.nodup
  intro hmem
  exact hdisjoint _ (List.mem_map_of_mem hc) _ hmem rfl

theorem result_none_of_onWay (h : r.Orderly begun) {c : ChunkRun} (hc : c ∈ r.onWay) : r.result = none := by
  cases hresult : r.result with
  | none => rfl
  | some a =>
    obtain ⟨hempty, -, -⟩ := h.result a hresult
    rw [hempty] at hc
    cases hc

theorem next {now : Nat} {chunk : Chunk} {rest : List Chunk} (h : r.Orderly begun)
    (hwaiting : r.waiting = chunk :: rest) (hroom : r.onWay.length < r.limit)
    (hgoing : r.cancelled = false) (p : Provenance) :
    Orderly (({ r with waiting := rest }).place (ChunkRun.start now p chunk).1
      (ChunkRun.start now p chunk).2).1 (begun ++ [begun.length]) := by
  obtain ⟨hfirst, hindex, hlt, hrest⟩ := h.next_waiting hwaiting
  have hchunk := ChunkRun.chunk_start now p chunk
  have hnew : (ChunkRun.start now p chunk).1.chunk.index ∉ r.onWay.map (·.chunk.index) := by
    rw [hchunk]
    exact h.index_notMem hwaiting
  have hframe := place_fst { r with waiting := rest } (ChunkRun.start now p chunk).1
    (ChunkRun.start now p chunk).2
  have honWay := @onWay_place_new { r with waiting := rest } _ (ChunkRun.start now p chunk).2 hnew
  have hbegun := begunChunks_place (honWay ▸ List.perm_append_comm)
  have hnothing := h.result_none_of_waiting hgoing hwaiting
  have hmem {x : ChunkRun} := @mem_onWay_place { r with waiting := rest } (ChunkRun.start now p chunk).1 x
    (ChunkRun.start now p chunk).2
  have hcount : (begun ++ [begun.length]).length = begun.length + 1 := List.length_append
  rw [hchunk, hindex] at hbegun
  -- from here on only these facts about the new state are needed
  generalize (place { r with waiting := rest } _ _).1 = s at hframe honWay hbegun hmem ⊢
  rw [hframe] at hbegun ⊢
  refine ⟨h.indexed, ?_, ?_, ?_, ?_, fun x hx => ?_, fun x hx => ?_, fun x hx => ?_, ?_, fun a ha => ?_⟩
  · rw [hcount, List.range_succ, ← h.order]
  · rw [hcount]
    exact hrest
  · rw [hcount]
    exact hlt
  · exact (hbegun.trans (h.once.cons _)).trans (List.perm_append_singleton _ _).symm
  · rcases hmem hx with hx | hx
    · exact h.own x hx
    · obtain ⟨rfl, -⟩ := mem_remaining hx
      rw [hchunk, hindex]
      exact hfirst
  · rcases hmem hx with hx | hx
    · exact h.going x hx
    · obtain ⟨rfl, hfinal⟩ := mem_remaining hx
      exact hfinal
  · rcases hmem hx with hx | hx
    · exact h.early x hx
    · obtain ⟨rfl, -⟩ := mem_remaining hx
      exact ChunkRun.restsEarly_start now p chunk
  · have hbound := length_remaining_le (ChunkRun.start now p chunk).1
    rw [honWay, List.length_append]
    exact Nat.le_trans (Nat.add_le_add_left hbound _) hroom
  · rw [hnothing] at ha
    cases ha

theorem chunk {now i : Nat} {input : ChunkInput} {c c' : ChunkRun} {notes : List Note}
    (h : r.Orderly begun) (hfound : r.find? i = some c)
    (htaken : c.step? now r.options input = some (c', notes)) : Orderly (r.place c' notes).1 begun := by
  obtain ⟨hc, -⟩ := mem_of_find? hfound
  have hstep := ChunkRun.step_cases htaken
  have hchunk : c'.chunk = c.chunk := ChunkRun.chunk_of_step hstep
  obtain ⟨others, hbefore, hbehind⟩ := exists_onWay_place_known notes h.nodup_onWay hc hchunk
  have hbegun := begunChunks_place hbehind
  have hsame : r.begunChunks.Perm (c'.chunk.index :: (others.map (·.chunk.index) ++ r.finals.map Prod.fst)) := by
    rw [hchunk]
    exact (hbefore.map _).append_right _
  have hframe := place_fst r c' notes
  have hmem {x : ChunkRun} := @mem_onWay_place r c' x notes
  generalize (r.place c' notes).1 = s at hframe hbehind hbegun hmem ⊢
  rw [hframe] at hbegun ⊢
  refine ⟨h.indexed, h.order, h.waiting, h.within, (hbegun.trans hsame.symm).trans h.once, fun x hx => ?_,
    fun x hx => ?_, fun x hx => ?_, ?_, fun a ha => ?_⟩
  · rcases hmem hx with hx | hx
    · exact h.own x hx
    · obtain ⟨rfl, -⟩ := mem_remaining hx
      rw [hchunk]
      exact h.own c hc
  · rcases hmem hx with hx | hx
    · exact h.going x hx
    · obtain ⟨rfl, hfinal⟩ := mem_remaining hx
      exact hfinal
  · rcases hmem hx with hx | hx
    · exact h.early x hx
    · obtain ⟨rfl, -⟩ := mem_remaining hx
      exact ChunkRun.restsEarly_of_step hstep
  · have hroom := h.room
    have hbound := length_remaining_le c'
    rw [hbefore.length_eq, List.length_cons] at hroom
    rw [hbehind.length_eq, List.length_append]
    exact Nat.le_trans (by omega) hroom
  · obtain ⟨hempty, -, -⟩ := h.result a ha
    rw [hempty] at hc
    cases hc

end Orderly

theorem orderly_new (now : Nat) (request : Request) (spec : BackendSpec) (cancelled : Bool) :
    Orderly (new now request spec cancelled) [] :=
  ⟨ChunkPlan.index_ofText _ _, rfl, rfl, Nat.zero_le _, .refl _, fun _ h => absurd h List.not_mem_nil,
    fun _ h => absurd h List.not_mem_nil, fun _ h => absurd h List.not_mem_nil, Nat.zero_le _,
    fun _ h => by cases h⟩

/-- One move keeps the order. -/
theorem Orderly.move {r r' : Run} {begun : List Nat} {now : Nat} {m : RunMove} (h : r.Orderly begun)
    (hmove : Move r now m r') : r'.Orderly (begun ++ (r.begins? m).toList) := by
  cases hmove with
  | next chunk rest hwaiting hroom hgoing =>
    obtain ⟨-, hindex, -, -⟩ := h.next_waiting hwaiting
    have hbegins : (r.begins? .next).toList = [begun.length] := by
      rw [begins?, hwaiting, List.head?_cons, Option.map_some, hindex, Option.toList_some]
    rw [hbegins]
    exact h.next hwaiting hroom hgoing r.provenance
  | chunk hfound htaken htimed hmode => exact (List.append_nil begun).symm ▸ h.chunk hfound htaken
  | cancel hgoing hopen =>
    refine (List.append_nil begun).symm ▸ ⟨h.indexed, h.order, h.waiting, h.within, h.once, h.own, h.going,
      h.early, h.room, fun a ha => ?_⟩
    rw [hopen] at ha
    cases ha
  | conclude hempty hlast hopen =>
    exact (List.append_nil begun).symm ▸ ⟨h.indexed, h.order, h.waiting, h.within, h.once, h.own, h.going,
      h.early, h.room, fun a ha => ⟨hempty, hlast, (Option.some.inj ha).symm⟩⟩

/-- Every run keeps the order. -/
theorem Leads.orderly {may : Run → RunMove → Prop} {r s : Run} {ms : List (Nat × RunMove)}
    {begun first : List Nat} (hfirst : r.Orderly first) (h : Leads may r ms begun s) :
    s.Orderly (first ++ begun) := by
  induction h with
  | refl =>
    rw [List.append_nil]
    exact hfirst
  | step now m before allowed made ih =>
    rw [← List.append_assoc]
    exact ih.move (move_cases made)

/-- What a request asks for, and its plan, never change. -/
theorem fixed_of_move {r r' : Run} {now : Nat} {m : RunMove} (h : Move r now m r') :
    r'.request = r.request ∧ r'.spec = r.spec ∧ r'.plan = r.plan := by
  cases h with
  | next => exact ⟨request_place _ _ _, spec_place _ _ _, plan_place _ _ _⟩
  | chunk => exact ⟨request_place _ _ _, spec_place _ _ _, plan_place _ _ _⟩
  | cancel => exact ⟨rfl, rfl, rfl⟩
  | conclude => exact ⟨rfl, rfl, rfl⟩

theorem Leads.fixed {may : Run → RunMove → Prop} {r s : Run} {ms : List (Nat × RunMove)} {begun : List Nat}
    (h : Leads may r ms begun s) : s.request = r.request ∧ s.spec = r.spec ∧ s.plan = r.plan := by
  induction h with
  | refl => exact ⟨rfl, rfl, rfl⟩
  | step now m before allowed made ih =>
    obtain ⟨hrequest, hspec, hplan⟩ := fixed_of_move (move_cases made)
    rw [hrequest, hspec, hplan]
    exact ih

/-! ## Every run ends -/

theorem total_perm {xs ys : List Nat} (h : xs.Perm ys) : Pseudoscribe.total xs = Pseudoscribe.total ys := by
  induction h with
  | nil => rfl
  | cons n _ ih => rw [total_cons, total_cons, ih]
  | swap m n ns =>
    simp only [total_cons]
    omega
  | trans _ _ ih ih' => rw [ih, ih']

/-- The steps that the chunks on their way can still take. -/
def stepsOnWay (r : Run) : Nat := Pseudoscribe.total (r.onWay.map (·.stepsLeft r.options))

/-- A bound for the moves that a run can still make. -/
def movesLeft (r : Run) : Nat :=
  r.waiting.length * (3 * r.options.maxAttempts) + r.stepsOnWay + (if r.cancelled then 0 else 1) +
    if r.result.isSome then 0 else 1

theorem total_remaining (o : Options) (c : ChunkRun) :
    Pseudoscribe.total ((remaining c).map (·.stepsLeft o)) = c.stepsLeft o := by
  unfold remaining
  cases hfinal : c.stage.final? with
  | none => exact Nat.add_zero _
  | some final =>
    rw [ChunkRun.stepsLeft, ChunkStage.final?_eq_some.1 hfinal]
    rfl

theorem stepsOnWay_next {r : Run} {c : ChunkRun} (notes : List Note)
    (hc : c.chunk.index ∉ r.onWay.map (·.chunk.index)) :
    (r.place c notes).1.stepsOnWay = r.stepsOnWay + c.stepsLeft r.options := by
  have honWay := onWay_place_new notes hc
  rw [stepsOnWay, honWay, List.map_append, total_append, options_place, total_remaining]
  rfl

theorem stepsOnWay_chunk {r : Run} {c c' : ChunkRun} (notes : List Note)
    (hnodup : (r.onWay.map (·.chunk.index)).Nodup) (hc : c ∈ r.onWay) (hchunk : c'.chunk = c.chunk)
    (hless : c'.stepsLeft r.options < c.stepsLeft r.options) :
    (r.place c' notes).1.stepsOnWay < r.stepsOnWay := by
  obtain ⟨others, hbefore, hbehind⟩ := exists_onWay_place_known notes hnodup hc hchunk
  have hold := total_perm (hbefore.map (·.stepsLeft r.options))
  have hnew := total_perm (hbehind.map (·.stepsLeft r.options))
  rw [List.map_append, total_append, total_remaining] at hnew
  rw [List.map_cons, total_cons] at hold
  rw [stepsOnWay, stepsOnWay, options_place, hold, hnew]
  omega

theorem movesLeft_lt_of_move {r r' : Run} {begun : List Nat} {now : Nat} {m : RunMove}
    (horder : r.Orderly begun) (h : Move r now m r') : r'.movesLeft < r.movesLeft := by
  cases h with
  | next chunk rest hwaiting =>
    have hnew : (ChunkRun.start now r.provenance chunk).1.chunk.index ∉
        ({ r with waiting := rest } : Run).onWay.map (·.chunk.index) := by
      rw [ChunkRun.chunk_start]
      exact horder.index_notMem hwaiting
    have hsteps := stepsOnWay_next (ChunkRun.start now r.provenance chunk).2 hnew
    have hstart := ChunkRun.stepsLeft_start_lt r.options now r.provenance chunk
    change _ = r.stepsOnWay + (ChunkRun.start now r.provenance chunk).1.stepsLeft r.options at hsteps
    -- the steps that stood for the chunk among the waiting ones are more than it can now take
    rw [movesLeft, movesLeft, waiting_place, options_place, cancelled_place, result_place, hsteps, hwaiting,
      List.length_cons, Nat.succ_mul rest.length]
    change rest.length * (3 * r.options.maxAttempts) + _ + (if r.cancelled then 0 else 1) +
      (if r.result.isSome then 0 else 1) < _
    omega
  | @chunk i input c c' notes hfound htaken =>
    obtain ⟨hc, -⟩ := mem_of_find? hfound
    have hstep := ChunkRun.step_cases htaken
    have hless := ChunkRun.stepsLeft_lt_of_step (horder.early c hc) hstep
    have hsteps := stepsOnWay_chunk notes horder.nodup_onWay hc (ChunkRun.chunk_of_step hstep) hless
    rw [movesLeft, movesLeft, waiting_place, options_place, cancelled_place, result_place]
    omega
  | cancel hgoing =>
    have hsame : ({ r with cancelled := true } : Run).stepsOnWay = r.stepsOnWay := rfl
    have hoptions : ({ r with cancelled := true } : Run).options = r.options := rfl
    rw [movesLeft, movesLeft, hsame, hoptions, hgoing, if_pos rfl, if_neg Bool.false_ne_true]
    dsimp only
    omega
  | conclude hempty hlast hopen =>
    have hsame (a : Assembly) : ({ r with result := some a } : Run).stepsOnWay = r.stepsOnWay := rfl
    have hoptions (a : Assembly) : ({ r with result := some a } : Run).options = r.options := rfl
    rw [movesLeft, movesLeft, hsame, hoptions, hopen]
    exact Nat.lt_succ_self _

/-- With every move a run comes nearer to its end. -/
theorem Leads.bounded {may : Run → RunMove → Prop} {r s : Run} {ms : List (Nat × RunMove)}
    {begun first : List Nat} (hfirst : r.Orderly first) (h : Leads may r ms begun s) :
    ms.length + s.movesLeft ≤ r.movesLeft := by
  induction h with
  | refl => exact Nat.le_of_eq (Nat.zero_add _)
  | step now m before allowed made ih =>
    have hless := movesLeft_lt_of_move (before.orderly hfirst) (move_cases made)
    rw [List.length_append, List.length_singleton]
    omega

end Run

end Pseudoscribe
