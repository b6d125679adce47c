import Pseudoscribe.Proofs.Assembly.Ownership
import Pseudoscribe.Proofs.Run.Lasting
import Pseudoscribe.Proofs.Run.Tale

/-!
# The grammar of events

The events of a request are those of its run.  They begin with the start of the run and end with the one event that ends
it, and between these each chunk that was converted or given up has its last word, as the result reports it.  A
request for which no run is begun has one event, which tells why.
-/

namespace Pseudoscribe

/-! ## Events and reports -/

namespace EventBody

/-- The chunk that was converted, the number of its attempts, and the confidence. -/
def conversion? : EventBody → Option (Nat × Nat × Double)
  | chunkCompleted chunk attempts confidence _ _ => some (chunk, attempts, confidence)
  | _ => none

/-- How many chunks had ended when a chunk was converted, itself among them. -/
def finished? : EventBody → Option Nat
  | chunkCompleted _ _ _ finished _ => some finished
  | _ => none

/-- The chunk that was given up and the number of its attempts. -/
def abandonment? : EventBody → Option (Nat × Nat)
  | chunkAbandoned chunk attempts _ => some (chunk, attempts)
  | _ => none

end EventBody

namespace ChunkEnd

def conversion? : Nat × ChunkEnd → Option (Nat × Nat × Double)
  | (index, converted a attempts) => some (index, attempts, a.confidence)
  | _ => none

def abandonment? : Nat × ChunkEnd → Option (Nat × Nat)
  | (index, abandoned _ attempts) => some (index, attempts)
  | _ => none

end ChunkEnd

namespace ChunkReport

/-- The chunk, its attempts and its confidence, if it was converted. -/
def conversion? (r : ChunkReport) : Option (Nat × Nat × Double) :=
  if r.status = .succeeded then some (r.chunk, r.attempts, r.confidence) else none

/-- The chunk and its attempts, if it was given up. -/
def abandonment? (r : ChunkReport) : Option (Nat × Nat) :=
  if r.status = .abandoned then some (r.chunk, r.attempts) else none

end ChunkReport

namespace Assembly

theorem Reports.conversion?_eq {ends : Chunk → ChunkEnd} {c : Chunk} {r : ChunkReport} (h : Reports ends c r) :
    r.conversion? = ChunkEnd.conversion? (c.index, ends c) := by
  rw [ChunkReport.conversion?, h.status, h.chunk, h.attempts, h.confidence]
  cases ends c <;> rfl

theorem Reports.abandonment?_eq {ends : Chunk → ChunkEnd} {c : Chunk} {r : ChunkReport}
    (h : Reports ends c r) : r.abandonment? = ChunkEnd.abandonment? (c.index, ends c) := by
  rw [ChunkReport.abandonment?, h.status, h.chunk, h.attempts]
  cases ends c <;> rfl

/-- What is taken of the reports is taken of the ends that they report. -/
theorem filterMap_reports {α : Type} {ends : Chunk → ChunkEnd} {f : ChunkReport → Option α}
    {g : Nat × ChunkEnd → Option α} (hfg : ∀ c r, Reports ends c r → f r = g (c.index, ends c))
    {chunks : List Chunk} {reports : List ChunkReport} (h : List.Forall₂ (Reports ends) chunks reports) :
    reports.filterMap f = chunks.filterMap fun c => g (c.index, ends c) := by
  induction h with
  | nil => rfl
  | cons hr _ ih => rw [List.filterMap_cons, List.filterMap_cons, ih, hfg _ _ hr]

end Assembly

namespace Run

open Assembly

/-! ## What is taken of a story -/

/-- What is taken of last words alone is taken of the last words that the story has. -/
theorem Story.filterMap_eq {α : Type} {f : EventBody → Option α} {r : Run} {inner : List EventBody} (h : r.Story inner)
    (hf : ∀ b, b.isFarewell = false → f b = none) :
    inner.filterMap f = (farewells r.total r.finals).filterMap f := by
  rw [← h.order, List.filterMap_filter]
  refine List.filterMap_congr fun b _ => ?_
  cases hb : b.isFarewell with
  | true => rw [if_pos rfl]
  | false => rw [if_neg Bool.false_ne_true, hf b hb]

theorem farewells_append_singleton (total : Nat) (finals : List (Nat × ChunkEnd)) (p : Nat × ChunkEnd) :
    farewells total (finals ++ [p]) = farewells total finals ++ p.2.farewell p.1 (finals.length + 1) total := by
  have hconcat := farewells_concat total finals p.1 (some p.2)
  rwa [Option.map_some, Option.toList_some, Option.toList_some, List.flatMap_singleton] at hconcat

theorem filterMap_farewells {α : Type} {f : EventBody → Option α} {g : Nat × ChunkEnd → Option α} {total : Nat}
    (hfg : ∀ p n, (p.2.farewell p.1 n total).filterMap f = (g p).toList) (finals : List (Nat × ChunkEnd)) :
    (farewells total finals).filterMap f = finals.filterMap g := by
  induction finals using List.reverseRecOn with
  | nil => rfl
  | append_singleton finals p ih =>
    rw [farewells_append_singleton, List.filterMap_append, List.filterMap_append, ih, hfg]
    cases hp : g p <;> simp [hp]

/-- The counts of the conversions are some of the numbers from 1 on, in order. -/
theorem counts_sublist (total : Nat) (finals : List (Nat × ChunkEnd)) :
    ((farewells total finals).filterMap EventBody.finished?).Sublist (List.range' 1 finals.length) := by
  induction finals using List.reverseRecOn with
  | nil => exact .slnil
  | append_singleton finals p ih =>
    obtain ⟨i, final⟩ := p
    rw [farewells_append_singleton, List.filterMap_append, List.length_append, List.length_singleton,
      List.range'_1_concat]
    refine ih.append ?_
    cases final with
    | converted a attempts => rw [Nat.add_comm]; exact .refl _
    | abandoned | cancelled => exact List.nil_sublist _

/-! ## The events of a run -/

/-- The events of a run up to here, and in the end. -/
structure Narrated (r : Run) (events : List EventBody) : Prop where
  /-- between its start and its end it tells of chunks only -/
  shape : ∃ inner, events = .started r.total :: (inner ++ (r.result.map r.lastWord).toList) ∧
    ∀ b ∈ inner, b.chunk?.isSome = true
  /-- only the last event ends the request, and only when there is a result -/
  terminal : events.filter (·.isTerminal) = (r.result.map r.lastWord).toList
  /-- the counts of conversions grow -/
  counts : (events.filterMap EventBody.finished?).Pairwise (· < ·)
  /-- nothing is told of a chunk, and it is not tried again, behind its conversion or its abandonment -/
  silent : events.Pairwise fun b b' => b.isFarewell = true → b'.chunk? ≠ b.chunk?
  /-- all chunks are reported -/
  reports : ∀ a, r.result = some a → a.chunks.length = r.total
  conversions : ∀ a, r.result = some a →
    (events.filterMap EventBody.conversion?).Perm (a.chunks.filterMap ChunkReport.conversion?)
  abandonments : ∀ a, r.result = some a →
    (events.filterMap EventBody.abandonment?).Perm (a.chunks.filterMap ChunkReport.abandonment?)

theorem lastWord_eq (r : Run) (a : Assembly) : (r.lastWord a).isTerminal = true ∧ (r.lastWord a).chunk? = none ∧
    (r.lastWord a).isFarewell = false := by
  unfold lastWord
  split
  · exact ⟨rfl, rfl, rfl⟩
  · exact ⟨rfl, rfl, rfl⟩

/-- The reports of the result of a run. -/
theorem Orderly.forall₂_reports {r : Run} {begun : List Nat} (h : r.Orderly begun) {a : Assembly}
    (ha : r.result = some a) : List.Forall₂ (Reports (endOf r.finals)) r.plan.chunks a.chunks := by
  rw [h.result_eq ha, reportOf_eq]
  obtain ⟨reports, hreports, hall⟩ := reports_addEach (endOf r.finals) { id := r.request.id } r.plan.chunks
  exact reports_hoist r.request.language (hreports ▸ hall)

/-- What is taken of the ends of chunks is what is taken of the reports of the result, if nothing is taken of chunks
that were never begun. -/
theorem Orderly.perm_reports {α : Type} {g : Nat × ChunkEnd → Option α} {k : ChunkReport → Option α} {r : Run}
    {begun : List Nat} (h : r.Orderly begun) {a : Assembly} (ha : r.result = some a)
    (hnone : ∀ i, g (i, .cancelled 0) = none)
    (hk : ∀ c report, Reports (endOf r.finals) c report → k report = g (c.index, endOf r.finals c)) :
    (r.finals.filterMap g).Perm (a.chunks.filterMap k) := by
  rw [filterMap_reports hk (h.forall₂_reports ha)]
  exact h.belong.perm_filterMap h.nodup_index hnone

/-- What is taken of last words about chunks is not taken of the first event of a run and of its last. -/
theorem Story.taken {α : Type} {f : EventBody → Option α} {r : Run} {inner : List EventBody} (h : r.Story inner)
    (hf : ∀ b, b.isFarewell = false → f b = none) :
    (EventBody.started r.total :: (inner ++ (r.result.map r.lastWord).toList)).filterMap f =
      (farewells r.total r.finals).filterMap f := by
  have hnone : (r.result.map r.lastWord).toList.filterMap f = [] := by
    refine List.filterMap_eq_nil_iff.2 fun b hb => hf b ?_
    obtain ⟨a, -, rfl⟩ := Option.map_eq_some_iff.1 (Option.mem_toList.1 hb)
    exact (r.lastWord_eq a).2.2
  rw [List.filterMap_cons, hf (.started r.total) rfl, List.filterMap_append, hnone, List.append_nil]
  exact h.filterMap_eq hf

/-- A story between the start of a run and its last word. -/
theorem Story.narrated {r : Run} {begun : List Nat} {inner : List EventBody} (horder : r.Orderly begun)
    (h : r.Story inner) : r.Narrated (.started r.total :: (inner ++ (r.result.map r.lastWord).toList)) := by
  have hlast (b : EventBody) (hb : b ∈ (r.result.map r.lastWord).toList) :
      b.isTerminal = true ∧ b.chunk? = none := by
    obtain ⟨a, -, rfl⟩ := Option.map_eq_some_iff.1 (Option.mem_toList.1 hb)
    exact ⟨(r.lastWord_eq a).1, (r.lastWord_eq a).2.1⟩
  have hconversion (b : EventBody) (hb : b.isFarewell = false) : b.conversion? = none := by
    cases b <;> first | rfl | cases hb
  have hfinished (b : EventBody) (hb : b.isFarewell = false) : b.finished? = none := by
    cases b <;> first | rfl | cases hb
  have habandonment (b : EventBody) (hb : b.isFarewell = false) : b.abandonment? = none := by
    cases b <;> first | rfl | cases hb
  refine ⟨⟨inner, rfl, h.about⟩, ?_, ?_, ?_, fun a ha => ?_, fun a ha => ?_, fun a ha => ?_⟩
  · have hinner : inner.filter (·.isTerminal) = [] := List.filter_eq_nil_iff.2 fun b hb =>
      Bool.eq_false_iff.1 (EventBody.isTerminal_of_chunk (h.about b hb))
    have hend : (r.result.map r.lastWord).toList.filter (·.isTerminal) = (r.result.map r.lastWord).toList :=
      List.filter_eq_self.2 fun b hb => (hlast b hb).1
    rw [List.filter_cons_of_neg (by exact Bool.false_ne_true), List.filter_append, hinner, hend, List.nil_append]
  · rw [h.taken hfinished]
    exact (List.pairwise_lt_range' 1 Nat.one_pos).sublist (counts_sublist r.total r.finals)
  · refine List.pairwise_cons.2 ⟨fun b _ hb => Bool.noConfusion hb, List.pairwise_append.2 ⟨h.silent, ?_, ?_⟩⟩
    · cases r.result with
      | none => exact .nil
      | some a => exact List.pairwise_singleton _ _
    · intro b _ b' hb' hfarewell heq
      rw [(hlast b' hb').2] at heq
      have hsome := EventBody.chunk_of_farewell hfarewell
      rw [← heq] at hsome
      cases hsome
  · exact (horder.forall₂_reports ha).length_eq.symm
  · rw [h.taken hconversion, filterMap_farewells (g := ChunkEnd.conversion?)]
    · exact horder.perm_reports ha (fun _ => rfl) fun c report hr => hr.conversion?_eq
    · rintro ⟨i, final⟩ n
      cases final <;> rfl
  · rw [h.taken habandonment, filterMap_farewells (g := ChunkEnd.abandonment?)]
    · exact horder.perm_reports ha (fun _ => rfl) fun c report hr => hr.abandonment?_eq
    · rintro ⟨i, final⟩ n
      cases final <;> rfl

theorem Tale.narrated {now : Nat} {request : Request} {spec : BackendSpec} {cancelled : Bool}
    {ms : List (Nat × RunMove)} {notes : List Note} {r : Run}
    (h : Tale (new now request spec cancelled) ms notes r) :
    r.Narrated (.started r.total :: Note.events notes) := by
  obtain ⟨begun, hleads⟩ := h.exists_leads
  obtain ⟨inner, hstory, hevents⟩ := h.exists_story
  rw [hevents]
  exact hstory.narrated (hleads.orderly (orderly_new now request spec cancelled))

end Run

end Pseudoscribe
