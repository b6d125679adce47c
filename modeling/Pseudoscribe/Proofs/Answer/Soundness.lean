import Pseudoscribe.Proofs.Number.Order
import Pseudoscribe.Worker.Link

/-!
# Answers that keep to their form

An answer that is made here is made from code or from an error, and what may be changed in it afterwards leaves the
form as it is: code without errors, or errors without code and with a confidence of 0, and the confidence from 0
to 1.  So whatever backend a worker asks, the answer it sends is of this form.  An answer that is read from a line is
of this form exactly if what the line says is: each member is taken as it stands, and they are never compared.
-/

namespace Pseudoscribe

namespace Answer

/-- The form of an answer; the two zeros are one confidence. -/
structure Formed (a : Answer) : Prop where
  ofCode : a.success = true → a.code.isSome ∧ a.errors = []
  ofError : a.success = false → a.code = none ∧ a.errors ≠ [] ∧ a.confidence.isZero
  range : Double.le 0 a.confidence ∧ Double.le a.confidence 1

theorem Sound.formed {a : Answer} (h : a.Sound) : a.Formed := by
  unfold Sound at h
  split at h
  · next hsuccess =>
    exact ⟨fun _ => ⟨h.1, h.2.1⟩, fun hfailure => absurd (hsuccess.symm.trans hfailure) (by decide), h.2.2.2⟩
  · next hfailure =>
    refine ⟨fun hsuccess => absurd hsuccess hfailure, fun _ => ⟨h.1, h.2.1, ?_⟩, ?_⟩
    · rw [h.2.2]
      rfl
    · rw [h.2.2]
      decide +kernel

/-! ## Answers that are made here -/

/-- What may be done to an answer after it was made. -/
inductive Change where
  | warning (text : String)
  | warnings (texts : List String)
  | error (text : String)
  | bestEffort
  | pid (pid : Option Nat)
  | latency (ms : Nat)

def change (a : Answer) : Change → Answer
  | .warning text => a.addWarning text
  | .warnings texts => a.addWarnings texts
  | .error text => a.addError text
  | .bestEffort => a.markBestEffort
  | .pid pid => a.withPid pid
  | .latency ms => a.withLatency ms

def changeAll (a : Answer) (cs : List Change) : Answer := cs.foldl change a

theorem clampConfidence_range (x : Double) :
    (clampConfidence x).isFinite ∧ Double.le 0 (clampConfidence x) ∧ Double.le (clampConfidence x) 1 := by
  have hzero : (0 : Double).isNan = false := rfl
  have hone : (1 : Double).isNan = false := by decide +kernel
  unfold clampConfidence
  split
  · decide +kernel
  · next hfinite =>
    have hfinite : x.isFinite = true := by simpa using hfinite
    have hnan : x.isNan = false := by
      cases x with
      | nan => cases hfinite
      | infinite s => rfl
      | finite s m e => rfl
    split
    · decide +kernel
    · next hnonneg =>
      split
      · decide +kernel
      · next hle =>
        rw [Double.lt_iff hnan hzero, not_lt] at hnonneg
        rw [Double.lt_iff hone hnan, not_lt] at hle
        exact ⟨hfinite, (Double.le_iff hzero hnan).2 hnonneg, (Double.le_iff hnan hone).2 hle⟩

theorem sound_ofCode (code : String) (confidence : Double) (p : Provenance) : (ofCode code confidence p).Sound :=
  ⟨rfl, rfl, clampConfidence_range confidence⟩

theorem sound_ofError (error : String) (p : Provenance) : (ofError error p).Sound :=
  ⟨rfl, List.cons_ne_nil _ _, rfl⟩

theorem Sound.change {a : Answer} (h : a.Sound) (c : Change) : (a.change c).Sound := by
  cases c with
  | warning text => exact h
  | warnings texts => exact h
  | error text =>
    show (a.addError text).Sound
    unfold addError
    split
    · exact h
    · next hfailure =>
      unfold Sound at h ⊢
      rw [if_neg hfailure] at h ⊢
      exact ⟨h.1, by simp, h.2.2⟩
  | bestEffort => exact h
  | pid pid => exact h
  | latency ms => exact h

theorem Sound.changeAll {a : Answer} (h : a.Sound) (cs : List Change) : (a.changeAll cs).Sound := by
  induction cs generalizing a with
  | nil => exact h
  | cons c cs ih => exact ih (h.change c)

end Answer

/-! ## What workers answer -/

theorem Manifest.sound_answer (m : Manifest) (p : Provenance) (chunk : Chunk) (language : Language) :
    (m.answer p chunk language).Sound := by
  unfold answer
  split
  · exact Answer.sound_ofError _ _
  · dsimp only
    split
    · refine ((?_ : Answer.Sound _).change (.warning _)).change .bestEffort
      split
      · exact Answer.sound_ofCode _ _ p
      · exact (Answer.sound_ofCode _ _ p).change (.warning _)
    · split
      · exact Answer.sound_ofCode _ _ p
      · exact (Answer.sound_ofCode _ _ p).change (.warning _)

theorem EmbeddedBackend.sound_answer (files : Files) (b : EmbeddedBackend) (chunk : Chunk) (language : Language) :
    (b.answer files chunk language).1.Sound := by
  unfold answer
  split
  · exact Manifest.sound_answer _ _ _ _
  · exact Answer.sound_ofError _ _

theorem RemoteBackend.sound_answer (b : RemoteBackend) (timeout : Duration) (reply : RemoteReply) (chunk : Chunk)
    (language : Language) : (b.answer timeout reply chunk language).Sound := by
  unfold answer
  split
  · exact Answer.sound_ofError _ _
  · split
    · unfold answerOf
      dsimp only
      split
      · exact Answer.sound_ofError _ _
      · exact (Answer.sound_ofCode _ _ _).change (.warnings _)
    · exact Answer.sound_ofError _ _

theorem Script.sound_work {s : Script} {call : Nat} {chunk : Chunk} {language : Language} {a : Answer}
    (h : (s.work call chunk language).result = .ok a) : a.Sound := by
  unfold work at h
  dsimp only at h
  split at h
  · cases h
  · split at h
    · cases h
      exact Answer.sound_ofError _ _
    · cases h
      exact Answer.sound_ofCode _ _ _

theorem Backends.sound_work {bs : Backends} {spec : BackendSpec} {chunk : Chunk} {language : Language}
    {timeout : Duration} {a : Answer} (h : (bs.work spec chunk language timeout).1.result = .ok a) : a.Sound := by
  unfold work at h
  split at h
  · cases h
    exact Answer.sound_ofError _ _
  · cases h
    exact EmbeddedBackend.sound_answer _ _ _ _
  · split at h
    · cases h
      exact RemoteBackend.sound_answer _ _ _ _ _
    · split at h
      · cases h
      · split at h
        · cases h
          exact RemoteBackend.sound_answer _ _ _ _ _
        · cases h
          exact RemoteBackend.sound_answer _ _ _ _ _
  · exact Script.sound_work h

theorem Worker.sound_step {w : Worker} {line : String} {id : RequestId} {a : Answer}
    (h : (w.step line).1 = .reply (.result id a)) : a.Sound := by
  unfold step at h
  split at h
  · cases h
  · split at h
    · cases h
    · cases h
    · unfold convert at h
      dsimp only at h
      split at h
      · cases h
      · next hwork =>
        cases h
        exact (Backends.sound_work (congrArg Work.result hwork)).change (.pid _)
      · cases h

/-! ## Answers that are read -/

namespace Json.Record

/-- A reader that refuses null reads only members that are there. -/
theorem read?_eq_some_iff {α : Type} {r : Record} {name : String} {read : Json → Option α} (hnull : read null = none)
    {x : α} : r.read? name read = some x ↔ ∃ j, r.find? name = some j ∧ read j = some x := by
  unfold read?
  cases hfind : r.find? name with
  | none => simp [hnull]
  | some j => simp

theorem read?_asBool {r : Record} {name : String} {b : Bool} (h : r.read? name asBool? = some b) :
    r.find? name = some (.bool b) := by
  obtain ⟨j, hfind, hread⟩ := (read?_eq_some_iff rfl).1 h
  cases j <;> cases hread
  exact hfind

theorem read?_asText {r : Record} {name : String} {text : Option String}
    (h : r.read? name (optional? asText?) = some text) :
    text = none ∧ (r.find? name = none ∨ r.find? name = some .null) ∨
      ∃ t, text = some t ∧ r.find? name = some (.str t) := by
  unfold read? at h
  cases hfind : r.find? name with
  | none =>
    rw [hfind] at h
    exact .inl ⟨(Option.some.inj h).symm, .inl rfl⟩
  | some j =>
    rw [hfind] at h
    cases j with
    | null => exact .inl ⟨(Option.some.inj h).symm, .inr rfl⟩
    | str t => exact .inr ⟨t, (Option.some.inj h).symm, rfl⟩
    | bool | int | real | arr | obj => cases h

theorem read?_asTexts {r : Record} {name : String} {texts : List String}
    (h : r.read? name (listOf? asText?) = some texts) :
    ∃ js, r.find? name = some (.arr js) ∧ (texts = [] ↔ js = []) := by
  obtain ⟨j, hfind, hread⟩ := (read?_eq_some_iff rfl).1 h
  unfold listOf? at hread
  cases j with
  | arr js =>
    refine ⟨js, hfind, ?_⟩
    cases js with
    | nil =>
      cases hread
      exact iff_of_true rfl rfl
    | cons j js =>
      have hread : (j :: js).mapM asText? = some texts := hread
      rw [List.mapM_cons, Option.bind_eq_bind, Option.bind_eq_some_iff] at hread
      obtain ⟨t, -, hrest⟩ := hread
      rw [Option.bind_eq_bind, Option.bind_eq_some_iff] at hrest
      obtain ⟨ts, -, hall⟩ := hrest
      cases hall
      exact iff_of_false (List.cons_ne_nil _ _) (List.cons_ne_nil _ _)
  | null | bool | int | real | str | obj => cases hread

end Json.Record

namespace Answer

/-- The members of an answer as it is written. -/
def written? (j : Json) : Option Json.Record :=
  j.record?
    [("success", .required), ("code", .optional), ("errors", .required), ("warnings", .required),
      ("confidence", .required), ("metadata", .required)]

/-- The members of a written answer agree with each other: a text for the code and no errors with success, no code,
errors and no confidence without it, and the confidence from 0 to 1. -/
def Agree (r : Json.Record) : Prop :=
  ∃ j confidence, r.find? "confidence" = some j ∧ j.asDouble? = some confidence ∧
    (Double.le 0 confidence ∧ Double.le confidence 1) ∧
    (r.find? "success" = some (.bool true) ∧ (∃ code, r.find? "code" = some (.str code)) ∧
        r.find? "errors" = some (.arr []) ∨
      r.find? "success" = some (.bool false) ∧ (r.find? "code" = none ∨ r.find? "code" = some .null) ∧
        (∃ e es, r.find? "errors" = some (.arr (e :: es))) ∧ confidence.isZero)

/-- What is read is of the form exactly if the members agree. -/
theorem formed_iff_agree {j : Json} {a : Answer} (h : Answer.ofJson? j = some a) :
    ∃ r, written? j = some r ∧ (a.Formed ↔ Agree r) := by
  simp only [Answer.ofJson?, Option.bind_eq_bind, Option.bind_eq_some_iff, Option.pure_def, Option.some.injEq] at h
  obtain ⟨r, hwritten, success, hsuccess, code, hcode, errors, herrors, -, -, confidence, hconfidence, -, -, rfl⟩ := h
  obtain ⟨js, harr, hnil⟩ := Json.Record.read?_asTexts herrors
  obtain ⟨jc, hjc, hread⟩ := (Json.Record.read?_eq_some_iff rfl).1 hconfidence
  have hbool := Json.Record.read?_asBool hsuccess
  refine ⟨r, hwritten, fun hformed => ⟨jc, confidence, hjc, hread, hformed.range, ?_⟩, ?_⟩
  · cases success with
    | true =>
      obtain ⟨hsome, hempty⟩ := hformed.ofCode rfl
      obtain rfl := hnil.1 hempty
      rcases Json.Record.read?_asText hcode with ⟨rfl, -⟩ | ⟨t, rfl, htext⟩
      · cases hsome
      · exact .inl ⟨hbool, ⟨t, htext⟩, harr⟩
    | false =>
      obtain ⟨hnone, hne, hzero⟩ := hformed.ofError rfl
      obtain ⟨e, es, rfl⟩ := List.exists_cons_of_ne_nil (mt hnil.2 hne)
      rcases Json.Record.read?_asText hcode with ⟨-, hnull⟩ | ⟨t, rfl, -⟩
      · exact .inr ⟨hbool, hnull, ⟨e, es, harr⟩, hzero⟩
      · cases hnone
  · rintro ⟨j', confidence', hj', hread', hrange, hmembers⟩
    obtain rfl := Option.some.inj (hjc.symm.trans hj')
    obtain rfl := Option.some.inj (hread.symm.trans hread')
    rcases hmembers with ⟨hs, ⟨t, ht⟩, he⟩ | ⟨hs, hnull, ⟨e, es, he⟩, hzero⟩
    · cases hbool.symm.trans hs
      cases harr.symm.trans he
      refine ⟨fun _ => ⟨?_, hnil.2 rfl⟩, nofun, hrange⟩
      rcases Json.Record.read?_asText hcode with ⟨-, hnone | hnull⟩ | ⟨t, rfl, -⟩
      · cases hnone.symm.trans ht
      · cases hnull.symm.trans ht
      · rfl
    · cases hbool.symm.trans hs
      cases harr.symm.trans he
      refine ⟨nofun, fun _ => ⟨?_, mt hnil.1 (List.cons_ne_nil e es), hzero⟩, hrange⟩
      rcases Json.Record.read?_asText hcode with ⟨rfl, -⟩ | ⟨t, -, htext⟩
      · rfl
      · rcases hnull with hnone | hnull
        · cases hnone.symm.trans htext
        · cases hnull.symm.trans htext

/-- Texts are read as they were written. -/
theorem asTexts_texts (ts : List String) : Json.listOf? Json.asText? (Json.texts ts) = some ts := by
  show (ts.map Json.str).mapM Json.asText? = some ts
  induction ts with
  | nil => rfl
  | cons t ts ih =>
    rw [List.map_cons, List.mapM_cons, ih]
    rfl

theorem asUnsigned_ofNat {n bits : Nat} (h : n < Nat.pow 2 bits) : (Json.ofNat n).asUnsigned? bits = some n :=
  if_pos ⟨Int.natCast_nonneg n, h⟩

end Answer

theorem Provenance.ofJson?_toJson {p : Provenance} (hlatency : p.latencyMs < Nat.pow 2 64)
    (hpid : ∀ pid ∈ p.workerPid, pid < Nat.pow 2 32) : Provenance.ofJson? p.toJson = some p := by
  obtain ⟨model, revision, backend, latencyMs, bestEffort, workerPid⟩ := p
  have hkind : (Json.str backend.name).word?.bind BackendKind.ofName? = some backend := BackendKind.ofName?_name backend
  have htime : (Json.ofNat latencyMs).asNat? = some latencyMs := Answer.asUnsigned_ofNat hlatency
  have hprocess : Json.optional? (Json.asUnsigned? 32) (Json.ofNat? workerPid) = some workerPid := by
    cases workerPid with
    | none => rfl
    | some pid => exact congrArg (Option.map some) (Answer.asUnsigned_ofNat (hpid pid rfl))
  have hrecord : (Provenance.toJson ⟨model, revision, backend, latencyMs, bestEffort, workerPid⟩).record?
      [("model_name", .required), ("model_revision", .required), ("backend", .required),
        ("latency_ms", .required), ("best_effort", .defaulted), ("worker_pid", .defaulted)] =
      some ⟨[("model_name", .str model), ("model_revision", .str revision), ("backend", .str backend.name),
        ("latency_ms", .ofNat latencyMs), ("best_effort", .bool bestEffort), ("worker_pid", .ofNat? workerPid)]⟩ := rfl
  unfold ofJson?
  rw [hrecord]
  simp [Json.Record.read?, Json.Record.readOr?, Json.Record.find?, hkind, htime, hprocess, Json.asText?, Json.asBool?]

/-- Whatever an answer says, it is read as it was written. -/
theorem Answer.ofJson?_toJson {a : Answer} (hlatency : a.provenance.latencyMs < Nat.pow 2 64)
    (hpid : ∀ pid ∈ a.provenance.workerPid, pid < Nat.pow 2 32) : Answer.ofJson? a.toJson = some a := by
  obtain ⟨success, code, errors, warnings, confidence, provenance⟩ := a
  have hcode : Json.optional? Json.asText? (Json.ofText? code) = some code := by cases code <;> rfl
  have hrecord : written? (toJson ⟨success, code, errors, warnings, confidence, provenance⟩) =
      some ⟨[("success", .bool success), ("code", .ofText? code), ("errors", .texts errors),
        ("warnings", .texts warnings), ("confidence", .real confidence), ("metadata", provenance.toJson)]⟩ := rfl
  unfold written? at hrecord
  unfold ofJson?
  rw [hrecord]
  simp [Json.Record.read?, Json.Record.find?, hcode, asTexts_texts, Provenance.ofJson?_toJson hlatency hpid,
    Json.asBool?, Json.asDouble?]

namespace WorkerReply

/-- The members of the answer on a line. -/
def writtenAnswer? (line : String) : Option Json.Record :=
  match (decodeLine? line).bind (Json.tagged? "type") with
  | some ("result", rest) => do
    let r ← rest.record? [("task_id", .required), ("result", .required)]
    let j ← r.find? "result"
    Answer.written? j
  | _ => none

theorem formed_iff_agree_ofLine {line : String} {id : RequestId} {a : Answer} (h : ofLine? line = some (.result id a)) :
    ∃ r, writtenAnswer? line = some r ∧ (a.Formed ↔ Answer.Agree r) := by
  obtain ⟨j, hline, hreply⟩ := Option.bind_eq_some_iff.1 h
  unfold WorkerReply.ofJson? at hreply
  unfold writtenAnswer?
  rw [hline, Option.bind_some]
  split at hreply
  · simp only [Option.bind_eq_bind, Option.bind_eq_some_iff, Option.pure_def, Option.some.injEq] at hreply
    obtain ⟨_, _, _, _, hready⟩ := hreply
    cases hready
  · next rest htag =>
    simp only [Option.bind_eq_bind, Option.bind_eq_some_iff, Option.pure_def, Option.some.injEq] at hreply
    obtain ⟨outer, houter, _, _, answer, hanswer, hresult⟩ := hreply
    obtain ⟨ja, hfind, hread⟩ := (Json.Record.read?_eq_some_iff rfl).1 hanswer
    cases hresult
    obtain ⟨r, hwritten, hiff⟩ := Answer.formed_iff_agree hread
    refine ⟨r, ?_, hiff⟩
    rw [htag]
    simp [houter, hfind, hwritten]
  · simp only [Option.bind_eq_bind, Option.bind_eq_some_iff, Option.pure_def, Option.some.injEq] at hreply
    obtain ⟨_, _, _, _, _, _, herror⟩ := hreply
    cases herror
  · cases hreply

/-- Answers that are made from code or an error, whatever is done to them later, are of the form, and so are those of
every worker.  An answer that is read from a line is of the form exactly if the members on the line agree, and there
is no answer that is not read as it was written. -/
theorem formed_of_made_iff_agree_of_read (code error : String) (confidence : Double) (p : Provenance)
    (cs : List Answer.Change) (w : Worker) (line : String) (id : RequestId) (a : Answer) :
    ((Answer.ofCode code confidence p).changeAll cs).Formed ∧
      ((Answer.ofError error p).changeAll cs).Formed ∧
      ((w.step line).1 = .reply (.result id a) → a.Formed) ∧
      (ofLine? line = some (.result id a) → ∃ r, writtenAnswer? line = some r ∧ (a.Formed ↔ Answer.Agree r)) ∧
      (a.provenance.latencyMs < Nat.pow 2 64 → (∀ pid ∈ a.provenance.workerPid, pid < Nat.pow 2 32) →
        Answer.ofJson? a.toJson = some a) := by
  refine ⟨?_, ?_, fun h => ?_, fun h => ?_, fun hlatency hpid => ?_⟩
  · exact ((Answer.sound_ofCode code confidence p).changeAll cs).formed
  · exact ((Answer.sound_ofError error p).changeAll cs).formed
  · exact (Worker.sound_step h).formed
  · exact formed_iff_agree_ofLine h
  · exact Answer.ofJson?_toJson hlatency hpid

/-- A line with a success of full confidence and this code. -/
def lineWith (code : String) : String :=
  "\x7b\"type\":\"result\",\"task_id\":\"00000000-0000-0000-0000-000000000001\"," ++
    "\"result\":\x7b\"success\":true,\"code\":" ++ code ++ ",\"errors\":[],\"warnings\":[]," ++
    "\"confidence\":1,\"metadata\":\x7b\"model_name\":\"m\",\"model_revision\":\"r\"," ++
    "\"backend\":\"local\",\"latency_ms\":0\x7d\x7d\x7d"

/-- The answer on such a line. -/
def answerWith (code : Option String) : Answer :=
  { success := true, code, errors := [], warnings := [], confidence := 1, provenance := {} }

theorem formed_of_line_with_code :
    ∃ id, ofLine? (lineWith "\"x = 1\"") = some (.result id (answerWith (some "x = 1"))) ∧
      (∃ r, writtenAnswer? (lineWith "\"x = 1\"") = some r ∧ Answer.Agree r) ∧
      Answer.ofJson? (answerWith (some "x = 1")).toJson = some (answerWith (some "x = 1")) := by
  obtain ⟨-, -, -, hread, hwritten⟩ := formed_of_made_iff_agree_of_read "x = 1" "" 1 {} []
    { pid := 0, backends := { registry := .empty, files := fun _ => .missing } } (lineWith "\"x = 1\"")
    ⟨"00000000-0000-0000-0000-000000000001"⟩ (answerWith (some "x = 1"))
  have hline : ofLine? (lineWith "\"x = 1\"") =
      some (.result ⟨"00000000-0000-0000-0000-000000000001"⟩ (answerWith (some "x = 1"))) := by
    unfold ofLine? decodeLine? lineWith
    simp only [String.toList_append, String.reduceToList]
    decide +kernel
  have hformed : (answerWith (some "x = 1")).Formed :=
    ⟨fun _ => ⟨rfl, rfl⟩, nofun, by decide +kernel⟩
  obtain ⟨r, hr, hiff⟩ := hread hline
  exact ⟨_, hline, ⟨r, hr, hiff.1 hformed⟩, hwritten (by decide) nofun⟩

/-- A success without code is read. -/
theorem exists_read_not_formed :
    ∃ id, ofLine? (lineWith "null") = some (.result id (answerWith none)) ∧ ¬ (answerWith none).Formed := by
  refine ⟨⟨"00000000-0000-0000-0000-000000000001"⟩, ?_, fun hformed => ?_⟩
  · unfold ofLine? decodeLine? lineWith
    simp only [String.toList_append, String.reduceToList]
    decide +kernel
  · exact absurd (hformed.ofCode rfl).1 (by decide)

end WorkerReply

end Pseudoscribe
