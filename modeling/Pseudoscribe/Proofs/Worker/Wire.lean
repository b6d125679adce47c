import Pseudoscribe.Proofs.Answer.Soundness
import Pseudoscribe.Proofs.Json.LeftOut

/-!
# Messages are read as they were written

Whatever texts a message holds, its line is one line and is read as the message, as far as its numbers are what they
can be: whole numbers of the widths that they are sent in, others that are read from their texts as they were, and
identifiers in their written form.  Members with a default may be left out of the line, any of them: then the message
that is read has the defaults.
-/

namespace Pseudoscribe

/-! ## Identifiers -/

namespace RequestId

/-- An identifier in its written form. -/
def WellFormed (id : RequestId) : Prop := ∃ ds, ofDigits? ds = some id

theorem toLower_of_isHexDigit {c : Char} (h : isHexDigit c = true) :
    isHexDigit c.toLower = true ∧ c.toLower ≠ '-' ∧ c.toLower.toLower = c.toLower := by
  have hall : ∀ n < 128, isHexDigit (Char.ofNat n) = true → isHexDigit (Char.ofNat n).toLower = true ∧
      (Char.ofNat n).toLower ≠ '-' ∧ (Char.ofNat n).toLower.toLower = (Char.ofNat n).toLower := by decide
  have hlow : c.toNat < 128 := by
    simp only [isHexDigit, Char.isDigit, Char.le_def, UInt32.le_iff_toNat_le, ge_iff_le, Bool.or_eq_true,
      Bool.and_eq_true, decide_eq_true_eq] at h
    have hf : ('f' : Char).val.toNat = 102 := rfl
    have hF : ('F' : Char).val.toNat = 70 := rfl
    have h9 : ('9' : Char).val.toNat = 57 := rfl
    have hc : c.toNat = c.val.toNat := rfl
    omega
  simpa using hall c.toNat hlow (by simpa using h)

theorem filter_hyphenate {ds : List Char} (h : '-' ∉ ds) : (hyphenate ds).filter (· != '-') = ds := by
  have hpart {part : List Char} (hsub : part ⊆ ds) : part.filter (· != '-') = part :=
    List.filter_eq_self.2 fun c hc => by
      have hne : c ≠ '-' := fun heq => h (heq ▸ hsub hc)
      simp [hne]
  have htake (n k : Nat) : (ds.drop n).take k ⊆ ds := fun _ hc => List.mem_of_mem_drop (List.mem_of_mem_take hc)
  have hmark (part : List Char) : ('-' :: part).filter (· != '-') = part.filter (· != '-') := rfl
  have hwhole : ds.take 8 ++ (ds.drop 8).take 4 ++ (ds.drop 12).take 4 ++ (ds.drop 16).take 4 ++ ds.drop 20 = ds := by
    rw [← List.drop_drop (i := 4) (j := 16), List.append_assoc _ ((ds.drop 16).take 4), List.take_append_drop,
      ← List.drop_drop (i := 4) (j := 12), List.append_assoc _ ((ds.drop 12).take 4), List.take_append_drop,
      ← List.drop_drop (i := 4) (j := 8), List.append_assoc _ ((ds.drop 8).take 4), List.take_append_drop,
      List.take_append_drop]
  unfold hyphenate
  simp only [List.filter_append, hmark]
  rw [hpart (List.take_subset 8 ds), hpart (htake 8 4), hpart (htake 12 4), hpart (htake 16 4),
    hpart (List.drop_subset 20 ds), hwhole]

theorem length_hyphenate {ds : List Char} (h : ds.length = 32) : (hyphenate ds).length = 36 := by
  simp [hyphenate, h]

/-- An identifier is read as it is written. -/
theorem parse?_text {id : RequestId} (h : id.WellFormed) : parse? id.text = some id := by
  obtain ⟨ds, hds⟩ := h
  unfold ofDigits? at hds
  split at hds
  · next hdigits =>
    obtain rfl := Option.some.inj hds
    have hlower : ∀ c ∈ ds.map Char.toLower, isHexDigit c = true ∧ c ≠ '-' ∧ c.toLower = c := by
      intro c hc
      obtain ⟨d, hd, rfl⟩ := List.mem_map.1 hc
      exact toLower_of_isHexDigit (List.all_eq_true.1 hdigits.2 d hd)
    have hlength : (ds.map Char.toLower).length = 32 := (List.length_map _).trans hdigits.1
    have hagain : (ds.map Char.toLower).map Char.toLower = ds.map Char.toLower :=
      (List.map_congr_left fun c hc => (hlower c hc).2.2).trans (List.map_id _)
    unfold parse?
    dsimp only
    rw [String.toList_ofList, length_hyphenate hlength]
    show (if _ then ofDigits? _ else none) = _
    rw [filter_hyphenate fun h => (hlower _ h).2.1 rfl, if_pos rfl]
    unfold ofDigits?
    rw [hagain, if_pos ⟨hlength, List.all_eq_true.2 fun c hc => (hlower c hc).1⟩]
  · cases hds

end RequestId

/-! ## What can be sent -/

structure Chunk.Sendable (c : Chunk) : Prop where
  index : c.index < Nat.pow 2 64
  startLine : c.startLine < Nat.pow 2 64
  endLine : c.endLine < Nat.pow 2 64
  depth : c.depth < Nat.pow 2 64

structure RemoteModel.Sendable (s : RemoteModel) : Prop where
  timeoutSeconds : Json.Lossless s.timeoutSeconds
  defaultConfidence : Json.Lossless s.defaultConfidence
  maxContextTokens : s.maxContextTokens < Nat.pow 2 64

def BackendSpec.Sendable : BackendSpec → Prop
  | embedded _ => True
  | remote s => s.Sendable

structure WorkOrder.Sendable (o : WorkOrder) : Prop where
  id : o.id.WellFormed
  chunk : o.chunk.Sendable
  spec : o.spec.Sendable
  attempt : o.attempt < Nat.pow 2 32
  timeoutMs : o.timeoutMs < Nat.pow 2 64

structure Answer.Sendable (a : Answer) : Prop where
  confidence : Json.Lossless a.confidence
  latencyMs : a.provenance.latencyMs < Nat.pow 2 64
  workerPid : ∀ pid ∈ a.provenance.workerPid, pid < Nat.pow 2 32

namespace WorkerRequest

def Sendable : WorkerRequest → Prop
  | convert o => o.Sendable
  | shutdown => True

/-- The members that may be left out of a request. -/
def defaulted : List String := ["leading_context", "nesting_depth", "continues", "api_key", "supported_languages"]

end WorkerRequest

/-- The members that may be left out of an answer. -/
def Answer.defaulted : List String := ["best_effort", "worker_pid"]

namespace WorkerReply

def Sendable : WorkerReply → Prop
  | ready pid => pid < Nat.pow 2 32
  | result id a => id.WellFormed ∧ a.Sendable
  | error id _ => ∀ i ∈ id, i.WellFormed

/-- The members that may be left out of a reply. -/
def defaulted : WorkerReply → List String
  | ready _ => []
  | result _ _ => Answer.defaulted
  | error _ _ => ["task_id"]

end WorkerReply

/-! ## The defaults of what is left out -/

def Chunk.withDefaults (out : String → Bool) (c : Chunk) : Chunk :=
  { c with
    context := if out "leading_context" then none else c.context
    depth := if out "nesting_depth" then 0 else c.depth
    continues := if out "continues" then false else c.continues }

def RemoteModel.withDefaults (out : String → Bool) (s : RemoteModel) : RemoteModel :=
  { s with
    apiKey := if out "api_key" then none else s.apiKey
    languages := if out "supported_languages" then [] else s.languages }

def BackendSpec.withDefaults (out : String → Bool) : BackendSpec → BackendSpec
  | embedded s => embedded s
  | remote s => remote (s.withDefaults out)

def Provenance.withDefaults (out : String → Bool) (p : Provenance) : Provenance :=
  { p with
    bestEffort := if out "best_effort" then false else p.bestEffort
    workerPid := if out "worker_pid" then none else p.workerPid }

def Answer.withDefaults (out : String → Bool) (a : Answer) : Answer :=
  { a with provenance := a.provenance.withDefaults out }

def WorkerRequest.withDefaults (out : String → Bool) : WorkerRequest → WorkerRequest
  | convert o => convert { o with chunk := o.chunk.withDefaults out, spec := o.spec.withDefaults out }
  | shutdown => shutdown

def WorkerReply.withDefaults (out : String → Bool) : WorkerReply → WorkerReply
  | ready pid => ready pid
  | result id a => result id (a.withDefaults out)
  | error id message => error (if out "task_id" then none else id) message

/-! ## Values are read as they were written -/

namespace Json

variable {out : String → Bool}

theorem without_ofText? (t : Option String) : (ofText? t).without out = ofText? t := by
  cases t <;> rfl

theorem without_ofNat? (n : Option Nat) : (ofNat? n).without out = ofNat? n := by
  cases n <;> rfl

theorem without_texts (ts : List String) : (texts ts).without out = texts ts := by
  have hitems : itemsWithout out (ts.map str) = ts.map str := by
    induction ts with
    | nil => rfl
    | cons t ts ih => exact congrArg (List.cons (str t)) ih
  exact congrArg arr hitems

theorem optional?_asText?_ofText? (t : Option String) : optional? asText? (ofText? t) = some t := by
  cases t <;> rfl

theorem readsBack_ofNat {n bits : Nat} (hbits : bits ≤ 64) (h : n < Nat.pow 2 bits) (depth : Nat) :
    ReadsBack depth (ofNat n) := by
  have hword : n < Nat.pow 2 64 := Nat.lt_of_lt_of_le h (Nat.pow_le_pow_right (by decide) hbits)
  exact ⟨Int.le_trans (by decide) (Int.natCast_nonneg n), Int.ofNat_le.2 (Nat.le_sub_one_of_lt hword)⟩

theorem readsBack_ofText? (t : Option String) (depth : Nat) : ReadsBack depth (ofText? t) := by
  cases t <;> trivial

theorem readsBack_texts (ts : List String) {depth : Nat} (hdepth : 1 < depth) : ReadsBack depth (texts ts) := by
  refine ⟨hdepth, ?_⟩
  induction ts with
  | nil => trivial
  | cons t ts ih => exact ⟨trivial, ih⟩

end Json

namespace Chunk

/-- The members that a chunk is written with. -/
def members (c : Chunk) : List (String × Json) :=
  [("index", .ofNat c.index), ("source_text", .str c.text), ("kind", .str c.kind.name),
    ("start_line", .ofNat c.startLine), ("end_line", .ofNat c.endLine),
    ("leading_context", .ofText? c.context), ("nesting_depth", .ofNat c.depth),
    ("continues", .bool c.continues)]

theorem ofJson?_without {out : String → Bool} (hout : Json.LeavesOut WorkerRequest.defaulted out) {c : Chunk}
    (h : c.Sendable) : ofJson? (c.toJson.without out) = some (c.withDefaults out) := by
  let r : Json.Record := ⟨Json.membersWithout out c.members⟩
  have hindex : r.read? "index" Json.asNat? = some c.index :=
    Json.read?_without rfl (hout.keeps (by decide)) (Answer.asUnsigned_ofNat h.index)
  have htext : r.read? "source_text" Json.asText? = some c.text :=
    Json.read?_without rfl (hout.keeps (by decide)) rfl
  have hkind : r.read? "kind" (fun j => j.word?.bind ChunkKind.ofName?) = some c.kind :=
    Json.read?_without rfl (hout.keeps (by decide)) (ChunkKind.ofName?_name c.kind)
  have hstart : r.read? "start_line" Json.asNat? = some c.startLine :=
    Json.read?_without rfl (hout.keeps (by decide)) (Answer.asUnsigned_ofNat h.startLine)
  have hend : r.read? "end_line" Json.asNat? = some c.endLine :=
    Json.read?_without rfl (hout.keeps (by decide)) (Answer.asUnsigned_ofNat h.endLine)
  have hcontext : r.readOr? "leading_context" none (Json.optional? Json.asText?) =
      some (if out "leading_context" then none else c.context) :=
    Json.readOr?_without rfl (by rw [Json.without_ofText?, Json.optional?_asText?_ofText?])
  have hdepth : r.readOr? "nesting_depth" 0 Json.asNat? = some (if out "nesting_depth" then 0 else c.depth) :=
    Json.readOr?_without rfl (Answer.asUnsigned_ofNat h.depth)
  have hcontinues : r.readOr? "continues" false Json.asBool? =
      some (if out "continues" then false else c.continues) :=
    Json.readOr?_without rfl rfl
  unfold ofJson?
  rw [show c.toJson = .obj c.members from rfl, Json.record?_without hout rfl (by decide) (by decide)]
  simp only [Option.bind_eq_bind, Option.bind_some, hindex, htext, hkind, hstart, hend, hcontext, hdepth, hcontinues,
    r]
  rfl

end Chunk

def LocalModel.members (s : LocalModel) : List (String × Json) :=
  [("models_dir", .str s.directory), ("model_name", .str s.model), ("revision", .str s.revision)]

/-- The members that a model in a service is written with. -/
def RemoteModel.members (s : RemoteModel) : List (String × Json) :=
  [("base_url", .str s.baseUrl), ("model_name", .str s.model), ("revision", .str s.revision),
    ("api_key", .ofText? s.apiKey), ("timeout_secs", .real s.timeoutSeconds),
    ("default_confidence", .real s.defaultConfidence), ("supported_languages", .texts s.languages),
    ("max_context_tokens", .ofNat s.maxContextTokens)]

theorem LocalModel.ofJson?_without {out : String → Bool} (hout : Json.LeavesOut WorkerRequest.defaulted out)
    (s : LocalModel) : LocalModel.ofJson? ((Json.obj s.members).without out) = some s := by
  let r : Json.Record := ⟨Json.membersWithout out s.members⟩
  have hdirectory : r.read? "models_dir" Json.asText? = some s.directory :=
    Json.read?_without rfl (hout.keeps (by decide)) rfl
  have hmodel : r.read? "model_name" Json.asText? = some s.model :=
    Json.read?_without rfl (hout.keeps (by decide)) rfl
  have hrevision : r.read? "revision" Json.asText? = some s.revision :=
    Json.read?_without rfl (hout.keeps (by decide)) rfl
  unfold ofJson?
  rw [Json.record?_without hout rfl (by decide) (by decide)]
  simp only [Option.bind_eq_bind, Option.bind_some, hdirectory, hmodel, hrevision, r]
  rfl

theorem RemoteModel.ofJson?_without {out : String → Bool} (hout : Json.LeavesOut WorkerRequest.defaulted out)
    {s : RemoteModel} (h : s.Sendable) :
    RemoteModel.ofJson? ((Json.obj s.members).without out) = some (s.withDefaults out) := by
  let r : Json.Record := ⟨Json.membersWithout out s.members⟩
  have hurl : r.read? "base_url" Json.asText? = some s.baseUrl :=
    Json.read?_without rfl (hout.keeps (by decide)) rfl
  have hmodel : r.read? "model_name" Json.asText? = some s.model :=
    Json.read?_without rfl (hout.keeps (by decide)) rfl
  have hrevision : r.read? "revision" Json.asText? = some s.revision :=
    Json.read?_without rfl (hout.keeps (by decide)) rfl
  have hkey : r.readOr? "api_key" none (Json.optional? Json.asText?) =
      some (if out "api_key" then none else s.apiKey) :=
    Json.readOr?_without rfl (by rw [Json.without_ofText?, Json.optional?_asText?_ofText?])
  have htimeout : r.read? "timeout_secs" Json.asDouble? = some s.timeoutSeconds :=
    Json.read?_without rfl (hout.keeps (by decide)) rfl
  have hconfidence : r.read? "default_confidence" Json.asDouble? = some s.defaultConfidence :=
    Json.read?_without rfl (hout.keeps (by decide)) rfl
  have hlanguages : r.readOr? "supported_languages" [] (Json.listOf? Json.asText?) =
      some (if out "supported_languages" then [] else s.languages) :=
    Json.readOr?_without rfl (by rw [Json.without_texts, Answer.asTexts_texts])
  have htokens : r.read? "max_context_tokens" Json.asNat? = some s.maxContextTokens :=
    Json.read?_without rfl (hout.keeps (by decide)) (Answer.asUnsigned_ofNat h.maxContextTokens)
  unfold ofJson?
  rw [Json.record?_without hout rfl (by decide) (by decide)]
  simp only [Option.bind_eq_bind, Option.bind_some, hurl, hmodel, hrevision, hkey, htimeout, hconfidence, hlanguages,
    htokens, r]
  rfl

theorem BackendSpec.ofJson?_without {out : String → Bool} (hout : Json.LeavesOut WorkerRequest.defaulted out)
    {s : BackendSpec} (h : s.Sendable) : ofJson? (s.toJson.without out) = some (s.withDefaults out) := by
  unfold ofJson?
  cases s with
  | embedded s =>
    rw [show (embedded s).toJson = .obj (("kind", .str "local") :: s.members) from rfl,
      Json.tagged?_without (hout.keeps (by decide)) (by simp [LocalModel.members])]
    exact congrArg (Option.map embedded) (LocalModel.ofJson?_without hout s)
  | remote s =>
    rw [show (remote s).toJson = .obj (("kind", .str "remote") :: s.members) from rfl,
      Json.tagged?_without (hout.keeps (by decide)) (by simp [RemoteModel.members])]
    exact congrArg (Option.map remote) (RemoteModel.ofJson?_without hout h)

/-! ### Answers -/

def Provenance.members (p : Provenance) : List (String × Json) :=
  [("model_name", .str p.model), ("model_revision", .str p.revision), ("backend", .str p.backend.name),
    ("latency_ms", .ofNat p.latencyMs), ("best_effort", .bool p.bestEffort), ("worker_pid", .ofNat? p.workerPid)]

def Answer.members (a : Answer) : List (String × Json) :=
  [("success", .bool a.success), ("code", .ofText? a.code), ("errors", .texts a.errors),
    ("warnings", .texts a.warnings), ("confidence", .real a.confidence), ("metadata", a.provenance.toJson)]

theorem Provenance.ofJson?_without {out : String → Bool} (hout : Json.LeavesOut Answer.defaulted out) {p : Provenance}
    (hlatency : p.latencyMs < Nat.pow 2 64) (hpid : ∀ pid ∈ p.workerPid, pid < Nat.pow 2 32) :
    ofJson? (p.toJson.without out) = some (p.withDefaults out) := by
  let r : Json.Record := ⟨Json.membersWithout out p.members⟩
  have hmodel : r.read? "model_name" Json.asText? = some p.model :=
    Json.read?_without rfl (hout.keeps (by decide)) rfl
  have hrevision : r.read? "model_revision" Json.asText? = some p.revision :=
    Json.read?_without rfl (hout.keeps (by decide)) rfl
  have hbackend : r.read? "backend" (fun j => j.word?.bind BackendKind.ofName?) = some p.backend :=
    Json.read?_without rfl (hout.keeps (by decide)) (BackendKind.ofName?_name p.backend)
  have hlatency : r.read? "latency_ms" Json.asNat? = some p.latencyMs :=
    Json.read?_without rfl (hout.keeps (by decide)) (Answer.asUnsigned_ofNat hlatency)
  have hbest : r.readOr? "best_effort" false Json.asBool? =
      some (if out "best_effort" then false else p.bestEffort) :=
    Json.readOr?_without rfl rfl
  have hprocess : Json.optional? (Json.asUnsigned? 32) (Json.ofNat? p.workerPid) = some p.workerPid := by
    cases hworker : p.workerPid with
    | none => rfl
    | some pid => exact congrArg (Option.map some) (Answer.asUnsigned_ofNat (hpid pid hworker))
  have hworker : r.readOr? "worker_pid" none (Json.optional? (Json.asUnsigned? 32)) =
      some (if out "worker_pid" then none else p.workerPid) :=
    Json.readOr?_without rfl (by rw [Json.without_ofNat?, hprocess])
  unfold ofJson?
  rw [show p.toJson = .obj p.members from rfl, Json.record?_without hout rfl (by decide) (by decide)]
  simp only [Option.bind_eq_bind, Option.bind_some, hmodel, hrevision, hbackend, hlatency, hbest, hworker, r]
  rfl

theorem Answer.ofJson?_without {out : String → Bool} (hout : Json.LeavesOut defaulted out) {a : Answer}
    (h : a.Sendable) : ofJson? (a.toJson.without out) = some (a.withDefaults out) := by
  let r : Json.Record := ⟨Json.membersWithout out a.members⟩
  have hsuccess : r.read? "success" Json.asBool? = some a.success :=
    Json.read?_without rfl (hout.keeps (by decide)) rfl
  have hcode : r.read? "code" (Json.optional? Json.asText?) = some a.code :=
    Json.read?_without rfl (hout.keeps (by decide)) (by rw [Json.without_ofText?, Json.optional?_asText?_ofText?])
  have herrors : r.read? "errors" (Json.listOf? Json.asText?) = some a.errors :=
    Json.read?_without rfl (hout.keeps (by decide)) (by rw [Json.without_texts, asTexts_texts])
  have hwarnings : r.read? "warnings" (Json.listOf? Json.asText?) = some a.warnings :=
    Json.read?_without rfl (hout.keeps (by decide)) (by rw [Json.without_texts, asTexts_texts])
  have hconfidence : r.read? "confidence" Json.asDouble? = some a.confidence :=
    Json.read?_without rfl (hout.keeps (by decide)) rfl
  have hprovenance : r.read? "metadata" Provenance.ofJson? = some (a.provenance.withDefaults out) :=
    Json.read?_without rfl (hout.keeps (by decide)) (Provenance.ofJson?_without hout h.latencyMs h.workerPid)
  unfold ofJson?
  rw [show a.toJson = .obj a.members from rfl, Json.record?_without hout rfl (by decide) (by decide)]
  simp only [Option.bind_eq_bind, Option.bind_some, hsuccess, hcode, herrors, hwarnings, hconfidence, hprovenance, r]
  rfl

/-! ### Messages -/

def WorkOrder.members (o : WorkOrder) : List (String × Json) :=
  [("task_id", .str o.id.text), ("chunk", o.chunk.toJson), ("spec", o.spec.toJson),
    ("target_language", .str o.language.name), ("attempt", .ofNat o.attempt), ("timeout_ms", .ofNat o.timeoutMs)]

namespace WorkerRequest

theorem orderOfJson?_without {out : String → Bool} (hout : Json.LeavesOut defaulted out) {o : WorkOrder}
    (h : o.Sendable) : orderOfJson? ((Json.obj o.members).without out) =
      some { o with chunk := o.chunk.withDefaults out, spec := o.spec.withDefaults out } := by
  let r : Json.Record := ⟨Json.membersWithout out o.members⟩
  have hid : r.read? "task_id" RequestId.ofJson? = some o.id :=
    Json.read?_without rfl (hout.keeps (by decide)) (RequestId.parse?_text h.id)
  have hchunk : r.read? "chunk" Chunk.ofJson? = some (o.chunk.withDefaults out) :=
    Json.read?_without rfl (hout.keeps (by decide)) (Chunk.ofJson?_without hout h.chunk)
  have hspec : r.read? "spec" BackendSpec.ofJson? = some (o.spec.withDefaults out) :=
    Json.read?_without rfl (hout.keeps (by decide)) (BackendSpec.ofJson?_without hout h.spec)
  have hlanguage : r.read? "target_language" Json.asText? = some o.language.name :=
    Json.read?_without rfl (hout.keeps (by decide)) rfl
  have hattempt : r.read? "attempt" (Json.asUnsigned? 32) = some o.attempt :=
    Json.read?_without rfl (hout.keeps (by decide)) (Answer.asUnsigned_ofNat h.attempt)
  have htimeout : r.read? "timeout_ms" Json.asNat? = some o.timeoutMs :=
    Json.read?_without rfl (hout.keeps (by decide)) (Answer.asUnsigned_ofNat h.timeoutMs)
  unfold orderOfJson?
  rw [Json.record?_without hout rfl (by decide) (by decide)]
  simp only [Option.bind_eq_bind, Option.bind_some, hid, hchunk, hspec, hlanguage, hattempt, htimeout, r]
  rfl

/-- A request is read as it was written, with the defaults of what was left out. -/
theorem ofJson?_without {out : String → Bool} (hout : Json.LeavesOut defaulted out) {m : WorkerRequest}
    (h : m.Sendable) : ofJson? (m.toJson.without out) = some (m.withDefaults out) := by
  unfold ofJson?
  cases m with
  | convert o =>
    rw [show (convert o).toJson = .obj (("type", .str "translate") :: o.members) from rfl,
      Json.tagged?_without (hout.keeps (by decide)) (by simp [WorkOrder.members])]
    exact congrArg (Option.map convert) (orderOfJson?_without hout h)
  | shutdown =>
    rw [show shutdown.toJson = .obj [("type", .str "shutdown")] from rfl,
      Json.tagged?_without (hout.keeps (by decide)) (by simp)]
    rfl

end WorkerRequest

namespace WorkerReply

/-- A reply is read as it was written, with the defaults of what was left out. -/
theorem ofJson?_without {out : String → Bool} {m : WorkerReply} (hout : Json.LeavesOut m.defaulted out)
    (h : m.Sendable) : ofJson? (m.toJson.without out) = some (m.withDefaults out) := by
  unfold ofJson?
  cases m with
  | ready pid =>
    have hnone : Json.LeavesOut [] out := hout
    let r : Json.Record := ⟨Json.membersWithout out [("pid", .ofNat pid)]⟩
    have hpid : r.read? "pid" (Json.asUnsigned? 32) = some pid :=
      Json.read?_without rfl (hnone.keeps (by decide)) (Answer.asUnsigned_ofNat h)
    rw [show (ready pid).toJson = .obj [("type", .str "ready"), ("pid", .ofNat pid)] from rfl,
      Json.tagged?_without (hnone.keeps (by decide)) (by simp)]
    show (((Json.obj [("pid", .ofNat pid)]).without out).record? [("pid", .required)]).bind _ = _
    rw [Json.record?_without hnone rfl (by decide) (by decide)]
    simp only [Option.bind_eq_bind, Option.bind_some, hpid, r]
    rfl
  | result id a =>
    have hanswer : Json.LeavesOut Answer.defaulted out := hout
    let r : Json.Record := ⟨Json.membersWithout out [("task_id", .str id.text), ("result", a.toJson)]⟩
    have hid : r.read? "task_id" RequestId.ofJson? = some id :=
      Json.read?_without rfl (hanswer.keeps (by decide)) (RequestId.parse?_text h.1)
    have hresult : r.read? "result" Answer.ofJson? = some (a.withDefaults out) :=
      Json.read?_without rfl (hanswer.keeps (by decide)) (Answer.ofJson?_without hanswer h.2)
    rw [show (result id a).toJson =
        .obj [("type", .str "result"), ("task_id", .str id.text), ("result", a.toJson)] from rfl,
      Json.tagged?_without (hanswer.keeps (by decide)) (by simp)]
    show (((Json.obj [("task_id", .str id.text), ("result", a.toJson)]).without out).record?
      [("task_id", .required), ("result", .required)]).bind _ = _
    rw [Json.record?_without hanswer rfl (by decide) (by decide)]
    simp only [Option.bind_eq_bind, Option.bind_some, hid, hresult, r]
    rfl
  | error id message =>
    have hfault : Json.LeavesOut ["task_id"] out := hout
    let r : Json.Record :=
      ⟨Json.membersWithout out [("task_id", .ofText? (id.map RequestId.text)), ("message", .str message)]⟩
    have hread : Json.optional? RequestId.ofJson? (Json.ofText? (id.map RequestId.text)) = some id := by
      cases id with
      | none => rfl
      | some i => exact congrArg (Option.map some) (RequestId.parse?_text (h i rfl))
    have hid : r.readOr? "task_id" none (Json.optional? RequestId.ofJson?) =
        some (if out "task_id" then none else id) :=
      Json.readOr?_without rfl (by rw [Json.without_ofText?, hread])
    have hmessage : r.read? "message" Json.asText? = some message :=
      Json.read?_without rfl (hfault.keeps (by decide)) rfl
    rw [show (error id message).toJson = .obj [("type", .str "error"),
        ("task_id", .ofText? (id.map RequestId.text)), ("message", .str message)] from rfl,
      Json.tagged?_without (hfault.keeps (by decide)) (by simp)]
    show (((Json.obj [("task_id", .ofText? (id.map RequestId.text)), ("message", .str message)]).without out).record?
      [("task_id", .defaulted), ("message", .required)]).bind _ = _
    rw [Json.record?_without hfault rfl (by decide) (by decide)]
    simp only [Option.bind_eq_bind, Option.bind_some, hid, hmessage, r]
    rfl

end WorkerReply

/-! ## Lines -/

theorem Chunk.Sendable.readsBack {c : Chunk} (h : c.Sendable) {depth : Nat} (hdepth : 1 < depth) :
    Json.ReadsBack depth c.toJson :=
  have hnat {n : Nat} (hn : n < Nat.pow 2 64) : Json.ReadsBack (depth - 1) (.ofNat n) :=
    Json.readsBack_ofNat (Nat.le_refl 64) hn _
  ⟨hdepth, hnat h.index, trivial, trivial, hnat h.startLine, hnat h.endLine, Json.readsBack_ofText? _ _, hnat h.depth,
    trivial, trivial⟩

theorem BackendSpec.Sendable.readsBack {s : BackendSpec} (h : s.Sendable) {depth : Nat} (hdepth : 2 < depth) :
    Json.ReadsBack depth s.toJson := by
  have hone : 1 < depth := Nat.lt_of_succ_lt hdepth
  cases s with
  | embedded s => exact ⟨hone, trivial, trivial, trivial, trivial, trivial⟩
  | remote s =>
    have htokens := Json.readsBack_ofNat (Nat.le_refl 64) h.maxContextTokens (depth - 1)
    have hlanguages := Json.readsBack_texts s.languages (show 1 < depth - 1 by omega)
    exact ⟨hone, trivial, trivial, trivial, trivial, Json.readsBack_ofText? _ _, h.timeoutSeconds,
      h.defaultConfidence, hlanguages, htokens, trivial⟩

theorem Answer.Sendable.readsBack {a : Answer} (h : a.Sendable) {depth : Nat} (hdepth : 2 < depth) :
    Json.ReadsBack depth a.toJson := by
  have hone : 1 < depth - 1 := by omega
  have hpid : Json.ReadsBack (depth - 1 - 1) (.ofNat? a.provenance.workerPid) := by
    cases hworker : a.provenance.workerPid with
    | none => trivial
    | some pid => exact Json.readsBack_ofNat (by decide) (h.workerPid pid hworker) _
  have hlatency := Json.readsBack_ofNat (Nat.le_refl 64) h.latencyMs (depth - 1 - 1)
  exact ⟨Nat.lt_of_succ_lt hdepth, trivial, Json.readsBack_ofText? _ _, Json.readsBack_texts _ hone,
    Json.readsBack_texts _ hone, h.confidence,
    ⟨hone, trivial, trivial, trivial, hlatency, trivial, hpid, trivial⟩, trivial⟩

theorem WorkerRequest.Sendable.readsBack {m : WorkerRequest} (h : m.Sendable) : Json.ReadsBack 128 m.toJson := by
  cases m with
  | convert o =>
    exact ⟨by decide, trivial, trivial, h.chunk.readsBack (by decide), h.spec.readsBack (by decide), trivial,
      Json.readsBack_ofNat (by decide) h.attempt _, Json.readsBack_ofNat (Nat.le_refl 64) h.timeoutMs _, trivial⟩
  | shutdown => exact ⟨by decide, trivial, trivial⟩

theorem WorkerReply.Sendable.readsBack {m : WorkerReply} (h : m.Sendable) : Json.ReadsBack 128 m.toJson := by
  cases m with
  | ready pid => exact ⟨by decide, trivial, Json.readsBack_ofNat (by decide) h _, trivial⟩
  | result id a => exact ⟨by decide, trivial, trivial, h.2.readsBack (by decide), trivial⟩
  | error id message => exact ⟨by decide, trivial, Json.readsBack_ofText? _ _, trivial, trivial⟩

/-- A message that is an object is read from its line, whatever was left out of it and whatever blanks end the line. -/
theorem decodeLine?_without {j : Json} (hobj : ∃ members, j = .obj members) (h : Json.ReadsBack 128 j)
    (out : String → Bool) {blanks : String} (hblank : Text.trimEnd blanks.toList = []) :
    decodeLine? ((j.without out).text ++ blanks) = some (j.without out) := by
  obtain ⟨members, rfl⟩ := hobj
  exact Json.decodeLine?_text_append h.without hblank

theorem WorkerRequest.exists_toJson_eq_obj (m : WorkerRequest) : ∃ members, m.toJson = .obj members := by
  cases m <;> exact ⟨_, rfl⟩

theorem WorkerReply.exists_toJson_eq_obj (m : WorkerReply) : ∃ members, m.toJson = .obj members := by
  cases m <;> exact ⟨_, rfl⟩

theorem BackendSpec.withDefaults_none (s : BackendSpec) : s.withDefaults (fun _ => false) = s := by
  cases s <;> rfl

theorem WorkerRequest.withDefaults_none (m : WorkerRequest) : m.withDefaults (fun _ => false) = m := by
  cases m with
  | convert o =>
    show convert { o with chunk := o.chunk, spec := o.spec.withDefaults fun _ => false } = _
    rw [BackendSpec.withDefaults_none]
  | shutdown => rfl

theorem WorkerReply.withDefaults_none (m : WorkerReply) : m.withDefaults (fun _ => false) = m := by
  cases m <;> rfl

/-- A request is written on one line and read from it as it was, with the defaults of what was left out. -/
theorem WorkerRequest.Sendable.read {m : WorkerRequest} (h : m.Sendable) :
    (∃ cs, '\n' ∉ cs ∧ (encodeLine m.toJson).toList = cs ++ ['\n']) ∧
      (decodeLine? (encodeLine m.toJson)).bind WorkerRequest.ofJson? = some m ∧
      ∀ out, Json.LeavesOut WorkerRequest.defaulted out →
        decodeLine? (encodeLine (m.toJson.without out)) = some (m.toJson.without out) ∧
          WorkerRequest.ofJson? (m.toJson.without out) = some (m.withDefaults out) := by
  have hline (out : String → Bool) : decodeLine? (encodeLine (m.toJson.without out)) = some (m.toJson.without out) :=
    decodeLine?_without m.exists_toJson_eq_obj h.readsBack out (by decide)
  refine ⟨Json.toList_encodeLine _, ?_, fun out hout => ⟨hline out, ofJson?_without hout h⟩⟩
  have hread := ofJson?_without (Json.leavesOut_none _) h
  rw [← Json.without_none m.toJson, hline, Option.bind_some, hread, withDefaults_none]

/-- A reply is written on one line and read from it as it was, with the defaults of what was left out. -/
theorem WorkerReply.Sendable.read {m : WorkerReply} (h : m.Sendable) :
    (∃ cs, '\n' ∉ cs ∧ (encodeLine m.toJson).toList = cs ++ ['\n']) ∧
      ofLine? (encodeLine m.toJson) = some m ∧
      ∀ out, Json.LeavesOut m.defaulted out →
        decodeLine? (encodeLine (m.toJson.without out)) = some (m.toJson.without out) ∧
          WorkerReply.ofJson? (m.toJson.without out) = some (m.withDefaults out) := by
  have hline (out : String → Bool) : decodeLine? (encodeLine (m.toJson.without out)) = some (m.toJson.without out) :=
    decodeLine?_without m.exists_toJson_eq_obj h.readsBack out (by decide)
  refine ⟨Json.toList_encodeLine _, ?_, fun out hout => ⟨hline out, ofJson?_without hout h⟩⟩
  have hread := ofJson?_without (Json.leavesOut_none _) h
  unfold ofLine?
  rw [← Json.without_none m.toJson, hline, Option.bind_some, hread, withDefaults_none]

/-- Requests and replies are written on one line each, which ends with its only newline, and are read from it as they
were; and when members with a default are left out of the line, what is read has the defaults. -/
theorem messages_read_as_written (m : WorkerRequest) (hm : m.Sendable) (r : WorkerReply) (hr : r.Sendable) :
    ((∃ cs, '\n' ∉ cs ∧ (encodeLine m.toJson).toList = cs ++ ['\n']) ∧
      (decodeLine? (encodeLine m.toJson)).bind WorkerRequest.ofJson? = some m ∧
      ∀ out, Json.LeavesOut WorkerRequest.defaulted out →
        decodeLine? (encodeLine (m.toJson.without out)) = some (m.toJson.without out) ∧
          WorkerRequest.ofJson? (m.toJson.without out) = some (m.withDefaults out)) ∧
    ((∃ cs, '\n' ∉ cs ∧ (encodeLine r.toJson).toList = cs ++ ['\n']) ∧
      WorkerReply.ofLine? (encodeLine r.toJson) = some r ∧
      ∀ out, Json.LeavesOut r.defaulted out →
        decodeLine? (encodeLine (r.toJson.without out)) = some (r.toJson.without out) ∧
          WorkerReply.ofJson? (r.toJson.without out) = some (r.withDefaults out)) :=
  ⟨hm.read, hr.read⟩

/-- A question for a service that has a key and languages, about a chunk with a newline and a quotation mark in it. -/
def questionForService : WorkerRequest :=
  .convert {
    id := ⟨"00000000-0000-0000-0000-000000000001"⟩
    chunk := { text := "PRINT \"a\"\n", context := some "IF x\n", depth := 1, continues := true }
    spec := .remote {
      baseUrl := "http://127.0.0.1", model := "m", revision := "r", apiKey := some "k"
      timeoutSeconds := Double.ofNat 30, defaultConfidence := Double.ofRatio false 3 4, languages := ["python"]
      maxContextTokens := 4096 }
    language := ⟨"python"⟩, attempt := 1, timeoutMs := 1000 }

theorem question_and_answer_read_as_written :
    (decodeLine? (encodeLine questionForService.toJson)).bind WorkerRequest.ofJson? = some questionForService ∧
      WorkerRequest.ofJson? (questionForService.toJson.without (WorkerRequest.defaulted.contains ·)) =
        some (questionForService.withDefaults (WorkerRequest.defaulted.contains ·)) ∧
      WorkerReply.ofLine? (encodeLine (WorkerReply.error none "\n").toJson) = some (.error none "\n") := by
  have htimeout : Json.Lossless (Double.ofNat 30) := rfl
  have hconfidence : Json.Lossless (Double.ofRatio false 3 4) := rfl
  have hm : questionForService.Sendable :=
    ⟨⟨"00000000000000000000000000000001".toList, by decide⟩, ⟨by decide, by decide, by decide, by decide⟩,
      ⟨htimeout, hconfidence, by decide⟩, by decide, by decide⟩
  obtain ⟨⟨-, hread, hleft⟩, ⟨-, hreply, -⟩⟩ := messages_read_as_written questionForService hm (.error none "\n") nofun
  exact ⟨hread, (hleft _ fun name h => List.contains_iff_mem.1 h).2, hreply⟩

end Pseudoscribe
