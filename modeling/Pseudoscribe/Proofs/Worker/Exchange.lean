import Pseudoscribe.Proofs.Backend.Reuse
import Pseudoscribe.Proofs.Worker.Wire

/-!
# Questions and answers in step

A worker that is asked one question after the other over a link says one line for each, and the link has read it before
it asks the next.  So every answer is the answer to its own question.  It comes from the backend that the worker made
first for the identity of the description.  For any lines a worker gives one reply to each that is not blank, in order,
up to the first that tells it to shut down.
-/

namespace Pseudoscribe

/-- Read a line of those who ask. -/
def WorkerRequest.ofLine? (line : String) : Option WorkerRequest := (decodeLine? line).bind ofJson?

namespace Worker

/-- The backends answer these questions, with what the function says; for a question that means the descriptions of all
the questions with its identity, and any numbers of calls before. -/
def ActsAs (bs : Backends) (answer : BackendSpec → Chunk → Language → Duration → Answer) (orders : List WorkOrder) :
    Prop :=
  ∀ o ∈ orders, ∀ o' ∈ orders, o'.spec.identity = o.spec.identity → ∀ calls, ∃ t,
    ({ bs with calls }.work o'.spec o.chunk o.language (.ofMillis o.timeoutMs)).1 =
      ⟨some t, .ok (answer o'.spec o.chunk o.language (.ofMillis o.timeoutMs))⟩

theorem ActsAs.mono {bs : Backends} {answer : BackendSpec → Chunk → Language → Duration → Answer}
    {orders orders' : List WorkOrder} (h : ActsAs bs answer orders) (hsub : orders' ⊆ orders) :
    ActsAs bs answer orders' :=
  fun o ho o' ho' hname => h o (hsub ho) o' (hsub ho') hname

/-- The reply of a worker to a question, after the questions that it was asked before. -/
def replyAfter (w : Worker) (answer : BackendSpec → Chunk → Language → Duration → Answer) (before : List WorkOrder)
    (o : WorkOrder) : Answer :=
  (answer (w.backends.servant (before.map WorkOrder.spec) o.spec) o.chunk o.language (.ofMillis o.timeoutMs)).withPid
    (some w.pid)

/-- The worker as it is after it was asked these questions. -/
structure After (w₀ : Worker) (orders : List WorkOrder) (w : Worker) : Prop where
  pid : w.pid = w₀.pid
  backends : w₀.backends.After (orders.map WorkOrder.spec) w.backends

section Asked

variable {w₀ w : Worker} {before : List WorkOrder} {o : WorkOrder}
  {answer : BackendSpec → Chunk → Language → Duration → Answer}

theorem exists_servant_eq : ∃ o' ∈ before ++ [o],
    w₀.backends.servant (before.map WorkOrder.spec) o.spec = o'.spec ∧ o'.spec.identity = o.spec.identity := by
  unfold Backends.servant
  cases hfind : (before.map WorkOrder.spec ++ [o.spec]).find? (w₀.backends.registry.serves o.spec) with
  | none => exact ⟨o, List.mem_append_right _ List.mem_cons_self, rfl, rfl⟩
  | some s =>
    have hserves := List.find?_some hfind
    have hmem : s ∈ (before ++ [o]).map WorkOrder.spec := by
      rw [List.map_append]
      exact List.mem_of_find?_eq_some hfind
    obtain ⟨o', ho', rfl⟩ := List.mem_map.1 hmem
    exact ⟨o', ho', rfl, eq_of_beq (Bool.and_eq_true_iff.1 hserves).1⟩

theorem convert_of_work {t : Nat} {a : Answer}
    (h : (w.backends.work o.spec o.chunk o.language (.ofMillis o.timeoutMs)).1 = ⟨some t, .ok a⟩) :
    w.convert o = (.reply (.result o.id (a.withPid (some w.pid))),
      { w with backends := (w.backends.work o.spec o.chunk o.language (.ofMillis o.timeoutMs)).2 }) := by
  unfold Worker.convert
  dsimp only
  rw [h]

/-- A worker answers a question and is ready for the next. -/
theorem After.convert (h : After w₀ before w) (hnew : w₀.backends.made = [])
    (hacts : ActsAs w₀.backends answer (before ++ [o])) :
    (w.convert o).1 = .reply (.result o.id (w₀.replyAfter answer before o)) ∧
      After w₀ (before ++ [o]) (w.convert o).2 := by
  obtain ⟨hwork, hafter⟩ := h.backends.work hnew o.chunk o.language (.ofMillis o.timeoutMs)
  obtain ⟨o', ho', hservant, hname⟩ := @exists_servant_eq w₀ before o
  obtain ⟨t, ht⟩ := hacts o (List.mem_append_right _ List.mem_cons_self) o' ho' hname w.backends.calls
  rw [hservant, ht] at hwork
  rw [convert_of_work hwork]
  refine ⟨?_, h.pid, ?_⟩
  · unfold replyAfter
    rw [hservant, h.pid]
  · rw [List.map_append]
    exact hafter

end Asked

end Worker

/-! ## Lines on the way -/

theorem isBlank_text {j : Json} (hobj : ∃ members, j = .obj members) : Text.isBlank j.text.toList = false := by
  obtain ⟨members, rfl⟩ := hobj
  rw [Json.toList_text_obj]
  rfl

/-- A message is also read without the newline behind it. -/
theorem decodeLine?_text {j : Json} (hobj : ∃ members, j = .obj members) (h : Json.ReadsBack 128 j) :
    decodeLine? j.text = some j := by
  have hline : decodeLine? ((j.without fun _ => false).text ++ "") = some (j.without fun _ => false) :=
    decodeLine?_without hobj h _ rfl
  rwa [Json.without_none, String.append_empty] at hline

theorem WorkerRequest.Sendable.ofLine? {m : WorkerRequest} (h : m.Sendable) :
    WorkerRequest.ofLine? m.toJson.text = some m := by
  have hread := ofJson?_without (Json.leavesOut_none _) h
  rw [Json.without_none, withDefaults_none] at hread
  unfold WorkerRequest.ofLine?
  rw [decodeLine?_text m.exists_toJson_eq_obj h.readsBack, Option.bind_some, hread]

theorem WorkerReply.Sendable.ofLine? {m : WorkerReply} (h : m.Sendable) :
    WorkerReply.ofLine? (Peer.lineOf m) = some m := by
  have hread := ofJson?_without (Json.leavesOut_none _) h
  rw [Json.without_none, withDefaults_none] at hread
  unfold WorkerReply.ofLine? Peer.lineOf
  rw [decodeLine?_text m.exists_toJson_eq_obj h.readsBack, Option.bind_some, hread]

/-! ## Over a link -/

namespace Link

/-- The link as it is after these questions were asked, one after the other. -/
def executeAll (l : Link) (orders : List WorkOrder) : Link := orders.foldl (fun l o => (l.execute o).2) l

/-- Nothing is left to be read on the link, and the worker waits for a question. -/
structure Idle (w₀ : Worker) (orders : List WorkOrder) (l : Link) : Prop where
  alive : l.stopped = none
  peer : ∃ w, l.peer = .worker w [] none ∧ w₀.After orders w

theorem ofPeer_ofWorker {w : Worker} (hpid : w.pid < Nat.pow 2 32) (startup : Duration) :
    ofPeer (.ofWorker w) startup = .ok { peer := .worker w [] none, pid := w.pid } := by
  have hready : WorkerReply.ofLine? (Peer.lineOf (.ready w.pid)) = some (.ready w.pid) :=
    WorkerReply.Sendable.ofLine? hpid
  unfold ofPeer Peer.ofWorker Peer.listen
  dsimp only
  rw [hready]

theorem execute_eq {l : Link} {w w' : Worker} {o : WorkOrder} {a : Answer} (hstopped : l.stopped = none)
    (hpeer : l.peer = .worker w [] none) (hconvert : w.convert o = (.reply (.result o.id a), w'))
    (ho : o.Sendable) (ha : a.Sendable) :
    l.execute o = (some (.ok a), { l with peer := .worker w' [] none }) := by
  obtain ⟨peer, pid, stopped⟩ := l
  obtain rfl := hstopped
  obtain rfl := hpeer
  have hrequest : (WorkerRequest.convert o).Sendable := ho
  have hreply : (WorkerReply.result o.id a).Sendable := ⟨ho.id, ha⟩
  have hstep : w.step (WorkerRequest.convert o).toJson.text = (.reply (.result o.id a), w') := by
    have hline := hrequest.ofLine?
    unfold WorkerRequest.ofLine? at hline
    unfold Worker.step
    rw [isBlank_text (WorkerRequest.exists_toJson_eq_obj _), hline, ← hconvert]
    rfl
  have hsend : (Peer.worker w [] none).send (WorkerRequest.convert o).toJson.text =
      .worker w' [Peer.lineOf (.result o.id a)] none := by
    unfold Peer.send
    dsimp only
    rw [hstep]
    rfl
  have hverdict : WorkerReply.verdict? o.id (Peer.lineOf (.result o.id a)) = some (.ok a) := by
    unfold WorkerReply.verdict?
    rw [hreply.ofLine?]
    have hblank : Text.isBlank (Peer.lineOf (.result o.id a)).toList = false :=
      isBlank_text (WorkerReply.exists_toJson_eq_obj _)
    rw [hblank]
    dsimp only
    rw [if_pos rfl]
    rfl
  have halive : ({ peer := .worker w [] none, pid } : Link).isAlive = true := rfl
  unfold execute
  rw [if_pos halive]
  dsimp only
  rw [hsend]
  show awaitFor _ o.id 2 = _
  unfold awaitFor
  dsimp only [Peer.listen]
  rw [hverdict]

/-- One question over an idle link: its answer comes back, and the link is idle again. -/
theorem Idle.execute {w : Worker} {before : List WorkOrder} {o : WorkOrder} {l : Link} (h : l.Idle w before)
    (hnew : w.backends.made = []) {answer : BackendSpec → Chunk → Language → Duration → Answer}
    (hacts : Worker.ActsAs w.backends answer (before ++ [o])) (ho : o.Sendable)
    (ha : (w.replyAfter answer before o).Sendable) :
    (l.execute o).1 = some (.ok (w.replyAfter answer before o)) ∧ (l.execute o).2.Idle w (before ++ [o]) := by
  obtain ⟨w', hpeer, hafter⟩ := h.peer
  obtain ⟨hreply, hafter'⟩ := hafter.convert hnew hacts
  have hconvert : w'.convert o = (.reply (.result o.id (w.replyAfter answer before o)), (w'.convert o).2) :=
    Prod.ext hreply rfl
  rw [execute_eq h.alive hpeer hconvert ho ha]
  exact ⟨rfl, h.alive, _, rfl, hafter'⟩

/-- After any questions the link is idle. -/
theorem Idle.executeAll {w : Worker} {l : Link} (h : l.Idle w []) (hnew : w.backends.made = [])
    {answer : BackendSpec → Chunk → Language → Duration → Answer} {orders : List WorkOrder}
    (hacts : Worker.ActsAs w.backends answer orders) (ho : ∀ o ∈ orders, o.Sendable)
    (ha : ∀ before o after, orders = before ++ o :: after → (w.replyAfter answer before o).Sendable) :
    (l.executeAll orders).Idle w orders := by
  induction orders using List.reverseRecOn with
  | nil => exact h
  | append_singleton before o ih =>
    have hbefore : (l.executeAll before).Idle w before := by
      refine ih (hacts.mono (List.subset_append_left _ _)) (fun o' ho' => ho o' (List.mem_append_left _ ho')) ?_
      rintro before' o' after rfl
      exact ha before' o' (after ++ [o]) (by simp)
    have hone := hbefore.execute hnew hacts (ho o (List.mem_append_right _ List.mem_cons_self)) (ha before o [] rfl)
    show (List.foldl _ l (before ++ [o])).Idle w (before ++ [o])
    rw [List.foldl_append]
    exact hone.2

end Link

/-! ## Over any lines -/

namespace Worker

/-- The lines that a worker replies to: those that are not blank, up to the first that tells it to shut down. -/
def asked (lines : List String) : List String :=
  (lines.filter fun line => !Text.isBlank line.toList).takeWhile fun line =>
    WorkerRequest.ofLine? line != some .shutdown

/-- The question on a line, if there is one. -/
def orderOf? (line : String) : Option WorkOrder :=
  match WorkerRequest.ofLine? line with
  | some (.convert o) => some o
  | _ => none

/-- The questions among the lines. -/
def questions (lines : List String) : List WorkOrder := (asked lines).filterMap orderOf?

/-- The reply to a line: to a question its answer, made by a backend for the identity of its description, and to a line
that cannot be read an error without an identifier. -/
inductive RepliesTo (w : Worker) (answer : BackendSpec → Chunk → Language → Duration → Answer)
    (orders : List WorkOrder) : String → WorkerReply → Prop
  | result {line : String} {o o' : WorkOrder} (hline : WorkerRequest.ofLine? line = some (.convert o))
      (ho' : o' ∈ orders) (hname : o'.spec.identity = o.spec.identity) :
      RepliesTo w answer orders line (.result o.id
        ((answer o'.spec o.chunk o.language (.ofMillis o.timeoutMs)).withPid (some w.pid)))
  | error {line : String} (hline : WorkerRequest.ofLine? line = none) :
      RepliesTo w answer orders line (.error none "invalid request")

theorem asked_blank {line : String} (hblank : Text.isBlank line.toList = true) (rest : List String) :
    asked (line :: rest) = asked rest := by
  unfold asked
  rw [List.filter_cons_of_neg (by simp [hblank])]

theorem asked_line {line : String} (hblank : Text.isBlank line.toList = false) (rest : List String) :
    asked (line :: rest) =
      if WorkerRequest.ofLine? line = some .shutdown then [] else line :: asked rest := by
  unfold asked
  rw [List.filter_cons_of_pos (by simp [hblank])]
  split
  · next hstop => rw [List.takeWhile_cons_of_neg (by simp [hstop])]
  · next hgo => rw [List.takeWhile_cons_of_pos (by simp [hgo])]

/-- What a worker does with a line that is not blank. -/
theorem step_line (w : Worker) {line : String} (hblank : Text.isBlank line.toList = false) :
    w.step line = match WorkerRequest.ofLine? line with
      | none => (.reply (.error none "invalid request"), w)
      | some .shutdown => (.stop .finished, w)
      | some (.convert o) => w.convert o := by
  unfold step
  rw [hblank]
  rfl

theorem pid_step (w : Worker) (line : String) : (w.step line).2.pid = w.pid := by
  unfold step
  split
  · rfl
  · split <;> rfl

theorem pid_answer (w : Worker) (lines : List String) : (w.answer lines).2.2.pid = w.pid := by
  induction lines generalizing w with
  | nil => rfl
  | cons line rest ih =>
    have hpid := pid_step w line
    unfold Worker.answer
    split
    · next h =>
      rw [h] at hpid
      exact (ih _).trans hpid
    · next h =>
      rw [h] at hpid
      exact hpid
    · next h =>
      rw [h] at hpid
      exact (ih _).trans hpid

/-- A worker goes through all lines that it replies to, and replies to each of them once and in order. -/
theorem After.answer {w₀ : Worker} (hnew : w₀.backends.made = [])
    {answer : BackendSpec → Chunk → Language → Duration → Answer} (lines : List String) :
    ∀ {w : Worker} {before : List WorkOrder}, w₀.After before w →
      ActsAs w₀.backends answer (before ++ questions lines) →
      (w.answer lines).2.1 = .finished ∧
        List.Forall₂ (RepliesTo w₀ answer (before ++ questions lines)) (asked lines) (w.answer lines).1 := by
  induction lines with
  | nil => exact fun _ _ => ⟨rfl, .nil⟩
  | cons line rest ih =>
    intro w before h hacts
    cases hblank : Text.isBlank line.toList with
    | true =>
      have hskip : w.step line = (.skip, w) := by
        unfold step
        rw [hblank]
        rfl
      have hasked := asked_blank hblank rest
      have hquestions : questions (line :: rest) = questions rest := congrArg (List.filterMap orderOf?) hasked
      rw [hquestions] at hacts ⊢
      unfold Worker.answer
      rw [hskip, hasked]
      exact ih h hacts
    | false =>
      have hstep := step_line w hblank
      cases hline : WorkerRequest.ofLine? line with
      | none =>
        have hasked : asked (line :: rest) = line :: asked rest := by
          rw [asked_line hblank, if_neg (by simp [hline])]
        have hquestions : questions (line :: rest) = questions rest := by
          unfold questions orderOf?
          rw [hasked, List.filterMap_cons_none (by rw [hline])]
        rw [hline] at hstep
        rw [hquestions] at hacts ⊢
        obtain ⟨hend, hreplies⟩ := ih h hacts
        unfold Worker.answer
        rw [hstep, hasked]
        exact ⟨hend, .cons (.error hline) hreplies⟩
      | some m =>
        cases m with
        | shutdown =>
          have hasked : asked (line :: rest) = [] := by
            rw [asked_line hblank, if_pos hline]
          rw [hline] at hstep
          unfold Worker.answer
          rw [hstep, hasked]
          exact ⟨rfl, .nil⟩
        | convert o =>
          have hasked : asked (line :: rest) = line :: asked rest := by
            rw [asked_line hblank, if_neg (by simp [hline])]
          have hquestions : questions (line :: rest) = o :: questions rest := by
            unfold questions orderOf?
            rw [hasked, List.filterMap_cons_some (by rw [hline])]
          rw [hline] at hstep
          rw [hquestions, List.append_cons] at hacts ⊢
          obtain ⟨hreply, hafter⟩ := h.convert hnew (hacts.mono (List.subset_append_left _ _))
          obtain ⟨hend, hreplies⟩ := ih hafter hacts
          obtain ⟨o', ho', hservant, hname⟩ := @exists_servant_eq w₀ before o
          have hanswer : w₀.replyAfter answer before o =
              (answer o'.spec o.chunk o.language (.ofMillis o.timeoutMs)).withPid (some w₀.pid) := by
            unfold replyAfter
            rw [hservant]
          have hconvert : w.convert o = (.reply (.result o.id (w₀.replyAfter answer before o)), (w.convert o).2) :=
            Prod.ext hreply rfl
          unfold Worker.answer
          rw [hstep, hasked]
          dsimp only
          rw [hconvert]
          refine ⟨hend, .cons ?_ hreplies⟩
          rw [hanswer]
          exact .result hline (List.mem_append_left _ ho') hname

/-- The own description serves if all with its identity before are the same, or none of their backends can be made. -/
theorem servant_self {bs : Backends} {specs : List BackendSpec} {spec : BackendSpec}
    (h : ∀ s ∈ specs, s.identity = spec.identity → s = spec ∨ (bs.registry.create s).isOk = false) :
    bs.servant specs spec = spec := by
  unfold Backends.servant
  cases hfind : (specs ++ [spec]).find? (bs.registry.serves spec) with
  | none => rfl
  | some s =>
    have hserves : bs.registry.serves spec s = true := List.find?_some hfind
    obtain ⟨hname, hmade⟩ := Bool.and_eq_true_iff.1 hserves
    rcases List.mem_append.1 (List.mem_of_find?_eq_some hfind) with hs | hs
    · rcases h s hs (eq_of_beq hname) with rfl | hnot
      · rfl
      · exact absurd hmade (by simp [hnot])
    · exact List.mem_singleton.1 hs

theorem ActsAs.unavailable {bs : Backends} (hnew : bs.made = [])
    {answer : BackendSpec → Chunk → Language → Duration → Answer} {orders : List WorkOrder}
    (h : ActsAs bs answer orders) {o : WorkOrder} (ho : o ∈ orders) {e : BackendError}
    (hcreate : bs.registry.create o.spec = .error e) :
    answer o.spec o.chunk o.language (.ofMillis o.timeoutMs) = Backends.unavailable o.spec e := by
  obtain ⟨t, ht⟩ := h o ho o ho rfl bs.calls
  have hnone : bs.create o.spec = (.error e, bs) := by
    unfold Backends.create
    rw [hnew, List.lookup_nil]
    dsimp only
    rw [hcreate]
  rw [Backends.work_eq, show ({ bs with calls := bs.calls } : Backends) = bs from rfl, hnone] at ht
  exact (Except.ok.inj (congrArg Work.result ht)).symm

/-- Over a link to a new worker every question gets its own answer back, with the process of the worker: the answer of
the backend that the worker made first for the identity of the description.  That is the backend of the question itself
if the questions before with its identity have its description too; and if no such backend can be made, the answer says
so.  For any lines a worker says that it is ready, and then gives one reply to each line that it replies to. -/
theorem in_step (w : Worker) (hnew : w.backends.made = []) (hpid : w.pid < Nat.pow 2 32)
    (answer : BackendSpec → Chunk → Language → Duration → Answer) (startup : Duration) (orders : List WorkOrder)
    (lines : List String) (hacts : ActsAs w.backends answer orders)
    (hlines : ActsAs w.backends answer (questions lines)) (ho : ∀ o ∈ orders, o.Sendable)
    (ha : ∀ o ∈ orders, ∀ o' ∈ orders, o'.spec.identity = o.spec.identity →
      ((answer o'.spec o.chunk o.language (.ofMillis o.timeoutMs)).withPid (some w.pid)).Sendable) :
    (∃ l, Link.ofPeer (.ofWorker w) startup = .ok l ∧ l.pid = w.pid ∧
      ∀ before o after, orders = before ++ o :: after →
        ((l.executeAll before).execute o).1 =
            some (.ok ((answer (w.backends.servant (before.map WorkOrder.spec) o.spec) o.chunk o.language
              (.ofMillis o.timeoutMs)).withPid (some w.pid))) ∧
          ((∀ o' ∈ before, o'.spec.identity = o.spec.identity → o'.spec = o.spec) →
            ((l.executeAll before).execute o).1 =
              some (.ok ((answer o.spec o.chunk o.language (.ofMillis o.timeoutMs)).withPid (some w.pid)))) ∧
          ∀ e, w.backends.registry.create o.spec = .error e →
            (∀ o' ∈ before, o'.spec.identity = o.spec.identity →
              (w.backends.registry.create o'.spec).isOk = false) →
            ((l.executeAll before).execute o).1 =
              some (.ok ((Backends.unavailable o.spec e).withPid (some w.pid)))) ∧
    (w.serve lines).2.1 = .finished ∧
      ∃ replies, (w.serve lines).1 = .ready w.pid :: replies ∧
        List.Forall₂ (RepliesTo w answer (questions lines)) (asked lines) replies := by
  refine ⟨?_, ?_⟩
  · let l : Link := { peer := .worker w [] none, pid := w.pid }
    have hidle : l.Idle w [] := ⟨rfl, w, rfl, rfl, Backends.after_nil hnew⟩
    refine ⟨l, Link.ofPeer_ofWorker hpid startup, rfl, ?_⟩
    rintro before o after rfl
    have hsend : ∀ before' o' after', before ++ o :: after = before' ++ o' :: after' →
        (w.replyAfter answer before' o').Sendable := by
      intro before' o' after' heq
      obtain ⟨o'', ho'', hservant, hname⟩ := @exists_servant_eq w before' o'
      have hsub : before' ++ [o'] ⊆ before ++ o :: after := by
        rw [heq, List.append_cons before' o' after']
        exact List.subset_append_left _ _
      unfold replyAfter
      rw [hservant]
      exact ha o' (hsub (List.mem_append_right _ List.mem_cons_self)) o'' (hsub ho'') hname
    have hmem : o ∈ before ++ o :: after := List.mem_append_right _ List.mem_cons_self
    have hbefore : (l.executeAll before).Idle w before := by
      refine hidle.executeAll hnew (hacts.mono (List.subset_append_left _ _))
        (fun o' ho' => ho o' (List.mem_append_left _ ho')) ?_
      rintro before' o' after' rfl
      exact hsend before' o' (after' ++ o :: after) (by simp)
    have hsub : before ++ [o] ⊆ before ++ o :: after := by
      rw [List.append_cons before o after]
      exact List.subset_append_left _ _
    have hreply := (hbefore.execute hnew (hacts.mono hsub) (ho o hmem) (hsend before o after rfl)).1
    unfold replyAfter at hreply
    refine ⟨hreply, fun hsame => ?_, fun e he hnone => ?_⟩
    · rw [hreply, servant_self]
      intro s hs hname
      obtain ⟨o', ho', rfl⟩ := List.mem_map.1 hs
      exact .inl (hsame o' ho' hname)
    · rw [hreply, servant_self, hacts.unavailable hnew hmem he]
      intro s hs hname
      obtain ⟨o', ho', rfl⟩ := List.mem_map.1 hs
      exact .inr (hnone o' ho' hname)
  · have hafter : w.After [] w := ⟨rfl, Backends.after_nil hnew⟩
    obtain ⟨hend, hreplies⟩ := hafter.answer hnew lines hlines
    unfold serve
    have hpid := pid_answer w lines
    rcases hanswer : w.answer lines with ⟨replies, how, w'⟩
    rw [hanswer] at hend hreplies hpid
    exact ⟨hend, replies, congrArg (fun pid => WorkerReply.ready pid :: replies) hpid, hreplies⟩

/-- A worker that has made no backend yet. -/
def newWorker (registry : Registry) : Worker := { pid := 1, backends := { registry, files := fun _ => .missing } }

def firstId : RequestId := ⟨"00000000-0000-0000-0000-000000000001"⟩

def secondId : RequestId := ⟨"00000000-0000-0000-0000-000000000002"⟩

/-- A question for the code of one line. -/
def questionTo (spec : BackendSpec) (id : RequestId) : WorkOrder where
  id
  chunk := { text := "PRINT 1\n" }
  spec
  language := ⟨"python"⟩
  attempt := 1
  timeoutMs := 1000

theorem wellFormed_firstId : firstId.WellFormed := ⟨"00000000000000000000000000000001".toList, by decide⟩

theorem wellFormed_secondId : secondId.WellFormed := ⟨"00000000000000000000000000000002".toList, by decide⟩

theorem sendable_questionTo {spec : BackendSpec} (hspec : spec.Sendable) {id : RequestId} (hid : id.WellFormed) :
    (questionTo spec id).Sendable where
  id := hid
  chunk := by
    have hzero : 0 < Nat.pow 2 64 := by decide
    have hone : 1 < Nat.pow 2 64 := by decide
    exact ⟨hzero, hone, hone, hzero⟩
  spec := hspec
  attempt := show 1 < Nat.pow 2 32 by decide
  timeoutMs := show 1000 < Nat.pow 2 64 by decide

theorem callsFor_countCall (bs : Backends) (chunk : Nat) :
    (bs.countCall chunk).callsFor chunk = bs.callsFor chunk + 1 := by
  unfold Backends.callsFor Backends.countCall
  dsimp only
  rw [List.lookup_cons_self]
  rfl

/-- A scripted backend that makes comments only. -/
def commenting : Script := { confidence := Double.ofRatio false 3 4 }

/-- What it says to a line. -/
def commented : Answer :=
  { success := true, code := some "# PRINT 1\n", errors := [], warnings := [], confidence := Double.ofRatio false 3 4
    provenance := Script.provenance }

theorem script_work_commented (n : Nat) :
    commenting.work (n + 1) { text := "PRINT 1\n" } ⟨"python"⟩ = ⟨some 0, .ok commented⟩ := by
  have hgoes : decide (n + 1 ≤ commenting.failures 0) = false := decide_eq_false (Nat.not_succ_le_zero n)
  have hcode : commenting.code { text := "PRINT 1\n" } ⟨"python"⟩ = "# PRINT 1\n" := by decide +kernel
  have hconfidence : Answer.clampConfidence (Double.ofRatio false 3 4) = Double.ofRatio false 3 4 := by
    decide +kernel
  unfold Script.work Answer.ofCode
  dsimp only
  rw [hgoes, hcode, show commenting.confidence = Double.ofRatio false 3 4 from rfl, hconfidence]
  rfl

/-- A scripted backend that makes comments only answers a line with a comment. -/
theorem in_step_scripted :
    ∃ l, Link.ofPeer (.ofWorker (newWorker (.scripted commenting))) (.ofSeconds 1) = .ok l ∧
      ((l.executeAll [questionTo (.embedded {}) firstId]).execute (questionTo (.embedded {}) secondId)).1 =
        some (.ok (commented.withPid (some 1))) ∧
      ((newWorker (.scripted commenting)).serve ["", "x"]).2.1 = .finished := by
  have hacts : ActsAs (newWorker (.scripted commenting)).backends (fun _ _ _ _ => commented)
      [questionTo (.embedded {}) firstId, questionTo (.embedded {}) secondId] := by
    intro o ho o' ho' _ calls
    have hwork : ∀ id, ({ (newWorker (.scripted commenting)).backends with calls }.work (.embedded {})
        (questionTo (.embedded {}) id).chunk (questionTo (.embedded {}) id).language
        (.ofMillis (questionTo (.embedded {}) id).timeoutMs)).1 = ⟨some 0, .ok commented⟩ := by
      intro id
      rw [Backends.work_of_create_ok rfl rfl]
      unfold Backends.ask
      dsimp only
      rw [callsFor_countCall]
      exact script_work_commented _
    simp only [List.mem_cons, List.not_mem_nil, or_false] at ho ho'
    rcases ho with rfl | rfl <;> rcases ho' with rfl | rfl <;> exact ⟨0, hwork _⟩
  have hnone : questions ["", "x"] = [] := by
    decide +kernel
  have hconfidence : Json.Lossless (Double.ofRatio false 3 4) := rfl
  have hsend : (commented.withPid (some 1)).Sendable :=
    ⟨hconfidence, by decide, by decide⟩
  have hspec : (BackendSpec.embedded {}).Sendable := trivial
  obtain ⟨⟨l, hlink, -, hall⟩, hend, -⟩ := in_step (newWorker (.scripted commenting)) rfl (by decide)
    (fun _ _ _ _ => commented) (.ofSeconds 1)
    [questionTo (.embedded {}) firstId, questionTo (.embedded {}) secondId] ["", "x"] hacts
    (by rw [hnone]; exact fun _ ho => absurd ho List.not_mem_nil)
    (by
      intro o ho
      simp only [List.mem_cons, List.not_mem_nil, or_false] at ho
      rcases ho with rfl | rfl
      · exact sendable_questionTo hspec wellFormed_firstId
      · exact sendable_questionTo hspec wellFormed_secondId)
    (fun _ _ _ _ _ => hsend)
  exact ⟨l, hlink, (hall [questionTo (.embedded {}) firstId] (questionTo (.embedded {}) secondId) [] rfl).1, hend⟩

/-- A model in a service that nobody can reach, with these languages. -/
def serviceWith (languages : List String) : BackendSpec :=
  .remote {
    baseUrl := "http://[::1]", model := "coder", revision := "r1", timeoutSeconds := Double.ofNat 30
    defaultConfidence := Double.ofRatio false 3 4, languages, maxContextTokens := 8192 }

theorem sendable_serviceWith (languages : List String) : (serviceWith languages).Sendable := by
  have htimeout : Json.Lossless (Double.ofNat 30) := rfl
  have hconfidence : Json.Lossless (Double.ofRatio false 3 4) := rfl
  exact ⟨htimeout, hconfidence, show 8192 < Nat.pow 2 64 by decide⟩

/-- The answer of this service where there is an error. -/
def serviceError (text : String) : Answer :=
  .ofError text { model := "coder", revision := "r1", backend := .remote }

theorem work_eq_of_toOption {x : Work} {t : Nat} {a : Answer} (ht : x.lasts = some t)
    (ha : x.result.toOption = some a) : x = ⟨some t, .ok a⟩ := by
  obtain ⟨lasts, result⟩ := x
  obtain rfl := ht
  cases result with
  | error e => cases ha
  | ok b =>
    obtain rfl := Option.some.inj ha
    rfl

/-- A question is answered from a backend that does not have its description: one that does not write the language
that is asked for, where its own would have tried. -/
theorem exists_answer_of_other :
    ∃ l, Link.ofPeer (.ofWorker (newWorker .builtIn)) (.ofSeconds 1) = .ok l ∧
      ((l.executeAll [questionTo (serviceWith ["rust"]) firstId]).execute (questionTo (serviceWith []) secondId)).1 =
        some (.ok ((serviceError "remote model coder does not support target language 'python'").withPid (some 1))) ∧
      ((newWorker .builtIn).backends.work (serviceWith []) { text := "PRINT 1\n" } ⟨"python"⟩ (.ofMillis 1000)).1 =
        .done (serviceError "network error: error sending request for url (http://[::1]/v1/translate)") := by
  let refused := serviceError "remote model coder does not support target language 'python'"
  let w₀ := newWorker .builtIn
  let o := questionTo (serviceWith ["rust"]) firstId
  let o' := questionTo (serviceWith []) secondId
  let w₁ : Worker := { w₀ with backends := (w₀.backends.work o.spec o.chunk o.language (.ofMillis o.timeoutMs)).2 }
  have hfirst := @convert_of_work w₀ o 0 refused (work_eq_of_toOption (by decide +kernel) (by decide +kernel))
  have hsecond := @convert_of_work w₁ o' 0 refused (work_eq_of_toOption (by decide +kernel) (by decide +kernel))
  have hconfidence : Json.Lossless 0 := rfl
  have hsend : (refused.withPid (some 1)).Sendable := ⟨hconfidence, by decide, by decide⟩
  have hasked : o.Sendable := sendable_questionTo (sendable_serviceWith _) wellFormed_firstId
  have hasked' : o'.Sendable := sendable_questionTo (sendable_serviceWith _) wellFormed_secondId
  refine ⟨_, @Link.ofPeer_ofWorker w₀ (by decide) (.ofSeconds 1), ?_,
    work_eq_of_toOption (by decide +kernel) (by decide +kernel)⟩
  unfold Link.executeAll
  rw [List.foldl_cons, List.foldl_nil, Link.execute_eq rfl rfl hfirst hasked hsend,
    Link.execute_eq rfl rfl hsecond hasked' hsend]
  rfl

end Worker

end Pseudoscribe
