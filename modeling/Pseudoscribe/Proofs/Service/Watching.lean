import Mathlib.Data.List.Induction
import Pseudoscribe.Proofs.Event.Channels
import Pseudoscribe.Proofs.Run.Published
import Pseudoscribe.Proofs.Tracker.Lifecycle
import Pseudoscribe.Service.Socket

/-!
# Clients that watch a request

A request is carried out in the background: its events are published, the last one ends it, and then its end is recorded
in the register.  Meanwhile clients come and go that watch it.  Each of them has a socket that forwards the events of a
channel and that looks, now and then, whether the register has the end of the request.  All of these go on at the same
time and take their steps in any order.

The channel is that of the identifier as the client wrote it, while the events carry the written form.  And a look can
come first although there are events to be forwarded.
-/

namespace Pseudoscribe

/-- A request in the background: what is published of it, the last event of which ends it, and what is then recorded. -/
structure WatchedRequest where
  id : RequestId
  front : List EventBody
  last : EventBody
  outcome : Except String Assembly
  underWay : ∀ body ∈ front, body.isTerminal = false
  ends : last.isTerminal = true

namespace WatchedRequest

/-- All events of the request. -/
def events (q : WatchedRequest) : List Event := (q.front ++ [q.last]).map fun body => ⟨q.id.text, body⟩

/-- How the end of the request is recorded. -/
def ending (q : WatchedRequest) (now : Int) : RegisterStep :=
  match q.outcome with
  | .ok result => .complete now q.id result
  | .error error => .fail now q.id error

theorem length_events (q : WatchedRequest) : q.events.length = q.front.length + 1 := by
  rw [events, List.length_map, List.length_append, List.length_singleton]

/-- The last event and no other ends the request. -/
theorem isTerminal_iff (q : WatchedRequest) {n : Nat} {e : Event} (he : q.events[n]? = some e) :
    e.request = q.id.text ∧ (e.isTerminal = true ↔ n + 1 = q.events.length) := by
  rw [events, List.getElem?_map, Option.map_eq_some_iff] at he
  obtain ⟨body, hbody, rfl⟩ := he
  refine ⟨rfl, ?_⟩
  rw [length_events, Nat.add_right_cancel_iff]
  show body.isTerminal = true ↔ _
  by_cases hn : n < q.front.length
  · rw [List.getElem?_append_left hn] at hbody
    rw [q.underWay body (List.mem_of_getElem? hbody)]
    exact iff_of_false Bool.false_ne_true (Nat.ne_of_lt hn)
  · rw [List.getElem?_append_right (Nat.not_lt.1 hn), List.getElem?_singleton] at hbody
    split at hbody
    · next hzero =>
      obtain rfl := Option.some.inj hbody
      exact iff_of_true q.ends (by omega)
    · cases hbody

end WatchedRequest

/-- A run with a result is such a request, whatever is recorded of it. -/
theorem Engine.Reached.exists_watchedRequest {e : Engine} (he : e.Reached) {n : Nat} {r : Run} {a : Assembly}
    (hr : e.run? n = some r) (ha : r.result = some a) (outcome : Except String Assembly) : ∃ q : WatchedRequest,
      q.id = r.request.id ∧ q.outcome = outcome ∧ q.front ++ [q.last] = e.eventsOf r.request.id.text := by
  have hnarrated := (he.chronicled.runs n r hr).narrated
  obtain ⟨inner, hshape, -⟩ := hnarrated.shape
  have hterminal := hnarrated.terminal
  rw [ha, Option.map_some, Option.toList_some] at hshape hterminal
  have hlast := (r.lastWord_eq a).1
  rw [hshape, ← List.cons_append, List.filter_append, List.filter_cons_of_pos hlast] at hterminal
  have hfront := List.filter_eq_nil_iff.1 (List.append_left_eq_self.1 hterminal)
  exact ⟨⟨r.request.id, .started r.total :: inner, r.lastWord a, outcome,
    fun body hbody => Bool.eq_false_iff.2 (hfront body hbody), hlast⟩, rfl, rfl, hshape.symm⟩

/-- The step can end the request of an identifier. -/
def RegisterStep.mayEnd (id : RequestId) : RegisterStep → Bool
  | .setState _ i state => i == id && state.isFinished
  | .complete _ i _ | .fail _ i _ => i == id
  | .insert .. | .setProgress .. | .cancel _ | .cleanup _ => false

/-- A request that has not ended is known and has not ended behind every step that cannot end it. -/
theorem Register.isOpen_after_concat {past : List RegisterStep} {id : RequestId} {t : TrackedRequest}
    (ht : (after {} past).find? id = some t) (hopen : t.state.isFinished = false) {x : RegisterStep}
    (hx : x.mayEnd id = false) :
    ∃ t', (after {} (past ++ [x])).find? id = some t' ∧ t'.state.isFinished = false := by
  have htime : t.finishedAt = none := by
    rw [← Option.not_isSome_iff_eq_none, isSome_finishedAt ht, hopen]
    exact Bool.false_ne_true
  rw [find?_after_concat distinct_empty, ht]
  cases hafter : x.effect id (some t) with
  | none =>
    obtain ⟨before, time, -, hfinish, -⟩ := RegisterStep.effect_eq_none hafter
    rw [htime] at hfinish
    cases hfinish
  | some t' =>
    refine ⟨t', rfl, ?_⟩
    rw [RegisterStep.effect_eq_some hafter]
    split
    · next hid => cases x <;> simp_all [TrackedRequest.changedBy, RegisterStep.mayEnd, RegisterStep.id?]
    · exact hopen

/-- A client and its socket. -/
structure Watcher where
  socket : Socket
  /-- the socket was given up, and the channel with it if the request had ended -/
  left : Bool := false

/-- A request in the background, with all who watch it or another one. -/
structure Watching where
  register : Register
  publisher : Publisher := {}
  /-- how many events of the request were published -/
  told : Nat := 0
  /-- those who watch, in the order in which they came -/
  watchers : List Watcher := []

namespace Watching

/-- What can happen next. -/
inductive Step where
  /-- the next event of the request is published, or its end is recorded -/
  | advance (now : Int)
  /-- an event of another request is published -/
  | publish (id : RequestId) (body : EventBody)
  /-- something is done with the register that does not end the request -/
  | record (x : RegisterStep)
  /-- a client comes to watch a request -/
  | connect (text : String) (now : Nat)
  /-- a socket takes what is next from its channel -/
  | forward (k : Nat)
  /-- a socket looks whether its request has ended -/
  | look (k now : Nat)
  /-- a socket reads a frame of its client -/
  | read (k : Nat) (frame : ClientFrame)
  /-- a client goes without a word, and nothing more is read from it -/
  | lose (k : Nat)
  /-- a socket of which a side has ended is given up -/
  | leave (k : Nat)

/-- The request of a socket has ended.  One that is not known has. -/
def isFinished (w : Watching) (s : Socket) : Bool := (s.id?.bind w.register.find?).all (·.state.isFinished)

/-- A socket changes. -/
def setSocket (w : Watching) (k : Nat) (f : Socket → Socket) : Watching :=
  { w with watchers := w.watchers.modify k fun v => { v with socket := f v.socket } }

/-- The next event of the request is published, or else its end is recorded. -/
def advance (q : WatchedRequest) (w : Watching) (now : Int) : Watching :=
  match q.events[w.told]? with
  | some e => { w with publisher := w.publisher.publish e, told := w.told + 1 }
  | none => { w with register := (w.register.take (q.ending now)).2 }

/-- A client comes: it watches from now on, or it is refused. -/
def connect (w : Watching) (text : String) (now : Nat) : Watching :=
  if ((RequestId.parse? text).bind w.register.find?).isSome then
    let (subscription, publisher) := w.publisher.subscribe text
    { w with publisher, watchers := w.watchers ++ [{ socket := { request := text, subscription, openedAt := now } }] }
  else { w with watchers := w.watchers ++ [{ socket := Socket.refusal text now, left := true }] }

/-- A socket is given up, once. -/
def leave (w : Watching) (k : Nat) : Watching :=
  match w.watchers[k]? with
  | none => w
  | some v =>
    if v.left || v.socket.isWhole then w
    else
      { w with
        publisher := if w.isFinished v.socket then w.publisher.unregister v.socket.request else w.publisher
        watchers := w.watchers.modify k ({ · with left := true }) }

/-- Take a step; one that cannot be taken changes nothing. -/
def step (q : WatchedRequest) (w : Watching) : Step → Watching
  | .advance now => w.advance q now
  | .publish id body =>
    if id ≠ q.id ∧ RequestId.parse? id.text = some id then
      { w with publisher := w.publisher.publish ⟨id.text, body⟩ }
    else w
  | .record x => if x.mayEnd q.id then w else { w with register := (w.register.take x).2 }
  | .connect text now => w.connect text now
  | .forward k => w.setSocket k fun s => (s.forward? w.publisher).getD s
  | .look k now => w.setSocket k fun s => s.look (w.isFinished s) now
  | .read k frame => w.setSocket k fun s => if s.reads then s.read frame else s
  | .lose k => w.setSocket k fun s => { s with gone := true, reads := false }
  | .leave k => w.leave k

/-- The state after some steps. -/
def run (q : WatchedRequest) (w : Watching) (steps : List Step) : Watching := steps.foldl (step q) w

theorem run_concat (q : WatchedRequest) (w : Watching) (xs : List Step) (x : Step) :
    w.run q (xs ++ [x]) = (w.run q xs).step q x := List.foldl_append

/-! ## What a step does -/

/-- What a step does with the publisher, and how many events of the request are then published. -/
inductive Moves (q : WatchedRequest) (w : Watching) : Publisher → Nat → Prop where
  | tells (e : Event) (he : q.events[w.told]? = some e) : Moves q w (w.publisher.publish e) (w.told + 1)
  | tellsOther (id : RequestId) (body : EventBody) (hne : id ≠ q.id) (hid : RequestId.parse? id.text = some id) :
    Moves q w (w.publisher.publish ⟨id.text, body⟩) w.told
  | listens (text : String) : Moves q w (w.publisher.subscribe text).2 w.told
  | givesUp (s : Socket) (hfinished : w.isFinished s = true) : Moves q w (w.publisher.unregister s.request) w.told
  | rests : Moves q w w.publisher w.told

theorem moves_step (q : WatchedRequest) (w : Watching) (x : Step) :
    Moves q w (w.step q x).publisher (w.step q x).told := by
  cases x with
  | advance now =>
    show Moves q w (w.advance q now).publisher (w.advance q now).told
    unfold advance
    split
    · next e he => exact .tells e he
    · exact .rests
  | publish id body =>
    rw [step]
    split
    · next hother => exact .tellsOther id body hother.1 hother.2
    · exact .rests
  | record x =>
    rw [step]
    split <;> exact .rests
  | connect text now =>
    show Moves q w (w.connect text now).publisher (w.connect text now).told
    unfold connect
    split
    · exact .listens text
    · exact .rests
  | leave k =>
    show Moves q w (w.leave k).publisher (w.leave k).told
    unfold leave
    split
    · exact .rests
    · next v _ =>
      split
      · exact .rests
      · dsimp only
        split
        · next hfinished => exact .givesUp v.socket hfinished
        · exact .rests
  | forward | look | read | lose => exact .rests

/-- The register changes by steps of its own; none of them ends the request before all of it is published. -/
theorem register_step (q : WatchedRequest) (w : Watching) (x : Step) : (w.step q x).register = w.register ∨
    ∃ y, (w.step q x).register = (w.register.take y).2 ∧ (w.told < q.events.length → y.mayEnd q.id = false) := by
  cases x with
  | advance now =>
    show (w.advance q now).register = _ ∨ ∃ y, (w.advance q now).register = _ ∧ _
    unfold advance
    split
    · exact .inl rfl
    · next hnone =>
      exact .inr ⟨_, rfl, fun htold => absurd htold (Nat.not_lt.2 (List.getElem?_eq_none_iff.1 hnone))⟩
  | record y =>
    rw [step]
    split
    · exact .inl rfl
    · next hy => exact .inr ⟨y, rfl, fun _ => Bool.eq_false_iff.2 hy⟩
  | publish id body =>
    rw [step]
    split <;> exact .inl rfl
  | connect text now =>
    show (w.connect text now).register = _ ∨ _
    unfold connect
    split <;> exact .inl rfl
  | leave k =>
    show (w.leave k).register = _ ∨ _
    unfold leave
    split
    · exact .inl rfl
    · split <;> exact .inl rfl
  | forward | look | read | lose => exact .inl rfl

def socket? (w : Watching) (k : Nat) : Option Socket := w.watchers[k]?.map Watcher.socket

theorem socket?_setSocket (w : Watching) (j k : Nat) (f : Socket → Socket) :
    (w.setSocket j f).socket? k = (w.socket? k).map fun s => if j = k then f s else s := by
  unfold socket? setSocket
  rw [List.getElem?_modify]
  cases w.watchers[k]? with
  | none => rfl
  | some v =>
    dsimp only [Functor.map, Option.map_some]
    split <;> rfl

/-- What becomes of the socket of number `k` in a step. -/
def turn (w : Watching) (k : Nat) (s : Socket) : Step → Socket
  | .forward j => if j = k then (s.forward? w.publisher).getD s else s
  | .look j now => if j = k then s.look (w.isFinished s) now else s
  | .read j frame => if j = k then if s.reads then s.read frame else s else s
  | .lose j => if j = k then { s with gone := true, reads := false } else s
  | .advance _ | .publish .. | .record _ | .connect .. | .leave _ => s

theorem socket?_step {q : WatchedRequest} {w : Watching} {k : Nat} {s : Socket} (hs : w.socket? k = some s) (x : Step) :
    (w.step q x).socket? k = some (w.turn k s x) := by
  cases x with
  | advance now =>
    show (w.advance q now).socket? k = some s
    unfold advance
    split <;> exact hs
  | publish id body =>
    rw [step]
    split <;> exact hs
  | record x =>
    rw [step]
    split <;> exact hs
  | connect text now =>
    obtain ⟨v, hv, -⟩ := Option.map_eq_some_iff.1 hs
    have hthere : k < w.watchers.length := (List.getElem?_eq_some_iff.1 hv).1
    show (w.connect text now).socket? k = some s
    unfold connect
    split <;> exact (congrArg (Option.map Watcher.socket) (List.getElem?_append_left hthere)).trans hs
  | leave j =>
    show (w.leave j).socket? k = some s
    unfold leave
    split
    · exact hs
    · split
      · exact hs
      · rw [← hs]
        unfold socket?
        rw [List.getElem?_modify]
        cases w.watchers[k]? with
        | none => rfl
        | some v =>
          dsimp only [Functor.map, Option.map_some]
          split <;> rfl
  | forward | look | read | lose => exact (socket?_setSocket w _ k _).trans (by rw [hs]; rfl)

/-! ## The end is recorded behind the last event -/

/-- The end of the request is recorded only when all of its events were published. -/
structure Sound (q : WatchedRequest) (w : Watching) : Prop where
  channels : w.publisher.InOrder
  register : ∃ past, w.register = Register.after {} past
  told : w.told ≤ q.events.length
  isOpen : w.told < q.events.length → ∃ t, w.register.find? q.id = some t ∧ t.state.isFinished = false

section Sound

variable {q : WatchedRequest} {w : Watching}

theorem sound_new {past : List RegisterStep} {t : TrackedRequest} (ht : (Register.after {} past).find? q.id = some t)
    (hopen : t.state.isFinished = false) : Sound q { register := Register.after {} past } where
  channels := Publisher.inOrder_new
  register := ⟨past, rfl⟩
  told := Nat.zero_le _
  isOpen _ := ⟨t, ht, hopen⟩

theorem Moves.told_le {p : Publisher} {told : Nat} (h : Moves q w p told) : w.told ≤ told := by
  cases h with
  | tells e he => exact Nat.le_succ _
  | tellsOther | listens | givesUp | rests => exact Nat.le_refl _

theorem Moves.inOrder {p : Publisher} {told : Nat} (h : Moves q w p told) (hp : w.publisher.InOrder) : p.InOrder := by
  cases h with
  | tells e he => exact hp.publish e
  | tellsOther id body hne hid => exact hp.publish _
  | listens text => exact hp.subscribe text
  | givesUp s hfinished => exact hp.unregister _
  | rests => exact hp

theorem Sound.step (h : Sound q w) (x : Step) : Sound q (w.step q x) := by
  have hmoves := moves_step q w x
  obtain ⟨past, hpast⟩ := h.register
  refine ⟨hmoves.inOrder h.channels, ?_, ?_, fun htold => ?_⟩
  · rcases register_step q w x with hsame | ⟨y, htaken, -⟩
    · exact ⟨past, hsame.trans hpast⟩
    · exact ⟨past ++ [y], by rw [htaken, hpast, Register.after_concat]⟩
  · generalize (w.step q x).publisher = p, (w.step q x).told = told at hmoves
    cases hmoves with
    | tells e he => exact (List.getElem?_eq_some_iff.1 he).1
    | tellsOther | listens | givesUp | rests => exact h.told
  · have hbefore := Nat.lt_of_le_of_lt hmoves.told_le htold
    obtain ⟨t, ht, hopen⟩ := h.isOpen hbefore
    rcases register_step q w x with hsame | ⟨y, htaken, hy⟩
    · exact ⟨t, by rw [hsame]; exact ht, hopen⟩
    · rw [hpast] at ht htaken
      rw [htaken, ← Register.after_concat]
      exact Register.isOpen_after_concat ht hopen (hy hbefore)

theorem Sound.run (h : Sound q w) (steps : List Step) : Sound q (w.run q steps) := by
  induction steps using List.reverseRecOn with
  | nil => exact h
  | append_singleton xs x ih =>
    rw [run_concat]
    exact ih.step x

/-- Whoever finds that the request has ended comes behind the last event. -/
theorem Sound.told_of_isFinished (h : Sound q w) {s : Socket} (hid : RequestId.parse? s.request = some q.id)
    (hfinished : w.isFinished s = true) : w.told = q.events.length := by
  refine Nat.le_antisymm h.told (Nat.not_lt.1 fun htold => ?_)
  obtain ⟨t, ht, hopen⟩ := h.isOpen htold
  rw [isFinished, Socket.id?, hid, Option.bind_some, ht, Option.all_some, hopen] at hfinished
  cases hfinished

end Sound

/-! ## What waits for a socket -/

/-- The events of the request from number `since` on up to number `told`, for those who listen to the text of its
identifier. -/
def owed (q : WatchedRequest) (text : String) (since told : Nat) : List Event :=
  if text = q.id.text then (q.events.take told).drop since else []

theorem owed_self (q : WatchedRequest) (text : String) (told : Nat) : owed q text told told = [] := by
  rw [owed, List.drop_take_self, ite_self]

theorem owed_succ {q : WatchedRequest} {told : Nat} {e : Event} (he : q.events[told]? = some e) (text : String) :
    owed q text told (told + 1) = if text = q.id.text then [e] else [] := by
  rw [owed, List.take_add_one, he, Option.toList_some, List.drop_left']
  rw [List.length_take]
  exact Nat.min_eq_left (Nat.le_of_lt (List.getElem?_eq_some_iff.1 he).1)

theorem length_owed_le (q : WatchedRequest) (text : String) (since told : Nat) :
    (owed q text since told).length ≤ q.events.length := by
  unfold owed
  split
  · rw [List.length_drop, List.length_take]
    omega
  · exact Nat.zero_le _

theorem owed_append (q : WatchedRequest) (text : String) {since told more : Nat} (hsince : since ≤ told)
    (htold : told ≤ q.events.length) (hmore : told ≤ more) :
    owed q text since told ++ owed q text told more = owed q text since more := by
  unfold owed
  split
  · have hwhole : q.events.take more = q.events.take told ++ (q.events.take more).drop told := by
      have hsplit := List.take_append_drop told (q.events.take more)
      rw [List.take_take, Nat.min_eq_left hmore] at hsplit
      exact hsplit.symm
    have hlength : (q.events.take told).length = told := by rw [List.length_take, Nat.min_eq_left htold]
    rw [hwhole, List.drop_left' hlength, List.drop_append_of_le_length (by omega)]
  · rfl

/-- The channel is given up behind the last event and not before, if it is that of the request; another one can only be
given up when the request has ended. -/
structure EndsWith (q : WatchedRequest) (told : Nat) (text : String) (atEnd : Bool) : Prop where
  ended : atEnd = true → told = q.events.length
  atEnd : text = q.id.text → told = q.events.length → atEnd = true

/-- What a step does to what waits for a socket that does not take anything in it. -/
theorem Moves.awaits {q : WatchedRequest} {w : Watching} {p : Publisher} {told : Nat} (hmoves : Moves q w p told)
    (hw : Sound q w) {text : String} (hid : RequestId.parse? text = some q.id) {sub : Subscription}
    {pending : List Event} {atEnd : Bool} (h : w.publisher.Awaits (some text) sub pending atEnd)
    (hends : EndsWith q w.told text atEnd) :
    ∃ atEnd', p.Awaits (some text) sub (pending ++ owed q text w.told told) atEnd' ∧ EndsWith q told text atEnd' := by
  have hnothing : pending ++ owed q text w.told w.told = pending := by rw [owed_self, List.append_nil]
  cases hmoves with
  | tells e he =>
    obtain ⟨hrequest, hlast⟩ := q.isTerminal_iff he
    have hover : atEnd = false :=
      Bool.eq_false_iff.2 fun hover => Nat.ne_of_lt (List.getElem?_eq_some_iff.1 he).1 (hends.ended hover)
    have hafter := h.publish hw.channels e
    have hconcerns : Publisher.concerns (some text) e = (text == q.id.text) := by
      rw [Publisher.concerns, Option.all_some, hrequest]
    rw [hconcerns, hover, Bool.not_false, Bool.and_true, Bool.false_or, hrequest] at hafter
    refine ⟨e.isTerminal && some text == some q.id.text, ?_, fun hover => ?_, fun htext htold => ?_⟩
    · rw [owed_succ he, ← ite_cond_congr (propext beq_iff_eq)]
      exact hafter
    · exact hlast.1 (Bool.and_eq_true_iff.1 hover).1
    · rw [htext, hlast.2 htold, beq_self_eq_true, Bool.and_self]
  | tellsOther id body hne hother =>
    have htext : text ≠ id.text := by
      rintro rfl
      exact hne (Option.some.inj (hother.symm.trans hid))
    have hafter := h.publish hw.channels ⟨id.text, body⟩
    have hconcerns : Publisher.concerns (some text) ⟨id.text, body⟩ = false := beq_false_of_ne htext
    have hother : (some text == some id.text) = false := beq_false_of_ne fun heq => htext (Option.some.inj heq)
    rw [hconcerns, hother, Bool.false_and, Bool.and_false, Bool.or_false, if_neg Bool.false_ne_true,
      List.append_nil] at hafter
    exact ⟨atEnd, by rw [hnothing]; exact hafter, hends⟩
  | listens text' => exact ⟨atEnd, by rw [hnothing]; exact h.subscribe text', hends⟩
  | givesUp s hfinished =>
    refine ⟨_, by rw [hnothing]; exact h.unregister hw.channels s.request, fun hover => ?_, fun htext htold => ?_⟩
    · rcases Bool.or_eq_true_iff.1 hover with hover | hsame
      · exact hends.ended hover
      · have hrequest : text = s.request := Option.some.inj (beq_iff_eq.1 hsame)
        exact hw.told_of_isFinished (hrequest ▸ hid) hfinished
    · rw [hends.atEnd htext htold, Bool.true_or]
  | rests => exact ⟨atEnd, by rw [hnothing]; exact h, hends⟩

end Watching

end Pseudoscribe
