import Mathlib.Data.List.Induction
import Pseudoscribe.Proofs.Event.Channels

/-!
# Delivery of events

Many listeners come and go, each with what it was given so far.  What is due to one of them depends on the events of its
request alone, and only up to the one with which the channel is given up; in every run each listener that keeps up is
given just that.
-/

namespace Pseudoscribe

/-! ## An audience -/

/-- Someone who listens, and everything that they were given. -/
structure Listener where
  subscription : Subscription
  heard : List (Received Event) := []

/-- The event that a receiver is given, if it is given one. -/
def Received.event? : Received Event → Option Event
  | value e => some e
  | _ => none

namespace Listener

/-- The events among what was heard. -/
def events (l : Listener) : List Event := l.heard.filterMap Received.event?

def receive (p : Publisher) (l : Listener) : Listener where
  subscription := (p.receive l.subscription).2
  heard := l.heard ++ [(p.receive l.subscription).1]

end Listener

namespace Publisher

/-- What a listener was given and what waits for them: together it is all that is due. -/
structure Serves (p : Publisher) (request : Option String) (l : Listener) (due : List Event) (atEnd : Bool) : Prop where
  inOrder : l.events <+: due
  waiting : p.Awaits request l.subscription (due.drop l.events.length) atEnd
  nothingLost : ∀ n, .lagged n ∉ l.heard
  closed : .closed ∈ l.heard → l.events = due ∧ atEnd = true

section Serves

variable {p : Publisher} {request : Option String} {l : Listener} {owed : List Event} {atEnd : Bool}

/-- The publisher goes on, and what was due stays due. -/
theorem Serves.of_awaits (h : p.Serves request l owed atEnd) {p' : Publisher} {more : List Event} {ended : Bool}
    (hawaits : p'.Awaits request l.subscription
      (owed.drop l.events.length ++ if atEnd then [] else more) (atEnd || ended)) :
    p'.Serves request l (owed ++ if atEnd then [] else more) (atEnd || ended) := by
  refine ⟨h.inOrder.trans (List.prefix_append _ _), ?_, h.nothingLost, fun hclosed => ?_⟩
  · rwa [List.drop_append_of_le_length h.inOrder.length_le]
  · obtain ⟨hall, hover⟩ := h.closed hclosed
    rw [hover, if_pos rfl, List.append_nil]
    exact ⟨hall, rfl⟩

/-- A listener who is not too far behind receives. -/
theorem Serves.receive (h : p.Serves request l owed atEnd) (hinTime : owed.length ≤ l.events.length + Channel.capacity) :
    p.Serves request (l.receive p) owed atEnd := by
  obtain ⟨rest, hrest⟩ := h.inOrder
  have hdrop : owed.drop l.events.length = rest := by rw [← hrest, List.drop_left]
  obtain ⟨hanswer, hbehind⟩ := h.waiting.receive (by rw [List.length_drop]; omega)
  have hheard : (l.receive p).heard = l.heard ++ [answerTo rest atEnd] := by
    rw [Listener.receive, hanswer, hdrop]
  have hevents : (l.receive p).events = l.events ++ (answerTo rest atEnd).event?.toList := by
    rw [Listener.events, hheard, List.filterMap_append, ← Listener.events]
    cases hanswer : (answerTo rest atEnd).event? <;> simp [hanswer]
  rw [hdrop] at hbehind
  cases rest with
  | cons e rest =>
    have hevents : (l.receive p).events = l.events ++ [e] := hevents
    refine ⟨⟨rest, ?_⟩, ?_, fun n hn => ?_, fun hclosed => ?_⟩
    · rw [hevents, List.append_assoc]
      exact hrest
    · rw [hevents, ← hrest, List.length_append, ← List.drop_drop, List.drop_left]
      exact hbehind
    · rw [hheard] at hn
      exact h.nothingLost n ((List.mem_append.1 hn).resolve_right (by simp [answerTo]))
    · rw [hheard] at hclosed
      have hearlier := h.closed ((List.mem_append.1 hclosed).resolve_right (by simp [answerTo]))
      rw [← hrest] at hearlier
      exact absurd (List.self_eq_append_right.1 hearlier.1) (List.cons_ne_nil e rest)
  | nil =>
    have hnothing : (answerTo [] atEnd).event? = none := by cases atEnd <;> rfl
    rw [hnothing, Option.toList_none, List.append_nil] at hevents
    rw [List.append_nil] at hrest
    refine ⟨?_, ?_, fun n hn => ?_, fun hclosed => ?_⟩
    · rw [hevents]
      exact h.inOrder
    · rw [hevents, hdrop]
      exact hbehind
    · rw [hheard] at hn
      exact h.nothingLost n ((List.mem_append.1 hn).resolve_right (by cases atEnd <;> simp [answerTo]))
    · rw [hevents]
      rw [hheard] at hclosed
      refine ⟨hrest, ?_⟩
      rcases List.mem_append.1 hclosed with hearlier | hnow
      · exact (h.closed hearlier).2
      · cases atEnd with
        | true => rfl
        | false => simp [answerTo] at hnow

end Serves

end Publisher

/-- A publisher with everyone who listens, in the order in which they came. -/
structure Audience where
  publisher : Publisher := {}
  listeners : List Listener := []

namespace Audience

/-- What can happen to an audience. -/
inductive Step where
  /-- someone comes to listen to a request -/
  | subscribe (request : String)
  | subscribeAll
  | publish (event : Event)
  | unregister (request : String)
  /-- the listener of this number receives -/
  | receive (listener : Nat)

def step (w : Audience) : Step → Audience
  | .subscribe request =>
    { publisher := (w.publisher.subscribe request).2
      listeners := w.listeners ++ [{ subscription := (w.publisher.subscribe request).1 }] }
  | .subscribeAll => { w with listeners := w.listeners ++ [{ subscription := w.publisher.subscribeAll }] }
  | .publish event => { w with publisher := w.publisher.publish event }
  | .unregister request => { w with publisher := w.publisher.unregister request }
  | .receive listener => { w with listeners := w.listeners.modify listener (·.receive w.publisher) }

/-- The audience after some steps. -/
def run (w : Audience) (steps : List Step) : Audience := steps.foldl step w

theorem run_append (w : Audience) (xs ys : List Step) : w.run (xs ++ ys) = (w.run xs).run ys := List.foldl_append

theorem run_cons (w : Audience) (x : Step) (xs : List Step) : w.run (x :: xs) = (w.step x).run xs := rfl

theorem run_concat (w : Audience) (xs : List Step) (x : Step) : w.run (xs ++ [x]) = (w.run xs).step x := by
  rw [run_append]
  rfl

/-! ## What is due to a listener -/

/-- The event that is published in a step. -/
def Step.event? : Step → Option Event
  | publish event => some event
  | subscribe _ | subscribeAll | unregister _ | receive _ => none

/-- With the step the channel of a request is given up. -/
def Step.ends (request : Option String) : Step → Bool
  | publish event => event.isTerminal && request == some event.request
  | unregister r => request == some r
  | subscribe _ | subscribeAll | receive _ => false

/-- The steps up to the one with which the channel of a request is given up. -/
def upToEnd (request : Option String) : List Step → List Step
  | [] => []
  | x :: xs => x :: if x.ends request then [] else upToEnd request xs

/-- The events that are due to someone who listens to a request, or to all. -/
def due (request : Option String) (steps : List Step) : List Event :=
  ((upToEnd request steps).filterMap Step.event?).filter (Publisher.concerns request)

/-- The channel of a request is given up in these steps. -/
def isOver (request : Option String) (steps : List Step) : Bool := steps.any (·.ends request)

theorem upToEnd_concat (request : Option String) (xs : List Step) (x : Step) :
    upToEnd request (xs ++ [x]) = upToEnd request xs ++ if isOver request xs then [] else [x] := by
  induction xs with
  | nil => simp [upToEnd, isOver]
  | cons y ys ih =>
    have hover : isOver request (y :: ys) = (y.ends request || isOver request ys) := List.any_cons
    rw [List.cons_append, upToEnd, upToEnd, ih, hover]
    cases y.ends request <;> rfl

theorem due_concat (request : Option String) (xs : List Step) (x : Step) : due request (xs ++ [x]) =
    due request xs ++ if isOver request xs then [] else (x.event?.filter (Publisher.concerns request)).toList := by
  rw [due, upToEnd_concat, List.filterMap_append, List.filter_append, ← due]
  congr 1
  split
  · rfl
  · cases hx : x.event? with
    | none => simp [hx]
    | some e => cases he : Publisher.concerns request e <;> simp [hx, he, Option.filter]

theorem isOver_concat (request : Option String) (xs : List Step) (x : Step) :
    isOver request (xs ++ [x]) = (isOver request xs || x.ends request) := by
  rw [isOver, List.any_append, List.any_cons, List.any_nil, Bool.or_false, ← isOver]

theorem isOver_none (steps : List Step) : isOver none steps = false := by
  refine List.any_eq_false.2 fun x _ => ?_
  cases x <;> simp [Step.ends]

/-- All that is published is due to someone who listens to all requests. -/
theorem due_none (steps : List Step) : due none steps = steps.filterMap Step.event? := by
  induction steps using List.reverseRecOn with
  | nil => rfl
  | append_singleton xs x ih =>
    rw [due_concat, ih, isOver_none, if_neg Bool.false_ne_true, List.filterMap_append]
    cases hx : x.event? with
    | none => simp [hx]
    | some e => simp [hx, Publisher.concerns]

/-! ## Every listener is served -/

/-- The listener is never behind by more events than a channel keeps. -/
def InTime (w : Audience) (i : Nat) (request : Option String) (steps : List Step) : Prop :=
  ∀ xs, xs <+: steps → ∀ l, (w.run xs).listeners[i]? = some l →
    (due request xs).length ≤ l.events.length + Channel.capacity

theorem inOrder_step {w : Audience} (h : w.publisher.InOrder) (x : Step) : (w.step x).publisher.InOrder := by
  cases x with
  | subscribe request => exact h.subscribe request
  | publish event => exact h.publish event
  | unregister request => exact h.unregister request
  | subscribeAll | receive => exact h

theorem inOrder_run {w : Audience} (h : w.publisher.InOrder) (steps : List Step) : (w.run steps).publisher.InOrder := by
  induction steps using List.reverseRecOn with
  | nil => exact h
  | append_singleton xs x ih =>
    rw [run_concat]
    exact inOrder_step ih x

/-- What is due grows. -/
theorem due_mono {request : Option String} {xs ys : List Step} (h : xs <+: ys) : due request xs <+: due request ys := by
  obtain ⟨zs, rfl⟩ := h
  induction zs using List.reverseRecOn with
  | nil => exact ⟨[], by rw [List.append_nil, List.append_nil]⟩
  | append_singleton zs z ih =>
    rw [← List.append_assoc, due_concat]
    exact ih.trans (List.prefix_append _ _)

/-- Nobody is too far behind if a channel can keep all that is due. -/
theorem inTime_of_length_le {w : Audience} {request : Option String} {steps : List Step}
    (h : (due request steps).length ≤ Channel.capacity) (i : Nat) : w.InTime i request steps :=
  fun _ hxs _ _ => Nat.le_add_left_of_le (Nat.le_trans (due_mono hxs).length_le h)

/-- What a step does to what waits for a listener who does not receive in it. -/
theorem awaits_step {w : Audience} {request : Option String} {s : Subscription} {pending : List Event} {atEnd : Bool}
    (h : w.publisher.Awaits request s pending atEnd) (hp : w.publisher.InOrder) (x : Step) :
    (w.step x).publisher.Awaits request s
      (pending ++ if atEnd then [] else (x.event?.filter (Publisher.concerns request)).toList)
      (atEnd || x.ends request) := by
  have hnothing : pending ++ (if atEnd then [] else []) = pending := by rw [ite_self, List.append_nil]
  cases x with
  | subscribe r =>
    rw [Step.ends, Bool.or_false]
    exact hnothing.symm ▸ h.subscribe r
  | unregister r => exact hnothing.symm ▸ h.unregister hp r
  | publish e =>
    have hkept := h.publish hp e
    have hmore : (if Publisher.concerns request e && !atEnd then [e] else []) =
        if atEnd then [] else ((some e).filter (Publisher.concerns request)).toList := by
      cases atEnd <;> cases hconcerns : Publisher.concerns request e <;> simp [hconcerns, Option.filter]
    rwa [hmore] at hkept
  | subscribeAll | receive =>
    rw [Step.ends, Bool.or_false]
    exact hnothing.symm ▸ h

/-- What one step does to a listener who is served. -/
theorem serves_step {w : Audience} {request : Option String} {i : Nat} {l : Listener} {xs : List Step}
    (h : w.publisher.Serves request l (due request xs) (isOver request xs)) (hp : w.publisher.InOrder)
    (hl : w.listeners[i]? = some l) (hinTime : (due request xs).length ≤ l.events.length + Channel.capacity)
    (x : Step) : ∃ l', (w.step x).listeners[i]? = some l' ∧
      (w.step x).publisher.Serves request l' (due request (xs ++ [x])) (isOver request (xs ++ [x])) := by
  have hi : i < w.listeners.length := (List.getElem?_eq_some_iff.1 hl).1
  have hafter := h.of_awaits (awaits_step h.waiting hp x)
  rw [← due_concat, ← isOver_concat] at hafter
  cases x with
  | subscribe | subscribeAll => exact ⟨l, (List.getElem?_append_left hi).trans hl, hafter⟩
  | publish | unregister => exact ⟨l, hl, hafter⟩
  | receive j =>
    have hmodify : (w.listeners.modify j (·.receive w.publisher))[i]? =
        some (if j = i then l.receive w.publisher else l) := by rw [List.getElem?_modify, hl]; rfl
    refine ⟨_, hmodify, ?_⟩
    split
    · rw [due_concat, isOver_concat, Step.ends, Bool.or_false, Step.event?, Option.filter_none, Option.toList_none,
        ite_self, List.append_nil]
      exact h.receive hinTime
    · exact hafter

/-- A listener who is never too far behind is served in every run. -/
theorem serves_run {w : Audience} {request : Option String} {i : Nat} {l : Listener} {steps : List Step}
    (hp : w.publisher.InOrder) (hl : w.listeners[i]? = some l) (hnew : l.heard = [])
    (hawaits : w.publisher.Awaits request l.subscription [] false) (hinTime : w.InTime i request steps) :
    ∃ l', (w.run steps).listeners[i]? = some l' ∧
      (w.run steps).publisher.Serves request l' (due request steps) (isOver request steps) := by
  induction steps using List.reverseRecOn with
  | nil =>
    have hevents : l.events = [] := by rw [Listener.events, hnew, List.filterMap_nil]
    refine ⟨l, hl, ⟨by rw [hevents]; exact List.nil_prefix, ?_, fun n hn => ?_, fun hclosed => ?_⟩⟩
    · rw [hevents]
      exact hawaits
    · rw [hnew] at hn
      cases hn
    · rw [hnew] at hclosed
      cases hclosed
  | append_singleton xs x ih =>
    obtain ⟨l', hl', hserves⟩ := ih fun ys hys => hinTime ys (hys.trans (List.prefix_append xs [x]))
    rw [run_concat]
    exact serves_step hserves (inOrder_run hp xs) hl' (hinTime xs (List.prefix_append xs [x]) l' hl') x

/-- A request without a channel gets one only if someone comes to listen to it. -/
theorem lookup_run_eq_none {w : Audience} {r : String} {steps : List Step} (h : w.publisher.active.lookup r = none)
    (hsteps : ∀ x ∈ steps, x ≠ .subscribe r) : (w.run steps).publisher.active.lookup r = none := by
  induction steps using List.reverseRecOn with
  | nil => exact h
  | append_singleton xs x ih =>
    have hbefore := ih fun y hy => hsteps y (List.mem_append_left _ hy)
    have hx := hsteps x (List.mem_append_right _ (List.mem_singleton.2 rfl))
    rw [run_concat]
    cases x with
    | subscribe r' =>
      have hr : ¬ r = r' := fun heq => hx (by rw [heq])
      exact (Publisher.lookup_subscribe _ r' r).trans (by rw [hbefore, if_neg hr, Option.none_or])
    | publish e =>
      refine (congrArg (List.lookup r ·.active) (Publisher.publish_eq _ e)).trans ?_
      split
      · rw [Publisher.lookup_unregister]
        split
        · rfl
        · exact hbefore
      · exact hbefore
    | unregister r' =>
      refine (Publisher.lookup_unregister _ r' r).trans ?_
      split
      · rfl
      · exact hbefore
    | subscribeAll | receive => exact hbefore

/-- What a listener was given, told without the publisher's books: what is due to them in order, nothing else, and the
word that there is no more only behind all of it.  Now they would be given the next event that is due, or that word if the
channel was given up. -/
structure Given (w : Audience) (l : Listener) (due : List Event) (atEnd : Bool) : Prop where
  inOrder : l.events <+: due
  nothingLost : ∀ n, .lagged n ∉ l.heard
  closed : .closed ∈ l.heard → l.events = due ∧ atEnd = true
  next : (w.publisher.receive l.subscription).1 = Publisher.answerTo (due.drop l.events.length) atEnd

/-- Someone comes to listen to a request, or to all. -/
def Step.comes : Option String → Step
  | some request => subscribe request
  | none => subscribeAll

/-- Someone who has just come, and for whom nothing waits. -/
theorem exists_listener_comes {w : Audience} (hp : w.publisher.InOrder) (request : Option String) :
    ∃ l, (w.step (.comes request)).listeners[w.listeners.length]? = some l ∧ l.heard = [] ∧
      (w.step (.comes request)).publisher.Awaits request l.subscription [] false := by
  cases request with
  | some r => exact ⟨_, List.getElem?_concat_length, rfl, Publisher.awaits_subscribe hp r⟩
  | none => exact ⟨_, List.getElem?_concat_length, rfl, Publisher.awaits_subscribeAll hp⟩

/-- Delivery of events.  In every sequence of steps, someone who listens to a request and is never behind by more than a
channel keeps is given the events of this request that are published after they came, up to the first one that ends it or
to where its channel is given up, in order and no others, and then that there is no more.  To someone who listens to all
requests all events are due, and there may always be more.  Behind an event that ends a request there is no channel for it
until someone comes to listen to it again. -/
theorem delivered_in_order (before after : List Step) (w : Audience) (hw : w = ({} : Audience).run before) :
    (∀ request, (w.step (.comes request)).InTime w.listeners.length request after →
      ∃ l, ((w.step (.comes request)).run after).listeners[w.listeners.length]? = some l ∧
        ((w.step (.comes request)).run after).Given l (due request after) (isOver request after)) ∧
    (due none after = after.filterMap Step.event? ∧ isOver none after = false) ∧
    ∀ e : Event, e.isTerminal = true → (∀ x ∈ after, x ≠ .subscribe e.request) →
      ((w.step (.publish e)).run after).publisher.active.lookup e.request = none := by
  have hp : w.publisher.InOrder := hw ▸ inOrder_run Publisher.inOrder_new before
  refine ⟨fun request hinTime => ?_, ⟨due_none after, isOver_none after⟩, fun e hlast hafter => ?_⟩
  · obtain ⟨l₀, hl₀, hnew, hawaits⟩ := exists_listener_comes hp request
    obtain ⟨l, hl, hserves⟩ := serves_run (inOrder_step hp (.comes request)) hl₀ hnew hawaits hinTime
    have hbehind := hinTime after (List.prefix_refl after) l hl
    refine ⟨l, hl, hserves.inOrder, hserves.nothingLost, hserves.closed, ?_⟩
    exact (hserves.waiting.receive (by rw [List.length_drop]; omega)).1
  · refine lookup_run_eq_none ?_ hafter
    refine (congrArg (List.lookup e.request ·.active) (Publisher.publish_eq w.publisher e)).trans ?_
    rw [hlast, if_pos rfl, Publisher.lookup_unregister, if_pos rfl]

/-! ### A request that is listened to twice -/

/-- A request ends before anything happens to it; one listener was there. -/
def endedOnce : List Step := [.subscribe "a", .publish ⟨"a", .failed "early"⟩]

/-- It ends again, while another request goes on. -/
def endsAgain : List Step :=
  [.publish ⟨"b", .started 1⟩, .publish ⟨"a", .started 1⟩, .receive 1, .publish ⟨"a", .failed "late"⟩,
    .publish ⟨"a", .started 2⟩, .receive 1, .receive 1]

/-- The second listener has a channel of its own, and is given what is published from then on up to the second end. -/
theorem delivered_to_second_listener : ∃ w l, w = ({} : Audience).run (endedOnce ++ .subscribe "a" :: endsAgain) ∧
    w.listeners[1]? = some l ∧ w.Given l [⟨"a", .started 1⟩, ⟨"a", .failed "late"⟩] true ∧
    l.heard = [.value ⟨"a", .started 1⟩, .value ⟨"a", .failed "late"⟩, .closed] ∧
    ((({} : Audience).run endedOnce).step (.publish ⟨"a", .failed "late"⟩)).publisher.active.lookup "a" = none := by
  obtain ⟨hgiven, -, -⟩ := delivered_in_order endedOnce endsAgain _ rfl
  obtain ⟨-, -, hgone⟩ := delivered_in_order endedOnce [] _ rfl
  have hinTime : (due (some "a") endsAgain).length ≤ Channel.capacity := by decide +kernel
  have hseat : (({} : Audience).run endedOnce).listeners.length = 1 := by decide +kernel
  have hdue : due (some "a") endsAgain = [⟨"a", .started 1⟩, ⟨"a", .failed "late"⟩] := by decide +kernel
  have hover : isOver (some "a") endsAgain = true := by decide +kernel
  have hheard : ((({} : Audience).run (endedOnce ++ .subscribe "a" :: endsAgain)).listeners[1]?.map Listener.heard) =
      some [.value ⟨"a", .started 1⟩, .value ⟨"a", .failed "late"⟩, .closed] := by decide +kernel
  obtain ⟨l, hl, hgiven⟩ := hgiven (some "a") (inTime_of_length_le hinTime _)
  have hrun : ({} : Audience).run (endedOnce ++ .subscribe "a" :: endsAgain) =
      ((({} : Audience).run endedOnce).step (.comes (some "a"))).run endsAgain := by rw [run_append, run_cons, Step.comes]
  rw [hseat, ← hrun] at hl
  rw [hdue, hover, ← hrun] at hgiven
  refine ⟨_, l, rfl, hl, hgiven, ?_, hgone ⟨"a", .failed "late"⟩ rfl fun x hx => by cases hx⟩
  exact Option.some.inj ((congrArg (Option.map Listener.heard) hl).symm.trans hheard)

end Audience

end Pseudoscribe
