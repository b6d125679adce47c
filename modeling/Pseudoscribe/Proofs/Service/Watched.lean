import Pseudoscribe.Proofs.Service.Watching

/-!
# What a client that watches a request is sent

A client that comes before the last event, stays and keeps up is sent the events of the request in their order.  When its
socket is closed, the request has ended.  All events were then sent, the last one included, exactly if the client wrote
the identifier in its written form and no look shut the socket while an event still waited for it.
-/

namespace Pseudoscribe

/-! ## What was sent -/

/-- The event in a frame, if there is one. -/
def SocketFrame.event? : SocketFrame → Option Event
  | event e => some e
  | pong | close | finish => none

namespace Socket

/-- The events that a client is sent up to where the socket is closed. -/
def sent (s : Socket) : List Event := (s.outbox.takeWhile (· != .close)).filterMap SocketFrame.event?

/-- A frame is sent; behind the end it does not count. -/
def send (s : Socket) (frame : SocketFrame) : Socket := { s with outbox := s.outbox ++ [frame] }

theorem sent_send (s : Socket) (frame : SocketFrame) :
    (s.send frame).sent = s.sent ++ if .close ∈ s.outbox then [] else frame.event?.toList := by
  unfold sent send
  dsimp only
  induction s.outbox with
  | nil => cases frame <;> rfl
  | cons first rest ih =>
    rw [List.cons_append]
    by_cases hfirst : first = .close
    · rw [hfirst, if_pos List.mem_cons_self, List.append_nil]
      rfl
    · have hgoes (frames : List SocketFrame) :
          (first :: frames).takeWhile (· != .close) = first :: frames.takeWhile (· != .close) :=
        List.takeWhile_cons_of_pos (bne_iff_ne.2 hfirst)
      have hmem : SocketFrame.close ∈ first :: rest ↔ .close ∈ rest :=
        List.mem_cons.trans (or_iff_right (Ne.symm hfirst))
      rw [hgoes, hgoes, if_congr hmem rfl rfl]
      cases hevent : first.event? with
      | none => rw [List.filterMap_cons_none hevent, List.filterMap_cons_none hevent, ih]
      | some e => rw [List.filterMap_cons_some hevent, List.filterMap_cons_some hevent, ih, List.cons_append]

theorem close_mem_send (s : Socket) {frame : SocketFrame} (hframe : frame ≠ .close) :
    .close ∈ (s.send frame).outbox ↔ .close ∈ s.outbox :=
  List.mem_append.trans (or_iff_left fun hmem => hframe (List.mem_singleton.1 hmem).symm)

theorem close_mem_hangUp (s : Socket) : .close ∈ s.hangUp.outbox := List.mem_append_right _ (List.mem_singleton.2 rfl)

theorem sent_hangUp {s : Socket} (hopen : .close ∉ s.outbox) : s.hangUp.sent = s.sent := by
  have hsent := s.sent_send .close
  rw [if_neg hopen] at hsent
  exact hsent.trans (List.append_nil _)

/-- What an open socket of a client that stays makes of what it is given. -/
theorem forward?_of_open (p : Publisher) {s : Socket} (hforwards : s.forwards = true) (hleaving : s.leaving = false)
    (hgone : s.gone = false) : s.forward? p =
      let s' := { s with subscription := (p.receive s.subscription).2 }
      match (p.receive s.subscription).1 with
      | .empty => none
      | .closed => some s'.hangUp
      | .lagged _ => some s'
      | .value e => some (s'.send (.event e)) := by
  unfold forward?
  rw [hforwards]
  cases hreceived : (p.receive s.subscription).1 <;> simp [hreceived, hleaving, hgone, send]

/-- The socket is shut in a turn although an event waits for it. -/
def ShutsEarly (p : Publisher) (s s' : Socket) : Prop :=
  .close ∉ s.outbox ∧ .close ∈ s'.outbox ∧ ∃ e, (p.receive s.subscription).1 = .value e

end Socket

namespace Watching

/-! ## One client -/

/-- A client that watches the request since some of its events were published, with what it was sent and what waits for
it; `early` tells whether its socket was shut early. -/
structure Follows (q : WatchedRequest) (p : Publisher) (told : Nat) (text : String) (since : Nat) (s : Socket)
    (early : Prop) (pending : List Event) (atEnd : Bool) : Prop where
  request : s.request = text
  stays : s.leaving = false ∧ s.gone = false
  since_le : since ≤ told
  awaits : p.Awaits (some text) s.subscription pending atEnd
  ends : EndsWith q told text atEnd
  account : s.sent ++ pending = owed q text since told
  shut : .close ∈ s.outbox ↔ s.forwards = false
  ended : .close ∈ s.outbox → told = q.events.length
  early_iff : early ↔ .close ∈ s.outbox ∧ pending ≠ []

section Follows

variable {q : WatchedRequest} {p : Publisher} {told : Nat} {text : String} {since : Nat} {s : Socket} {early : Prop}
  {pending : List Event} {atEnd : Bool}

/-- The publisher goes on. -/
theorem Follows.moves {w : Watching} (h : Follows q w.publisher w.told text since s early pending atEnd)
    (hw : Sound q w) (hid : RequestId.parse? text = some q.id) (hmoves : Moves q w p told) :
    ∃ pending' atEnd', Follows q p told text since s early pending' atEnd' := by
  obtain ⟨atEnd', hawaits, hends⟩ := hmoves.awaits hw hid h.awaits h.ends
  -- behind the end nothing is told any more
  have hsame (hshut : .close ∈ s.outbox) : told = w.told := by
    cases hmoves with
    | tells e he => exact absurd (h.ended hshut) (Nat.ne_of_lt (List.getElem?_eq_some_iff.1 he).1)
    | tellsOther | listens | givesUp | rests => rfl
  refine ⟨_, atEnd', h.request, h.stays, Nat.le_trans h.since_le hmoves.told_le, hawaits, hends, ?_, h.shut,
    fun hshut => (hsame hshut).trans (h.ended hshut), ?_⟩
  · rw [← List.append_assoc, h.account, owed_append q text h.since_le hw.told hmoves.told_le]
  · rw [h.early_iff]
    refine and_congr_right fun hshut => ?_
    rw [hsame hshut, owed_self, List.append_nil]

theorem Follows.not_early (h : Follows q p told text since s early pending atEnd) (hopen : .close ∉ s.outbox) :
    ¬early := fun hearly => hopen (h.early_iff.1 hearly).1

/-- What the socket is given next, if it keeps up. -/
theorem Follows.receive (h : Follows q p told text since s early pending atEnd)
    (hinTime : ∀ n, (p.receive s.subscription).1 ≠ .lagged n) :
    (p.receive s.subscription).1 = Publisher.answerTo pending atEnd ∧
      p.Awaits (some text) (p.receive s.subscription).2 pending.tail atEnd :=
  h.awaits.receive (h.awaits.length_le hinTime)

theorem Follows.shutsEarly_iff (h : Follows q p told text since s early pending atEnd) {s' : Socket}
    (hinTime : .close ∉ s.outbox → ∀ n, (p.receive s.subscription).1 ≠ .lagged n) :
    s.ShutsEarly p s' ↔ .close ∉ s.outbox ∧ .close ∈ s'.outbox ∧ pending ≠ [] := by
  refine and_congr_right fun hopen => and_congr_right fun _ => ?_
  rw [(h.receive (hinTime hopen)).1]
  cases pending with
  | nil => cases atEnd <;> simp [Publisher.answerTo]
  | cons e rest => simp [Publisher.answerTo]

/-- The socket is shut when the request has ended. -/
theorem Follows.hangUp (h : Follows q p told text since s early pending atEnd) (hopen : .close ∉ s.outbox)
    (hended : told = q.events.length) {early' : Prop} (hearly : early' ↔ pending ≠ []) :
    Follows q p told text since s.hangUp early' pending atEnd := by
  have haccount : s.hangUp.sent ++ pending = owed q text since told := by rw [Socket.sent_hangUp hopen, h.account]
  exact ⟨h.request, h.stays, h.since_le, h.awaits, h.ends, haccount, iff_of_true s.close_mem_hangUp rfl, fun _ => hended,
    by rw [hearly, and_iff_right s.close_mem_hangUp]⟩

/-- A frame is sent, and with it the event that waited first if the frame carries one. -/
theorem Follows.send (h : Follows q p told text since s early pending atEnd) {frame : SocketFrame}
    (hframe : frame ≠ .close) {rest : List Event} {sub : Subscription} (hawaits : p.Awaits (some text) sub rest atEnd)
    (hpending : pending = (if .close ∈ s.outbox then [] else frame.event?.toList) ++ rest) :
    Follows q p told text since ({ s with subscription := sub }.send frame) early rest atEnd := by
  have hclose := s.close_mem_send hframe
  have haccount : (s.send frame).sent ++ rest = owed q text since told := by
    rw [Socket.sent_send, List.append_assoc, ← hpending, h.account]
  refine ⟨h.request, h.stays, h.since_le, hawaits, h.ends, haccount, hclose.trans h.shut,
    fun hmem => h.ended (hclose.1 hmem), ?_⟩
  rw [h.early_iff]
  refine (and_congr_right fun hshut => ?_).trans (and_congr_left' hclose.symm)
  rw [hpending, if_pos hshut, List.nil_append]

/-- The turn shuts nothing. -/
theorem Follows.or_shutsEarly (h : Follows q p told text since s early pending atEnd) {p' : Publisher} {s' : Socket}
    (hsame : .close ∈ s.outbox → .close ∈ s'.outbox) :
    Follows q p told text since s (early ∨ s'.ShutsEarly p' s) pending atEnd := by
  have hnot : ¬s'.ShutsEarly p' s := fun hshuts => hshuts.1 (hsame hshuts.2.1)
  rwa [or_iff_left hnot]

/-- What an open socket makes of its turn at the channel. -/
theorem Follows.getD_forward? (h : Follows q p told text since s early pending atEnd) (hopen : .close ∉ s.outbox)
    (hinTime : ∀ n, (p.receive s.subscription).1 ≠ .lagged n) : (s.forward? p).getD s =
      let s' := { s with subscription := (p.receive s.subscription).2 }
      match pending with
      | e :: _ => s'.send (.event e)
      | [] => if atEnd then s'.hangUp else s := by
  have hforwards : s.forwards = true := eq_true_of_ne_false fun hfalse => hopen (h.shut.2 hfalse)
  rw [Socket.forward?_of_open p hforwards h.stays.1 h.stays.2, (h.receive hinTime).1]
  cases pending with
  | cons e rest => rfl
  | nil => cases atEnd <;> rfl

theorem Follows.forward (h : Follows q p told text since s early pending atEnd)
    (hinTime : .close ∉ s.outbox → ∀ n, (p.receive s.subscription).1 ≠ .lagged n) : ∃ pending',
      Follows q p told text since ((s.forward? p).getD s)
        (early ∨ s.ShutsEarly p ((s.forward? p).getD s)) pending' atEnd := by
  by_cases hopen : .close ∈ s.outbox
  · have hnothing : s.forward? p = none := by
      rw [Socket.forward?, h.shut.1 hopen]
      rfl
    rw [hnothing]
    exact ⟨pending, h.or_shutsEarly id⟩
  have hbehind := (h.receive (hinTime hopen)).2
  rw [h.getD_forward? hopen (hinTime hopen)]
  cases pending with
  | cons e rest =>
    have hgiven : Follows q p told text since
        ({ s with subscription := (p.receive s.subscription).2 }.send (.event e)) early rest atEnd :=
      h.send SocketFrame.noConfusion hbehind (by rw [if_neg hopen]; rfl)
    exact ⟨rest, hgiven.or_shutsEarly (s.close_mem_send SocketFrame.noConfusion).1⟩
  | nil =>
    cases atEnd with
    | true =>
      have hmoved : Follows q p told text since { s with subscription := (p.receive s.subscription).2 } early [] true :=
        { h with awaits := hbehind }
      refine ⟨[], hmoved.hangUp hopen (h.ends.ended rfl) ?_⟩
      rw [or_iff_right (h.not_early hopen), h.shutsEarly_iff hinTime]
      simp
    | false => exact ⟨[], h.or_shutsEarly id⟩

theorem Follows.look (h : Follows q p told text since s early pending atEnd)
    (hinTime : .close ∉ s.outbox → ∀ n, (p.receive s.subscription).1 ≠ .lagged n) {finished : Bool}
    (hended : finished = true → told = q.events.length) (now : Nat) :
    Follows q p told text since (s.look finished now) (early ∨ s.ShutsEarly p (s.look finished now)) pending atEnd := by
  unfold Socket.look
  split
  · next hdue =>
    simp only [Bool.and_eq_true] at hdue
    have hopen : .close ∉ s.outbox := fun hshut => by rw [h.shut.1 hshut] at hdue; cases hdue.1.1
    refine h.hangUp hopen (hended hdue.1.2) ?_
    rw [or_iff_right (h.not_early hopen), h.shutsEarly_iff hinTime, and_iff_right hopen,
      and_iff_right s.close_mem_hangUp]
  · exact h.or_shutsEarly id

theorem Follows.read (h : Follows q p told text since s early pending atEnd) {frame : ClientFrame}
    (hframe : frame ≠ .close) :
    Follows q p told text since (s.read frame) (early ∨ s.ShutsEarly p (s.read frame)) pending atEnd := by
  cases frame with
  | text => exact h.or_shutsEarly id
  | close => exact absurd rfl hframe
  | garbage =>
    have hdeaf : Follows q p told text since { s with reads := false } early pending atEnd := { h with }
    exact hdeaf.or_shutsEarly id
  | ping =>
    have hanswered : Follows q p told text since (s.send .pong) early pending atEnd :=
      h.send SocketFrame.noConfusion h.awaits (by rw [SocketFrame.event?, Option.toList_none, ite_self, List.nil_append])
    exact hanswered.or_shutsEarly (s.close_mem_send SocketFrame.noConfusion).1

/-- All was sent when nothing waits and nothing more will come. -/
theorem Follows.all_sent_iff (h : Follows q p told text since s early pending atEnd) (htext : text = q.id.text)
    (hsince : since < q.events.length) (htold : told ≤ q.events.length) :
    pending = [] ∧ atEnd = true ↔ s.sent = q.events.drop since := by
  have haccount := h.account
  rw [owed, if_pos htext] at haccount
  constructor
  · rintro ⟨rfl, hatEnd⟩
    rw [List.append_nil, h.ends.ended hatEnd, List.take_length] at haccount
    exact haccount
  · intro hall
    have hlength := congrArg List.length haccount
    rw [hall, List.length_append, List.length_drop, List.length_drop, List.length_take] at hlength
    have hnothing : pending.length = 0 := by omega
    have hended : told = q.events.length := by omega
    exact ⟨List.eq_nil_of_length_eq_zero hnothing, h.ends.atEnd htext hended⟩

/-- The next turn sends what waits first, and closes the socket at the end. -/
theorem Follows.next_turn (h : Follows q p told text since s early pending atEnd) (hopen : .close ∉ s.outbox)
    (hinTime : ∀ n, (p.receive s.subscription).1 ≠ .lagged n) :
    ((s.forward? p).getD s).sent = s.sent ++ pending.take 1 ∧
      (.close ∈ ((s.forward? p).getD s).outbox ↔ pending = [] ∧ atEnd = true) := by
  rw [h.getD_forward? hopen hinTime]
  cases pending with
  | cons e rest =>
    constructor
    · refine (Socket.sent_send _ (.event e)).trans ?_
      rw [if_neg hopen]
      rfl
    · refine (Socket.close_mem_send _ SocketFrame.noConfusion).trans (iff_of_false hopen ?_)
      exact fun hnot => List.cons_ne_nil e rest hnot.1
  | nil =>
    cases atEnd with
    | true =>
      constructor
      · exact (Socket.sent_hangUp hopen).trans (List.append_nil s.sent).symm
      · exact iff_of_true (Socket.close_mem_hangUp _) ⟨rfl, rfl⟩
    | false =>
      constructor
      · exact (List.append_nil s.sent).symm
      · exact iff_of_false hopen fun hnot => Bool.noConfusion hnot.2

/-- What the turn of a step makes of the socket of a client that stays. -/
theorem Follows.turn {w : Watching} (h : Follows q w.publisher w.told text since s early pending atEnd)
    (hw : Sound q w) (hid : RequestId.parse? text = some q.id)
    (hinTime : .close ∉ s.outbox → ∀ n, (w.publisher.receive s.subscription).1 ≠ .lagged n) {k : Nat} {x : Step}
    (hx : x ≠ .read k .close ∧ x ≠ .lose k) : ∃ pending', Follows q w.publisher w.told text since (w.turn k s x)
      (early ∨ s.ShutsEarly w.publisher (w.turn k s x)) pending' atEnd := by
  have hrests : ∃ pending', Follows q w.publisher w.told text since s (early ∨ s.ShutsEarly w.publisher s) pending'
    atEnd := ⟨pending, h.or_shutsEarly id⟩
  cases x with
  | forward j =>
    rw [Watching.turn]
    split
    · exact h.forward hinTime
    · exact hrests
  | look j now =>
    have hended (hfinished : w.isFinished s = true) : w.told = q.events.length :=
      hw.told_of_isFinished (h.request ▸ hid) hfinished
    rw [Watching.turn]
    split
    · exact ⟨pending, h.look hinTime hended now⟩
    · exact hrests
  | read j frame =>
    rw [Watching.turn]
    split
    · next hj =>
      have hframe : frame ≠ .close := fun hclose => hx.1 (by rw [hj, hclose])
      split
      · exact ⟨pending, h.read hframe⟩
      · exact hrests
    · exact hrests
  | lose j =>
    have hj : j ≠ k := fun hj => hx.2 (by rw [hj])
    rw [Watching.turn, if_neg hj]
    exact hrests
  | advance | publish | record | connect | leave => exact hrests

end Follows

/-! ## Every client in every run -/

/-- In a step the socket of number `k` is shut although an event waits for it. -/
def ShutsEarly (q : WatchedRequest) (w : Watching) (k : Nat) (x : Step) : Prop :=
  ∃ s s', w.socket? k = some s ∧ (w.step q x).socket? k = some s' ∧ s.ShutsEarly w.publisher s'

/-- So it is in one of the steps. -/
def ShutEarly (q : WatchedRequest) (w : Watching) (k : Nat) (steps : List Step) : Prop :=
  ∃ xs x, xs ++ [x] <+: steps ∧ (w.run q xs).ShutsEarly q k x

/-- The socket of number `k` never misses an event while it is open. -/
def InTime (q : WatchedRequest) (w : Watching) (k : Nat) (steps : List Step) : Prop :=
  ∀ xs, xs <+: steps → ∀ s, (w.run q xs).socket? k = some s → .close ∉ s.outbox →
    ∀ n, ((w.run q xs).publisher.receive s.subscription).1 ≠ .lagged n

section Runs

variable {q : WatchedRequest} {w : Watching} {text : String} {since k : Nat} {s : Socket}

theorem shutsEarly_iff (hs : w.socket? k = some s) (x : Step) :
    w.ShutsEarly q k x ↔ s.ShutsEarly w.publisher (w.turn k s x) := by
  constructor
  · rintro ⟨s₁, s₂, hs₁, hs₂, hearly⟩
    obtain rfl := Option.some.inj (hs.symm.trans hs₁)
    obtain rfl := Option.some.inj ((socket?_step hs x).symm.trans hs₂)
    exact hearly
  · exact fun hearly => ⟨s, _, hs, socket?_step hs x, hearly⟩

theorem shutEarly_concat (q : WatchedRequest) (w : Watching) (k : Nat) (xs : List Step) (x : Step) :
    w.ShutEarly q k (xs ++ [x]) ↔ w.ShutEarly q k xs ∨ (w.run q xs).ShutsEarly q k x := by
  constructor
  · rintro ⟨ys, y, hpre, hearly⟩
    rcases List.prefix_concat_iff.1 hpre with heq | hpre
    · obtain ⟨rfl, hxy⟩ := List.append_inj' heq rfl
      obtain rfl := List.singleton_inj.1 hxy
      exact .inr hearly
    · exact .inl ⟨ys, y, hpre, hearly⟩
  · rintro (⟨ys, y, hpre, hearly⟩ | hearly)
    · exact ⟨ys, y, hpre.trans (List.prefix_append xs [x]), hearly⟩
    · exact ⟨xs, x, List.prefix_refl _, hearly⟩

/-- A client that stays and keeps up is followed through every run. -/
theorem follows_run {steps : List Step} (hw : Sound q w) (hid : RequestId.parse? text = some q.id)
    (hs : w.socket? k = some s) (h : Follows q w.publisher w.told text since s False [] false)
    (hstays : ∀ x ∈ steps, x ≠ .read k .close ∧ x ≠ .lose k)
    (hinTime : ∀ xs, xs <+: steps → ∀ s' early pending atEnd, (w.run q xs).socket? k = some s' →
      Follows q (w.run q xs).publisher (w.run q xs).told text since s' early pending atEnd → .close ∉ s'.outbox →
        ∀ n, ((w.run q xs).publisher.receive s'.subscription).1 ≠ .lagged n) :
    ∃ s' pending atEnd, (w.run q steps).socket? k = some s' ∧ Follows q (w.run q steps).publisher
      (w.run q steps).told text since s' (w.ShutEarly q k steps) pending atEnd := by
  induction steps using List.reverseRecOn with
  | nil =>
    have hnever : w.ShutEarly q k [] ↔ False := by
      refine iff_false_intro ?_
      rintro ⟨xs, x, hpre, -⟩
      cases xs <;> cases List.prefix_nil.1 hpre
    exact ⟨s, [], false, hs, by rw [hnever]; exact h⟩
  | append_singleton xs x ih =>
    have hpre := List.prefix_append xs [x]
    obtain ⟨s', pending, atEnd, hs', hfollows⟩ := ih (fun y hy => hstays y (List.mem_append_left _ hy))
      fun ys hys => hinTime ys (hys.trans hpre)
    have hreached := hw.run xs
    obtain ⟨pending', hturned⟩ := hfollows.turn hreached hid (hinTime xs hpre s' _ _ _ hs' hfollows)
      (hstays x (List.mem_append_right _ (List.mem_singleton.2 rfl)))
    obtain ⟨pending'', atEnd', hmoved⟩ := hturned.moves hreached hid (moves_step q _ x)
    rw [← shutsEarly_iff hs', ← shutEarly_concat] at hmoved
    rw [run_concat]
    exact ⟨_, pending'', atEnd', socket?_step hs' x, hmoved⟩

/-- A client that comes before the last event watches from then on. -/
theorem follows_connect (hw : Sound q w) (hid : RequestId.parse? text = some q.id) (htold : w.told < q.events.length)
    (now : Nat) : ∃ s, (w.connect text now).socket? w.watchers.length = some s ∧
      Follows q (w.connect text now).publisher (w.connect text now).told text w.told s False [] false := by
  obtain ⟨t, ht, -⟩ := hw.isOpen htold
  have hknown : ((RequestId.parse? text).bind w.register.find?).isSome = true := by rw [hid, Option.bind_some, ht]; rfl
  have hnew (v : Watcher) : (w.watchers ++ [v])[w.watchers.length]?.map Watcher.socket = some v.socket := by
    rw [List.getElem?_concat_length, Option.map_some]
  unfold connect
  rw [if_pos hknown]
  refine ⟨_, hnew _, rfl, ⟨rfl, rfl⟩, Nat.le_refl _, Publisher.awaits_subscribe hw.channels text, ?_, ?_, ?_, ?_, ?_⟩
  · exact ⟨fun hover => Bool.noConfusion hover, fun _ hall => absurd hall (Nat.ne_of_lt htold)⟩
  · rw [owed_self]
    rfl
  · exact iff_of_false List.not_mem_nil (Bool.noConfusion ·)
  · exact fun hmem => absurd hmem List.not_mem_nil
  · exact iff_of_false id fun hshut => List.not_mem_nil hshut.1

/-- Nobody misses an event if a channel can keep all of them. -/
theorem inTime_of_length_le {steps : List Step} (hw : Sound q w) (hid : RequestId.parse? text = some q.id)
    (htold : w.told < q.events.length) (now : Nat)
    (hstays : ∀ x ∈ steps, x ≠ .read w.watchers.length .close ∧ x ≠ .lose w.watchers.length)
    (hlength : q.events.length ≤ Channel.capacity) : (w.connect text now).InTime q w.watchers.length steps := by
  have hkept (xs : List Step) (s' : Socket) (early : Prop) (pending : List Event) (atEnd : Bool)
      (h : Follows q ((w.connect text now).run q xs).publisher ((w.connect text now).run q xs).told text w.told s' early
        pending atEnd) : ∀ n, (((w.connect text now).run q xs).publisher.receive s'.subscription).1 ≠ .lagged n := by
    have hfew : pending.length ≤ Channel.capacity := by
      have hall := Nat.le_trans (length_owed_le q text w.told ((w.connect text now).run q xs).told) hlength
      rw [← h.account, List.length_append] at hall
      exact Nat.le_trans (Nat.le_add_left _ _) hall
    intro n
    rw [(h.awaits.receive hfew).1]
    exact Publisher.answerTo_ne_lagged pending atEnd n
  intro xs hxs s' hs' _
  obtain ⟨s, hs, hnew⟩ := follows_connect hw hid htold now
  obtain ⟨s'', pending, atEnd, hs'', hfollows⟩ := follows_run (hw.step (.connect text now)) hid hs hnew
    (fun x hx => hstays x (hxs.subset hx)) fun ys _ s' early pending atEnd _ h _ => hkept ys s' early pending atEnd h
  obtain rfl := Option.some.inj (hs''.symm.trans hs')
  exact hkept xs _ _ _ _ hfollows

end Runs

/-- A client comes to watch the request before its last event, stays and keeps up, whatever happened `before` and
happens `after`. -/
structure Attends (q : WatchedRequest) (w : Watching) (text : String) (now : Nat) (after : List Step) : Prop where
  /-- the request was taken in and had not ended when all of this began -/
  reached : ∃ past before, (∃ t, (Register.after {} past).find? q.id = some t ∧ t.state.isFinished = false) ∧
    w = run q { register := Register.after {} past } before
  names : RequestId.parse? text = some q.id
  before_end : w.told < q.events.length
  stays : ∀ x ∈ after, x ≠ .read w.watchers.length .close ∧ x ≠ .lose w.watchers.length
  inTime : (w.connect text now).InTime q w.watchers.length after

/-- What a client was sent that came when `since` events of the request had been published; `early` tells whether its
socket was shut while an event waited for it. -/
structure Seen (q : WatchedRequest) (w : Watching) (text : String) (since : Nat) (s : Socket) (early : Prop) : Prop where
  /-- the events that were published from then on, in order and none left out -/
  inOrder : s.sent <+: (q.events.take w.told).drop since
  /-- but nothing at all for another spelling of the identifier -/
  nothing : text ≠ q.id.text → s.sent = []
  /-- as long as the socket is open, its next turn at the channel sends the first event that was published and not sent,
  and closes it when all was sent -/
  next : text = q.id.text → .close ∉ s.outbox →
    ((s.forward? w.publisher).getD s).sent =
        s.sent ++ (((q.events.take w.told).drop since).drop s.sent.length).take 1 ∧
      (.close ∈ ((s.forward? w.publisher).getD s).outbox ↔ s.sent = q.events.drop since)
  /-- when it is closed the request has ended, and then this decides whether all was sent -/
  closed : .close ∈ s.outbox → w.told = q.events.length ∧
    (s.sent = q.events.drop since ↔ text = q.id.text ∧ ¬early)

theorem Attends.sound {q : WatchedRequest} {w : Watching} {text : String} {now : Nat} {after : List Step}
    (h : Attends q w text now after) : Sound q w := by
  obtain ⟨past, before, ⟨t, ht, hopen⟩, rfl⟩ := h.reached
  exact (sound_new ht hopen).run before

theorem Follows.seen {q : WatchedRequest} {w : Watching} {text : String} {since : Nat} {s : Socket} {early : Prop}
    {pending : List Event} {atEnd : Bool} (h : Follows q w.publisher w.told text since s early pending atEnd)
    (hw : Sound q w) (hsince : since < q.events.length)
    (hinTime : .close ∉ s.outbox → ∀ n, (w.publisher.receive s.subscription).1 ≠ .lagged n) :
    Seen q w text since s early := by
  have haccount := h.account
  rw [owed] at haccount
  by_cases htext : text = q.id.text
  · rw [if_pos htext] at haccount
    constructor
    · exact ⟨pending, haccount⟩
    · intro hne
      exact absurd htext hne
    · intro _ hopen
      rw [← haccount, List.drop_left, ← h.all_sent_iff htext hsince hw.told]
      exact h.next_turn hopen (hinTime hopen)
    · intro hshut
      rw [h.ended hshut, List.take_length] at haccount
      refine ⟨h.ended hshut, ?_⟩
      -- all was sent if nothing waits any more, and what waits behind the end was cut off
      rw [and_iff_right htext, ← haccount, List.self_eq_append_right, h.early_iff, and_iff_right hshut, not_not]
  · rw [if_neg htext] at haccount
    have hnothing : s.sent = [] := (List.append_eq_nil_iff.1 haccount).1
    have howed : q.events.drop since ≠ [] := fun hnil => absurd (List.drop_eq_nil_iff.1 hnil) (Nat.not_le.2 hsince)
    constructor
    · rw [hnothing]
      exact List.nil_prefix
    · intro _
      exact hnothing
    · intro heq
      exact absurd heq htext
    · intro hshut
      rw [hnothing]
      exact ⟨h.ended hshut, iff_of_false howed.symm fun hall => htext hall.1⟩

/-- What those are sent who watch a request.  However the events of a request, the record of its end, the turns of the
sockets and everything else follow one another, a client that comes before the last event, stays and keeps up is sent the
events from then on in order, if it wrote the identifier in its written form, and nothing otherwise.  When its socket is
closed it was sent all events, the last one included, exactly if it wrote the identifier so and no look shut the socket
while an event waited for it. -/
theorem sent_all_iff {q : WatchedRequest} {w : Watching} {text : String} {now : Nat} {after : List Step}
    (h : Attends q w text now after) : ∃ s, ((w.connect text now).run q after).socket? w.watchers.length = some s ∧
      Seen q ((w.connect text now).run q after) text w.told s
        ((w.connect text now).ShutEarly q w.watchers.length after) := by
  obtain ⟨s₀, hs₀, hnew⟩ := follows_connect h.sound h.names h.before_end now
  obtain ⟨s, pending, atEnd, hs, hfollows⟩ := follows_run (h.sound.step (.connect text now)) h.names hs₀ hnew h.stays
    fun xs hxs s' _ _ _ hs' _ => h.inTime xs hxs s' hs'
  have hsound := (h.sound.step (.connect text now)).run after
  exact ⟨s, hs, hfollows.seen hsound h.before_end (h.inTime after (List.prefix_refl _) s hs)⟩

/-! ## The turns of the service -/

theorem forwardFor_succ (p : Publisher) (s : Socket) (n : Nat) :
    s.forwardFor p (n + 1) = ((s.forward? p).getD s).forwardFor p n := by
  rw [Socket.forwardFor]
  cases hforward : s.forward? p with
  | some s' => rfl
  | none =>
    rw [Option.getD_none]
    cases n with
    | zero => rfl
    | succ n => rw [Socket.forwardFor, hforward]

theorem run_forward (q : WatchedRequest) {w : Watching} {k : Nat} {v : Watcher} (hv : w.watchers[k]? = some v) (n : Nat) :
    let w' := w.run q (List.replicate n (.forward k))
    w'.publisher = w.publisher ∧ w'.register = w.register ∧
      w'.watchers[k]? = some { v with socket := v.socket.forwardFor w.publisher n } := by
  induction n generalizing w v with
  | zero => exact ⟨rfl, rfl, hv⟩
  | succ n ih =>
    have hnext : (w.step q (.forward k)).watchers[k]? =
        some { v with socket := (v.socket.forward? w.publisher).getD v.socket } := by
      refine List.getElem?_modify_eq .. |>.trans ?_
      rw [hv]
      rfl
    rw [forwardFor_succ]
    exact ih hnext

theorem request_forwardFor (p : Publisher) (s : Socket) (n : Nat) : (s.forwardFor p n).request = s.request := by
  induction n generalizing s with
  | zero => rfl
  | succ n ih =>
    rw [forwardFor_succ, ih]
    unfold Socket.forward?
    split
    · rfl
    · cases hreceived : (p.receive s.subscription).1 with
      | value e =>
        simp only [hreceived]
        split <;> rfl
      | empty | closed | lagged => simp only [hreceived, Option.getD_none, Option.getD_some, Socket.hangUp]

theorem request_look (finished : Bool) (now : Nat) (s : Socket) : (s.look finished now).request = s.request := by
  unfold Socket.look
  split <;> rfl

theorem isFinished_congr {w w' : Watching} {s s' : Socket} (hregister : w.register = w'.register)
    (hrequest : s.request = s'.request) : w.isFinished s = w'.isFinished s' := by
  rw [isFinished, isFinished, Socket.id?, Socket.id?, hrequest, hregister]

/-- A socket that has not been given up is given up as soon as one of its sides has ended. -/
theorem leave_of_whole {w : Watching} {k : Nat} {v : Watcher} (hv : w.watchers[k]? = some v) (hleft : v.left = false) :
    (w.leave k).socket? k = some v.socket ∧ (w.leave k).publisher =
      if !v.socket.isWhole && w.isFinished v.socket then w.publisher.unregister v.socket.request else w.publisher := by
  unfold leave
  rw [hv]
  dsimp only
  rw [hleft, Bool.false_or]
  cases v.socket.isWhole with
  | true => exact ⟨congrArg (Option.map Watcher.socket) hv, rfl⟩
  | false =>
    refine ⟨?_, rfl⟩
    refine (congrArg (Option.map Watcher.socket) (List.getElem?_modify_eq ..)).trans ?_
    rw [hv]
    rfl

/-- A socket takes what it can, it looks, and it is given up if one of its sides has ended. -/
theorem run_turns (q : WatchedRequest) {w : Watching} {k : Nat} {v : Watcher} (hv : w.watchers[k]? = some v)
    (hleft : v.left = false) (n now : Nat) :
    let w' := w.run q (List.replicate n (.forward k) ++ [.look k now, .leave k])
    let s' := (v.socket.forwardFor w.publisher n).look (w.isFinished v.socket) now
    w'.socket? k = some s' ∧ w'.publisher =
      if !s'.isWhole && w.isFinished v.socket then w.publisher.unregister v.socket.request else w.publisher := by
  obtain ⟨hpublisher, hregister, hforwarded⟩ := run_forward q hv n
  have hrun : w.run q (List.replicate n (.forward k) ++ [.look k now, .leave k]) =
      ((w.run q (List.replicate n (.forward k))).step q (.look k now)).leave k := List.foldl_append
  have hrequest := request_forwardFor w.publisher v.socket n
  dsimp only
  rw [hrun]
  generalize w.run q (List.replicate n (.forward k)) = w₁ at hpublisher hregister hforwarded
  generalize v.socket.forwardFor w.publisher n = s₁ at hforwarded hrequest
  have hlooked : (w₁.step q (.look k now)).watchers[k]? =
      some { v with socket := s₁.look (w.isFinished v.socket) now } := by
    rw [← isFinished_congr hregister hrequest]
    refine (List.getElem?_modify_eq ..).trans ?_
    rw [hforwarded]
    rfl
  have hlast : (w₁.step q (.look k now)).isFinished (s₁.look (w.isFinished v.socket) now) = w.isFinished v.socket :=
    isFinished_congr hregister ((request_look _ now s₁).trans hrequest)
  obtain ⟨hsocket, hafter⟩ := leave_of_whole hlooked hleft
  rw [hlast, request_look, hrequest] at hafter
  exact ⟨hsocket, hafter.trans (by rw [← hpublisher]; rfl)⟩

/-- The service serves a socket by these steps, the look last. -/
theorem run_serve (q : WatchedRequest) {w : Watching} {k : Nat} {v : Watcher} (hv : w.watchers[k]? = some v)
    (hthere : v.left = false ∧ v.socket.gone = false ∧ v.socket.isWhole = true) (hread : v.socket.inbox = [])
    (now : Nat) :
    let w' := w.run q (List.replicate (Channel.capacity + 2) (.forward k) ++ [.look k now, .leave k])
    let served := v.socket.serve w.publisher (w.isFinished v.socket) now
    w'.socket? k = some served.1 ∧ w'.publisher = served.2 := by
  obtain ⟨hleft, hgone, hwhole⟩ := hthere
  have hreadAll : v.socket.readAll = v.socket := by
    rw [Socket.readAll, hread, hgone, List.foldl_nil, Bool.not_false, Bool.and_true, ← hread]
  have hturns := run_turns q hv hleft (Channel.capacity + 2) now
  dsimp only at hturns ⊢
  rw [Socket.serve, hreadAll, hwhole, Bool.true_and]
  exact hturns

/-! ### A request that fails -/

/-- A request of which little is told: it is begun, and fails. -/
def failing : WatchedRequest where
  id := ⟨"00000000-0000-4000-8000-00000000000a"⟩
  front := [.started 1]
  last := .failed "lost"
  outcome := .error "lost"
  underWay := by simp [EventBody.isTerminal]
  ends := rfl

/-- The request was taken in, and nobody watches it yet. -/
def takenIn : Watching := { register := Register.after {} [.insert failing.id "python" 0] }

theorem attends_takenIn {text : String} (hid : RequestId.parse? text = some failing.id) {after : List Step}
    (hstays : ∀ x ∈ after, x ≠ .read 0 .close ∧ x ≠ .lose 0) : Attends failing takenIn text 0 after := by
  have hknown : (Register.after {} [.insert failing.id "python" 0]).find? failing.id =
      some { id := failing.id, language := "python", createdAt := 0 } := by decide +kernel
  have hstart : takenIn.told < failing.events.length := by decide +kernel
  refine ⟨⟨_, [], ⟨_, hknown, rfl⟩, rfl⟩, hid, hstart, hstays, ?_⟩
  exact inTime_of_length_le (sound_new hknown rfl) hid hstart 0 hstays (by decide +kernel)

/-- The client takes each event as it comes, and its socket looks once more at the end. -/
def takenAtOnce : List Step :=
  [.advance 0, .forward 0, .advance 0, .forward 0, .advance 0, .look 0 1000]

/-- The same for a socket that looks before it takes anything. -/
def lookedFirst : List Step :=
  [.advance 0, .advance 0, .advance 0, .look 0 1000, .forward 0]

theorem sent_all_of_failing : ∃ s, ((takenIn.connect failing.id.text 0).run failing takenAtOnce).socket? 0 = some s ∧
    Seen failing ((takenIn.connect failing.id.text 0).run failing takenAtOnce) failing.id.text 0 s
      ((takenIn.connect failing.id.text 0).ShutEarly failing 0 takenAtOnce) ∧
    s.outbox = [.event ⟨failing.id.text, .started 1⟩, .event ⟨failing.id.text, .failed "lost"⟩, .close] := by
  have hid : RequestId.parse? failing.id.text = some failing.id := by decide +kernel
  have hattends : Attends failing takenIn failing.id.text 0 takenAtOnce :=
    attends_takenIn hid (by simp [takenAtOnce])
  obtain ⟨s, hs, hseen⟩ := sent_all_iff hattends
  have hframes : (((takenIn.connect failing.id.text 0).run failing takenAtOnce).socket? 0).map Socket.outbox = some
      [.event ⟨failing.id.text, .started 1⟩, .event ⟨failing.id.text, .failed "lost"⟩, .close] := by decide +kernel
  exact ⟨s, hs, hseen, Option.some.inj ((congrArg (Option.map Socket.outbox) hs).symm.trans hframes)⟩

/-- A client was there in time, stayed and kept up, and its socket is closed although not all was sent. -/
def MissesEnd (q : WatchedRequest) (w : Watching) (text : String) (now : Nat) (after : List Step) : Prop :=
  Attends q w text now after ∧ ∃ s, ((w.connect text now).run q after).socket? w.watchers.length = some s ∧
    .close ∈ s.outbox ∧ s.sent ≠ q.events.drop w.told

theorem missesEnd_of_frames {text : String} (hid : RequestId.parse? text = some failing.id) {after : List Step}
    (hstays : ∀ x ∈ after, x ≠ .read 0 .close ∧ x ≠ .lose 0)
    (hframes : (((takenIn.connect text 0).run failing after).socket? 0).map Socket.outbox = some [.close]) :
    MissesEnd failing takenIn text 0 after := by
  have howed : failing.events.drop takenIn.told ≠ [] := by decide +kernel
  obtain ⟨s, hs, hclose⟩ := Option.map_eq_some_iff.1 hframes
  refine ⟨attends_takenIn hid hstays, s, hs, ?_, ?_⟩
  · rw [hclose]
    exact List.mem_singleton.2 rfl
  · have hnothing : s.sent = [] := by
      rw [Socket.sent, hclose]
      rfl
    rw [hnothing]
    exact howed.symm

/-- Someone who writes the identifier in capitals is sent nothing although their socket takes all there is, and so is
someone whose socket looks first. -/
theorem exists_closed_unsent : MissesEnd failing takenIn "00000000-0000-4000-8000-00000000000A" 0 takenAtOnce ∧
    MissesEnd failing takenIn failing.id.text 0 lookedFirst := by
  constructor
  · apply missesEnd_of_frames
    · decide +kernel
    · simp [takenAtOnce]
    · decide +kernel
  · apply missesEnd_of_frames
    · decide +kernel
    · simp [lookedFirst]
    · decide +kernel

end Watching

end Pseudoscribe
