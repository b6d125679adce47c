import Mathlib.Logic.Basic
import Pseudoscribe.Event.Publisher

/-!
# Channels and receivers

A receiver that never falls behind by more than a channel keeps is given what the channel is sent, in order.  Channels are
found by requests, several of them one after the other for the same request; a receiver stays with the one it was given.
What it is still to be given is told by `Publisher.Awaits`, with one lemma for each thing that is done with a publisher.
-/

namespace Pseudoscribe

namespace Channel

variable {α : Type} {c : Channel α} {all : List α}

/-- These values were sent, and the last of them are kept. -/
structure Holds (c : Channel α) (all : List α) : Prop where
  sent : c.sent = all.length
  kept : c.kept = all.drop (all.length - capacity)

theorem holds_new : ({} : Channel α).Holds [] := ⟨rfl, List.drop_nil.symm⟩

/-- To keep the last values and one more, and of these the last, is to keep the last of all. -/
theorem drop_drop_concat (k : Nat) (all : List α) (a : α) :
    (all.drop (all.length - k) ++ [a]).drop ((all.drop (all.length - k) ++ [a]).length - k) =
      (all ++ [a]).drop ((all ++ [a]).length - k) := by
  rw [← List.drop_append_of_le_length (Nat.sub_le all.length k), List.drop_drop, List.length_drop, List.length_append,
    List.length_singleton]
  congr 1
  omega

theorem Holds.send (h : c.Holds all) (a : α) : (c.send a).Holds (all ++ [a]) where
  sent := by
    rw [List.length_append, List.length_singleton, ← h.sent]
    rfl
  kept := by
    have hkept : (c.send a).kept = (c.kept ++ [a]).drop ((c.kept ++ [a]).length - capacity) := by rw [Channel.send]
    rw [hkept, h.kept, drop_drop_concat]

theorem Holds.close (h : c.Holds all) : c.close.Holds all := ⟨h.sent, h.kept⟩

theorem Holds.oldest_eq (h : c.Holds all) : c.oldest = all.length - capacity := by
  rw [oldest, h.sent, h.kept, List.length_drop]
  omega

/-- A receiver that is not too far behind is given the next value, and is told the truth if there is none. -/
theorem Holds.receive_eq (h : c.Holds all) {next : Nat} (hnext : next ≤ all.length)
    (hinTime : (all.drop next).length ≤ capacity) :
    c.receive next = match all.drop next with
      | a :: _ => (.value a, next + 1)
      | [] => (if c.closed then .closed else .empty, next) := by
  rw [List.length_drop] at hinTime
  have hold : all.length - capacity ≤ next := by omega
  unfold receive
  rw [h.oldest_eq, if_neg (Nat.not_lt.2 hold), h.kept, List.getElem?_drop, Nat.add_sub_cancel' hold]
  cases hrest : all.drop next with
  | nil => rw [List.getElem?_eq_none (List.drop_eq_nil_iff.1 hrest)]
  | cons a rest =>
    have hfirst : all[next]? = some a := by rw [← List.head?_drop, hrest, List.head?_cons]
    rw [hfirst]

/-- A receiver that is not told that values are lost is not too far behind. -/
theorem Holds.length_le (h : c.Holds all) {next : Nat} (hinTime : ∀ n, (c.receive next).1 ≠ .lagged n) :
    (all.drop next).length ≤ capacity := by
  rw [List.length_drop]
  refine Nat.not_lt.1 fun hbehind => ?_
  have hold : next < c.oldest := by rw [h.oldest_eq]; omega
  exact hinTime (c.oldest - next) (by rw [receive, if_pos hold])

end Channel

namespace Publisher

/-! ## Channels and requests -/

theorem channel_modify (p : Publisher) (n m : Nat) (f : Channel Event → Channel Event) (active : List (String × Nat)) :
    (⟨p.channels.modify n f, active⟩ : Publisher).channel m =
      if n = m ∧ m < p.channels.size then f (p.channel m) else p.channel m := by
  unfold channel
  dsimp only
  rw [Array.getElem?_modify]
  by_cases hm : m < p.channels.size
  · rw [Array.getElem?_eq_getElem hm]
    by_cases hn : n = m
    · rw [if_pos hn, if_pos ⟨hn, hm⟩]
      rfl
    · rw [if_neg hn, if_neg fun h => hn h.1]
  · rw [Array.getElem?_eq_none (Nat.not_lt.1 hm), if_neg (fun h => hm h.2 : ¬ (n = m ∧ m < p.channels.size)),
      Option.map_none, ite_self]

theorem channel_push (p : Publisher) (m : Nat) (active : List (String × Nat)) :
    (⟨p.channels.push {}, active⟩ : Publisher).channel m = p.channel m := by
  unfold channel
  dsimp only
  rw [Array.getElem?_push]
  by_cases hm : m = p.channels.size
  · rw [if_pos hm, hm, Array.getElem?_eq_none (Nat.le_refl _)]
    rfl
  · rw [if_neg hm]

theorem lookup_filter_ne (active : List (String × Nat)) (r r' : String) :
    (active.filter (·.1 != r)).lookup r' = if r' = r then none else active.lookup r' := by
  induction active with
  | nil => rw [List.filter_nil, List.lookup_nil, ite_self]
  | cons x xs ih =>
    obtain ⟨k, n⟩ := x
    by_cases hk : k = r
    · rw [List.filter_cons_of_neg (by simp [hk]), ih, List.lookup_cons, hk]
      by_cases hr : r' = r
      · rw [if_pos hr, if_pos hr]
      · rw [if_neg hr, if_neg hr, beq_false_of_ne hr]
    · rw [List.filter_cons_of_pos (by simp [hk]), List.lookup_cons, List.lookup_cons, ih]
      by_cases hr : r' = r
      · rw [if_pos hr, if_pos hr, hr, beq_false_of_ne (Ne.symm hk)]
      · rw [if_neg hr, if_neg hr]

/-- The channels of a publisher that was set up and used.  Each request has a channel of its own, if any, and that is open;
so is the channel for all requests. -/
structure InOrder (p : Publisher) : Prop where
  common : 0 < p.channels.size ∧ (p.channel 0).closed = false
  active : ∀ r n, p.active.lookup r = some n → n ≠ 0 ∧ n < p.channels.size ∧ (p.channel n).closed = false
  apart : ∀ r r' n, p.active.lookup r = some n → p.active.lookup r' = some n → r = r'
  holds : ∀ n, ∃ all, (p.channel n).Holds all

theorem inOrder_new : ({} : Publisher).InOrder where
  common := ⟨Nat.one_pos, rfl⟩
  active r n h := by cases h
  apart r r' n h := by cases h
  holds n := by
    refine ⟨[], ?_⟩
    cases n <;> exact Channel.holds_new

/-- An event is handed out: to the channel for all requests and to that of its request. -/
def handOut (p : Publisher) (e : Event) : Publisher :=
  let channels := p.channels.modify 0 (·.send e)
  { p with channels := match p.active.lookup e.request with
      | some number => channels.modify number (·.send e)
      | none => channels }

theorem publish_eq (p : Publisher) (e : Event) :
    p.publish e = if e.isTerminal then (p.handOut e).unregister e.request else p.handOut e := rfl

theorem size_handOut (p : Publisher) (e : Event) : (p.handOut e).channels.size = p.channels.size := by
  unfold handOut
  dsimp only
  cases p.active.lookup e.request with
  | none => exact Array.size_modify
  | some n => exact Array.size_modify.trans Array.size_modify

theorem channel_handOut {p : Publisher} (h : p.InOrder) (e : Event) (m : Nat) : (p.handOut e).channel m =
    if m < p.channels.size ∧ (m = 0 ∨ p.active.lookup e.request = some m) then (p.channel m).send e
    else p.channel m := by
  have hcommon := channel_modify p 0 m (·.send e) p.active
  unfold handOut
  cases hlookup : p.active.lookup e.request with
  | none =>
    refine hcommon.trans (if_congr ?_ rfl rfl)
    simp [and_comm, eq_comm]
  | some n =>
    have hzero := (h.active _ _ hlookup).1
    refine (channel_modify ⟨p.channels.modify 0 (·.send e), p.active⟩ n m (·.send e) p.active).trans ?_
    rw [hcommon, Array.size_modify]
    -- no channel is both for all requests and for one
    by_cases hm : m < p.channels.size <;> by_cases hn : n = m <;> by_cases h0 : 0 = m <;>
      simp_all [eq_comm]

theorem InOrder.handOut {p : Publisher} (h : p.InOrder) (e : Event) : (p.handOut e).InOrder := by
  have hclosed (m : Nat) : ((p.handOut e).channel m).closed = (p.channel m).closed := by
    rw [channel_handOut h]
    split <;> rfl
  refine ⟨?_, fun r n hr => ?_, h.apart, fun n => ?_⟩
  · rw [size_handOut, hclosed]
    exact h.common
  · rw [size_handOut, hclosed]
    exact h.active r n hr
  · obtain ⟨all, hall⟩ := h.holds n
    rw [channel_handOut h]
    split
    · exact ⟨_, hall.send e⟩
    · exact ⟨all, hall⟩

/-! ## Giving channels up -/

theorem unregister_of_none {p : Publisher} {r : String} (h : p.active.lookup r = none) : p.unregister r = p := by
  rw [unregister, h]

theorem lookup_unregister (p : Publisher) (r r' : String) :
    (p.unregister r).active.lookup r' = if r' = r then none else p.active.lookup r' := by
  cases h : p.active.lookup r with
  | none =>
    rw [unregister_of_none h]
    split
    · next hr => rw [hr, h]
    · rfl
  | some n =>
    rw [unregister, h]
    exact lookup_filter_ne p.active r r'

theorem size_unregister (p : Publisher) (r : String) : (p.unregister r).channels.size = p.channels.size := by
  unfold unregister
  split
  · rfl
  · exact Array.size_modify

theorem channel_unregister {p : Publisher} (h : p.InOrder) (r : String) (m : Nat) : (p.unregister r).channel m =
    if p.active.lookup r = some m then (p.channel m).close else p.channel m := by
  cases hr : p.active.lookup r with
  | none => rw [unregister_of_none hr, if_neg (Option.some_ne_none m ∘ Eq.symm)]
  | some n =>
    have hsize := (h.active r n hr).2.1
    rw [unregister, hr]
    refine (channel_modify p n m Channel.close _).trans (if_congr ?_ rfl rfl)
    rw [Option.some_inj]
    exact ⟨fun hm => hm.1, fun hm => ⟨hm, hm ▸ hsize⟩⟩

theorem InOrder.unregister {p : Publisher} (h : p.InOrder) (r : String) : (p.unregister r).InOrder := by
  have hother {r' : String} {n : Nat} (hr' : (p.unregister r).active.lookup r' = some n) :
      r' ≠ r ∧ p.active.lookup r' = some n := by
    rw [lookup_unregister] at hr'
    split at hr'
    · cases hr'
    · next hne => exact ⟨hne, hr'⟩
  refine ⟨?_, fun r' n hr' => ?_, fun r' r'' n hr' hr'' => ?_, fun n => ?_⟩
  · rw [size_unregister, channel_unregister h, if_neg fun hr => (h.active r 0 hr).1 rfl]
    exact h.common
  · obtain ⟨hne, hn⟩ := hother hr'
    rw [size_unregister, channel_unregister h, if_neg fun hr => hne (h.apart r' r n hn hr)]
    exact h.active r' n hn
  · exact h.apart r' r'' n (hother hr').2 (hother hr'').2
  · obtain ⟨all, hall⟩ := h.holds n
    rw [channel_unregister h]
    split
    · exact ⟨all, hall.close⟩
    · exact ⟨all, hall⟩

theorem InOrder.publish {p : Publisher} (h : p.InOrder) (e : Event) : (p.publish e).InOrder := by
  rw [publish_eq]
  split
  · exact (h.handOut e).unregister e.request
  · exact h.handOut e

/-! ## Listening -/

theorem channel_of_size_le {p : Publisher} {n : Nat} (h : p.channels.size ≤ n) : p.channel n = {} := by
  rw [channel, Array.getElem?_eq_none h]
  rfl

theorem subscribe_of_some {p : Publisher} {r : String} {n : Nat} (h : p.active.lookup r = some n) :
    p.subscribe r = (p.listen n, p) := by
  rw [subscribe, h]

theorem subscribe_of_none {p : Publisher} {r : String} (h : p.active.lookup r = none) : p.subscribe r =
    (⟨p.channels.size, 0⟩, ⟨p.channels.push {}, p.active ++ [(r, p.channels.size)]⟩) := by
  have hnew := channel_push p p.channels.size (p.active ++ [(r, p.channels.size)])
  rw [channel_of_size_le (Nat.le_refl _)] at hnew
  rw [subscribe, h]
  dsimp only [listen]
  rw [hnew]

/-- Only the request that is listened to gets a channel, if it has none. -/
theorem lookup_subscribe (p : Publisher) (r r' : String) : (p.subscribe r).2.active.lookup r' =
    (p.active.lookup r').or (if r' = r then some p.channels.size else none) := by
  cases h : p.active.lookup r with
  | some n =>
    rw [subscribe_of_some h]
    dsimp only
    split
    · next hr => rw [hr, h, Option.some_or]
    · rw [Option.or_none]
  | none =>
    rw [subscribe_of_none h]
    dsimp only
    rw [List.lookup_append, List.lookup_cons, List.lookup_nil]
    congr 1
    split
    · next hr => rw [if_pos (beq_iff_eq.1 hr)]
    · next hr => rw [if_neg (ne_of_beq_false hr)]

theorem channel_subscribe (p : Publisher) (r : String) (m : Nat) : (p.subscribe r).2.channel m = p.channel m := by
  cases h : p.active.lookup r with
  | some n => rw [subscribe_of_some h]
  | none =>
    rw [subscribe_of_none h]
    exact channel_push p m _

theorem size_le_subscribe (p : Publisher) (r : String) : p.channels.size ≤ (p.subscribe r).2.channels.size := by
  cases h : p.active.lookup r with
  | some n => exact Nat.le_of_eq (by rw [subscribe_of_some h])
  | none =>
    rw [subscribe_of_none h]
    exact Nat.le_trans (Nat.le_succ _) (Nat.le_of_eq (Array.size_push _).symm)

/-- A listener gets the channel that its request then has, and is where that begins. -/
theorem subscribe_fst (p : Publisher) (r : String) : (p.subscribe r).2.active.lookup r = some (p.subscribe r).1.channel ∧
    (p.subscribe r).1.next = ((p.subscribe r).2.channel (p.subscribe r).1.channel).sent := by
  rw [channel_subscribe, lookup_subscribe, if_pos rfl]
  cases h : p.active.lookup r with
  | some n =>
    rw [subscribe_of_some h]
    exact ⟨rfl, rfl⟩
  | none =>
    rw [subscribe_of_none h, channel_of_size_le (Nat.le_refl _)]
    exact ⟨rfl, rfl⟩

theorem InOrder.subscribe {p : Publisher} (h : p.InOrder) (r : String) : (p.subscribe r).2.InOrder := by
  cases hr : p.active.lookup r with
  | some n =>
    rw [subscribe_of_some hr]
    exact h
  | none =>
    have hsize : (p.subscribe r).2.channels.size = p.channels.size + 1 := by
      rw [subscribe_of_none hr]
      exact Array.size_push _
    -- a channel in use is one of before, or the new one
    have hactive {r' : String} {n : Nat} (hn : (p.subscribe r).2.active.lookup r' = some n) :
        p.active.lookup r' = some n ∨ (r' = r ∧ n = p.channels.size) := by
      rw [lookup_subscribe, Option.or_eq_some_iff] at hn
      refine hn.imp_right fun hnew => ?_
      have hnew := hnew.2
      split at hnew
      · next heq => exact ⟨heq, (Option.some.inj hnew).symm⟩
      · cases hnew
    refine ⟨?_, fun r' n hn => ?_, fun r' r'' n hr' hr'' => ?_, fun n => ?_⟩
    · rw [hsize, channel_subscribe]
      exact ⟨Nat.succ_pos _, h.common.2⟩
    · rw [hsize, channel_subscribe]
      rcases hactive hn with hold | ⟨-, rfl⟩
      · obtain ⟨hzero, hlt, hopen⟩ := h.active r' n hold
        exact ⟨hzero, Nat.lt_succ_of_lt hlt, hopen⟩
      · rw [channel_of_size_le (Nat.le_refl _)]
        exact ⟨Nat.ne_of_gt h.common.1, Nat.lt_succ_self _, rfl⟩
    · rcases hactive hr' with hold' | ⟨rfl, hn⟩ <;> rcases hactive hr'' with hold'' | ⟨rfl, hn'⟩
      · exact h.apart r' r'' n hold' hold''
      · exact absurd (h.active r' n hold').2.1 (by omega)
      · exact absurd (h.active r'' n hold'').2.1 (by omega)
      · rfl
    · rw [channel_subscribe]
      exact h.holds n

/-! ## What a receiver is still to be given -/

/-- Is the event for those who listen to this request, or to all requests? -/
def concerns (request : Option String) (e : Event) : Bool := request.all (· == e.request)

/-- These events wait for a receiver of a request, or of all requests; no more will come at its end. -/
structure Awaits (p : Publisher) (request : Option String) (s : Subscription) (pending : List Event) (atEnd : Bool) :
    Prop where
  there : s.channel < p.channels.size
  holds : ∃ all, (p.channel s.channel).Holds all ∧ s.next ≤ all.length ∧ all.drop s.next = pending
  closed : (p.channel s.channel).closed = atEnd
  /-- the channel is in use up to its end, and for this request alone -/
  place : match request with
    | none => s.channel = 0
    | some r => s.channel ≠ 0 ∧ ∀ r', p.active.lookup r' = some s.channel ↔ r' = r ∧ atEnd = false

section Steps

variable {p : Publisher} {request : Option String} {s : Subscription} {pending : List Event} {atEnd : Bool}

/-- A receiver for all requests is never at the end. -/
theorem Awaits.over_of_none (h : p.Awaits none s pending atEnd) (hp : p.InOrder) : atEnd = false := by
  rw [← h.closed, h.place]
  exact hp.common.2

/-- The channel is sent the events that it is there for. -/
theorem Awaits.sent_iff (h : p.Awaits request s pending atEnd) (hp : p.InOrder) (e : Event) :
    (s.channel = 0 ∨ p.active.lookup e.request = some s.channel) ↔ concerns request e = true ∧ atEnd = false := by
  have hplace := h.place
  cases request with
  | none => exact iff_of_true (.inl hplace) ⟨rfl, h.over_of_none hp⟩
  | some r =>
    obtain ⟨hzero, hactive⟩ := hplace
    rw [or_iff_right hzero, hactive, concerns, Option.all_some, beq_iff_eq, eq_comm]

theorem Awaits.handOut (h : p.Awaits request s pending atEnd) (hp : p.InOrder) (e : Event) :
    (p.handOut e).Awaits request s (pending ++ if concerns request e && !atEnd then [e] else []) atEnd := by
  obtain ⟨all, hall, hnext, hpending⟩ := h.holds
  have hchannel := (channel_handOut hp e s.channel).trans (if_congr (and_iff_right h.there) rfl rfl)
  refine ⟨by rw [size_handOut]; exact h.there, ?_, ?_, h.place⟩
  · by_cases hsent : s.channel = 0 ∨ p.active.lookup e.request = some s.channel
    · obtain ⟨hconcerns, hover⟩ := (h.sent_iff hp e).1 hsent
      rw [hchannel, if_pos hsent, hconcerns, hover]
      refine ⟨all ++ [e], hall.send e, by rw [List.length_append]; omega, ?_⟩
      rw [List.drop_append_of_le_length hnext, hpending]
      rfl
    · have hnot : (concerns request e && !atEnd) = false := by
        rw [h.sent_iff hp e] at hsent
        cases atEnd <;> simp_all
      rw [hchannel, if_neg hsent, hnot]
      exact ⟨all, hall, hnext, by rw [hpending]; exact (List.append_nil _).symm⟩
  · rw [hchannel]
    split <;> exact h.closed

theorem Awaits.unregister (h : p.Awaits request s pending atEnd) (hp : p.InOrder) (r : String) :
    (p.unregister r).Awaits request s pending (atEnd || request == some r) := by
  have hchannel := channel_unregister hp r s.channel
  have hplace := h.place
  have hgiven : p.active.lookup r = some s.channel ↔ atEnd = false ∧ (request == some r) = true := by
    cases request with
    | none => exact iff_of_false (fun hr => (hp.active r _ hr).1 hplace) (fun hnot => Bool.noConfusion hnot.2)
    | some r₀ => rw [hplace.2, and_comm, beq_iff_eq, Option.some_inj, @eq_comm _ r]
  refine ⟨by rw [size_unregister]; exact h.there, ?_, ?_, ?_⟩
  · obtain ⟨all, hall, hpending⟩ := h.holds
    refine ⟨all, ?_, hpending⟩
    rw [hchannel]
    split
    · exact hall.close
    · exact hall
  · rw [hchannel]
    split
    · next hr => rw [(hgiven.1 hr).2, Bool.or_true, Channel.close]
    · next hr =>
      rw [h.closed]
      rw [hgiven] at hr
      cases atEnd <;> simp_all
  · cases request with
    | none => exact hplace
    | some r₀ =>
      refine ⟨hplace.1, fun r' => ?_⟩
      rw [lookup_unregister]
      by_cases hr' : r' = r
      · rw [if_pos hr', hr']
        refine iff_of_false (Option.some_ne_none _ ∘ Eq.symm) ?_
        rintro ⟨rfl, hover⟩
        rw [beq_self_eq_true, Bool.or_true] at hover
        cases hover
      · rw [if_neg hr', hplace.2, Bool.or_eq_false_iff]
        refine and_congr_right fun heq => (and_iff_left ?_).symm
        exact beq_false_of_ne fun hsome => hr' (heq.trans (Option.some.inj hsome))

theorem Awaits.subscribe (h : p.Awaits request s pending atEnd) (r : String) :
    (p.subscribe r).2.Awaits request s pending atEnd := by
  have hplace := h.place
  refine ⟨Nat.lt_of_lt_of_le h.there (size_le_subscribe p r), ?_, ?_, ?_⟩
  · rw [channel_subscribe]
    exact h.holds
  · rw [channel_subscribe]
    exact h.closed
  · cases request with
    | none => exact hplace
    | some r₀ =>
      refine ⟨hplace.1, fun r' => ?_⟩
      rw [← hplace.2, lookup_subscribe]
      -- the channel is not the new one
      have hne : some p.channels.size ≠ some s.channel := fun heq => absurd (Option.some.inj heq) (Nat.ne_of_gt h.there)
      cases p.active.lookup r' with
      | some n => rw [Option.some_or]
      | none =>
        rw [Option.none_or]
        refine iff_of_false ?_ (Option.some_ne_none _ ∘ Eq.symm)
        split
        · exact hne
        · exact Option.some_ne_none _ ∘ Eq.symm

/-- When an event is published, those wait for it whom it concerns, and it can be the last for a request. -/
theorem Awaits.publish (h : p.Awaits request s pending atEnd) (hp : p.InOrder) (e : Event) :
    (p.publish e).Awaits request s (pending ++ if concerns request e && !atEnd then [e] else [])
      (atEnd || e.isTerminal && request == some e.request) := by
  rw [publish_eq]
  cases hlast : e.isTerminal with
  | false =>
    rw [if_neg Bool.false_ne_true, Bool.false_and, Bool.or_false]
    exact h.handOut hp e
  | true =>
    rw [if_pos rfl, Bool.true_and]
    exact (h.handOut hp e).unregister (hp.handOut e) e.request

/-- A new receiver of a request. -/
theorem awaits_subscribe (hp : p.InOrder) (r : String) :
    (p.subscribe r).2.Awaits (some r) (p.subscribe r).1 [] false := by
  have hp' := hp.subscribe r
  obtain ⟨hlookup, hnext⟩ := subscribe_fst p r
  obtain ⟨hzero, hsize, hopen⟩ := hp'.active r _ hlookup
  obtain ⟨all, hall⟩ := hp'.holds (p.subscribe r).1.channel
  rw [hall.sent] at hnext
  refine ⟨hsize, ⟨all, hall, Nat.le_of_eq hnext, ?_⟩, hopen, hzero, fun r' => ?_⟩
  · rw [hnext, List.drop_length]
  · rw [and_iff_left rfl]
    exact ⟨fun hr' => hp'.apart r' r _ hr' hlookup, fun hr' => hr' ▸ hlookup⟩

/-- A new receiver for all requests. -/
theorem awaits_subscribeAll (hp : p.InOrder) : p.Awaits none p.subscribeAll [] false := by
  obtain ⟨all, hall⟩ := hp.holds 0
  have hnext : p.subscribeAll.next = all.length := hall.sent
  refine ⟨hp.common.1, ⟨all, hall, Nat.le_of_eq hnext, ?_⟩, hp.common.2, rfl⟩
  rw [hnext, List.drop_length]

/-- What a receiver is given that is not too far behind: the first event that waits, or else the truth about the rest. -/
def answerTo (pending : List Event) (atEnd : Bool) : Received Event :=
  match pending with
  | e :: _ => .value e
  | [] => if atEnd then .closed else .empty

theorem answerTo_ne_lagged (pending : List Event) (atEnd : Bool) (missed : Nat) :
    answerTo pending atEnd ≠ .lagged missed := by
  cases pending <;> cases atEnd <;> simp [answerTo]

theorem Awaits.length_le (h : p.Awaits request s pending atEnd) (hinTime : ∀ n, (p.receive s).1 ≠ .lagged n) :
    pending.length ≤ Channel.capacity := by
  obtain ⟨all, hall, -, rfl⟩ := h.holds
  exact hall.length_le hinTime

theorem Awaits.receive (h : p.Awaits request s pending atEnd) (hinTime : pending.length ≤ Channel.capacity) :
    (p.receive s).1 = answerTo pending atEnd ∧ p.Awaits request (p.receive s).2 pending.tail atEnd := by
  obtain ⟨all, hall, hnext, rfl⟩ := h.holds
  have hgiven := hall.receive_eq hnext hinTime
  unfold Publisher.receive
  cases hpending : all.drop s.next with
  | nil =>
    rw [hpending] at hgiven
    rw [hgiven, h.closed]
    exact ⟨rfl, h.there, ⟨all, hall, hnext, hpending⟩, h.closed, h.place⟩
  | cons e rest =>
    rw [hpending] at hgiven
    rw [hgiven]
    have hlt : s.next < all.length := by
      rw [← Nat.not_le, ← List.drop_eq_nil_iff, hpending]
      exact List.cons_ne_nil e rest
    refine ⟨rfl, h.there, ⟨all, hall, hlt, ?_⟩, h.closed, h.place⟩
    rw [← List.tail_drop, hpending]

end Steps

end Publisher

end Pseudoscribe
