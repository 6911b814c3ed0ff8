import ThreatIntel.EventBus

/-!
# What the queues of the bus hold

The invariant is about one queue at a time (`Holds`). What a publication
does to it is decided by the log: a queue whose subscriber is there gets
the event, another one is left alone.
-/

namespace ThreatIntel

namespace Streams

/-! ## Reading the log -/

/-- The subscriber of the queue has come and not left. -/
def isSubscribed (k : Nat) : List BusEntry → Bool
  | [] => false
  | .subscribed j :: log => j == k || isSubscribed k log
  | .unsubscribed j :: log => j != k && isSubscribed k log
  | .published _ :: log => isSubscribed k log
  | .got _ _ :: log => isSubscribed k log

/-- The events published while it was subscribed, the oldest first. -/
def heard (k : Nat) : List BusEntry → List Event
  | [] => []
  | .published event :: log => if isSubscribed k log then heard k log ++ [event] else heard k log
  | .subscribed _ :: log => heard k log
  | .unsubscribed _ :: log => heard k log
  | .got _ _ :: log => heard k log

/-- The events published since it subscribed. -/
def publishedSince (k : Nat) : List BusEntry → List Event
  | [] => []
  | .published event :: log => publishedSince k log ++ [event]
  | .subscribed j :: log => if j = k then [] else publishedSince k log
  | .unsubscribed _ :: log => publishedSince k log
  | .got _ _ :: log => publishedSince k log

/-- The events its consumer has taken. -/
def consumed (k : Nat) : List BusEntry → List Event
  | [] => []
  | .got j event :: log => if j = k then consumed k log ++ [event] else consumed k log
  | .published _ :: log => consumed k log
  | .subscribed _ :: log => consumed k log
  | .unsubscribed _ :: log => consumed k log

/-! ## One queue -/

structure Holds (N : Int) (s : Streams) (k : Nat) : Prop where
  maxsize : (s.queues k).maxsize = N
  bounded : ((s.queues k).items.length : Int) ≤ N
  subscribed : k ∈ s.bus.subscribers ↔ isSubscribed k s.log = true
  /-- A queue that has not been made. -/
  unopened : s.opened ≤ k → isSubscribed k s.log = false ∧ heard k s.log = [] ∧
    consumed k s.log = [] ∧ (s.queues k).items = []
  since : isSubscribed k s.log = true → heard k s.log = publishedSince k s.log
  newest : (s.queues k).items <:+ heard k s.log
  subsequence : (consumed k s.log ++ (s.queues k).items).Sublist (heard k s.log)
  made : ∀ event ∈ heard k s.log, event.object < s.published
  distinct : (heard k s.log).Nodup

structure Keeps (N : Int) (s : Streams) : Prop where
  size : s.bus.queueSize = N
  nodup : s.bus.subscribers.Nodup
  queues : ∀ k, Holds N s k

theorem keeps_new {N : Int} (hN : 1 ≤ N) : Keeps N (new N) where
  size := rfl
  nodup := List.nodup_nil
  queues k :=
    { maxsize := rfl
      bounded := show (0 : Int) ≤ N by omega
      subscribed := by simp [new, isSubscribed]
      unopened := fun _ => ⟨rfl, rfl, rfl, rfl⟩
      since := nofun
      newest := List.suffix_refl _
      subsequence := List.Sublist.refl _
      made := nofun
      distinct := List.nodup_nil }

/-! ## What the steps preserve -/

/-- Each subscriber is offered the event once. -/
theorem offerAll_apply {subscribers : List Nat} (h : subscribers.Nodup) (event : Event)
    (queues : Nat → Queue Event) (k : Nat) :
    offerAll event subscribers queues k =
      if k ∈ subscribers then offer (queues k) event else queues k := by
  induction subscribers generalizing queues with
  | nil => rfl
  | cons j subscribers ih =>
      obtain ⟨hnot, hrest⟩ := List.nodup_cons.mp h
      have hnext := ih hrest (Function.update queues j (offer (queues j) event))
      rw [offerAll, List.foldl_cons, ← offerAll, hnext]
      by_cases hk : k = j
      · subst hk
        simp [hnot]
      · simp [hk]

variable {N : Int} {s : Streams}

/-- A publication, for a queue whose subscriber is there. -/
theorem Holds.offered {k : Nat} (h : Holds N s k) (hN : 1 ≤ N) (hk : isSubscribed k s.log = true)
    {event : Event} (hevent : event.object = s.published) {queues : Nat → Queue Event}
    (hqueue : queues k = offer (s.queues k) event) :
    Holds N { s with queues, published := s.published + 1, log := .published event :: s.log } k := by
  have hitems := offer_items (h.maxsize ▸ hN) (h.maxsize.symm ▸ h.bounded) event
  rw [h.maxsize] at hitems
  have hheard : heard k (.published event :: s.log) = heard k s.log ++ [event] := by
    rw [heard, if_pos hk]
  -- what stays in the queue is still the end of what has been heard
  have hkept : ∀ kept, kept = (if ((s.queues k).items.length : Int) = N then (s.queues k).items.tail
      else (s.queues k).items) → kept <:+ (s.queues k).items ∧ (kept.length : Int) + 1 ≤ N := by
    rintro kept rfl
    have hbound := h.bounded
    split
    · exact ⟨List.tail_suffix _, by rw [List.length_tail]; omega⟩
    · exact ⟨List.suffix_refl _, by omega⟩
  obtain ⟨hsuffix, hlen⟩ := hkept _ rfl
  have hnew : event ∉ heard k s.log := fun hmem => by
    have := h.made event hmem
    omega
  constructor
  · exact (congrArg Queue.maxsize hqueue).trans ((maxsize_offer _ _).trans h.maxsize)
  · simp only [hqueue, hitems, List.length_append, List.length_singleton]
    exact_mod_cast hlen
  · exact h.subscribed
  · intro hopened
    rw [(h.unopened hopened).1] at hk
    cases hk
  · intro _
    rw [hheard, h.since hk, publishedSince]
  · simp only [hqueue, hitems, hheard]
    obtain ⟨before, hbefore⟩ := hsuffix.trans h.newest
    exact ⟨before, by rw [← hbefore, List.append_assoc]⟩
  · simp only [hqueue, hitems, hheard, ← List.append_assoc]
    have hsub := (hsuffix.sublist.append_left (consumed k s.log)).trans h.subsequence
    exact hsub.append (List.Sublist.refl _)
  · intro e he
    rw [hheard, List.mem_append, List.mem_singleton] at he
    rcases he with he | rfl
    · exact Nat.lt_succ_of_lt (h.made e he)
    · exact hevent ▸ Nat.lt_succ_self _
  · rw [hheard]
    exact List.nodup_append.mpr ⟨h.distinct, List.nodup_singleton _, fun a ha b hb hab => by
      rw [List.mem_singleton] at hb
      exact hnew (hb ▸ hab ▸ ha)⟩

/-- A queue that an entry of the log does not concern, in a system in which
no less has been made. -/
theorem Holds.quiet {k : Nat} (h : Holds N s k) {s' : Streams} (hqueue : s'.queues k = s.queues k)
    (hopened : s.opened ≤ s'.opened) (hpublished : s.published ≤ s'.published)
    (hmember : k ∈ s'.bus.subscribers ↔ k ∈ s.bus.subscribers)
    (hsubscribed : isSubscribed k s'.log = isSubscribed k s.log)
    (hheard : heard k s'.log = heard k s.log) (hconsumed : consumed k s'.log = consumed k s.log)
    (hsince : isSubscribed k s.log = true → publishedSince k s'.log = publishedSince k s.log) :
    Holds N s' k where
  maxsize := hqueue ▸ h.maxsize
  bounded := hqueue ▸ h.bounded
  subscribed := by rw [hmember, hsubscribed, h.subscribed]
  unopened hk := by
    rw [hsubscribed, hheard, hconsumed, hqueue]
    exact h.unopened (hopened.trans hk)
  since hk := by
    rw [hsubscribed] at hk
    rw [hheard, hsince hk, h.since hk]
  newest := by
    rw [hqueue, hheard]
    exact h.newest
  subsequence := by
    rw [hqueue, hheard, hconsumed]
    exact h.subsequence
  made event he := (h.made event (hheard ▸ he)).trans_le hpublished
  distinct := hheard ▸ h.distinct

theorem keeps_publish (h : Keeps N s) (hN : 1 ≤ N) {event : Event}
    (hevent : event.object = s.published) : Keeps N (s.publish event) where
  size := h.size
  nodup := h.nodup
  queues k := by
    have hqueue := offerAll_apply h.nodup event s.queues k
    have hmember := (h.queues k).subscribed
    by_cases hk : k ∈ s.bus.subscribers
    · rw [if_pos hk] at hqueue
      exact (h.queues k).offered hN (hmember.mp hk) hevent hqueue
    · rw [if_neg hk] at hqueue
      have hnot : ¬ isSubscribed k s.log = true := mt hmember.mpr hk
      refine (h.queues k).quiet hqueue (Nat.le_refl _) (Nat.le_succ _) Iff.rfl rfl ?_ rfl ?_
      · exact if_neg hnot
      · exact fun hsub => absurd hsub hnot

theorem keeps_subscribe (h : Keeps N s) (hN : 1 ≤ N) : Keeps N s.subscribe where
  size := h.size
  nodup := by
    refine List.nodup_cons.mpr ⟨fun hmem => ?_, h.nodup⟩
    have hsub := (h.queues s.opened).subscribed.mp hmem
    rw [((h.queues s.opened).unopened (Nat.le_refl _)).1] at hsub
    cases hsub
  queues k := by
    by_cases hk : k = s.opened
    · subst hk
      obtain ⟨-, hheard, hconsumed, -⟩ := (h.queues s.opened).unopened (Nat.le_refl _)
      have hqueue : s.subscribe.queues s.opened = { maxsize := N, items := [] } := by
        rw [← h.size]
        exact Function.update_self _ _ _
      have hheard' : heard s.opened s.subscribe.log = [] := hheard
      have hconsumed' : consumed s.opened s.subscribe.log = [] := hconsumed
      refine ⟨?_, ?_, ?_, ?_, ?_, ?_, ?_, ?_, ?_⟩
      · rw [hqueue]
      · rw [hqueue]
        exact show (0 : Int) ≤ N by omega
      · simp [subscribe, isSubscribed]
      · exact fun hle => absurd hle (Nat.not_succ_le_self _)
      · intro _
        rw [hheard']
        simp [subscribe, publishedSince]
      · rw [hqueue]
        exact List.nil_suffix
      · rw [hqueue, hconsumed']
        exact List.nil_sublist _
      · rw [hheard']
        exact nofun
      · rw [hheard']
        exact List.nodup_nil
    · have hother : (s.opened == k) = false := by simp [Ne.symm hk]
      refine (h.queues k).quiet (Function.update_of_ne hk _ _) (Nat.le_succ _) (Nat.le_refl _) ?_ ?_
        rfl rfl fun _ => ?_
      · simp [subscribe, hk]
      · simp [subscribe, isSubscribed, hother]
      · simp [subscribe, publishedSince, Ne.symm hk]

theorem keeps_unsubscribe (h : Keeps N s) (j : Nat) : Keeps N (s.unsubscribe j) := by
  by_cases hj : j ∈ s.bus.subscribers
  · rw [unsubscribe, if_pos hj]
    refine ⟨h.size, h.nodup.erase j, fun k => ?_⟩
    by_cases hk : k = j
    · subst hk
      have hold := h.queues k
      have hgone : isSubscribed k (.unsubscribed k :: s.log) = false := by simp [isSubscribed]
      exact
        { maxsize := hold.maxsize
          bounded := hold.bounded
          subscribed := iff_of_false (h.nodup.not_mem_erase) (Bool.eq_false_iff.mp hgone)
          unopened := fun hle => ⟨hgone, (hold.unopened hle).2⟩
          since := fun hsub => absurd hsub (Bool.eq_false_iff.mp hgone)
          newest := hold.newest
          subsequence := hold.subsequence
          made := hold.made
          distinct := hold.distinct }
    · have hother : (j != k) = true := by simp [Ne.symm hk]
      refine (h.queues k).quiet rfl (Nat.le_refl _) (Nat.le_refl _) ?_ ?_ rfl rfl fun _ => rfl
      · exact List.mem_erase_of_ne hk
      · simp [isSubscribed, hother]
  · rw [unsubscribe, if_neg hj]
    exact h

theorem get_of_none {j : Nat} (hget : (s.queues j).getNowait = none) : s.get j = s := by
  rw [get, hget]

theorem get_of_some {j : Nat} {event : Event} {rest : Queue Event}
    (hget : (s.queues j).getNowait = some (event, rest)) :
    s.get j = { s with
      queues := Function.update s.queues j rest
      log := .got j event :: s.log } := by
  rw [get, hget]

/-- The consumer of a queue takes its head. -/
theorem Holds.taken {k : Nat} (h : Holds N s k) {event : Event} {rest : Queue Event}
    (hget : (s.queues k).getNowait = some (event, rest)) {queues : Nat → Queue Event}
    (hqueue : queues k = rest) :
    Holds N { s with queues, log := .got k event :: s.log } k := by
  obtain ⟨hitems, hmaxsize⟩ := Queue.getNowait_eq_some.mp hget
  have hconsumed : consumed k (.got k event :: s.log) = consumed k s.log ++ [event] := by
    simp [consumed]
  have hlen := h.bounded
  have hsuffix := h.newest
  have hsub := h.subsequence
  rw [hitems] at hlen hsuffix hsub
  refine ⟨?_, ?_, h.subscribed, ?_, h.since, ?_, ?_, h.made, h.distinct⟩
  · simp only [hqueue, hmaxsize, h.maxsize]
  · simp only [hqueue]
    rw [List.length_cons] at hlen
    omega
  · intro hle
    have hempty := (h.unopened hle).2.2.2
    rw [hitems] at hempty
    cases hempty
  · simp only [hqueue]
    exact (List.suffix_cons event rest.items).trans hsuffix
  · simp only [hqueue, hconsumed, List.append_assoc]
    exact hsub

theorem keeps_get (h : Keeps N s) (j : Nat) : Keeps N (s.get j) := by
  cases hget : (s.queues j).getNowait with
  | none =>
      rw [get_of_none hget]
      exact h
  | some taken =>
      rw [get_of_some hget]
      refine ⟨h.size, h.nodup, fun k => ?_⟩
      by_cases hk : k = j
      · subst hk
        exact (h.queues k).taken hget (Function.update_self _ _ _)
      · have hother : ¬ j = k := fun heq => hk heq.symm
        refine (h.queues k).quiet (Function.update_of_ne hk _ _) (Nat.le_refl _) (Nat.le_refl _)
          Iff.rfl rfl rfl ?_ fun _ => rfl
        simp [consumed, hother]

theorem keeps_step (h : Keeps N s) (hN : 1 ≤ N) (action : BusAction) : Keeps N (s.step action) := by
  cases action with
  | publish type data createdAt => exact keeps_publish h hN rfl
  | subscribe => exact keeps_subscribe h hN
  | unsubscribe k => exact keeps_unsubscribe h k
  | get k => exact keeps_get h k

theorem keeps_run {N : Int} (hN : 1 ≤ N) (actions : List BusAction) :
    Keeps N (Runs.run step (new N) actions) :=
  Runs.run_preserves (I := Keeps N) (fun _ action hs => keeps_step hs hN action) (keeps_new hN)
    actions

/-! ## How events leave a queue -/

/-- An event that a step takes out of a queue: its consumer has got it, or a
publication has found the queue full and dropped its oldest. -/
theorem leaves_cases (h : Keeps N s) (hN : 1 ≤ N) {action : BusAction} {k : Nat} {event : Event}
    (hbefore : event ∈ (s.queues k).items) (hafter : event ∉ ((s.step action).queues k).items) :
    consumed k (s.step action).log = consumed k s.log ++ [event] ∨
      (∃ type data createdAt, action = .publish type data createdAt) ∧
        (s.queues k).items.length = N ∧ (s.queues k).items.head? = some event := by
  cases action with
  | publish type data createdAt =>
      right
      have hqueue := offerAll_apply h.nodup (s.eventOf type data createdAt) s.queues k
      refine ⟨⟨_, _, _, rfl⟩, ?_⟩
      have hgone : event ∉ (offerAll (s.eventOf type data createdAt) s.bus.subscribers
          s.queues k).items := hafter
      rw [hqueue] at hgone
      split at hgone
      · have hitems := offer_items ((h.queues k).maxsize ▸ hN)
          ((h.queues k).maxsize.symm ▸ (h.queues k).bounded) (s.eventOf type data createdAt)
        rw [(h.queues k).maxsize] at hitems
        rw [hitems, List.mem_append, not_or] at hgone
        by_cases hfull : ((s.queues k).items.length : Int) = N
        · refine ⟨hfull, ?_⟩
          rw [if_pos hfull] at hgone
          cases hcons : (s.queues k).items with
          | nil => simp [hcons] at hbefore
          | cons x rest =>
              rw [hcons, List.tail_cons] at hgone
              rw [hcons] at hbefore
              rw [List.head?_cons, (List.mem_cons.mp hbefore).resolve_right hgone.1]
        · rw [if_neg hfull] at hgone
          exact absurd hbefore hgone.1
      · exact absurd hbefore hgone
  | subscribe =>
      refine absurd ?_ hafter
      by_cases hk : k = s.opened
      · subst hk
        rw [((h.queues s.opened).unopened (Nat.le_refl _)).2.2.2] at hbefore
        cases hbefore
      · have hqueue : s.subscribe.queues k = s.queues k := Function.update_of_ne hk _ _
        rw [step, hqueue]
        exact hbefore
  | unsubscribe j =>
      refine absurd ?_ hafter
      rw [step, unsubscribe]
      split <;> exact hbefore
  | get j =>
      left
      rw [step] at hafter ⊢
      cases hget : (s.queues j).getNowait with
      | none =>
          rw [get_of_none hget] at hafter
          exact absurd hbefore hafter
      | some taken =>
          obtain ⟨taken, rest⟩ := taken
          obtain ⟨hitems, -⟩ := Queue.getNowait_eq_some.mp hget
          rw [get_of_some hget] at hafter ⊢
          by_cases hk : k = j
          · subst hk
            simp only [Function.update_self] at hafter
            rw [hitems] at hbefore
            obtain rfl := (List.mem_cons.mp hbefore).resolve_right hafter
            simp [consumed]
          · simp only [Function.update_of_ne hk] at hafter
            exact absurd hbefore hafter

/-- Publishing leaves a queue alone whose subscriber has left. -/
theorem publish_of_notMem (h : Keeps N s) {k : Nat} (hk : k ∉ s.bus.subscribers) (event : Event) :
    (s.publish event).queues k = s.queues k := by
  have hqueue := offerAll_apply h.nodup event s.queues k
  rwa [if_neg hk] at hqueue

/-- Publishing puts the event at the end of the queue of a subscriber. -/
theorem publish_of_mem (h : Keeps N s) {k : Nat} (hk : k ∈ s.bus.subscribers) (event : Event) :
    ((s.publish event).queues k).items.getLast? = some event := by
  have hqueue : (s.publish event).queues k = offer (s.queues k) event :=
    (offerAll_apply h.nodup event s.queues k).trans (if_pos hk)
  obtain ⟨kept, -, hoffer⟩ := offer_eq (s.queues k) event
  rw [hqueue, hoffer, List.getLast?_concat]

/-! ## The subscribers' view -/

/-- What the bus owes each subscriber, and what a step may do to a queue. -/
structure KeepsNewest (N : Int) (s : Streams) : Prop where
  bounded : ∀ k, ((s.queues k).items.length : Int) ≤ N
  /-- Everything published since is heard, as long as the subscriber stays. -/
  since : ∀ k ∈ s.bus.subscribers, heard k s.log = publishedSince k s.log
  newest : ∀ k, (s.queues k).items <:+ heard k s.log
  subsequence : ∀ k, (consumed k s.log ++ (s.queues k).items).Sublist (heard k s.log)
  once : ∀ k, (consumed k s.log ++ (s.queues k).items).Nodup
  /-- Consumed, or dropped as the oldest of a full queue. -/
  leaves : ∀ action k event, event ∈ (s.queues k).items →
    event ∉ ((s.step action).queues k).items →
      consumed k (s.step action).log = consumed k s.log ++ [event] ∨
        (∃ type data createdAt, action = .publish type data createdAt) ∧
          (s.queues k).items.length = N ∧ (s.queues k).items.head? = some event
  /-- A publication ends with its event last in the queue of every subscriber. -/
  enqueued : ∀ k ∈ s.bus.subscribers, ∀ type data createdAt,
    ((s.step (.publish type data createdAt)).queues k).items.getLast? =
      some (s.eventOf type data createdAt)
  apart : ∀ k ∉ s.bus.subscribers, ∀ type data createdAt,
    (s.step (.publish type data createdAt)).queues k = s.queues k

theorem Keeps.keepsNewest (h : Keeps N s) (hN : 1 ≤ N) : KeepsNewest N s where
  bounded k := (h.queues k).bounded
  since k hk := (h.queues k).since ((h.queues k).subscribed.mp hk)
  newest k := (h.queues k).newest
  subsequence k := (h.queues k).subsequence
  once k := (h.queues k).distinct.sublist (h.queues k).subsequence
  leaves _ _ _ := leaves_cases h hN
  enqueued _ hk _ _ _ := publish_of_mem h hk _
  apart _ hk _ _ _ := publish_of_notMem h hk _

/-- **The queues keep the newest events**, whoever publishes, subscribes,
leaves and takes events in whatever order, and offering an event to a queue
always ends with the event in it. -/
theorem queues_keep_newest {N : Int} (hN : 1 ≤ N) (actions : List BusAction) :
    KeepsNewest N (Runs.run step (new N) actions) ∧
      ∀ (queue : Queue Event) (event : Event), ∃ kept, kept <:+ queue.items ∧
        offer queue event = { queue with items := kept ++ [event] } :=
  ⟨(keeps_run hN actions).keepsNewest hN, offer_eq⟩

/-- Two subscribers; the first one misses an event and leaves. -/
def sampleActions : List BusAction :=
  [.subscribe, .publish "alert" [] 1, .subscribe, .publish "alert" [] 2, .publish "alert" [] 3, .get 0,
    .unsubscribe 0, .publish "alert" [] 4]

theorem queues_keep_newest_sample :
    KeepsNewest 2 (Runs.run step (new 2) sampleActions) ∧
      ∀ (queue : Queue Event) (event : Event), ∃ kept, kept <:+ queue.items ∧
        offer queue event = { queue with items := kept ++ [event] } :=
  queues_keep_newest (by decide) sampleActions

end Streams

end ThreatIntel
