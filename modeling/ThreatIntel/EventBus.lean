import Mathlib.Data.List.Infix
import Mathlib.Data.List.Nodup
import Mathlib.Logic.Function.Basic
import ThreatIntel.Json
import ThreatIntel.Runs

/-!
# The event bus

`app/core/events.py`: every subscriber has a bounded queue, and an event
that finds one full takes the place of the oldest event in it. Publishing
does not wait, so a publication is one step, and so is each of the others:
a subscriber coming or going, a consumer taking the head of its queue.

The log says what has happened. What a queue holds is the end of what its
subscriber could have heard, and what its consumer got, followed by what
the queue holds, leaves out some of that and puts nothing in (`Keeps`).
-/

namespace ThreatIntel

/-! ## asyncio.Queue -/

structure Queue (α : Type*) where
  maxsize : Int
  items : List α
  deriving DecidableEq, Repr

namespace Queue

variable {α : Type*}

/-- `full()`: a size of zero or less is no bound. -/
def full (q : Queue α) : Bool := 0 < q.maxsize && q.maxsize ≤ q.items.length

/-- `put_nowait`; `none` stands for `QueueFull`. -/
def putNowait (q : Queue α) (item : α) : Option (Queue α) :=
  if q.full then none else some { q with items := q.items ++ [item] }

/-- `get_nowait`; `none` stands for `QueueEmpty`. -/
def getNowait (q : Queue α) : Option (α × Queue α) :=
  match q.items with
  | [] => none
  | item :: items => some (item, { q with items })

theorem getNowait_eq_some {q q' : Queue α} {item : α} :
    q.getNowait = some (item, q') ↔ q.items = item :: q'.items ∧ q'.maxsize = q.maxsize := by
  obtain ⟨maxsize, items⟩ := q
  obtain ⟨maxsize', items'⟩ := q'
  cases items with
  | nil => simp [getNowait]
  | cons x items =>
      simp only [getNowait, Option.some.injEq, Prod.mk.injEq, mk.injEq, List.cons.injEq]
      exact ⟨fun ⟨hx, hmax, hitems⟩ => ⟨⟨hx, hitems⟩, hmax.symm⟩,
        fun ⟨⟨hx, hitems⟩, hmax⟩ => ⟨hx, hmax.symm, hitems⟩⟩

theorem getNowait_of_full {q : Queue α} (h : q.full = true) :
    ∃ item q', q.getNowait = some (item, q') := by
  obtain ⟨maxsize, items⟩ := q
  cases items with
  | nil =>
      simp only [full, List.length_nil, Bool.and_eq_true, decide_eq_true_eq] at h
      omega
  | cons x items => exact ⟨x, _, rfl⟩

end Queue

/-! ## Events -/

/-- `Event`, with the identity of the object: two events may say the same.
The time is in microseconds. -/
structure Event where
  object : Nat
  type : String
  data : List (PyStr × Json)
  createdAt : Int

/-- `_offer`. A round that does not end the loop has taken an event from the
queue, so there are no more rounds than events. -/
def offer (queue : Queue Event) (event : Event) : Queue Event :=
  match queue.putNowait event with
  | some queue' => queue'
  | none =>
      match _hget : queue.getNowait with
      | some (_, queue') => offer queue' event
      -- drained concurrently
      | none => queue
termination_by queue.items.length
decreasing_by
  rw [(Queue.getNowait_eq_some.mp _hget).1]
  exact Nat.lt_succ_self _

theorem offer_of_not_full {q : Queue Event} (h : q.full = false) (event : Event) :
    offer q event = { q with items := q.items ++ [event] } := by
  rw [offer, Queue.putNowait, h]
  rfl

theorem offer_of_full {q : Queue Event} (h : q.full = true) (event : Event) :
    offer q event = offer { q with items := q.items.tail } event := by
  obtain ⟨item, q', hget⟩ := Queue.getNowait_of_full h
  obtain ⟨hitems, hmax⟩ := Queue.getNowait_eq_some.mp hget
  rw [offer, Queue.putNowait, h]
  simp only [if_true]
  split
  · next q'' hget' =>
      obtain ⟨hitems', hmax'⟩ := Queue.getNowait_eq_some.mp hget'
      rw [hitems', List.tail_cons, ← hmax']
  · next hnone =>
      rw [hget] at hnone
      cases hnone

/-- **`_offer` comes to an end with the event in the queue**, whatever the
queue holds: behind it, after some of the oldest have been dropped. -/
theorem offer_eq (q : Queue Event) (event : Event) :
    ∃ kept, kept <:+ q.items ∧ offer q event = { q with items := kept ++ [event] } := by
  generalize hn : q.items.length = n
  induction n generalizing q with
  | zero =>
      have hfull : q.full = false := by
        by_contra h
        obtain ⟨item, q', hget⟩ := Queue.getNowait_of_full (by simpa using h)
        rw [(Queue.getNowait_eq_some.mp hget).1] at hn
        cases hn
      exact ⟨q.items, List.suffix_refl _, offer_of_not_full hfull event⟩
  | succ n ih =>
      cases hfull : q.full with
      | false => exact ⟨q.items, List.suffix_refl _, offer_of_not_full hfull event⟩
      | true =>
          have hlen : q.items.tail.length = n := by rw [List.length_tail, hn, Nat.succ_sub_one]
          obtain ⟨kept, hkept, heq⟩ := ih { q with items := q.items.tail } hlen
          refine ⟨kept, hkept.trans (List.tail_suffix _), ?_⟩
          rw [offer_of_full hfull, heq]

/-- A queue within its bound drops one event if it is full, and none
otherwise. -/
theorem offer_items {q : Queue Event} (hpos : 1 ≤ q.maxsize) (hle : q.items.length ≤ q.maxsize)
    (event : Event) :
    (offer q event).items =
      (if q.items.length = q.maxsize then q.items.tail else q.items) ++ [event] := by
  by_cases hfull : (q.items.length : Int) = q.maxsize
  · have hcond : q.full = true := by
      simp only [Queue.full, Bool.and_eq_true, decide_eq_true_eq]
      omega
    have hroom : ({ q with items := q.items.tail } : Queue Event).full = false := by
      simp only [Queue.full, Bool.and_eq_false_iff, decide_eq_false_iff_not, List.length_tail]
      omega
    rw [offer_of_full hcond, offer_of_not_full hroom, if_pos hfull]
  · have hroom : q.full = false := by
      simp only [Queue.full, Bool.and_eq_false_iff, decide_eq_false_iff_not]
      omega
    rw [offer_of_not_full hroom, if_neg hfull]

theorem maxsize_offer (q : Queue Event) (event : Event) : (offer q event).maxsize = q.maxsize := by
  obtain ⟨kept, -, heq⟩ := offer_eq q event
  rw [heq]

/-! ## The bus -/

/-- The subscribers are a set of queue objects. -/
structure EventBus where
  queueSize : Int
  subscribers : List Nat
  deriving DecidableEq, Repr

inductive BusEntry where
  | published (event : Event)
  | subscribed (queue : Nat)
  | unsubscribed (queue : Nat)
  | got (queue : Nat) (event : Event)

/-- The bus, the queue objects that have been made, how many events have
been, and the log (newest first). -/
structure Streams where
  bus : EventBus
  queues : Nat → Queue Event
  opened : Nat
  published : Nat
  log : List BusEntry

inductive BusAction where
  | publish (type : String) (data : List (PyStr × Json)) (createdAt : Int)
  | subscribe
  | unsubscribe (queue : Nat)
  | get (queue : Nat)

namespace Streams

def new (queueSize : Int) : Streams where
  bus := { queueSize, subscribers := [] }
  queues _ := { maxsize := queueSize, items := [] }
  opened := 0
  published := 0
  log := []

/-- The loop of `publish`. -/
def offerAll (event : Event) (subscribers : List Nat) (queues : Nat → Queue Event) :
    Nat → Queue Event :=
  subscribers.foldl (fun queues k => Function.update queues k (offer (queues k) event)) queues

/-- The event that a publication makes. -/
def eventOf (s : Streams) (type : String) (data : List (PyStr × Json)) (createdAt : Int) : Event where
  object := s.published
  type
  data
  createdAt

/-- `publish`. -/
def publish (s : Streams) (event : Event) : Streams :=
  { s with
    queues := offerAll event s.bus.subscribers s.queues
    published := s.published + 1
    log := .published event :: s.log }

/-- `subscribe`, up to the `yield`. -/
def subscribe (s : Streams) : Streams :=
  { s with
    bus := { s.bus with subscribers := s.opened :: s.bus.subscribers }
    queues := Function.update s.queues s.opened { maxsize := s.bus.queueSize, items := [] }
    opened := s.opened + 1
    log := .subscribed s.opened :: s.log }

/-- `subscribe`, from the `yield` on. -/
def unsubscribe (s : Streams) (queue : Nat) : Streams :=
  if queue ∈ s.bus.subscribers then
    { s with
      bus := { s.bus with subscribers := s.bus.subscribers.erase queue }
      log := .unsubscribed queue :: s.log }
  else s

/-- A consumer takes the head of its queue, if there is one. -/
def get (s : Streams) (queue : Nat) : Streams :=
  match (s.queues queue).getNowait with
  | some (event, rest) =>
      { s with
        queues := Function.update s.queues queue rest
        log := .got queue event :: s.log }
  | none => s

def step (s : Streams) : BusAction → Streams
  | .publish type data createdAt => s.publish (s.eventOf type data createdAt)
  | .subscribe => s.subscribe
  | .unsubscribe queue => s.unsubscribe queue
  | .get queue => s.get queue

end Streams

end ThreatIntel
