import Mathlib.Algebra.Order.Ring.Rat
import ThreatIntel.BreakerHistory
import ThreatIntel.Budget
import ThreatIntel.Dict
import ThreatIntel.Json

/-!
# The HTTP client of the collectors

`app/collectors/http.py`, with `async_retry` and the registry of breakers
from `app/core/resilience.py`. A fetch goes through the breaker of its
provider, tries up to three times while the connection fails, and takes an
error status or a body that is no JSON for a failure.

The other end is an `Internet`: what it answers, and how long that takes,
is up to it. What a routine leaves behind are the requests it has sent,
the clock and the breakers, and `Outgoing` says which of this it may have
touched.
-/

namespace ThreatIntel

/-- What a collector may raise: an error of the application,
`httpx.TransportError`, what reading a JSON value may raise, or any other
`Exception`. -/
inductive CollectExn where
  | app (error : AppError)
  | transport (message : String)
  | attributeError
  | keyError
  | typeError
  | valueError
  | other
  deriving DecidableEq, Repr

structure HttpRequest where
  url : String
  headers : List (String × PyStr) := []
  params : List (String × Detail) := []
  deriving DecidableEq, Repr

/-- A response: its status, what `json()` makes of the body, and its text. -/
structure Response where
  statusCode : Int
  json : Except CollectExn Json
  text : PyStr := []

/-- The other end: its answer to the n-th request, and the time until it
is there. -/
structure Internet where
  respond : Nat → HttpRequest → Except CollectExn Response
  takes : Nat → ℚ
  takes_nonneg : ∀ n, 0 ≤ takes n

/-- What the process knows of its requests: the clock, the requests it has
sent, and `_breakers`. -/
structure Outbound where
  now : ℚ
  sent : List HttpRequest := []
  breakers : Dict String (CircuitBreaker ℚ) := .empty

abbrev CollectRoutine := Routine CollectExn Outbound

/-- `client.get(url, headers=headers, params=params)`. -/
def Internet.get (net : Internet) (r : HttpRequest) : CollectRoutine Response := fun w =>
  (net.respond w.sent.length r,
    { w with now := w.now + net.takes w.sent.length, sent := w.sent ++ [r] })

/-- `asyncio.sleep`: a pause that is not positive is none. -/
def sleep (delay : ℚ) : CollectRoutine Unit := .update fun w => { w with now := w.now + max delay 0 }

/-- `async_retry`; without an attempt its assertion fails. -/
def asyncRetry {α : Type} (attempts : Nat) (exceptions : CollectExn → Bool) (func : CollectRoutine α)
    (baseDelay : ℚ := 2 / 10) (maxDelay : ℚ := 5) : CollectRoutine α :=
  match attempts with
  | 0 => .raise .other
  | attempts + 1 =>
      .retryFrom exceptions (fun delay => sleep (min delay maxDelay)) (· * 2) func attempts baseDelay

/-! ## Breakers by name -/

namespace Outbound

/-- The breaker of this name, a new one if there is none. -/
def breaker (w : Outbound) (name : String) : CircuitBreaker ℚ :=
  (w.breakers.get? name).getD (.new name 5 30)

def setBreaker (w : Outbound) (name : String) (b : CircuitBreaker ℚ) : Outbound :=
  { w with breakers := w.breakers.set name b }

@[simp] theorem breaker_setBreaker_self (w : Outbound) (name : String) (b : CircuitBreaker ℚ) :
    (w.setBreaker name b).breaker name = b := by
  simp [breaker, setBreaker]

end Outbound

/-- `get_circuit_breaker`: what it returns is known by its name. -/
def getCircuitBreaker (name : String) : CollectRoutine Unit :=
  .update fun w => w.setBreaker name (w.breaker name)

/-- `CircuitBreaker.call`. -/
def callBreaker {α : Type} (name : String) (func : CollectRoutine α) : CollectRoutine α := fun w =>
  match (w.breaker name).enter w.now with
  | (.error e, b) => (.error (.app e), w.setBreaker name b)
  | (.ok (), b) =>
      match func.run (w.setBreaker name b) with
      | (.error e, w') => (.error e, w'.setBreaker name ((w'.breaker name).recordFailure w'.now))
      | (.ok a, w') => (.ok a, w'.setBreaker name (w'.breaker name).recordSuccess)

section

variable {α : Type} {name : String} {func : CollectRoutine α} {w w' : Outbound}
  {b : CircuitBreaker ℚ}

theorem run_callBreaker_refused {e : AppError} (h : (w.breaker name).enter w.now = (.error e, b)) :
    (callBreaker name func).run w = (.error (.app e), w.setBreaker name b) := by
  simp only [Routine.run, callBreaker, h]

theorem run_callBreaker_error {e : CollectExn} (h : (w.breaker name).enter w.now = (.ok (), b))
    (hrun : func.run (w.setBreaker name b) = (.error e, w')) :
    (callBreaker name func).run w =
      (.error e, w'.setBreaker name ((w'.breaker name).recordFailure w'.now)) := by
  simp only [Routine.run] at hrun
  simp only [Routine.run, callBreaker, h, hrun]

theorem run_callBreaker_ok {a : α} (h : (w.breaker name).enter w.now = (.ok (), b))
    (hrun : func.run (w.setBreaker name b) = (.ok a, w')) :
    (callBreaker name func).run w = (.ok a, w'.setBreaker name (w'.breaker name).recordSuccess) := by
  simp only [Routine.run] at hrun
  simp only [Routine.run, callBreaker, h, hrun]

end

/-! ## The client -/

structure ProviderHttpClient where
  provider : String
  deriving DecidableEq, Repr

namespace ProviderHttpClient

/-- `f"collector:{provider}"`. -/
def breakerName (provider : String) : String := "collector:" ++ provider

/-- `ProviderHttpClient(provider)`. -/
def new (provider : String) : CollectRoutine ProviderHttpClient := do
  getCircuitBreaker (breakerName provider)
  pure { provider }

/-- `isinstance(exc, httpx.TransportError)`. -/
def isTransport : CollectExn → Bool
  | .transport _ => true
  | _ => false

def unreachable (provider : String) : CollectExn → Option (CollectRoutine Response)
  | .transport message =>
      some (.raise (.app (.raise .collectorUnavailable (provider ++ " is unreachable: " ++ message)
        [("provider", .str provider)])))
  | _ => none

/-- `_do`. -/
def fetch (net : Internet) (provider : String) (r : HttpRequest) : CollectRoutine Json := do
  let resp ← .tryExcept (asyncRetry 3 isTransport (net.get r)) (unreachable provider)
  .raiseIf (500 ≤ resp.statusCode)
    (.app (.raise .collectorUnavailable (provider ++ " returned " ++ toString resp.statusCode)
      [("provider", .str provider)]))
  .raiseIf (400 ≤ resp.statusCode)
    (.app (.raise .collector (provider ++ " returned " ++ toString resp.statusCode)
      [("provider", .str provider), ("status", .int resp.statusCode)]))
  .ofExcept resp.json

/-- `get_json`. -/
def getJson (net : Internet) (client : ProviderHttpClient) (r : HttpRequest) : CollectRoutine Json :=
  callBreaker (breakerName client.provider) (fetch net client.provider r)

end ProviderHttpClient

/-! ## What is sent -/

/-- Between two states at most `k` requests have been sent, all of them as
`P` says, and no breakers but those of certain names have been touched. -/
structure Outgoing (P : HttpRequest → Prop) (touched : String → Prop) (k : Nat) (w w' : Outbound) :
    Prop where
  sent : ∃ new, w'.sent = w.sent ++ new ∧ new.length ≤ k ∧ ∀ r ∈ new, P r
  now : w.now ≤ w'.now
  breakers : ∀ name, ¬ touched name → w'.breakers.get? name = w.breakers.get? name

section

variable {P P' : HttpRequest → Prop} {touched touched' : String → Prop} {net : Internet}
  {r : HttpRequest} {w w' : Outbound}

theorem graded_outgoing (P : HttpRequest → Prop) (touched : String → Prop) :
    Routine.Graded (Outgoing P touched) where
  refl w := ⟨⟨[], by simp⟩, le_rfl, fun _ _ => rfl⟩
  trans := by
    rintro j k w w₁ w₂ ⟨⟨new, hsent, hlen, hP⟩, hnow, hb⟩ ⟨⟨new', hsent', hlen', hP'⟩, hnow', hb'⟩
    refine ⟨⟨new ++ new', by rw [hsent', hsent, List.append_assoc], ?_, ?_⟩, hnow.trans hnow',
      fun name hname => (hb' name hname).trans (hb name hname)⟩
    · rw [List.length_append]
      omega
    · exact fun r hr => (List.mem_append.mp hr).elim (hP r) (hP' r)
  mono := by
    rintro j k w w' ⟨⟨new, hsent, hlen, hP⟩, hnow, hb⟩ hjk
    exact ⟨⟨new, hsent, hlen.trans hjk, hP⟩, hnow, hb⟩

theorem Outgoing.imp {k : Nat} (h : Outgoing P touched k w w') (hP : ∀ r, P r → P' r)
    (htouched : ∀ name, touched name → touched' name) : Outgoing P' touched' k w w' := by
  obtain ⟨new, hsent, hlen, hnew⟩ := h.sent
  exact ⟨⟨new, hsent, hlen, fun r hr => hP r (hnew r hr)⟩, h.now,
    fun name hname => h.breakers name (mt (htouched name) hname)⟩

theorem outgoing_get (touched : String → Prop) (net : Internet) (r : HttpRequest) :
    Routine.Costs (Outgoing (· = r) touched) 1 (net.get r) := fun w =>
  ⟨⟨[r], rfl, le_rfl, by simp⟩, le_add_of_nonneg_right (net.takes_nonneg _), fun _ _ => rfl⟩

theorem outgoing_sleep (delay : ℚ) : Routine.Costs (Outgoing P touched) 0 (sleep delay) := fun _ =>
  ⟨⟨[], by simp [sleep]⟩, le_add_of_nonneg_right (le_max_right _ _), fun _ _ => rfl⟩

/-- Each attempt costs what `func` costs, and the pauses cost nothing. -/
theorem outgoing_asyncRetry {α : Type} {func : CollectRoutine α} {k : Nat}
    (h : Routine.Costs (Outgoing P touched) k func) (attempts : Nat) (exceptions : CollectExn → Bool)
    (baseDelay maxDelay : ℚ) :
    Routine.Costs (Outgoing P touched) (attempts * k)
      (asyncRetry attempts exceptions func baseDelay maxDelay) := by
  have hg := graded_outgoing P touched
  cases attempts with
  | zero => exact hg.weaken (hg.raise _) (Nat.zero_le _)
  | succ attempts => exact hg.retryFrom h (fun _ => outgoing_sleep _) attempts baseDelay

theorem outgoing_setBreaker (w : Outbound) (name : String) (b : CircuitBreaker ℚ) :
    Outgoing P (· = name) 0 w (w.setBreaker name b) :=
  ⟨⟨[], by simp [Outbound.setBreaker]⟩, le_rfl, fun _ h => Dict.get?_set_ne _ _ h⟩

namespace ProviderHttpClient

/-- Three requests at most, and no breaker is touched. -/
theorem outgoing_fetch (net : Internet) (provider : String) (r : HttpRequest) :
    Routine.Costs (Outgoing (· = r) fun _ => False) 3 (fetch net provider r) := by
  have hg := graded_outgoing (· = r) fun _ => False
  have hretry : Routine.Costs (Outgoing (· = r) fun _ => False) 3
      (asyncRetry 3 isTransport (net.get r)) :=
    outgoing_asyncRetry (outgoing_get _ net r) 3 _ _ _
  refine hg.bind (j := 3) (k := 0) (hg.tryExcept (k := 0) hretry ?_) fun resp => ?_
  · intro e y hy
    cases e with
    | transport message =>
        obtain rfl := Option.some.inj hy
        exact hg.raise _
    | _ => cases hy
  · exact hg.bind (j := 0) (k := 0) (hg.raiseIf _ _) fun _ =>
      hg.bind (j := 0) (k := 0) (hg.raiseIf _ _) fun _ => hg.ofExcept _

end ProviderHttpClient

/-- A call touches the breaker it goes through, and what its function may
touch. -/
theorem outgoing_callBreaker {α : Type} {func : CollectRoutine α} {k : Nat}
    (h : Routine.Costs (Outgoing P fun _ => False) k func) (name : String) :
    Routine.Costs (Outgoing P (· = name)) k (callBreaker name func) := by
  have hg := graded_outgoing P (· = name)
  intro w
  rcases henter : (w.breaker name).enter w.now with ⟨e | u, b⟩
  · rw [run_callBreaker_refused henter]
    exact hg.mono (outgoing_setBreaker w name b) (Nat.zero_le k)
  · have hfunc : Outgoing P (· = name) k (w.setBreaker name b) (func.run (w.setBreaker name b)).2 :=
      (h (w.setBreaker name b)).imp (fun _ h => h) fun _ h => h.elim
    have hcall := hg.trans (outgoing_setBreaker w name b) hfunc
    rw [Nat.zero_add] at hcall
    rcases hrun : func.run (w.setBreaker name b) with ⟨e | a, w'⟩
    · rw [hrun] at hcall
      rw [run_callBreaker_error henter hrun]
      exact hg.trans hcall (outgoing_setBreaker w' name _)
    · rw [hrun] at hcall
      rw [run_callBreaker_ok henter hrun]
      exact hg.trans hcall (outgoing_setBreaker w' name _)

namespace ProviderHttpClient

theorem run_new (provider : String) (w : Outbound) :
    (new provider).run w =
      (.ok { provider }, w.setBreaker (breakerName provider) (w.breaker (breakerName provider))) :=
  rfl

theorem outgoing_getJson (net : Internet) (client : ProviderHttpClient) (r : HttpRequest) :
    Routine.Costs (Outgoing (· = r) (· = breakerName client.provider)) 3 (getJson net client r) :=
  outgoing_callBreaker (outgoing_fetch net client.provider r) _

end ProviderHttpClient

/-! ## What the breaker sees -/

namespace CircuitBreaker

variable {K T E : Type*} [Sub K] [LinearOrder K] {b b' : CircuitBreaker K} {now : K}

theorem call_refused {e : AppError} (h : b.enter now = (.error e, b')) (outcome : Except E T)
    (ended : K) : b.call ⟨now, outcome, ended⟩ = (.rejected e, b') := by
  simp only [call, h]

theorem call_admitted (h : b.enter now = (.ok (), b')) (outcome : Except E T) (ended : K) :
    b.call ⟨now, outcome, ended⟩ = (.passed outcome, b'.record ⟨now, outcome, ended⟩) := by
  simp only [call, h]

end CircuitBreaker

/-- A call of the client is a call of the breaker: the function of an
admitted one has run from the state the breaker let it into, and one that
is turned away has sent nothing. -/
theorem breaker_callBreaker {α : Type} {func : CollectRoutine α} {k : Nat}
    (h : Routine.Costs (Outgoing P fun _ => False) k func) (name : String) (w : Outbound) :
    ∃ i : Invocation ℚ α CollectExn, i.started = w.now ∧
      i.ended = ((callBreaker name func).run w).2.now ∧
      i.outcome = (func.run (w.setBreaker name ((w.breaker name).enter w.now).2)).1 ∧
      ((callBreaker name func).run w).2.breaker name = ((w.breaker name).call i).2 ∧
      ∀ e, ((w.breaker name).call i).1 = .rejected e →
        ((callBreaker name func).run w).2.sent = w.sent := by
  refine ⟨⟨w.now, _, _⟩, rfl, rfl, rfl, ?_⟩
  rcases henter : (w.breaker name).enter w.now with ⟨e | u, b⟩
  · rw [CircuitBreaker.call_refused henter, run_callBreaker_refused henter]
    exact ⟨Outbound.breaker_setBreaker_self w name b, fun _ _ => rfl⟩
  · have hkept : (func.run (w.setBreaker name b)).2.breaker name = b := by
      have hsame := (h (w.setBreaker name b)).breakers name id
      rw [Outbound.breaker, hsame]
      exact Outbound.breaker_setBreaker_self w name b
    rw [CircuitBreaker.call_admitted henter]
    refine ⟨?_, nofun⟩
    rcases hrun : func.run (w.setBreaker name b) with ⟨e | a, w'⟩
    · rw [hrun] at hkept
      rw [run_callBreaker_error henter hrun, Outbound.breaker_setBreaker_self, hkept]
      simp only [CircuitBreaker.record]
      rfl
    · rw [hrun] at hkept
      rw [run_callBreaker_ok henter hrun, Outbound.breaker_setBreaker_self, hkept]
      simp only [CircuitBreaker.record]

end

/-! ## A provider that is down -/

/-- A connection that fails, an error status, or a body that is no JSON. -/
def Fails : Except CollectExn Response → Prop
  | .error _ => True
  | .ok resp => 400 ≤ resp.statusCode ∨ ∃ e, resp.json = .error e

/-- A fetch fails if from now on every answer to the request is a failure. -/
theorem ProviderHttpClient.fetch_fails {net : Internet} {r : HttpRequest} {w : Outbound}
    (hdown : ∀ n, w.sent.length ≤ n → Fails (net.respond n r)) (provider : String) :
    ∃ e, ((fetch net provider r).run w).1 = .error e := by
  have hget : ∀ v : Outbound, w.sent.length ≤ v.sent.length → Fails ((net.get r).run v).1 :=
    fun v hv => hdown v.sent.length hv
  have hkeeps : Routine.Keeps (fun v : Outbound => w.sent.length ≤ v.sent.length) (net.get r) := by
    intro v hv
    refine hv.trans ?_
    simp [Routine.run, Internet.get]
  have hretry : Fails ((asyncRetry 3 isTransport (net.get r)).run w).1 := by
    refine Routine.run_retryFrom hget hkeeps ?_ (fun delay v => ⟨(), _, rfl⟩) 2 _ le_rfl
    exact fun delay v hv => hv
  rw [fetch]
  rcases hrun : (asyncRetry 3 isTransport (net.get r)).run w with ⟨e | resp, w'⟩
  · have hcaught : ∃ e', ((Routine.tryExcept (asyncRetry 3 isTransport (net.get r))
        (unreachable provider)).run w) = (.error e', w') := by
      cases hhandler : unreachable provider e with
      | none => exact ⟨e, Routine.tryExcept_uncaught hrun hhandler⟩
      | some y =>
          rw [Routine.tryExcept_caught hrun hhandler]
          cases e with
          | transport message =>
              obtain rfl := Option.some.inj hhandler
              exact ⟨_, rfl⟩
          | _ => cases hhandler
    obtain ⟨e', he'⟩ := hcaught
    exact ⟨e', by rw [Routine.run_bind_error he']⟩
  · rw [hrun] at hretry
    rw [Routine.run_bind_ok (Routine.tryExcept_ok hrun), Routine.run_bind_raiseIf]
    split
    · exact ⟨_, rfl⟩
    · rw [Routine.run_bind_raiseIf]
      split
      · exact ⟨_, rfl⟩
      · next hstatus =>
          have hjson : ∃ e, resp.json = .error e := hretry.resolve_left (by simpa using hstatus)
          obtain ⟨e, he⟩ := hjson
          exact ⟨e, by rw [Routine.run_ofExcept, he]⟩

end ThreatIntel
