import Mathlib.Tactic.Linarith
import ThreatIntel.CollectorFactory

/-!
# What an outage costs

Collectors that run one after another in one process, of any sources, with
pauses between them, and in a worker with the breakers dropped at the end of
a task. A provider that is down fails every fetch, so its breaker opens with
the fifth at the latest and from then on lets one fetch through for every
thirty seconds that have passed. Each fetch tries three times. So the
requests that a dead provider is sent are bounded by the time it has been
dead (`Outage`), however often its collector is run.

The feeds go through no breaker; here the source is one of the others.
-/

namespace ThreatIntel

/-! ## The breaker between two runs -/

/-- A breaker as it is between two calls: closed or open, with no probe under
way. A call that is cancelled may leave it otherwise. -/
structure Idle (b : CircuitBreaker ℚ) (now : ℚ) : Prop where
  config : b.failureThreshold = 5 ∧ b.recoveryTimeout = 30
  counted : 0 ≤ b.failures
  settled : b.state = .closed ∨ b.state = .open ∧ b.openedAt ≤ now

namespace Idle

variable {b : CircuitBreaker ℚ} {now : ℚ}

theorem new (name : String) (now : ℚ) : Idle (.new name 5 30) now := ⟨⟨rfl, rfl⟩, le_rfl, .inl rfl⟩

theorem wait (h : Idle b now) {later : ℚ} (hle : now ≤ later) : Idle b later where
  config := h.config
  counted := h.counted
  settled := h.settled.imp id fun ⟨hopen, hlast⟩ => ⟨hopen, hlast.trans hle⟩

/-- The end of a call that was let through. -/
theorem record {T E : Type*} {i : Invocation ℚ T E}
    (hconfig : b.failureThreshold = 5 ∧ b.recoveryTimeout = 30) (hcounted : 0 ≤ b.failures)
    (hstate : b.state = .closed ∨ b.state = .halfOpen) : Idle (b.record i) i.ended := by
  obtain ⟨started, outcome, ended⟩ := i
  cases outcome with
  | ok result => exact ⟨hconfig, le_rfl, .inl rfl⟩
  | error e =>
      have hmore : 0 ≤ b.failures + 1 := by omega
      simp only [CircuitBreaker.record, CircuitBreaker.recordFailure]
      by_cases hopens : b.opens = true
      · rw [if_pos hopens]
        exact ⟨hconfig, hmore, .inr ⟨rfl, le_rfl⟩⟩
      · rw [if_neg hopens]
        refine ⟨hconfig, hmore, .inl (hstate.resolve_right fun hhalf => hopens ?_)⟩
        simp [CircuitBreaker.opens, hhalf]

theorem call {T E : Type*} {i : Invocation ℚ T E} (h : Idle b i.started)
    (hended : i.started ≤ i.ended) : Idle (b.call i).2 i.ended := by
  rcases h.settled with hclosed | ⟨hopen, hlast⟩
  · rw [CircuitBreaker.call_of_closed hclosed]
    exact record h.config h.counted (.inl hclosed)
  · rcases lt_or_ge (i.started - b.openedAt) b.recoveryTimeout with hwait | hwaited
    · rw [CircuitBreaker.call_of_waiting hopen hwait]
      exact h.wait hended
    · rw [CircuitBreaker.call_of_waited hopen hwaited]
      exact record h.config h.counted (.inr rfl)

/-- After half a minute the next call is let through. -/
theorem enter (h : Idle b now) {pause : ℚ} (hpause : 30 ≤ pause) :
    ∃ b', b.enter (now + max pause 0) = (.ok (), b') := by
  have hlater : now + 30 ≤ now + max pause 0 := add_le_add le_rfl (hpause.trans (le_max_left _ _))
  rcases h.settled with hclosed | ⟨hopen, hlast⟩
  · exact ⟨b, by simp [CircuitBreaker.enter, CircuitBreaker.canAttempt, hclosed]⟩
  · have hwaited : b.recoveryTimeout ≤ now + max pause 0 - b.openedAt := by
      rw [h.config.2]
      linarith
    exact ⟨{ b with state := .halfOpen, probeInFlight := true }, by
      simp only [CircuitBreaker.enter, CircuitBreaker.canAttempt, hopen, if_pos hwaited]⟩

end Idle

/-! ## The breaker of a provider that is down -/

/-- The breaker of a provider that has failed every fetch since `start`,
when `before` requests had been sent to it; the breakers have been dropped
`resets` times since then. -/
structure Outage (start : ℚ) (before resets : Nat) (b : CircuitBreaker ℚ) (requests : Nat)
    (now : ℚ) : Prop where
  config : b.failureThreshold = 5 ∧ b.recoveryTimeout = 30
  began : start ≤ now
  settled :
    b.state = .closed ∧ 0 ≤ b.failures ∧
        (requests : ℚ) ≤ before + 15 * resets + (now - start) / 10 + 3 * b.failures ∧
        (requests : ℚ) ≤ before + 15 * resets + (now - start) / 10 + 12 ∨
      b.state = .open ∧ 0 ≤ b.failures ∧ b.openedAt ≤ now ∧
        (requests ≤ before ∨
          (requests : ℚ) ≤ before + 15 * (resets + 1) + (b.openedAt - start) / 10)

namespace Outage

variable {start now : ℚ} {before resets : Nat} {b : CircuitBreaker ℚ} {requests : Nat}

/-- An outage may begin at any time. -/
theorem begin (h : Idle b now) (requests : Nat) : Outage now requests 0 b requests now where
  config := h.config
  began := le_rfl
  settled := by
    have hcounted : (0 : ℚ) ≤ b.failures := by exact_mod_cast h.counted
    rcases h.settled with hclosed | ⟨hopen, hlast⟩
    · refine .inl ⟨hclosed, h.counted, ?_, ?_⟩
      · push_cast
        linarith
      · push_cast
        linarith
    · exact .inr ⟨hopen, h.counted, hlast, .inl le_rfl⟩

theorem wait (h : Outage start before resets b requests now) {later : ℚ} (hle : now ≤ later) :
    Outage start before resets b requests later where
  config := h.config
  began := h.began.trans hle
  settled := by
    rcases h.settled with ⟨hclosed, hcounted, hfew, hmost⟩ | ⟨hopen, hcounted, hlast, hspent⟩
    · exact .inl ⟨hclosed, hcounted, by linarith, by linarith⟩
    · exact .inr ⟨hopen, hcounted, hlast.trans hle, hspent⟩

/-- Fifteen requests, as many for every reset, and three for every thirty
seconds. -/
theorem bound (h : Outage start before resets b requests now) :
    (requests : ℚ) ≤ before + 15 * (1 + resets) + (now - start) / 10 := by
  have hbegan := h.began
  rcases h.settled with ⟨-, -, -, hmost⟩ | ⟨-, -, hlast, hnone | hspent⟩
  · linarith
  · have hnone : (requests : ℚ) ≤ before := by exact_mod_cast hnone
    have hresets : (0 : ℚ) ≤ resets := Nat.cast_nonneg resets
    linarith
  · linarith

/-- A new breaker starts to count anew. -/
theorem reset (h : Outage start before resets b requests now) (name : String) :
    Outage start before (resets + 1) (.new name 5 30) requests now where
  config := ⟨rfl, rfl⟩
  began := h.began
  settled := by
    have hbound := h.bound
    refine .inl ⟨rfl, le_rfl, ?_, ?_⟩
    · push_cast [CircuitBreaker.new]
      linarith
    · push_cast
      linarith

variable {T E : Type*} {i : Invocation ℚ T E}

/-- A fetch that fails: it is turned away, or it makes three requests and
keeps the breaker closed, or it opens it, for the first time or anew. -/
theorem call (h : Outage start before resets b requests i.started)
    (hfails : ∃ e, i.outcome = .error e) (hended : i.started ≤ i.ended) {sent : Nat}
    (hsent : sent ≤ 3) (hrefused : ∀ e, (b.call i).1 = .rejected e → sent = 0) :
    Outage start before resets (b.call i).2 (requests + sent) i.ended := by
  obtain ⟨now, outcome, ended⟩ := i
  obtain ⟨e, rfl : outcome = .error e⟩ := hfails
  obtain ⟨hthreshold, htimeout⟩ := h.config
  have hbegan : start ≤ ended := h.began.trans hended
  have hended : now ≤ ended := hended
  have hsent : (sent : ℚ) ≤ 3 := by exact_mod_cast hsent
  rcases h.settled with ⟨hclosed, hcounted, hfew, hmost⟩ | ⟨hopen, hcounted, hlast, hspent⟩
  · dsimp only at hfew hmost
    rw [CircuitBreaker.call_of_closed hclosed]
    simp only [CircuitBreaker.record, CircuitBreaker.recordFailure]
    by_cases hopens : b.opens = true
    · rw [if_pos hopens]
      refine ⟨⟨hthreshold, htimeout⟩, hbegan, .inr ⟨rfl, by dsimp only; omega, le_rfl, .inr ?_⟩⟩
      push_cast
      linarith
    · have hfour : b.failures + 1 < 5 := by
        simpa [CircuitBreaker.opens, hclosed, hthreshold] using hopens
      have hfour : (b.failures : ℚ) + 1 ≤ 4 := by exact_mod_cast Int.le_of_lt_add_one hfour
      rw [if_neg hopens]
      refine ⟨⟨hthreshold, htimeout⟩, hbegan, .inl ⟨hclosed, by dsimp only; omega, ?_, ?_⟩⟩
      · push_cast
        linarith
      · push_cast
        linarith
  · rcases lt_or_ge (now - b.openedAt) b.recoveryTimeout with hwait | hwaited
    · have hcall :=
        CircuitBreaker.call_of_waiting (T := T) (i := ⟨now, .error e, ended⟩) hopen hwait
      rw [hcall] at hrefused ⊢
      obtain rfl := hrefused _ rfl
      exact h.wait hended
    · have hcall :=
        CircuitBreaker.call_of_waited (T := T) (i := ⟨now, .error e, ended⟩) hopen hwaited
      rw [htimeout] at hwaited
      rw [hcall]
      simp only [CircuitBreaker.record, CircuitBreaker.recordFailure, CircuitBreaker.opens,
        decide_true, Bool.true_or, if_true]
      refine ⟨⟨hthreshold, htimeout⟩, hbegan, .inr ⟨rfl, by dsimp only; omega, le_rfl, .inr ?_⟩⟩
      push_cast
      rcases hspent with hnone | hspent
      · have hnone : (requests : ℚ) ≤ before := by exact_mod_cast hnone
        have hresets : (0 : ℚ) ≤ resets := Nat.cast_nonneg resets
        linarith
      · linarith

end Outage

/-! ## A source and its breaker -/

namespace Source

theorem url_injective : Function.Injective url := by
  intro s t h
  cases s <;> cases t <;> first | rfl | exact absurd h (by decide)

theorem breakerName_injective : Function.Injective breakerName := by
  intro s t h
  cases s <;> cases t <;> first | rfl | exact absurd h (by decide)

/-- The request of a source that answers in JSON, and what is made of the
answer. -/
def asks (E : CollectorEnv) (apiKey : PyStr) (limit : Nat) :
    Source → Option (HttpRequest × (Json → Except CollectExn (List Collected)))
  | abuseipdb =>
      some
        ({ url := "https://api.abuseipdb.com/api/v2/blacklist"
           headers := [("Key", apiKey), ("Accept", "application/json".toList)]
           params := [("confidenceMinimum", .int 75), ("limit", .int limit)] },
          AbuseIPDBCollector.normalise E limit)
  | urlhaus =>
      some ({ url := "https://urlhaus.abuse.ch/downloads/json_recent/" },
        URLHausCollector.normalise E limit)
  | malwarebazaar =>
      some
        ({ url := "https://mb-api.abuse.ch/api/v1/"
           params := [("query", .str "get_recent"), ("selector", .str "time")] },
          MalwareBazaarCollector.normalise E limit)
  | otx =>
      some
        ({ url := "https://otx.alienvault.com/api/v1/pulses/subscribed"
           headers := [("X-OTX-API-KEY", apiKey)]
           params := [("limit", .int limit)] },
          OTXCollector.normalise E limit)
  | cisaKev =>
      some
        ({ url :=
             "https://www.cisa.gov/sites/default/files/feeds/known_exploited_vulnerabilities.json" },
          CisaKevCollector.normalise E limit)
  | rss => none

variable {E : CollectorEnv} {apiKey : PyStr} {limit : Nat} {source : Source} {r : HttpRequest}
  {normalise : Json → Except CollectExn (List Collected)}

theorem collectLive_of_asks (h : source.asks E apiKey limit = some (r, normalise)) :
    source.collectLive E apiKey limit = collectJson E source.name r normalise ∧
      r.url = source.url := by
  cases source with
  | rss => cases h
  | _ =>
      obtain ⟨rfl, rfl⟩ := Prod.mk.inj (Option.some.inj h)
      exact ⟨rfl, rfl⟩

theorem exists_asks (h : source ≠ .rss) (E : CollectorEnv) (apiKey : PyStr) (limit : Nat) :
    ∃ r normalise, source.asks E apiKey limit = some (r, normalise) := by
  cases source with
  | rss => exact absurd rfl h
  | _ => exact ⟨_, _, rfl⟩

end Source

namespace Outbound

/-- How many requests a source has been sent. -/
def requestsTo (source : Source) (w : Outbound) : Nat := w.sent.countP fun r => r.url = source.url

theorem requestsTo_append {source : Source} {w w' : Outbound} {new : List HttpRequest}
    (h : w'.sent = w.sent ++ new) :
    w'.requestsTo source = w.requestsTo source + new.countP fun r => r.url = source.url := by
  rw [requestsTo, h, List.countP_append, requestsTo]

end Outbound

section

variable {E : CollectorEnv} {source : Source} {start : ℚ} {w : Outbound}

/-- The state behind a live run is the state behind its fetch. -/
theorem state_collectJson (provider : String) (r : HttpRequest)
    (normalise : Json → Except CollectExn (List Collected)) (w : Outbound) :
    ((collectJson E provider r normalise).run w).2 =
      ((callBreaker (ProviderHttpClient.breakerName provider)
        (ProviderHttpClient.fetch E.toInternet provider r)).run
        (w.setBreaker (ProviderHttpClient.breakerName provider)
          (w.breaker (ProviderHttpClient.breakerName provider)))).2 := by
  rw [collectJson, Routine.run_bind_ok (ProviderHttpClient.run_new provider w), Routine.run_bind,
    ProviderHttpClient.getJson]
  rcases (callBreaker (ProviderHttpClient.breakerName provider)
      (ProviderHttpClient.fetch E.toInternet provider r)).run
      (w.setBreaker (ProviderHttpClient.breakerName provider)
        (w.breaker (ProviderHttpClient.breakerName provider))) with ⟨e | data, w'⟩
  · rfl
  · rfl

/-- What a live run of its collector does to a source: one call of its
breaker, from the start of the run to its end, with at most three requests,
and none if it is turned away. -/
structure Fetched (E : CollectorEnv) (source : Source) (w w' : Outbound)
    (i : Invocation ℚ Json CollectExn) (sent : Nat) : Prop where
  started : i.started = w.now
  ended : i.ended = w'.now
  now : w.now ≤ w'.now
  breaker : w'.breaker source.breakerName = ((w.breaker source.breakerName).call i).2
  requests : w'.requestsTo source = w.requestsTo source + sent
  sent_le : sent ≤ 3
  refused : ∀ e, ((w.breaker source.breakerName).call i).1 = .rejected e → sent = 0
  later : w.sent.length ≤ w'.sent.length
  down : (∀ n r, w.sent.length ≤ n → r.url = source.url → Fails (E.respond n r)) →
    ∃ e, i.outcome = .error e

theorem Fetched.started_le {E : CollectorEnv} {source : Source} {w w' : Outbound}
    {i : Invocation ℚ Json CollectExn} {sent : Nat} (h : Fetched E source w w' i sent) :
    i.started ≤ i.ended := by
  rw [h.started, h.ended]
  exact h.now

theorem fetched_collectLive (E : CollectorEnv) (hsource : source ≠ .rss) (apiKey : PyStr)
    (limit : Nat) (w : Outbound) :
    ∃ i sent, Fetched E source w ((source.collectLive E apiKey limit).run w).2 i sent := by
  obtain ⟨r, normalise, hasks⟩ := Source.exists_asks hsource E apiKey limit
  obtain ⟨hlive, hurl⟩ := Source.collectLive_of_asks hasks
  have hfetch := ProviderHttpClient.outgoing_fetch E.toInternet source.name r
  -- the client gets hold of the breaker, and then it is a call of that breaker
  generalize hw₁ : w.setBreaker source.breakerName (w.breaker source.breakerName) = w₁
  have hsame : w₁.sent = w.sent ∧ w₁.now = w.now ∧
      w₁.breaker source.breakerName = w.breaker source.breakerName := by
    rw [← hw₁]
    exact ⟨rfl, rfl, Outbound.breaker_setBreaker_self _ _ _⟩
  obtain ⟨hsent₁, hnow₁, hbreaker₁⟩ := hsame
  have hstate : ((source.collectLive E apiKey limit).run w).2 =
      ((callBreaker source.breakerName
        (ProviderHttpClient.fetch E.toInternet source.name r)).run w₁).2 := by
    rw [hlive, state_collectJson, ← hw₁]
    rfl
  obtain ⟨i, hstarted, hended, houtcome, hafter, hrefused⟩ :=
    breaker_callBreaker hfetch source.breakerName w₁
  have hcall := outgoing_callBreaker hfetch source.breakerName w₁
  obtain ⟨new, hsent, hlen, hnew⟩ := hcall.sent
  have hcount : new.countP (fun r => r.url = source.url) = new.length := by
    rw [List.countP_eq_length]
    intro x hx
    exact decide_eq_true ((congrArg HttpRequest.url (hnew x hx)).trans hurl)
  rw [hbreaker₁] at hafter hrefused
  rw [hstate]
  refine ⟨i, new.length, hstarted.trans hnow₁, hended, hnow₁ ▸ hcall.now, hafter, ?_, hlen, ?_,
    ?_, ?_⟩
  · rw [Outbound.requestsTo_append (hsent₁ ▸ hsent), hcount]
  · intro e he
    have hnone := hrefused e he
    rw [hsent] at hnone
    rw [List.self_eq_append_right.mp hnone.symm, List.length_nil]
  · rw [hsent, hsent₁, List.length_append]
    omega
  · intro hdown
    rw [houtcome]
    refine ProviderHttpClient.fetch_fails (fun n hn => hdown n r ?_ hurl) source.name
    rwa [← hsent₁]

/-- A live run of another collector does nothing to a source. -/
structure Untouched (source : Source) (w w' : Outbound) : Prop where
  now : w.now ≤ w'.now
  breaker : w'.breaker source.breakerName = w.breaker source.breakerName
  requests : w'.requestsTo source = w.requestsTo source
  later : w.sent.length ≤ w'.sent.length

theorem untouched_collectLive (E : CollectorEnv) {other : Source} (hother : other ≠ source)
    (apiKey : PyStr) (limit : Nat) (w : Outbound) :
    Untouched source w ((other.collectLive E apiKey limit).run w).2 := by
  have hcost := outgoing_collectLive E apiKey limit other w
  obtain ⟨new, hsent, -, hnew⟩ := hcost.sent
  refine ⟨hcost.now, ?_, ?_, ?_⟩
  · rw [Outbound.breaker,
      hcost.breakers _ fun heq => hother (Source.breakerName_injective heq.symm), Outbound.breaker]
  · have hcount : new.countP (fun r => r.url = source.url) = 0 := by
      rw [List.countP_eq_zero]
      intro r hr hurl
      rw [decide_eq_true_eq, (hnew r hr).url] at hurl
      exact hother (Source.url_injective hurl)
    rw [Outbound.requestsTo_append hsent, hcount, Nat.add_zero]
  · rw [hsent, List.length_append]
    omega

end

/-! ## Runs -/

/-- `reset_circuit_breakers`. -/
def resetCircuitBreakers : CollectRoutine Unit := .update fun w => { w with breakers := .empty }

/-- What happens in a process: time passes, a collector is run by name, or
the task of a worker is over, which drops the breakers. -/
inductive CollectorEvent where
  | wait (seconds : ℚ)
  | collect (name : PyStr) (limit : Nat)
  | reset
  deriving DecidableEq, Repr

/-- `factory.build(name)` and `collector.collect(limit=limit)`, and the end of
`_run`. -/
def collectorStep (E : CollectorEnv) (settings : CollectorSettings) (w : Outbound) :
    CollectorEvent → Outbound
  | .wait seconds => { w with now := w.now + max seconds 0 }
  | .collect name limit =>
      match settings.build name with
      | .error _ => w
      | .ok c => ((c.collect E limit).run w).2
  | .reset => (resetCircuitBreakers.run w).2

/-- What is left of a collector's run is what is left of its live run. -/
theorem state_collect (E : CollectorEnv) (c : Collector) (limit : Nat) (w : Outbound) :
    ((c.collect E limit).run w).2 =
      if c.isLive then ((c.source.collectLive E c.apiKey limit).run w).2 else w := by
  cases hlive : c.isLive with
  | false =>
      rw [Collector.collect, if_pos hlive, if_neg Bool.false_ne_true]
      rfl
  | true =>
      rw [Collector.collect, if_neg (by simp [hlive]), if_pos rfl]
      rcases hrun : (c.source.collectLive E c.apiKey limit).run w with ⟨e | out, w'⟩
      · rw [Routine.tryExcept_caught hrun rfl]
        rfl
      · rw [Routine.tryExcept_ok hrun]

/-- **One step**, as a source sees it: its own fetch, none of its business,
or a new breaker. -/
theorem collectorStep_cases (E : CollectorEnv) (settings : CollectorSettings) {source : Source}
    (hsource : source ≠ .rss) (w : Outbound) (event : CollectorEvent) :
    event ≠ .reset ∧
        ((∃ i sent, Fetched E source w (collectorStep E settings w event) i sent) ∨
          Untouched source w (collectorStep E settings w event)) ∨
      event = .reset ∧ collectorStep E settings w event = { w with breakers := .empty } := by
  cases event with
  | wait seconds =>
      exact .inl ⟨nofun, .inr ⟨le_add_of_nonneg_right (le_max_right _ _), rfl, rfl, le_rfl⟩⟩
  | reset => exact .inr ⟨rfl, rfl⟩
  | collect name limit =>
      refine .inl ⟨nofun, ?_⟩
      simp only [collectorStep]
      cases settings.build name with
      | error e => exact .inr ⟨le_rfl, rfl, rfl, le_rfl⟩
      | ok c =>
          simp only [state_collect]
          cases c.isLive with
          | false => exact .inr ⟨le_rfl, rfl, rfl, le_rfl⟩
          | true =>
              by_cases hsame : c.source = source
              · subst hsame
                exact .inl (fetched_collectLive E hsource c.apiKey limit w)
              · exact .inr (untouched_collectLive E hsame c.apiKey limit w)

section

variable {E : CollectorEnv} {source : Source} {start : ℚ} {before resets : Nat} {w : Outbound}

/-- **What an outage is after a step**: one reset more, if it was one. -/
theorem Outage.step
    (h : Outage start before resets (w.breaker source.breakerName) (w.requestsTo source) w.now)
    (hsource : source ≠ .rss)
    (hdown : ∀ n r, w.sent.length ≤ n → r.url = source.url → Fails (E.respond n r))
    (settings : CollectorSettings) (event : CollectorEvent) :
    Outage start before (resets + [event].count .reset)
        ((collectorStep E settings w event).breaker source.breakerName)
        ((collectorStep E settings w event).requestsTo source)
        (collectorStep E settings w event).now ∧
      w.sent.length ≤ (collectorStep E settings w event).sent.length := by
  rcases collectorStep_cases E settings hsource w event with
    ⟨hevent, ⟨i, sent, hfetch⟩ | hother⟩ | ⟨rfl, hreset⟩
  · rw [List.count_singleton, if_neg (by simpa using hevent), hfetch.breaker, hfetch.requests,
      ← hfetch.ended]
    rw [← hfetch.started] at h
    exact ⟨h.call (hfetch.down hdown) hfetch.started_le hfetch.sent_le hfetch.refused,
      hfetch.later⟩
  · rw [List.count_singleton, if_neg (by simpa using hevent), hother.breaker, hother.requests]
    exact ⟨h.wait hother.now, hother.later⟩
  · rw [hreset]
    exact ⟨h.reset source.breakerName, le_rfl⟩

theorem Outage.run
    (h : Outage start before resets (w.breaker source.breakerName) (w.requestsTo source) w.now)
    (hsource : source ≠ .rss)
    (hdown : ∀ n r, w.sent.length ≤ n → r.url = source.url → Fails (E.respond n r))
    (settings : CollectorSettings) (events : List CollectorEvent) :
    let w' := Runs.run (collectorStep E settings) w events
    Outage start before (resets + events.count .reset) (w'.breaker source.breakerName)
      (w'.requestsTo source) w'.now := by
  induction events generalizing w resets with
  | nil => exact h
  | cons event events ih =>
      obtain ⟨hstep, hlater⟩ := h.step hsource hdown settings event
      have hrest := ih hstep fun n r hn => hdown n r (hlater.trans hn)
      rwa [Nat.add_assoc, ← List.count_append] at hrest

/-- **What an outage costs.** While a provider is down, from any state of a
process between two runs of its collector, whatever collectors are run one
after another, however often and in whatever order, it is sent fifteen
requests, as many again for every time the breakers are dropped, and one
more for every ten seconds. -/
theorem outage_costs (hsource : source ≠ .rss)
    (hidle : Idle (w.breaker source.breakerName) w.now)
    (hdown : ∀ n r, w.sent.length ≤ n → r.url = source.url → Fails (E.respond n r))
    (settings : CollectorSettings) (events : List CollectorEvent) :
    let w' := Runs.run (collectorStep E settings) w events
    (w'.requestsTo source : ℚ) ≤
      w.requestsTo source + 15 * (1 + events.count .reset) + (w'.now - w.now) / 10 := by
  have hrun := (Outage.begin hidle (w.requestsTo source)).run hsource hdown settings events
  rw [Nat.zero_add] at hrun
  exact hrun.bound

theorem outage_costs_sample :
    let w' := Runs.run (collectorStep Collector.offlineEnv Collector.sampleSettings) { now := 0 }
      (List.replicate 7 (.collect "otx".toList 5))
    (w'.requestsTo .otx : ℚ) ≤
      Outbound.requestsTo .otx { now := 0 } +
        15 * (1 + (List.replicate 7 (CollectorEvent.collect "otx".toList 5)).count .reset) +
        (w'.now - 0) / 10 :=
  @outage_costs Collector.offlineEnv .otx { now := 0 } (by decide) (Idle.new _ _)
    (fun _ _ _ _ => trivial) Collector.sampleSettings (List.replicate 7 (.collect "otx".toList 5))

end

/-! ## After an outage -/

theorem Idle.run (E : CollectorEnv) (settings : CollectorSettings) {source : Source}
    (hsource : source ≠ .rss) {w : Outbound} (h : Idle (w.breaker source.breakerName) w.now)
    (events : List CollectorEvent) :
    let w' := Runs.run (collectorStep E settings) w events
    Idle (w'.breaker source.breakerName) w'.now := by
  refine Runs.run_preserves (I := fun w : Outbound => Idle (w.breaker source.breakerName) w.now)
    (fun w event h => ?_) h events
  rcases collectorStep_cases E settings hsource w event with
    ⟨-, ⟨i, sent, hfetch⟩ | hother⟩ | ⟨-, hreset⟩
  · rw [hfetch.breaker, ← hfetch.ended]
    rw [← hfetch.started] at h
    exact h.call hfetch.started_le
  · rw [hother.breaker]
    exact h.wait hother.now
  · rw [hreset]
    exact Idle.new source.breakerName w.now

/-- A fetch whose first try is answered. -/
theorem ProviderHttpClient.fetch_up {net : Internet} {r : HttpRequest} {resp : Response}
    {data : Json} {w : Outbound} (hup : net.respond w.sent.length r = .ok resp)
    (hstatus : resp.statusCode < 400) (hjson : resp.json = .ok data) (provider : String) :
    ∃ w', (fetch net provider r).run w = (.ok data, w') := by
  have hget : (net.get r).run w = (.ok resp, (net.get r w).2) := by
    rw [← hup]
    rfl
  have hretry : (asyncRetry 3 isTransport (net.get r)).run w = (.ok resp, (net.get r w).2) :=
    Routine.tryExcept_ok hget
  refine ⟨(net.get r w).2, ?_⟩
  rw [fetch, Routine.run_bind_ok (Routine.tryExcept_ok hretry), Routine.run_bind_raiseIf, if_neg,
    Routine.run_bind_raiseIf, if_neg, Routine.run_ofExcept, hjson]
  · simpa using hstatus
  · simp only [decide_eq_true_eq, not_le]
    omega

/-- A live run that the breaker lets through and whose first try is answered. -/
theorem Source.collectLive_up {E : CollectorEnv} {source : Source} {apiKey : PyStr} {limit : Nat}
    {r : HttpRequest} {normalise : Json → Except CollectExn (List Collected)}
    (hasks : source.asks E apiKey limit = some (r, normalise)) {w : Outbound} {b : CircuitBreaker ℚ}
    (henter : (w.breaker source.breakerName).enter w.now = (.ok (), b)) {resp : Response}
    {data : Json} (hup : E.respond w.sent.length r = .ok resp) (hstatus : resp.statusCode < 400)
    (hjson : resp.json = .ok data) {out : List Collected} (hdata : normalise data = .ok out) :
    ∃ w', (source.collectLive E apiKey limit).run w = (.ok out, w') := by
  obtain ⟨hcollect, -⟩ := Source.collectLive_of_asks hasks
  -- the client gets hold of the breaker, and the breaker lets it through
  generalize hw₁ : w.setBreaker source.breakerName (w.breaker source.breakerName) = w₁
  have henter₁ : (w₁.breaker source.breakerName).enter w₁.now = (.ok (), b) := by
    rw [← hw₁, Outbound.breaker_setBreaker_self]
    exact henter
  have hsent : (w₁.setBreaker source.breakerName b).sent = w.sent := by
    rw [← hw₁]
    rfl
  obtain ⟨w₂, hfetch⟩ := ProviderHttpClient.fetch_up (w := w₁.setBreaker source.breakerName b)
    (hsent ▸ hup) hstatus hjson source.name
  have hget := run_callBreaker_ok henter₁ hfetch
  have hnew : (ProviderHttpClient.new source.name).run w =
      (.ok { provider := source.name }, w₁) := by
    rw [← hw₁]
    rfl
  refine ⟨w₂.setBreaker source.breakerName (w₂.breaker source.breakerName).recordSuccess, ?_⟩
  rw [hcollect, collectJson, Routine.run_bind_ok hnew]
  exact (Routine.run_bind_ok hget _).trans (by rw [Routine.run_ofExcept, hdata])

/-- **An outage is over within half a minute.** From any state of a process
between two runs of a source's collector, and whatever runs of collectors,
pauses and resets follow, after a pause of thirty seconds the collector
delivers what the provider answers. -/
theorem recovers {E : CollectorEnv} {settings : CollectorSettings} {c : Collector} {limit : Nat}
    {r : HttpRequest} {normalise : Json → Except CollectExn (List Collected)}
    (hasks : c.source.asks E c.apiKey limit = some (r, normalise)) (hlive : c.isLive = true)
    {w₀ : Outbound} (hidle : Idle (w₀.breaker c.source.breakerName) w₀.now)
    {pause : ℚ} {events : List CollectorEvent} (hpause : 30 ≤ pause) {w : Outbound}
    (hw : Runs.run (collectorStep E settings) w₀ (events ++ [.wait pause]) = w)
    {resp : Response} {data : Json} (hup : E.respond w.sent.length r = .ok resp)
    (hstatus : resp.statusCode < 400) (hjson : resp.json = .ok data) {out : List Collected}
    (hdata : normalise data = .ok out) :
    ((c.collect E limit).run w).1 = .ok out := by
  obtain ⟨source, settings', apiKey⟩ := c
  have hsource : source ≠ .rss := by
    rintro rfl
    cases hasks
  have hidle := Idle.run E settings hsource hidle events
  generalize hbefore : Runs.run (collectorStep E settings) w₀ events = before at hidle
  have hwait : w = { before with now := before.now + max pause 0 } := by
    rw [← hw, Runs.run, List.foldl_append, ← hbefore]
    rfl
  obtain ⟨b, henter⟩ := hidle.enter hpause
  have henter : (w.breaker source.breakerName).enter w.now = (.ok (), b) := by
    rw [hwait]
    exact henter
  obtain ⟨w', hrun⟩ := Source.collectLive_up hasks henter hup hstatus hjson hdata
  rw [Collector.collect, if_neg (by simp [hlive]), Routine.tryExcept_ok hrun]

/-- A provider that answers every request with one pulse. -/
def Collector.onlineEnv : CollectorEnv :=
  { Collector.offlineEnv with
    respond := fun _ _ =>
      .ok
        { statusCode := 200
          json := .ok (.obj [("results".toList, .arr [.obj [("indicators".toList,
            .arr [.obj [("indicator".toList, .str "phishing-login.example".toList)]])]])]) } }

theorem recovers_sample :
    ((Collector.collect Collector.onlineEnv ⟨.otx, Collector.sampleSettings, "k".toList⟩ 5).run
        (Runs.run (collectorStep Collector.onlineEnv Collector.sampleSettings) { now := 0 }
          ([.collect "otx".toList 5] ++ [.wait 30]))).1 =
      .ok [{ value := .str "phishing-login.example".toList
             source := "otx"
             confidence := .medium
             severity := .high }] := by
  have hnew : Idle (Outbound.breaker { now := 0 } Source.otx.breakerName)
      (Outbound.now { now := 0 }) :=
    Idle.new _ _
  exact recovers (c := ⟨.otx, Collector.sampleSettings, "k".toList⟩) rfl rfl hnew le_rfl rfl rfl
    (by decide) rfl rfl

end ThreatIntel
