import Mathlib.Data.Rat.Floor
import ThreatIntel.RateLimit
import ThreatIntel.Runs
import ThreatIntel.Throttle

/-!
# When to come back

Both the login throttle and the rate limiter say in how many seconds to
come back, and both cut the time that is left to whole seconds. A lock
has ended by then only if nothing was cut off (`honestRetry_iff`). The
limiter counts a request that is exactly one window old, so that even
then the oldest one still counts: whoever comes back when told is turned
away again (`turned_away_again`).
-/

namespace ThreatIntel

open LoginThrottle (normalise)

variable {K : Type} [Ring K] [LinearOrder K] [FloorRing K]

theorem truncate_of_nonneg {x : K} (h : 0 ≤ x) : truncate x = ⌊x⌋ := if_pos h

/-! ## The lock -/

/-- A call of the throttle, and the reading of its clock. -/
structure LoginCall (K : Type) where
  clock : K
  method : ThrottleMethod
  identity : String

/-- The call records a failure of `identity`. -/
def LoginCall.Fails (lower : String → String) (identity : String) (call : LoginCall K) : Prop :=
  call.method = .recordFailure ∧ normalise lower call.identity = normalise lower identity

namespace InMemoryLoginThrottle

variable {lower : String → String} {t : InMemoryLoginThrottle K} {clock : K} {identity : String}

omit [FloorRing K] in
def step (lower : String → String) (t : InMemoryLoginThrottle K) :
    LoginCall K → InMemoryLoginThrottle K
  | ⟨clock, .isLocked, identity⟩ => (t.isLocked lower clock identity).2
  | ⟨_, .retryAfter, _⟩ => t
  | ⟨clock, .recordFailure, identity⟩ => t.recordFailure lower clock identity
  | ⟨_, .recordSuccess, identity⟩ => t.recordSuccess lower identity

/-- The answer of `retry_after` is at least a second, and by then the lock
has ended, whatever else is called in the meantime. -/
def HonestRetry (lower : String → String) (t : InMemoryLoginThrottle K) (clock : K)
    (identity : String) : Prop :=
  1 ≤ t.retryAfter lower clock identity ∧
    ∀ calls : List (LoginCall K), (∀ call ∈ calls, ¬ LoginCall.Fails lower identity call) →
      ((Runs.run (step lower) t calls).isLocked lower
        (clock + t.retryAfter lower clock identity) identity).1 = false

theorem retryAfter_eq (lower : String → String) (t : InMemoryLoginThrottle K) (clock : K)
    (identity : String) :
    t.retryAfter lower clock identity =
      if (t.entry (normalise lower identity)).lockedUntil = 0 then 0
      else max 0 (truncate ((t.entry (normalise lower identity)).lockedUntil - clock)) := by
  rw [retryAfter, entry]
  cases t.entries.get? (normalise lower identity) <;> simp

omit [FloorRing K] in
/-- A call that records no failure of an identity leaves its entry or drops
it. -/
theorem entry_step {call : LoginCall K} (h : ¬ LoginCall.Fails lower identity call) :
    (step lower t call).entry (normalise lower identity) = t.entry (normalise lower identity) ∨
      (step lower t call).entry (normalise lower identity) = {} := by
  obtain ⟨clock, method, identity'⟩ := call
  cases method with
  | isLocked =>
      simp only [step, entry_isLocked]
      split
      · exact .inr rfl
      · exact .inl rfl
  | retryAfter => exact .inl rfl
  | recordFailure =>
      have hne : normalise lower identity ≠ normalise lower identity' := fun heq =>
        h ⟨rfl, heq.symm⟩
      exact .inl (by simp [step, entry_recordFailure, hne])
  | recordSuccess =>
      simp only [step, entry_recordSuccess]
      split
      · exact .inr rfl
      · exact .inl rfl

omit [FloorRing K] in
theorem entry_run {calls : List (LoginCall K)}
    (h : ∀ call ∈ calls, ¬ LoginCall.Fails lower identity call) :
    (Runs.run (step lower) t calls).entry (normalise lower identity) =
        t.entry (normalise lower identity) ∨
      (Runs.run (step lower) t calls).entry (normalise lower identity) = {} := by
  induction calls generalizing t with
  | nil => exact .inl rfl
  | cons call calls ih =>
      obtain ⟨hcall, hcalls⟩ := List.forall_mem_cons.mp h
      rw [Runs.run_cons]
      rcases entry_step (t := t) hcall with hstep | hstep
      · rw [← hstep]
        exact ih hcalls
      · refine .inr ?_
        rcases ih (t := step lower t call) hcalls with hrun | hrun
        · exact hrun.trans hstep
        · exact hrun

variable [IsStrictOrderedRing K]

/-- The answer is honest if and only if the lock ends a whole number of
seconds from now. -/
theorem honestRetry_iff (hlocked : (t.isLocked lower clock identity).1 = true) :
    HonestRetry lower t clock identity ↔
      ∃ n : Int, (t.entry (normalise lower identity)).lockedUntil - clock = n := by
  rw [isLocked_eq, Bool.and_eq_true, decide_eq_true_eq, decide_eq_true_eq] at hlocked
  obtain ⟨hset, hlt⟩ := hlocked
  rw [HonestRetry, retryAfter_eq, if_neg hset, truncate_of_nonneg (sub_pos.mpr hlt).le,
    max_eq_right (Int.floor_nonneg.mpr (sub_pos.mpr hlt).le)]
  set left := (t.entry (normalise lower identity)).lockedUntil - clock with hleft
  constructor
  · rintro ⟨-, hfree⟩
    have hnow := hfree [] (by simp)
    rw [Runs.run_nil, isLocked_eq, Bool.and_eq_false_iff, decide_eq_false_iff_not,
      decide_eq_false_iff_not] at hnow
    have hle : (t.entry (normalise lower identity)).lockedUntil ≤ clock + ⌊left⌋ :=
      not_lt.mp (hnow.resolve_left (not_not_intro hset))
    exact ⟨⌊left⌋, le_antisymm (sub_le_iff_le_add'.mpr hle) (Int.floor_le left)⟩
  · rintro ⟨n, hn⟩
    have hend : clock + (⌊left⌋ : K) = (t.entry (normalise lower identity)).lockedUntil := by
      rw [hn, Int.floor_intCast, ← hn, hleft, add_sub_cancel]
    refine ⟨?_, fun calls hcalls => ?_⟩
    · rw [hn, Int.floor_intCast]
      have hpos : (0 : K) < n := by rw [← hn, hleft]; exact sub_pos.mpr hlt
      exact_mod_cast hpos
    · rw [isLocked_eq, hend]
      rcases entry_run (t := t) hcalls with hsame | hdropped
      · simp [hsame]
      · simp [hdropped]

end InMemoryLoginThrottle

/-! ## The limiter -/

namespace InMemoryRateLimiter

open SlidingWindow (inWindow)

variable [IsStrictOrderedRing K] {window now : K} {history : List K}

/-- Nobody is told to wait for longer than the oldest request is in the
window. -/
theorem retryAfter_tooMany {hit : K} {hits : List K} (hhit : now - window ≤ hit) :
    0 ≤ (tooMany window now (hit :: hits)).retryAfter ∧
      now + (tooMany window now (hit :: hits)).retryAfter - window ≤ hit := by
  have hleft : 0 ≤ window - (now - hit) := sub_nonneg.mpr (sub_le_comm.mp hhit)
  have hretry : (tooMany window now (hit :: hits)).retryAfter = ⌊window - (now - hit)⌋ := by
    simp only [tooMany, List.head?_cons]
    rw [truncate_of_nonneg hleft, max_eq_right (Int.floor_nonneg.mpr hleft)]
  rw [hretry]
  refine ⟨Int.floor_nonneg.mpr hleft, ?_⟩
  have hfloor : (⌊window - (now - hit)⌋ : K) ≤ window - (now - hit) := Int.floor_le _
  calc now + (⌊window - (now - hit)⌋ : K) - window
      ≤ now + (window - (now - hit)) - window := sub_le_sub_right (add_le_add_right hfloor _) _
    _ = hit := by abel

/-- The oldest request in the window is still in it when the client comes
back, and so are the others. -/
theorem length_inWindow_retry (hsorted : history.Pairwise (· ≤ ·)) :
    (inWindow window now history).length ≤
      (inWindow window (now + (tooMany window now (inWindow window now history)).retryAfter)
        history).length := by
  have hqueue : (inWindow window now history).Pairwise (· ≤ ·) := hsorted.filter _
  cases hhits : inWindow window now history with
  | nil => exact Nat.zero_le _
  | cons hit hits =>
      have hmem : hit ∈ inWindow window now history := hhits ▸ List.mem_cons_self
      have hhit : now - window ≤ hit := by
        have hin := (List.mem_filter.mp hmem).2
        exact (of_decide_eq_true hin).1
      obtain ⟨hnonneg, hback⟩ : 0 ≤ (tooMany window now (hit :: hits)).retryAfter ∧ _ :=
        retryAfter_tooMany hhit
      rw [hhits] at hqueue
      rw [← hhits] at hnonneg hback ⊢
      rw [inWindow, inWindow, ← List.countP_eq_length_filter,
        ← List.countP_eq_length_filter]
      refine List.countP_mono_left fun x hx hin => ?_
      have hoccurs : x ∈ hit :: hits := by
        rw [← hhits]
        exact List.mem_filter.mpr ⟨hx, hin⟩
      have hle : hit ≤ x := by
        rcases List.mem_cons.mp hoccurs with rfl | hlater
        · exact le_rfl
        · exact (List.pairwise_cons.mp hqueue).1 x hlater
      have hup : x ≤ now := (of_decide_eq_true hin).2
      exact decide_eq_true ⟨hback.trans hle, hup.trans
        (le_add_of_nonneg_right (by exact_mod_cast hnonneg))⟩

omit [IsStrictOrderedRing K] in
/-- A response tells when the oldest request in the window leaves it. -/
theorem eq_tooMany {limit : Int} {hits : List K} {response : LimitResponse}
    (h : verdict limit window now hits = some response) :
    limit ≤ hits.length ∧ response = tooMany window now hits := by
  rw [verdict] at h
  split at h
  · next hfull => exact ⟨hfull, (Option.some.inj h).symm⟩
  · cases h

omit [Ring K] [FloorRing K] [IsStrictOrderedRing K] in
/-- The admissions of a client are in order. -/
theorem sorted_admitted {t : InMemoryRateLimiter K} {client : PyStr}
    {served : List (Arrival K × Option LimitResponse)}
    (h : (served.map Prod.fst).Pairwise (·.now ≤ ·.now)) :
    (t.admitted client served).Pairwise (· ≤ ·) := by
  rw [admitted, List.pairwise_filterMap]
  refine (List.pairwise_map.mp h).imp ?_
  rintro ⟨a, response⟩ ⟨a', response'⟩ hle x hx x' hx'
  simp only [admission, Option.ite_none_right_eq_some, Option.some.injEq] at hx hx'
  rw [← hx.2, ← hx'.2]
  exact hle

omit [IsStrictOrderedRing K] in
theorem map_fst_serve (t : InMemoryRateLimiter K) (arrivals : List (Arrival K)) :
    (t.serve arrivals).map Prod.fst = arrivals := by
  induction arrivals generalizing t with
  | nil => rfl
  | cons a arrivals ih => rw [serve, List.map_cons, ih]

/-- A run of a limiter in which a client is turned away, sends nothing for
as long as it has been told to, and then comes back. -/
structure Comeback (K : Type) [Ring K] [LinearOrder K] [FloorRing K] where
  limit : Int
  trust : ProxyTrust
  swept : K
  arrivals : List (Arrival K)
  clock : arrivals.Pairwise (·.now ≤ ·.now)
  before : List (Arrival K × Option LimitResponse)
  away : Arrival K
  response : LimitResponse
  between : List (Arrival K × Option LimitResponse)
  back : Arrival K
  answer : Option LimitResponse
  after : List (Arrival K × Option LimitResponse)
  served : (fresh limit trust swept).serve arrivals =
    before ++ (away, some response) :: (between ++ (back, answer) :: after)
  metered : away.request.path ∉ (fresh limit trust swept).exempt
  meteredBack : back.request.path ∉ (fresh limit trust swept).exempt
  client : trust.client back.request = trust.client away.request
  others : ∀ served ∈ between, trust.client served.1.request ≠ trust.client away.request
  told : back.now = away.now + response.retryAfter

/-- Whoever comes back when told is turned away again. -/
theorem turned_away_again (run : Comeback K) : run.answer ≠ none := by
  obtain ⟨limit, trust, swept, arrivals, hclock, before, a, response, between, a', answer, after,
    hserve, hmetered, hmetered', hclient, hbetween, hback⟩ := run
  show answer ≠ none
  set t := fresh limit trust swept with ht
  set history := t.admitted (trust.client a.request) before with hhistory
  have hverdict : some response = verdict limit 60 a.now (inWindow 60 a.now history) :=
    verdict_of_serve_fresh hclock hserve hmetered
  obtain ⟨hfull, rfl⟩ := eq_tooMany hverdict.symm
  -- nothing has been admitted since
  have hsame : t.admitted (trust.client a'.request)
      (before ++ (a, some (tooMany 60 a.now (inWindow 60 a.now history))) :: between) = history := by
    have hnone : between.filterMap (t.admission (trust.client a.request)) = [] :=
      List.filterMap_eq_nil_iff.mpr fun served hserved => by
        have hother := hbetween served hserved
        simp [admission, ht, fresh, init, hother]
    rw [hclient, admitted, List.filterMap_append, List.filterMap_cons, hnone]
    simp [admission, hhistory, admitted]
  have hserve' : t.serve arrivals =
      (before ++ (a, some (tooMany 60 a.now (inWindow 60 a.now history))) :: between) ++
        (a', answer) :: after := by rw [hserve, List.append_assoc, List.cons_append]
  have hagain : answer = verdict limit 60 a'.now (inWindow 60 a'.now history) := by
    rw [← hsame]
    exact verdict_of_serve_fresh hclock hserve' hmetered'
  have hsorted : history.Pairwise (· ≤ ·) := by
    have harrivals := map_fst_serve t arrivals
    rw [hserve, List.map_append] at harrivals
    rw [← harrivals] at hclock
    exact sorted_admitted (List.pairwise_append.mp hclock).1
  rw [hagain, Ne, verdict_eq_none_iff, not_lt, hback]
  exact hfull.trans (by exact_mod_cast length_inWindow_retry hsorted)

end InMemoryRateLimiter

/-! ## Both -/

variable [IsStrictOrderedRing K]

/-- **When Retry-After is honest.** Whatever has been called: the throttle
tells a locked identity at least one second, and one after which it is not
locked any more, if and only if the lock ends a whole number of seconds
from now. And whoever the limiter turns away and comes back when told,
without a request of theirs in between, is turned away again. -/
theorem retryAfter_honest_iff :
    (∀ (lower : String → String) (t : InMemoryLoginThrottle K) (clock : K) (identity : String),
      (t.isLocked lower clock identity).1 = true →
      (InMemoryLoginThrottle.HonestRetry lower t clock identity ↔
        ∃ n : Int, (t.entry (normalise lower identity)).lockedUntil - clock = n)) ∧
    ∀ run : InMemoryRateLimiter.Comeback K, run.answer ≠ none :=
  ⟨fun _ _ _ _ => InMemoryLoginThrottle.honestRetry_iff, InMemoryRateLimiter.turned_away_again⟩

/-! ## Half a second -/

/-- One failure is one too many, at time zero. -/
def lockedAtOnce : InMemoryLoginThrottle ℚ :=
  Runs.run (InMemoryLoginThrottle.step id) { maxAttempts := 1, lockoutSeconds := 100 }
    [⟨0, .recordFailure, "a@b.com"⟩]

/-- Ten seconds later. -/
theorem retryAfter_honest_lockedAtOnce :
    InMemoryLoginThrottle.HonestRetry id lockedAtOnce 10 "a@b.com" ↔
      ∃ n : Int, (lockedAtOnce.entry (normalise id "a@b.com")).lockedUntil - 10 = n :=
  retryAfter_honest_iff.1 id lockedAtOnce 10 "a@b.com" (by decide +kernel)

/-- Half a second after it has been locked, the lock has 99 seconds and a
half to go; half a second after the only request it has, a client is told
59 seconds. -/
theorem retryAfter_cut_off :
    (¬ ∀ (lower : String → String) (maxAttempts lockoutSeconds : Int) (calls : List (LoginCall ℚ))
        (clock : ℚ) (identity : String),
      ((Runs.run (InMemoryLoginThrottle.step lower) { maxAttempts, lockoutSeconds } calls).isLocked
        lower clock identity).1 = true →
      InMemoryLoginThrottle.HonestRetry lower
        (Runs.run (InMemoryLoginThrottle.step lower) { maxAttempts, lockoutSeconds } calls) clock
        identity) ∧
    ¬ ∀ run : InMemoryRateLimiter.Comeback ℚ, 1 ≤ run.limit → run.answer = none := by
  constructor
  · intro h
    have hlocked : (lockedAtOnce.isLocked id (1 / 2 +
        ((lockedAtOnce.retryAfter id (1 / 2) "a@b.com" : Int) : ℚ)) "a@b.com").1 = true := by
      decide +kernel
    have hhonest : InMemoryLoginThrottle.HonestRetry id lockedAtOnce (1 / 2) "a@b.com" :=
      h id 1 100 [⟨0, .recordFailure, "a@b.com"⟩] (1 / 2) "a@b.com" (by decide +kernel)
    have hfree := hhonest.2 [] (by simp)
    rw [Runs.run_nil, hlocked] at hfree
    cases hfree
  · intro h
    let request : Request := { path := "/", peer := some "a".toList }
    let t : InMemoryRateLimiter ℚ := .fresh 1 {} 0
    have hfirst : (t.dispatch ⟨request, 0⟩).1 = none := by decide +kernel
    have hsecond : ((t.dispatch ⟨request, 0⟩).2.dispatch ⟨request, 1 / 2⟩).1 =
        some ⟨.raise .rateLimit, 429, 59⟩ := by decide +kernel
    have hthird : (((t.dispatch ⟨request, 0⟩).2.dispatch ⟨request, 1 / 2⟩).2.dispatch
        ⟨request, 119 / 2⟩).1 = some ⟨.raise .rateLimit, 429, 0⟩ := by decide +kernel
    have hserve : t.serve [⟨request, 0⟩, ⟨request, 1 / 2⟩, ⟨request, 119 / 2⟩] =
        [(⟨request, 0⟩, none)] ++ (⟨request, 1 / 2⟩, some ⟨.raise .rateLimit, 429, 59⟩) ::
          ([] ++ (⟨request, 119 / 2⟩, some ⟨.raise .rateLimit, 429, 0⟩) :: []) := by
      simp only [InMemoryRateLimiter.serve, hfirst, hsecond, hthird]
      rfl
    have hnone := h
      { limit := 1, trust := {}, swept := 0
        arrivals := [⟨request, 0⟩, ⟨request, 1 / 2⟩, ⟨request, 119 / 2⟩]
        clock := by decide +kernel
        before := _, away := _, response := _, between := _, back := _, answer := _, after := _
        served := hserve
        metered := by decide
        meteredBack := by decide
        client := rfl
        others := by simp
        told := by norm_num } le_rfl
    cases hnone

end ThreatIntel
