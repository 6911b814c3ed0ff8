import ThreatIntel.Address
import ThreatIntel.Dict
import ThreatIntel.Errors
import ThreatIntel.SlidingWindow
import ThreatIntel.Tokens

/-!
# The rate limiter

`app/api/middleware.py` and `app/api/client_ip.py`: the client is the peer
of the connection or, behind a trusted proxy, the last hop that is not
trusted; each client has a queue of the times of its admitted requests.
Stale times are popped when the client comes back, and once a window all
queues whose last entry is stale are deleted.

`Tracks` says of every queue that it covers the admissions of its client.
A verdict is then a function of those admissions alone, whoever else was
served and whenever the queues were swept.
-/

namespace ThreatIntel

/-! ## The client -/

/-- What the limiter reads of a request. -/
structure Request where
  path : String
  /-- `request.client.host`. -/
  peer : Option PyStr
  /-- The header `x-forwarded-for`. -/
  forwardedFor : Option PyStr := none
  deriving DecidableEq, Repr

structure ProxyTrust where
  networks : List IpNetwork := []

namespace ProxyTrust

def trusts (trust : ProxyTrust) : Option PyStr → Bool
  | none => false
  | some address =>
      if address = [] ∨ trust.networks = [] then false
      else
        match ipAddressOf? address with
        | none => false
        | some ip => trust.networks.any (·.contains ip)

/-- The hops of the header, nearest first. -/
def hops (request : Request) : List PyStr :=
  ((((request.forwardedFor.getD []).splitOn ',').map PyStr.strip).filter (· ≠ [])).reverse

def clientIp (trust : ProxyTrust) (request : Request) : Option PyStr :=
  if trust.trusts request.peer then
    match (hops request).find? fun hop => !trust.trusts (some hop) with
    | some hop => some hop
    | none => request.peer
  else request.peer

/-- `client_ip(request) or "unknown"`. -/
def client (trust : ProxyTrust) (request : Request) : PyStr :=
  match trust.clientIp request with
  | some ip => if ip = [] then "unknown".toList else ip
  | none => "unknown".toList

end ProxyTrust

/-! ## The limiter -/

variable {K : Type} [Ring K] [LinearOrder K]

structure InMemoryRateLimiter (K : Type) where
  limit : Int
  window : K
  hits : Dict PyStr (List K)
  lastSweep : K
  exempt : List String
  proxyTrust : ProxyTrust

/-- The response to a request that is turned away. -/
structure LimitResponse where
  content : AppError
  statusCode : Nat
  retryAfter : Int
  deriving DecidableEq, Repr

/-- A request and the reading of the monotonic clock. -/
structure Arrival (K : Type) where
  request : Request
  now : K

namespace InMemoryRateLimiter

/-- `__init__`. -/
def init (limitPerMinute : Int := 120) (proxyTrust : ProxyTrust := {}) : InMemoryRateLimiter K where
  limit := limitPerMinute
  window := 60
  hits := .empty
  lastSweep := 0
  exempt := ["/api/v1/health", "/api/v1/ready"]
  proxyTrust := proxyTrust

/-- `self._hits[client]`, a `defaultdict`. -/
def bucket (t : InMemoryRateLimiter K) (client : PyStr) : List K := (t.hits.get? client).getD []

def setBucket (t : InMemoryRateLimiter K) (client : PyStr) (bucket : List K) :
    InMemoryRateLimiter K :=
  { t with hits := t.hits.set client bucket }

/-- A queue that the sweep deletes. -/
def isStale (window now : K) (hits : List K) : Bool :=
  match hits.getLast? with
  | none => true
  | some last => window < now - last

def maybeSweep (now : K) (t : InMemoryRateLimiter K) : InMemoryRateLimiter K :=
  if now - t.lastSweep < t.window then t
  else
    { t with
      lastSweep := now
      hits := t.hits.filter fun _ hits => !isStale t.window now hits }

def tooMany [FloorRing K] (window now : K) (bucket : List K) : LimitResponse where
  content := .raise .rateLimit
  statusCode := ErrorClass.rateLimit.statusCode
  retryAfter :=
    match bucket.head? with
    | some hit => max 0 (truncate (window - (now - hit)))
    | none => 60

/-- The answer to a client with these times in its queue. -/
def verdict [FloorRing K] (limit : Int) (window now : K) (bucket : List K) : Option LimitResponse :=
  if limit ≤ bucket.length then some (tooMany window now bucket) else none

/-- `dispatch`; `none` stands for `await call_next(request)`. -/
def dispatch [FloorRing K] (t : InMemoryRateLimiter K) (a : Arrival K) :
    Option LimitResponse × InMemoryRateLimiter K :=
  if a.request.path ∈ t.exempt then (none, t)
  else
    let client := t.proxyTrust.client a.request
    let bucket := SlidingWindow.prune t.window a.now (t.bucket client)
    match verdict t.limit t.window a.now bucket with
    | some response => (some response, t.setBucket client bucket)
    | none => (none, (t.setBucket client (bucket ++ [a.now])).maybeSweep a.now)

/-- The requests in the order of their arrival, each with its answer. -/
def serve [FloorRing K] (t : InMemoryRateLimiter K) :
    List (Arrival K) → List (Arrival K × Option LimitResponse)
  | [] => []
  | a :: arrivals => (a, (t.dispatch a).1) :: (t.dispatch a).2.serve arrivals

/-! ## The queues and the admissions -/

/-- The time of an answered request, if it was an admission of `client`. -/
def admission (t : InMemoryRateLimiter K) (client : PyStr) :
    Arrival K × Option LimitResponse → Option K
  | (a, response) =>
      if a.request.path ∉ t.exempt ∧ t.proxyTrust.client a.request = client ∧ response = none then
        some a.now
      else none

/-- The times at which `client` was admitted. -/
def admitted (t : InMemoryRateLimiter K) (client : PyStr)
    (served : List (Arrival K × Option LimitResponse)) : List K :=
  served.filterMap (t.admission client)

omit [Ring K] [LinearOrder K] in
theorem bucket_setBucket (t : InMemoryRateLimiter K) (client c : PyStr) (bucket : List K) :
    (t.setBucket client bucket).bucket c = if c = client then bucket else t.bucket c := by
  by_cases hc : c = client
  · subst hc
    simp [InMemoryRateLimiter.bucket, setBucket]
  · simp [InMemoryRateLimiter.bucket, setBucket, hc, Dict.get?_set_ne]

/-- The sweep empties a queue or leaves it alone. -/
theorem bucket_maybeSweep (t : InMemoryRateLimiter K) (now : K) (c : PyStr) :
    (t.maybeSweep now).bucket c = t.bucket c ∨
      (t.maybeSweep now).bucket c = [] ∧ isStale t.window now (t.bucket c) = true := by
  rw [maybeSweep]
  split
  · exact .inl rfl
  · simp only [InMemoryRateLimiter.bucket, Dict.get?_filter]
    cases hget : t.hits.get? c with
    | none => simp
    | some hits =>
        by_cases hstale : isStale t.window now hits = true
        · simp [hstale, Option.filter]
        · simp [hstale, Option.filter]

section Config

variable [FloorRing K] (t : InMemoryRateLimiter K) (a : Arrival K)

/-- Serving a request changes the queues and the time of the last sweep. -/
theorem dispatch_config : ∃ hits lastSweep,
    (t.dispatch a).2 = { t with hits := hits, lastSweep := lastSweep } := by
  rw [dispatch]
  split
  · exact ⟨_, _, rfl⟩
  · dsimp only
    split
    · exact ⟨_, _, rfl⟩
    · rw [maybeSweep]
      split <;> exact ⟨_, _, rfl⟩

@[simp] theorem dispatch_limit : (t.dispatch a).2.limit = t.limit := by
  obtain ⟨hits, lastSweep, h⟩ := t.dispatch_config a
  rw [h]

@[simp] theorem dispatch_window : (t.dispatch a).2.window = t.window := by
  obtain ⟨hits, lastSweep, h⟩ := t.dispatch_config a
  rw [h]

@[simp] theorem dispatch_exempt : (t.dispatch a).2.exempt = t.exempt := by
  obtain ⟨hits, lastSweep, h⟩ := t.dispatch_config a
  rw [h]

@[simp] theorem dispatch_proxyTrust : (t.dispatch a).2.proxyTrust = t.proxyTrust := by
  obtain ⟨hits, lastSweep, h⟩ := t.dispatch_config a
  rw [h]

@[simp] theorem dispatch_admission (client : PyStr) :
    (t.dispatch a).2.admission client = t.admission client := by
  funext served
  simp only [admission, dispatch_exempt, dispatch_proxyTrust]

end Config

section Window

open SlidingWindow (Covers inWindow prune)

variable [IsStrictOrderedRing K] {t : InMemoryRateLimiter K} {history : List K}

omit [IsStrictOrderedRing K] in
/-- A stale queue is empty, or its last entry is out of the window. -/
theorem lt_of_isStale {window now x : K} {hits : List K} (h : isStale window now hits = true)
    (hx : hits.getLast? = some x) : window < now - x := by
  rw [isStale, hx] at h
  exact of_decide_eq_true h

theorem covers_maybeSweep {now : K} {c : PyStr} (h : Covers t.window now history (t.bucket c)) :
    Covers t.window now history ((t.maybeSweep now).bucket c) := by
  rcases t.bucket_maybeSweep now c with heq | ⟨heq, hstale⟩
  · rw [heq]
    exact h
  · rw [heq]
    exact h.drop fun x hx => lt_of_isStale hstale hx

variable [FloorRing K] {a : Arrival K}

/-- The answer is a function of the client's admissions in the window. -/
theorem dispatch_fst (hmetered : a.request.path ∉ t.exempt)
    (h : Covers t.window a.now history (t.bucket (t.proxyTrust.client a.request))) :
    (t.dispatch a).1 = verdict t.limit t.window a.now (inWindow t.window a.now history) := by
  rw [← h.prune_eq, dispatch, if_neg hmetered]
  dsimp only
  split
  · next response hverdict => exact hverdict.symm
  · next hverdict => exact hverdict.symm

/-- Serving a request keeps the queue of every client in step with its
admissions. -/
theorem covers_dispatch (c : PyStr) (h : Covers t.window a.now history (t.bucket c)) :
    Covers t.window a.now (history ++ (t.admission c (a, (t.dispatch a).1)).toList)
      ((t.dispatch a).2.bucket c) := by
  by_cases hmetered : a.request.path ∈ t.exempt
  · simpa [admission, dispatch, hmetered] using h
  by_cases hc : t.proxyTrust.client a.request = c
  · subst hc
    rw [dispatch, if_neg hmetered]
    dsimp only
    split
    · -- turned away: the queue has been pruned
      simp only [admission, reduceCtorEq, and_false, if_false, Option.toList_none, List.append_nil]
      rw [bucket_setBucket, if_pos rfl]
      exact h.prune
    · simp only [admission, hmetered, not_false_eq_true, and_self, if_true, Option.toList_some]
      refine covers_maybeSweep (t := t.setBucket _ _) ?_
      rw [bucket_setBucket, if_pos rfl]
      exact h.prune.push
  · -- the request of another client
    have hnone : t.admission c (a, (t.dispatch a).1) = none := by simp [admission, hc]
    rw [hnone, Option.toList_none, List.append_nil, dispatch, if_neg hmetered]
    dsimp only
    split
    · rw [bucket_setBucket, if_neg (Ne.symm hc)]
      exact h
    · refine covers_maybeSweep (t := t.setBucket _ _) ?_
      rw [bucket_setBucket, if_neg (Ne.symm hc)]
      exact h

/-- Every queue covers the admissions of its client, up to `last`. -/
def Tracks (t : InMemoryRateLimiter K) (last : K) (history : PyStr → List K) : Prop :=
  ∀ c, Covers t.window last (history c) (t.bucket c)

/-- What is answered in the course of a run, given the admissions before. -/
theorem verdict_of_serve {last : K} {history : PyStr → List K} (h : Tracks t last history)
    {arrivals : List (Arrival K)} (hlast : ∀ a ∈ arrivals, last ≤ a.now)
    (hclock : arrivals.Pairwise (·.now ≤ ·.now)) {before after : List (Arrival K × Option LimitResponse)}
    {response : Option LimitResponse} (hserve : t.serve arrivals = before ++ (a, response) :: after)
    (hmetered : a.request.path ∉ t.exempt) :
    response = verdict t.limit t.window a.now (inWindow t.window a.now
      (history (t.proxyTrust.client a.request) ++ t.admitted (t.proxyTrust.client a.request) before)) := by
  induction arrivals generalizing t last history before with
  | nil => simp [serve] at hserve
  | cons b arrivals ih =>
      obtain ⟨hb, hclock⟩ := List.pairwise_cons.mp hclock
      have hnow : Tracks t b.now history := fun c => (h c).later (hlast b List.mem_cons_self)
      cases before with
      | nil =>
          simp only [serve, List.nil_append, List.cons.injEq, Prod.mk.injEq] at hserve
          obtain ⟨⟨rfl, rfl⟩, -⟩ := hserve
          simpa [admitted] using dispatch_fst hmetered (hnow _)
      | cons answered before =>
          simp only [serve, List.cons_append, List.cons.injEq] at hserve
          obtain ⟨rfl, hrest⟩ := hserve
          have htracks : Tracks (t.dispatch b).2 b.now fun c =>
              history c ++ (t.admission c (b, (t.dispatch b).1)).toList := fun c => by
            rw [dispatch_window]
            exact covers_dispatch c (hnow c)
          have hresponse := ih htracks hb hclock hrest (by rwa [dispatch_exempt])
          simp only [dispatch_limit, dispatch_window, dispatch_proxyTrust, admitted,
            dispatch_admission] at hresponse
          rw [hresponse, admitted, List.filterMap_cons, List.append_assoc]
          cases t.admission _ (b, (t.dispatch b).1) <;> rfl

/-! ## One client among others -/

/-- Two limiters that were set up alike. -/
structure SameSettings (t t' : InMemoryRateLimiter K) : Prop where
  limit : t'.limit = t.limit
  window : t'.window = t.window
  exempt : t'.exempt = t.exempt
  proxyTrust : t'.proxyTrust = t.proxyTrust

omit [IsStrictOrderedRing K] in
theorem SameSettings.dispatch {t t' : InMemoryRateLimiter K} (h : SameSettings t t')
    (a a' : Arrival K) : SameSettings (t.dispatch a).2 (t'.dispatch a').2 := by
  constructor
  · simp [h.limit]
  · simp [h.window]
  · simp [h.exempt]
  · simp [h.proxyTrust]

omit [IsStrictOrderedRing K] in
/-- Requests of others do not change the settings either. -/
theorem SameSettings.dispatch_left {t t' : InMemoryRateLimiter K} (h : SameSettings t t')
    (a : Arrival K) : SameSettings (t.dispatch a).2 t' := by
  constructor
  · simp [h.limit]
  · simp [h.window]
  · simp [h.exempt]
  · simp [h.proxyTrust]

omit [Ring K] [LinearOrder K] [IsStrictOrderedRing K] [FloorRing K] in
theorem SameSettings.admission {t t' : InMemoryRateLimiter K} (h : SameSettings t t') (c : PyStr) :
    t'.admission c = t.admission c := by
  funext served
  simp only [InMemoryRateLimiter.admission, h.exempt, h.proxyTrust]

/-- Limiters that agree on the admissions of a client answer it alike. -/
theorem dispatch_fst_congr {t' : InMemoryRateLimiter K} (hset : SameSettings t t')
    (h : Covers t.window a.now history (t.bucket (t.proxyTrust.client a.request)))
    (h' : Covers t.window a.now history (t'.bucket (t.proxyTrust.client a.request))) :
    (t'.dispatch a).1 = (t.dispatch a).1 := by
  by_cases hmetered : a.request.path ∈ t.exempt
  · simp [InMemoryRateLimiter.dispatch, hmetered, hset.exempt]
  · rw [← hset.window, ← hset.proxyTrust] at h'
    rw [dispatch_fst hmetered h, dispatch_fst (by rwa [hset.exempt]) h', hset.limit, hset.window]

/-- The answers to a client are those of a limiter that serves it alone. -/
theorem filter_serve {t' : InMemoryRateLimiter K} (c : PyStr) (hset : SameSettings t t') {last : K}
    (h : Covers t.window last history (t.bucket c)) (h' : Covers t.window last history (t'.bucket c))
    {arrivals : List (Arrival K)} (hlast : ∀ a ∈ arrivals, last ≤ a.now)
    (hclock : arrivals.Pairwise (·.now ≤ ·.now)) :
    (t.serve arrivals).filter (fun served => t.proxyTrust.client served.1.request = c) =
      t'.serve (arrivals.filter fun a => t.proxyTrust.client a.request = c) := by
  induction arrivals generalizing t t' last history with
  | nil => rfl
  | cons a arrivals ih =>
      obtain ⟨ha, hclock⟩ := List.pairwise_cons.mp hclock
      have hnow := h.later (hlast a List.mem_cons_self)
      have hnow' := h'.later (hlast a List.mem_cons_self)
      have hstep := covers_dispatch c hnow
      rw [serve]
      by_cases hc : t.proxyTrust.client a.request = c
      · subst hc
        rw [List.filter_cons_of_pos (by simp), List.filter_cons_of_pos (by simp), serve]
        have hsame := dispatch_fst_congr hset hnow hnow'
        have hstep' := covers_dispatch _ (hset.window ▸ hnow')
        rw [hset.admission, hsame, hset.window] at hstep'
        have hrest := ih (hset.dispatch a a) (by rwa [dispatch_window]) (by rwa [dispatch_window]) ha
          hclock
        rw [dispatch_proxyTrust] at hrest
        rw [hsame, hrest]
      · have hnone : t.admission c (a, (t.dispatch a).1) = none := by simp [admission, hc]
        rw [List.filter_cons_of_neg (by simpa using hc), List.filter_cons_of_neg (by simpa using hc)]
        rw [hnone, Option.toList_none, List.append_nil] at hstep
        have hrest := ih (hset.dispatch_left a) (by rwa [dispatch_window]) (by rwa [dispatch_window]) ha
          hclock
        rw [dispatch_proxyTrust] at hrest
        exact hrest

/-! ## The sliding window -/

omit [IsStrictOrderedRing K] in
theorem verdict_eq_none_iff {limit : Int} {window now : K} {bucket : List K} :
    verdict limit window now bucket = none ↔ (bucket.length : Int) < limit := by
  rw [verdict]
  split
  · next hle => simp [hle]
  · next hlt => simpa using hlt

/-- A limiter that has served nobody yet and was swept at some time. -/
def fresh (limit : Int) (trust : ProxyTrust) (swept : K) : InMemoryRateLimiter K :=
  { init limit trust with lastSweep := swept }

/-- What a limiter that has just been set up answers in the course of a run. -/
theorem verdict_of_serve_fresh {limit : Int} {trust : ProxyTrust} {swept : K}
    {arrivals : List (Arrival K)} (hclock : arrivals.Pairwise (·.now ≤ ·.now))
    {before after : List (Arrival K × Option LimitResponse)} {response : Option LimitResponse}
    (hserve : (fresh limit trust swept).serve arrivals = before ++ (a, response) :: after)
    (hmetered : a.request.path ∉ (fresh limit trust swept).exempt) :
    response = verdict limit 60 a.now (inWindow 60 a.now
      ((fresh limit trust swept).admitted (trust.client a.request) before)) := by
  cases arrivals with
  | nil => simp [serve] at hserve
  | cons b arrivals =>
      have hlast : ∀ a ∈ b :: arrivals, b.now ≤ a.now :=
        List.forall_mem_cons.mpr ⟨le_rfl, (List.pairwise_cons.mp hclock).1⟩
      have htracks : Tracks (fresh limit trust swept) b.now fun _ => [] := fun _ => Covers.nil
      exact verdict_of_serve htracks hlast hclock hserve hmetered

/-- The limiter admits a request if and only if fewer than `limit`
requests of its client were admitted in the window that ends with it; and
the answers to a client are those it would get if it were the only one,
whenever the queues are swept. -/
theorem admits_iff_sliding_window (limit : Int) (trust : ProxyTrust) (swept swept' : K)
    {arrivals : List (Arrival K)} (hclock : arrivals.Pairwise (·.now ≤ ·.now)) :
    (∀ before a response after,
      (fresh limit trust swept).serve arrivals = before ++ (a, response) :: after →
      a.request.path ∉ (fresh limit trust swept).exempt →
      (response = none ↔
        ((((fresh limit trust swept).admitted (trust.client a.request) before).filter
          fun x => a.now - 60 ≤ x ∧ x ≤ a.now).length : Int) < limit)) ∧
    ∀ c, ((fresh limit trust swept).serve arrivals).filter
        (fun served => trust.client served.1.request = c) =
      (fresh limit trust swept').serve (arrivals.filter fun a => trust.client a.request = c) := by
  have hcovers : ∀ (last : K) (swept : K) (c : PyStr),
      Covers 60 last [] ((fresh limit trust swept).bucket c) := fun _ _ _ => Covers.nil
  constructor
  · intro before a response after hserve hmetered
    rw [verdict_of_serve_fresh hclock hserve hmetered, verdict_eq_none_iff]
    exact Iff.rfl
  · intro c
    cases arrivals with
    | nil => rfl
    | cons b arrivals =>
        have hlast : ∀ a ∈ b :: arrivals, b.now ≤ a.now :=
          List.forall_mem_cons.mpr ⟨le_rfl, (List.pairwise_cons.mp hclock).1⟩
        have hset : SameSettings (fresh limit trust swept) (fresh limit trust swept') :=
          ⟨rfl, rfl, rfl, rfl⟩
        exact filter_serve c hset (hcovers b.now swept c) (hcovers b.now swept' c) hlast hclock

/-- The second request falls on the edge of the window, the last one
behind it; another client comes in between and sets off the sweep. -/
theorem admits_iff_sliding_window_edge :
    ((fresh 1 {} 0).serve (K := ℤ)
      [⟨{ path := "/", peer := "a".toList }, 5⟩, ⟨{ path := "/", peer := "a".toList }, 65⟩,
        ⟨{ path := "/", peer := "b".toList }, 66⟩, ⟨{ path := "/", peer := "a".toList }, 66⟩]).filter
        (fun served => ({} : ProxyTrust).client served.1.request = "a".toList) =
      (fresh 1 {} 30).serve
        [⟨{ path := "/", peer := "a".toList }, 5⟩, ⟨{ path := "/", peer := "a".toList }, 65⟩,
          ⟨{ path := "/", peer := "a".toList }, 66⟩] :=
  (admits_iff_sliding_window 1 {} 0 30 (by decide)).2 "a".toList

end Window

end InMemoryRateLimiter

end ThreatIntel
