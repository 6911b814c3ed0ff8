import Mathlib.Data.Rat.Floor
import ThreatIntel.Rounding
import ThreatIntel.Ssrf

/-!
# The enrichers

`app/enrichment/`: a facet of an indicator for each enricher, merged into
one payload. Location and reputation are made up from a digest of the host;
only the DNS enricher asks outside, through a guard of its own, and what
goes wrong there goes no further.
-/

namespace ThreatIntel

/-- The settings that the enrichers read. -/
structure EnrichmentSettings where
  enableLiveCollectors : Bool
  outboundAllowedHosts : List PyStr
  deriving DecidableEq, Repr

/-- What the enrichers find outside: the network, and SHA-256. -/
structure EnrichmentEnv extends Network where
  sha256 : List UInt8 → Vector UInt8 32

/-- `HASH_TYPES`. -/
def hashTypes : List IOCType := [.md5, .sha1, .sha256]

/-- `ip.packed`. -/
def IpAddress.packed (address : IpAddress) : List UInt8 :=
  let n := IpNetwork.bits address.version / 8
  (List.range n).map fun i => UInt8.ofNat (address.int / 256 ^ (n - 1 - i))

/-- `result.update(facet)`. -/
def Enrichment.update (result facet : Enrichment) : Enrichment where
  geoip := facet.geoip.or result.geoip
  dns := facet.dns.or result.dns
  reputation := facet.reputation.or result.reputation

/-! ## Facets -/

/-- `_DEMO_GEOS`. -/
def demoGeos : List String := ["US", "RU", "CN", "DE", "NL", "IR", "BR", "IN", "KP", "GB"]

/-- `GeoIPEnricher.enrich`. -/
def GeoIPEnricher.enrich (env : EnrichmentEnv) (host : PyStr) : Enrichment :=
  match ipAddressOf? host with
  | none => {}
  | some ip =>
      let digest := env.sha256 ip.packed
      let asn := 64512 + ((digest.get 1).toNat <<< 8 ||| (digest.get 2).toNat) % 1000
      { geoip := some
          { country := demoGeos.getD ((digest.get 0).toNat % demoGeos.length) ""
            asn
            org := "AS" ++ toString asn ++ " Demo Network"
            source := "offline-heuristic" } }

/-- `ReputationEnricher.enrich`. -/
def ReputationEnricher.enrich (env : EnrichmentEnv) (host : PyStr) : Enrichment :=
  let digest := env.sha256 (String.ofList host).toUTF8.data.toList
  let detected := digest[0].toNat % 70
  let total := 70
  { reputation := some
      { detected, total, ratio := Rounding.roundTo 3 ((detected : ℚ) / total)
        source := "offline-heuristic" } }

structure DNSEnricher where
  settings : EnrichmentSettings
  ssrf : SSRFGuard

namespace DNSEnricher

/-- `DNSEnricher.__init__`. -/
def new (lower : PyStr → PyStr) (settings : EnrichmentSettings) : DNSEnricher where
  settings
  ssrf := .new lower settings.outboundAllowedHosts

def enrich (enricher : DNSEnricher) (net : Network) (host : PyStr) : NetRoutine Enrichment :=
  if enricher.settings.enableLiveCollectors = false then
    pure { dns := some { resolved := [], source := "offline-heuristic" } }
  else if enricher.ssrf.hostAllowed net.lower host = false then
    pure { dns := some { resolved := [], source := "live", blocked := true } }
  else
    .tryExcept (do
        let resolved ← enricher.ssrf.resolvePublic net host
        pure { dns := some { resolved, source := "live" } })
      fun _ => some (pure { dns := some { resolved := [], source := "live", error := true } })

end DNSEnricher

/-! ## The engine -/

structure EnrichmentEngine where
  dns : DNSEnricher
  ssrf : SSRFGuard

inductive Enricher where
  | geoip
  | dns
  | reputation
  deriving DecidableEq, Repr

namespace EnrichmentEngine

/-- `EnrichmentEngine.__init__`. -/
def new (lower : PyStr → PyStr) (settings : EnrichmentSettings) : EnrichmentEngine where
  dns := .new lower settings
  ssrf := .new lower settings.outboundAllowedHosts

def facet (engine : EnrichmentEngine) (env : EnrichmentEnv) (host : PyStr) :
    Enricher → NetRoutine Enrichment
  | .geoip => pure (GeoIPEnricher.enrich env host)
  | .dns => engine.dns.enrich env.toNetwork host
  | .reputation => pure (ReputationEnricher.enrich env host)

/-- The loop of `enrich`. -/
def merge (engine : EnrichmentEngine) (env : EnrichmentEnv) (host : PyStr) :
    List Enricher → Enrichment → NetRoutine Enrichment
  | [], result => pure result
  | enricher :: enrichers, result => do
      let facet ← engine.facet env host enricher
      engine.merge env host enrichers (result.update facet)

def enrich (engine : EnrichmentEngine) (env : EnrichmentEnv) (iocType : IOCType) (value : PyStr) :
    NetRoutine Enrichment := do
  let host ← .ofExcept (extractHost env.unicode env.lower value iocType)
  match host with
  | none =>
      if hashTypes.contains iocType then pure (ReputationEnricher.enrich env value) else pure {}
  | some host =>
      if engine.ssrf.hostAllowed env.lower host then
        engine.merge env host [.geoip, .dns, .reputation] {}
      else
        engine.merge env host [.geoip, .reputation]
          { dns := some { resolved := [], source := "live", blocked := true } }

/-! ## What is asked, and what is recorded -/

/-- The host is that of the indicator, and may be looked up. -/
structure Permitted (settings : EnrichmentSettings) (net : Network) (iocType : IOCType)
    (value host : PyStr) : Prop where
  extracted : extractHost net.unicode net.lower value iocType = .ok (some host)
  live : settings.enableLiveCollectors = true
  allowed : (SSRFGuard.new net.lower settings.outboundAllowedHosts).hostAllowed net.lower host = true

/-- The addresses that a payload records. -/
def recorded (result : Except Exn Enrichment) : List PyStr :=
  match result with
  | .ok payload => payload.resolved
  | .error _ => []

/-- Nothing has been asked that is not permitted, and nothing is recorded
but public addresses among the answers. -/
structure Discreet (net : Network) (permitted : PyStr → Prop) (asked : List Resolution)
    (resolved : List PyStr) : Prop where
  questions : ∀ r ∈ asked, permitted r.host ∧ ∃ n, r.answer = net.getaddrinfo n r.host r.port
  addresses : ∀ ip ∈ resolved, ipIsPublic ip = true ∧ ∃ r ∈ asked, ip ∈ r.answer.ips

theorem discreet_nil (net : Network) (permitted : PyStr → Prop) : Discreet net permitted [] [] :=
  ⟨fun _ h => absurd h List.not_mem_nil, fun _ h => absurd h List.not_mem_nil⟩

theorem Discreet.mono {net : Network} {p q : PyStr → Prop} {asked : List Resolution}
    {resolved : List PyStr} (h : Discreet net p asked resolved) (hpq : ∀ host, p host → q host) :
    Discreet net q asked resolved :=
  ⟨fun r hr => (h.questions r hr).imp_left (hpq r.host), h.addresses⟩

/-- When the DNS enricher asks. -/
structure Asks (enricher : DNSEnricher) (net : Network) (host host' : PyStr) : Prop where
  same : host' = host
  live : enricher.settings.enableLiveCollectors = true
  allowed : enricher.ssrf.hostAllowed net.lower host = true

/-- The DNS enricher always answers, with a facet of its own only. -/
theorem run_dns (enricher : DNSEnricher) (net : Network) (host : PyStr) (log : List Resolution) :
    ∃ dns asked, (enricher.enrich net host).run log = (.ok { dns := some dns }, log ++ asked) ∧
      Discreet net (Asks enricher net host) asked dns.resolved := by
  rw [DNSEnricher.enrich]
  split
  · exact ⟨_, [], by rw [List.append_nil]; rfl, discreet_nil _ _⟩
  · next hlive =>
      split
      · exact ⟨_, [], by rw [List.append_nil]; rfl, discreet_nil _ _⟩
      · next hallowed =>
          have hasks : Asks enricher net host host :=
            ⟨rfl, Bool.eq_true_of_not_eq_false hlive, Bool.eq_true_of_not_eq_false hallowed⟩
          have hquestion : ∀ r ∈ [net.resolution log host 80], Asks enricher net host r.host ∧
              ∃ n, r.answer = net.getaddrinfo n r.host r.port :=
            List.forall_mem_singleton.mpr ⟨hasks, log.length, rfl⟩
          have hlog := SSRFGuard.log_resolvePublic enricher.ssrf net host log
          rw [if_neg hallowed] at hlog
          rcases hrun : (enricher.ssrf.resolvePublic net host).run log with ⟨e | ips, log'⟩
          · rw [hrun] at hlog
            refine ⟨{ resolved := [], source := "live", error := true }, _, ?_, hquestion,
              fun _ h => absurd h List.not_mem_nil⟩
            rw [Routine.tryExcept_caught (Routine.run_bind_error hrun _) rfl, ← hlog]
            rfl
          · rw [hrun] at hlog
            obtain ⟨resolved, hanswer, rfl⟩ := SSRFGuard.resolvePublic_ok hrun
            refine ⟨{ resolved := resolved.filter fun ip => ipIsPublic ip, source := "live" }, _, ?_,
              hquestion, fun ip hip => ?_⟩
            · refine Routine.tryExcept_ok ?_
              rw [Routine.run_bind_ok hrun, ← hlog]
              rfl
            · obtain ⟨hmem, hpublic⟩ := List.mem_filter.mp hip
              refine ⟨hpublic, _, List.mem_singleton_self _, ?_⟩
              rw [hanswer]
              exact hmem

/-- Location and reputation leave the DNS facet to the others. -/
theorem dns_geoip (env : EnrichmentEnv) (host : PyStr) : (GeoIPEnricher.enrich env host).dns = none := by
  unfold GeoIPEnricher.enrich
  split <;> rfl

theorem resolved_update {result facet : Enrichment} (h : facet.dns = none) :
    (result.update facet).resolved = result.resolved := by
  simp [Enrichment.resolved, Enrichment.update, h]

/-- **The engine is discreet**, whatever the settings and the resolver. -/
theorem run_enrich (env : EnrichmentEnv) (settings : EnrichmentSettings) (iocType : IOCType)
    (value : PyStr) (log : List Resolution) :
    ∃ asked, (((new env.lower settings).enrich env iocType value).run log).2 = log ++ asked ∧
      Discreet env.toNetwork (Permitted settings env.toNetwork iocType value) asked
        (recorded (((new env.lower settings).enrich env iocType value).run log).1) := by
  have hreputation : ∀ host, (ReputationEnricher.enrich env host).dns = none := fun _ => rfl
  have hsilent : ∀ {result : Except Exn Enrichment}, recorded result = [] →
      ∃ asked, log = log ++ asked ∧
        Discreet env.toNetwork (Permitted settings env.toNetwork iocType value) asked
          (recorded result) := fun h => ⟨[], (List.append_nil log).symm, h ▸ discreet_nil _ _⟩
  rw [enrich, Routine.run_bind, Routine.run_ofExcept]
  cases hhost : extractHost env.unicode env.lower value iocType with
  | error e => exact hsilent rfl
  | ok host? =>
      cases host? with
      | none =>
          dsimp only
          split
          · exact hsilent rfl
          · exact hsilent rfl
      | some host =>
          dsimp only
          split
          · next hallowed =>
              obtain ⟨dns, asked, hrun, hdiscreet⟩ := run_dns (new env.lower settings).dns
                env.toNetwork host log
              have hmerge : ((new env.lower settings).merge env host [.geoip, .dns, .reputation] {}).run
                  log = (.ok (((Enrichment.update {} (GeoIPEnricher.enrich env host)).update
                    { dns := some dns }).update (ReputationEnricher.enrich env host)), log ++ asked) := by
                simp only [merge, facet, Routine.run_bind_pure]
                rw [Routine.run_bind_ok hrun]
                rfl
              rw [hmerge]
              refine ⟨asked, rfl, ?_⟩
              rw [recorded, resolved_update (hreputation host)]
              refine hdiscreet.mono ?_
              rintro _ ⟨rfl, hlive, -⟩
              exact ⟨hhost, hlive, hallowed⟩
          · refine hsilent ?_
            exact (resolved_update (hreputation host)).trans (resolved_update (dns_geoip env host))

end EnrichmentEngine

end ThreatIntel
