import ThreatIntel.EnrichmentEngine
import ThreatIntel.IngestBatch

/-!
# Private address space

An address that is not public gets no further than the guard. The payload
of an upsert is what the engine answers about its indicator, so the edges
that are stored for the addresses in it lead to public ones. Which edges
there are is read off their keys, and the target is part of the key.
-/

namespace ThreatIntel

/-- The edge leads to a public address. -/
def CorrelationEdge.TargetsPublic (e : CorrelationEdge) : Prop :=
  ∃ ip, ipIsPublic ip = true ∧ e.targetRef = makeRef (refTypeForHost ip).value ip

theorem CorrelationEdge.TargetsPublic.of_triple {e e' : CorrelationEdge} (h : e.TargetsPublic)
    (htriple : e.triple = e'.triple) : e'.TargetsPublic := by
  obtain ⟨ip, hpublic, hip⟩ := h
  have htarget : e.targetRef = e'.targetRef := congrArg (fun k => k.2.1) htriple
  exact ⟨ip, hpublic, htarget.symm.trans hip⟩

namespace IOCService

open EnrichmentEngine

variable {S : IOCService} {call : UpsertCall} {c : Conditions} {parsed : ParsedIndicator}
  {enrichment : Enrichment} {settings : EnrichmentSettings} {ioc : Ioc} {w w' : IntelWorld}

/-- The payload of the upsert, if it asks for one and gets one, is what the
engine answers about the indicator. -/
def Answered (S : IOCService) (settings : EnrichmentSettings) (row : Row) : Prop :=
  row.1.doEnrich = true → ¬ row.2.FailsIn [.enrich] →
    ∀ parsed, Indicators.classifyIndicator S.interpreter.unicode row.1.rawValue = .ok parsed →
      ∃ (env : EnrichmentEnv) (log log' : List Resolution),
        env.unicode = S.interpreter.unicode ∧ env.lower = S.lower ∧
          ((new env.lower settings).enrich env parsed.type parsed.value).run log =
            (.ok row.2.enrichment, log')

/-- What the engine answers records public addresses. -/
theorem resolved_public (hanswered : S.Answered settings (call, c))
    (hclass : Indicators.classifyIndicator S.interpreter.unicode call.rawValue = .ok parsed)
    (hpass : ¬ c.FailsIn (enrichSites call)) :
    ∀ ip ∈ (enrichmentOf call c).resolved, ipIsPublic ip = true := by
  rw [enrichmentOf]
  rw [enrichSites] at hpass
  split
  · next hasked =>
      rw [if_pos hasked] at hpass
      obtain ⟨env, log, log', -, -, hrun⟩ := hanswered hasked hpass parsed hclass
      obtain ⟨asked, -, hdiscreet⟩ := run_enrich env settings parsed.type parsed.value log
      rw [hrun] at hdiscreet
      exact fun ip hip => (hdiscreet.addresses ip hip).1
  · exact fun ip hip => absurd hip List.not_mem_nil

/-- The edge to the host of a URL is of another kind. -/
theorem hostEdge_relationship {selfRef source : PyStr} {host : Option PyStr} {e : CorrelationEdge}
    (he : e ∈ hostEdge selfRef source host) : e.relationship = "communicates-with" := by
  unfold hostEdge at he
  split at he
  · cases he
  · split at he
    · cases he
    · rw [List.mem_singleton.mp he]

/-- An edge of an upsert goes to the host of its URL, or to an address of
the payload. -/
theorem mem_relationships {source : PyStr} {es : List CorrelationEdge}
    (hes : relationships S.interpreter.unicode S.lower parsed enrichment source = .ok es)
    {e : CorrelationEdge} (he : e ∈ es) :
    e.relationship = "communicates-with" ∨
      ∃ ip ∈ enrichment.resolved, e.targetRef = makeRef (refTypeForHost ip).value ip := by
  have hcases : ∀ host selfRef, e ∈ hostEdge selfRef source host ++ enrichment.resolved.map (fun ip =>
      { sourceRef := selfRef
        targetRef := makeRef (refTypeForHost ip).value ip
        relationship := "resolves-to"
        confidence := 8 / 10
        source := "dns".toList }) → e.relationship = "communicates-with" ∨
      ∃ ip ∈ enrichment.resolved, e.targetRef = makeRef (refTypeForHost ip).value ip := by
    intro host selfRef hmem
    rcases List.mem_append.mp hmem with hhost | hresolved
    · exact .inl (hostEdge_relationship hhost)
    · obtain ⟨ip, hip, rfl⟩ := List.mem_map.mp hresolved
      exact .inr ⟨ip, hip, rfl⟩
  rw [relationships] at hes
  by_cases htype : parsed.type = .url
  · rw [if_pos htype] at hes
    cases hhost : extractHost S.interpreter.unicode S.lower parsed.value .url with
    | error e => simp [hhost, bind, Except.bind] at hes
    | ok host =>
        rw [hhost] at hes
        cases hes
        exact hcases _ _ he
  · rw [if_neg htype] at hes
    cases hes
    exact hcases _ _ he

/-- The edges of before, and edges to public addresses. -/
theorem edges_of_upsert (hanswered : S.Answered settings (call, c))
    (hrun : (S.upsert call c).run w = (.ok ioc, w')) :
    ∀ e ∈ w'.db.edges.rows, e.relationship = "resolves-to" →
      w.db.edges.hasKey e.triple = true ∨ e.TargetsPublic := by
  intro e he hresolves
  obtain ⟨w₁, hpersist, hdb, -⟩ := persist_of_upsert_ok hrun
  obtain ⟨parsed, es, hes, hsites, hp, -, hlinked⟩ := persist_ok hpersist
  have hpass : ¬ c.FailsIn (enrichSites call) := (Conditions.not_failsIn_append.mp hsites).1
  have hkey : w₁.db.edges.hasKey e.triple = true := by
    rw [hdb] at he
    exact (Table.hasKey_iff _ _).mpr ⟨e, he, rfl⟩
  refine ((hlinked e.triple).mp hkey).imp_right ?_
  rintro ⟨e', he', htriple⟩
  have hresolves' : e'.relationship = "resolves-to" :=
    (congrArg (fun k => k.2.2) htriple).trans hresolves
  rcases mem_relationships hes he' with hother | ⟨ip, hip, htarget⟩
  · exact absurd (hother.symm.trans hresolves') (by decide)
  · have hpublic := resolved_public hanswered hp.classified hpass ip hip
    exact CorrelationEdge.TargetsPublic.of_triple ⟨ip, hpublic, htarget⟩ htriple

/-- An edge that resolves was there before the run or leads to a public
address. -/
def Sheltered (w₀ w : IntelWorld) : Prop :=
  ∀ e ∈ w.db.edges.rows, e.relationship = "resolves-to" →
    w₀.db.edges.hasKey e.triple = true ∨ e.TargetsPublic

theorem preserves_sheltered (S : IOCService) (settings : EnrichmentSettings) (w₀ : IntelWorld) :
    S.Preserves (S.Answered settings) (Sheltered w₀) where
  failed hw hdb _ := by
    rw [Sheltered, hdb]
    exact hw
  upserted := by
    intro w w' call c ioc hanswered hw hrun e he hresolves
    rcases edges_of_upsert hanswered hrun e he hresolves with hold | hpublic
    · obtain ⟨e₀, he₀, htriple⟩ := (Table.hasKey_iff _ _).mp hold
      have hresolves₀ : e₀.relationship = "resolves-to" :=
        (congrArg (fun k => k.2.2) htriple).trans hresolves
      have hsheltered := hw e₀ he₀ hresolves₀
      rw [htriple] at hsheltered
      exact hsheltered.imp_right fun hpublic => hpublic.of_triple htriple
    · exact .inr hpublic

/-- **Private address space does not leak.** The engine asks for nothing but
the host of the indicator, and for that only if live collection is enabled
and the host allowed; it records public addresses out of the answers. So
the edges that upserts store for addresses lead to public ones, in every
run of requests. And a URL is let through with a scheme, a host and
addresses as they should be. -/
theorem private_space_never_leaks (settings : EnrichmentSettings) :
    (∀ (env : EnrichmentEnv) (iocType : IOCType) (value : PyStr) (log : List Resolution),
      ∃ asked, (((new env.lower settings).enrich env iocType value).run log).2 = log ++ asked ∧
        Discreet env.toNetwork (Permitted settings env.toNetwork iocType value) asked
          (recorded (((new env.lower settings).enrich env iocType value).run log).1)) ∧
    (∀ (S : IOCService) (w : IntelWorld) (requests : List Request),
      Runs.Meets S.step (fun w request => ∀ row ∈ S.rowsOf w request, S.Answered settings row)
          w requests →
        Sheltered w (Runs.run S.step w requests)) ∧
    ∀ (guard : SSRFGuard) (net : Network) (url : PyStr) (target : SafeTarget)
        (log log' : List Resolution),
      (guard.validate net url).run log = (.ok target, log') →
        SSRFGuard.UrlAllowed guard net url target.host ∧
          (net.resolution log target.host target.port).answer = .addresses target.resolvedIps ∧
          ∀ ip ∈ target.resolvedIps, ipIsPublic ip = true := by
  refine ⟨fun env => run_enrich env settings, fun S w requests hanswered => ?_,
    fun guard net url target log log' hrun => ?_⟩
  · refine (preserves_sheltered S settings w).run hanswered fun e he _ => .inl ?_
    exact (Table.hasKey_iff _ _).mpr ⟨e, he, rfl⟩
  · obtain ⟨-, hurl, -, hanswer, hpublic⟩ := SSRFGuard.validate_ok hrun
    exact ⟨hurl, hanswer, hpublic⟩

/-- A resolver that mixes a private address into the first answer. -/
def mixedEnv : EnrichmentEnv where
  unicode := Interpreter.ascii.unicode
  lower := id
  getaddrinfo n _ _ :=
    if n = 0 then .addresses ["93.184.216.34".toList, "10.0.0.1".toList]
    else .addresses ["93.184.216.34".toList]
  sha256 _ := Vector.replicate 32 0

def liveSettings : EnrichmentSettings where
  enableLiveCollectors := true
  outboundAllowedHosts := [".example".toList]

/-- What the engine answers about `evil.example`. -/
def mixedPayload : Enrichment :=
  match (((new mixedEnv.lower liveSettings).enrich mixedEnv .domain "evil.example".toList).run
      []).1 with
  | .ok payload => payload
  | .error _ => {}

def mixedRequests : List Request :=
  [.upsert { rawValue := "evil.example".toList } { enrichment := mixedPayload, now := 0 } none]

theorem private_space_never_leaks_sample :
    recorded (((new mixedEnv.lower liveSettings).enrich mixedEnv .domain
        "evil.example".toList).run []).1 = ["93.184.216.34".toList] ∧
      Sheltered { db := .withRules .empty } (Runs.run
        (step { IntelEnv.sample with alerts := none }) { db := .withRules .empty } mixedRequests) ∧
      ∀ ip ∈ ["93.184.216.34".toList], ipIsPublic ip = true := by
  have hleaks := private_space_never_leaks liveSettings
  refine ⟨by decide +kernel, hleaks.2.1 _ _ _ ⟨?_, trivial⟩, ?_⟩
  · refine List.forall_mem_singleton.mpr fun _ _ parsed hparsed => ?_
    have hdomain : Indicators.classifyIndicator Interpreter.ascii.unicode "evil.example".toList =
        .ok ⟨.domain, "evil.example".toList⟩ := by decide +kernel
    obtain rfl := Except.ok.inj (hdomain.symm.trans hparsed)
    exact ⟨mixedEnv, [], _, rfl, rfl, rfl⟩
  · exact (hleaks.2.2 (.new id ["example".toList]) mixedEnv.toNetwork
      "https://evil.example:8443/".toList
      { url := "https://evil.example:8443/".toList
        host := "evil.example".toList
        port := 8443
        resolvedIps := ["93.184.216.34".toList] }
      [⟨[], 80, .gaierror⟩] _ (by rfl)).2.2

end IOCService

end ThreatIntel
