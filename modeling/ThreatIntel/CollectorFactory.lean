import ThreatIntel.Collectors

/-!
# Building a collector and running it

`factory.py`, `registry.py`, `samples.py` and `common.py` of
`app/collectors`. The factory is where a name becomes a collector and where
a collector gets its key; `collect` decides between the provider and the
samples. Whatever the provider answers, it comes back with a list.
-/

namespace ThreatIntel

/-! ## The registry -/

structure CollectorInfo where
  name : String
  label : String
  category : String
  requiresKey : Bool := false
  fmt : String := "json"
  deriving DecidableEq, Repr

/-- `SUPPORTED_COLLECTORS`. -/
def supportedCollectors : List CollectorInfo :=
  [{ name := "abuseipdb", label := "AbuseIPDB", category := "ip", requiresKey := true },
    { name := "urlhaus", label := "URLHaus", category := "url" },
    { name := "malwarebazaar", label := "MalwareBazaar", category := "hash" },
    { name := "otx", label := "AlienVault OTX", category := "ip", requiresKey := true },
    { name := "cisa_kev", label := "CISA KEV", category := "vuln" },
    { name := "rss", label := "Security RSS", category := "advisory", fmt := "rss" }]

/-- `get_info`. -/
def getInfo (name : PyStr) : Option CollectorInfo :=
  supportedCollectors.find? fun info => info.name.toList = PyStr.lower name

def isSupported (name : PyStr) : Bool := (getInfo name).isSome

/-! ## The samples -/

def textTags (tags : List String) : List Json := tags.map fun tag => .str tag.toList

/-- `SAMPLES`. -/
def samples : Source → List Collected
  | .abuseipdb =>
      [{ value := .str "198.51.100.23".toList
         source := "abuseipdb"
         confidence := .high
         severity := .high
         tags := textTags ["bruteforce", "ssh"]
         description := .str "SSH brute-force source (sample).".toList },
        { value := .str "203.0.113.77".toList
          source := "abuseipdb"
          confidence := .medium
          severity := .medium
          tags := textTags ["scanner"]
          description := .str "Port scanner (sample).".toList }]
  | .urlhaus =>
      [{ value := .str "http://malware-drop.example/payload.bin".toList
         source := "urlhaus"
         confidence := .high
         severity := .critical
         tags := textTags ["malware_download", "elf"]
         references := textTags ["https://urlhaus.abuse.ch/"]
         description := .str "Malware distribution URL (sample).".toList }]
  | .malwarebazaar =>
      [{ value := .str "44d88612fea8a8f36de82e1278abb02f".toList
         source := "malwarebazaar"
         confidence := .confirmed
         severity := .critical
         tags := textTags ["trojan", "agenttesla"]
         description := .str "AgentTesla sample (EICAR-style test hash).".toList }]
  | .otx =>
      [{ value := .str "phishing-login.example".toList
         source := "otx"
         confidence := .medium
         severity := .high
         tags := textTags ["phishing", "credential_harvesting"]
         description := .str "Phishing landing domain (sample).".toList }]
  | .cisaKev =>
      [{ value := .str "CVE-2021-44228".toList
         source := "cisa_kev"
         confidence := .confirmed
         severity := .critical
         tags := textTags ["kev", "rce", "log4j"]
         references := textTags ["https://www.cisa.gov/known-exploited-vulnerabilities-catalog"]
         description := .str "Apache Log4j2 RCE (Log4Shell) — known exploited.".toList }]
  | .rss =>
      [{ value := .str "CVE-2024-3400".toList
         source := "rss"
         confidence := .high
         severity := .high
         tags := textTags ["advisory", "firewall"]
         description := .str "Sample advisory feed item referencing a CVE.".toList }]

/-- `sample_for`. -/
def sampleFor (source : Source) (limit : Nat) : List Collected := (samples source).take limit

/-! ## The factory -/

/-- The settings that decide about outbound collection. -/
structure CollectorSettings where
  enableLiveCollectors : Bool
  abuseipdbApiKey : PyStr := []
  virustotalApiKey : PyStr := []
  otxApiKey : PyStr := []
  shodanApiKey : PyStr := []
  greynoiseApiKey : PyStr := []
  deriving DecidableEq, Repr

/-- `provider_key`. -/
def CollectorSettings.providerKey (settings : CollectorSettings) (provider : String) : PyStr :=
  if provider = "abuseipdb" then settings.abuseipdbApiKey
  else if provider = "virustotal" then settings.virustotalApiKey
  else if provider = "otx" then settings.otxApiKey
  else if provider = "shodan" then settings.shodanApiKey
  else if provider = "greynoise" then settings.greynoiseApiKey
  else []

/-- An `OfflineFirstCollector`. -/
structure Collector where
  source : Source
  settings : CollectorSettings
  apiKey : PyStr
  deriving DecidableEq, Repr

/-- `_KEY_PROVIDERS`. -/
def keyProviders : List (String × String) := [("abuseipdb", "abuseipdb"), ("otx", "otx")]

/-- `CollectorFactory.build`. -/
def CollectorSettings.build (settings : CollectorSettings) (name : PyStr) :
    Except CollectExn Collector :=
  let name := PyStr.lower name
  match isSupported name, Source.collectorClasses.find? fun source => source.name.toList = name with
  | true, some source =>
      pure
        { source
          settings
          apiKey :=
            if (getInfo name).any CollectorInfo.requiresKey then
              settings.providerKey ((keyProviders.lookup source.name).getD source.name)
            else [] }
  | _, _ =>
      throw (.app (.raise .validation
        (String.ofList ("Unsupported collector: ".toList ++ name))))

namespace Collector

/-- `is_live`. -/
def isLive (c : Collector) : Bool :=
  if c.settings.enableLiveCollectors = false then false
  else !(c.source.requiresKey && c.apiKey = [])

/-- `collect`. -/
def collect (E : CollectorEnv) (c : Collector) (limit : Nat) : CollectRoutine (List Collected) :=
  if c.isLive = false then pure (sampleFor c.source limit)
  else
    .tryExcept (c.source.collectLive E c.apiKey limit) fun _ =>
      some (pure (sampleFor c.source limit))

end Collector

/-! ## What the loops yield -/

section

variable {α : Type} {indicator : α → Except CollectExn (Option Collected)}
  {full : List Collected → Bool} {out : List Collected} {result : List Collected × Bool}

/-- A loop goes on behind a row that is passed over, and behind an indicator
unless it returns. -/
theorem gather_cons {row : α} {rows : List α}
    (h : gather indicator full out (row :: rows) = .ok result) :
    (indicator row = .ok none ∧ gather indicator full out rows = .ok result) ∨
      ∃ c, indicator row = .ok (some c) ∧
        (full (out ++ [c]) = true ∧ result = (out ++ [c], true) ∨
          full (out ++ [c]) = false ∧ gather indicator full (out ++ [c]) rows = .ok result) := by
  rw [gather] at h
  rcases hrow : indicator row with e | found
  · rw [hrow] at h
    cases h
  · rw [hrow] at h
    cases found with
    | none => exact .inl ⟨rfl, h⟩
    | some c =>
        refine .inr ⟨c, rfl, ?_⟩
        have h : (if full (out ++ [c]) then pure (out ++ [c], true)
            else gather indicator full (out ++ [c]) rows) = Except.ok result := h
        cases hfull : full (out ++ [c]) with
        | true =>
            rw [if_pos hfull] at h
            exact .inl ⟨rfl, (Except.ok.inj h).symm⟩
        | false =>
            rw [if_neg (by simp [hfull])] at h
            exact .inr ⟨rfl, h⟩

/-- Every indicator that a row yields is of the source. -/
def Yields (name : String) (indicator : α → Except CollectExn (Option Collected)) : Prop :=
  ∀ row c, indicator row = .ok (some c) → c.source = name

theorem gather_source {name : String} (hyields : Yields name indicator) {rows : List α}
    (hout : ∀ c ∈ out, c.source = name) (h : gather indicator full out rows = .ok result) :
    ∀ c ∈ result.1, c.source = name := by
  induction rows generalizing out with
  | nil =>
      obtain rfl := Except.ok.inj h
      exact hout
  | cons row rows ih =>
      rcases gather_cons h with ⟨-, hrest⟩ | ⟨c, hrow, hcase⟩
      · exact ih hout hrest
      · have hmore : ∀ d ∈ out ++ [c], d.source = name := by
          intro d hd
          rcases List.mem_append.mp hd with hd | hd
          · exact hout d hd
          · obtain rfl := List.mem_singleton.mp hd
            exact hyields row d hrow
        rcases hcase with ⟨-, rfl⟩ | ⟨-, hrest⟩
        · exact hmore
        · exact ih hmore hrest

/-- At most one indicator for each row. -/
theorem length_gather_le {rows : List α} (h : gather indicator full out rows = .ok result) :
    result.1.length ≤ out.length + rows.length := by
  induction rows generalizing out with
  | nil =>
      obtain rfl := Except.ok.inj h
      exact le_rfl
  | cons row rows ih =>
      rw [List.length_cons]
      rcases gather_cons h with ⟨-, hrest⟩ | ⟨c, -, ⟨-, rfl⟩ | ⟨-, hrest⟩⟩
      · have := ih hrest
        omega
      · simp only [List.length_append, List.length_singleton]
        omega
      · have := ih hrest
        simp only [List.length_append, List.length_singleton] at this
        omega

/-- A loop that returns once there are as many as allowed. -/
theorem gather_full {limit : Nat} {rows : List α} (hout : out.length < max limit 1)
    (h : gather indicator (fun out => limit ≤ out.length) out rows = .ok result) :
    result.1.length ≤ max limit 1 ∧ (result.2 = false → result.1.length < max limit 1) := by
  induction rows generalizing out with
  | nil =>
      obtain rfl := Except.ok.inj h
      exact ⟨hout.le, fun _ => hout⟩
  | cons row rows ih =>
      rcases gather_cons h with ⟨-, hrest⟩ | ⟨c, -, ⟨-, rfl⟩ | ⟨hfew, hrest⟩⟩
      · exact ih hout hrest
      · refine ⟨?_, nofun⟩
        simp only [List.length_append, List.length_singleton]
        omega
      · refine ih ?_ hrest
        have hfew : (out ++ [c]).length < limit := by simpa using hfew
        omega

end

/-! ## What an answer yields -/

/-- Indicators of the source, no more than allowed; a loop that looks at the
limit behind an indicator yields one in any case. -/
structure OfSource (name : String) (limit : Nat) (out : List Collected) : Prop where
  length_le : out.length ≤ max limit 1
  source : ∀ c ∈ out, c.source = name

theorem exists_of_bind_ok {α β : Type} {x : Except CollectExn α} {f : α → Except CollectExn β} {b : β}
    (h : (x >>= f) = .ok b) : ∃ a, x = .ok a ∧ f a = .ok b := by
  cases x with
  | error e => cases h
  | ok a => exact ⟨a, rfl, h⟩

theorem length_slice_le {value : Json} {limit : Nat} {rows : List Json}
    (h : value.slice limit = .ok rows) : rows.length ≤ limit := by
  cases value with
  | arr items =>
      obtain rfl := Except.ok.inj h
      exact List.length_take_le _ _
  | str s =>
      obtain rfl := Except.ok.inj h
      rw [List.length_map]
      exact List.length_take_le _ _
  | _ => cases h

theorem ofSource_normaliseRows {name field : String}
    {indicator : Json → Except CollectExn (Option Collected)} (hyields : Yields name indicator)
    {limit : Nat} {data : Json} {out : List Collected}
    (h : normaliseRows field indicator limit data = .ok out) : OfSource name limit out := by
  obtain ⟨value, -, h⟩ := exists_of_bind_ok h
  obtain ⟨rows, hrows, h⟩ := exists_of_bind_ok h
  obtain ⟨result, hresult, h⟩ := exists_of_bind_ok h
  obtain rfl := Except.ok.inj h
  have hslice := length_slice_le hrows
  have hlen := length_gather_le hresult
  rw [List.length_nil, Nat.zero_add] at hlen
  exact ⟨by omega, gather_source hyields (by simp) hresult⟩

namespace AbuseIPDBCollector

theorem yields (E : CollectorEnv) : Yields "abuseipdb" (indicator E) := by
  intro row c h
  obtain ⟨found, -, h⟩ := exists_of_bind_ok h
  obtain ⟨score, -, h⟩ := exists_of_bind_ok h
  obtain ⟨value, -, h⟩ := exists_of_bind_ok h
  obtain rfl := Option.some.inj (Except.ok.inj h)
  rfl

end AbuseIPDBCollector

namespace URLHausCollector

theorem yields (E : CollectorEnv) : Yields "urlhaus" (indicator E) := by
  intro row c h
  obtain ⟨url, -, h⟩ := exists_of_bind_ok h
  split at h
  · cases h
  · obtain ⟨found, -, h⟩ := exists_of_bind_ok h
    obtain ⟨tags, -, h⟩ := exists_of_bind_ok h
    obtain ⟨description, -, h⟩ := exists_of_bind_ok h
    obtain rfl := Option.some.inj (Except.ok.inj h)
    rfl

theorem ofSource_normalise {E : CollectorEnv} {limit : Nat} {data : Json} {out : List Collected}
    (h : normalise E limit data = .ok out) : OfSource "urlhaus" limit out := by
  obtain ⟨values, -, h⟩ := exists_of_bind_ok h
  obtain ⟨result, hresult, h⟩ := exists_of_bind_ok h
  obtain rfl := Except.ok.inj h
  exact ⟨(gather_full (by simp) hresult).1, gather_source (yields E) (by simp) hresult⟩

end URLHausCollector

namespace MalwareBazaarCollector

theorem yields (E : CollectorEnv) : Yields "malwarebazaar" (indicator E) := by
  intro row c h
  obtain ⟨sha256, -, h⟩ := exists_of_bind_ok h
  split at h
  · cases h
  · obtain ⟨found, -, h⟩ := exists_of_bind_ok h
    obtain ⟨tags, -, h⟩ := exists_of_bind_ok h
    obtain ⟨description, -, h⟩ := exists_of_bind_ok h
    obtain rfl := Option.some.inj (Except.ok.inj h)
    rfl

end MalwareBazaarCollector

namespace OTXCollector

theorem yields (E : CollectorEnv) (pulse : Json) : Yields "otx" (indicator E pulse) := by
  intro ind c h
  obtain ⟨value, -, h⟩ := exists_of_bind_ok h
  split at h
  · cases h
  · obtain ⟨found, -, h⟩ := exists_of_bind_ok h
    obtain ⟨tags, -, h⟩ := exists_of_bind_ok h
    obtain ⟨description, -, h⟩ := exists_of_bind_ok h
    obtain rfl := Option.some.inj (Except.ok.inj h)
    rfl

/-- Between two pulses there is room for one more indicator. -/
theorem ofSource_pulses {E : CollectorEnv} {limit : Nat} {rest : List Json} {out result : List Collected}
    (hroom : out.length < max limit 1) (hout : ∀ c ∈ out, c.source = "otx")
    (h : pulses E limit out rest = .ok result) : OfSource "otx" limit result := by
  induction rest generalizing out with
  | nil =>
      obtain rfl := Except.ok.inj h
      exact ⟨hroom.le, hout⟩
  | cons pulse rest ih =>
      obtain ⟨value, -, h⟩ := exists_of_bind_ok h
      obtain ⟨inds, -, h⟩ := exists_of_bind_ok h
      obtain ⟨⟨out', returned⟩, hgather, h⟩ := exists_of_bind_ok h
      obtain ⟨hlen, hmore⟩ := gather_full hroom hgather
      have hsource := gather_source (yields E pulse) hout hgather
      cases returned with
      | true =>
          obtain rfl := Except.ok.inj h
          exact ⟨hlen, hsource⟩
      | false => exact ih (hmore rfl) hsource h

theorem ofSource_normalise {E : CollectorEnv} {limit : Nat} {data : Json} {out : List Collected}
    (h : normalise E limit data = .ok out) : OfSource "otx" limit out := by
  obtain ⟨value, -, h⟩ := exists_of_bind_ok h
  obtain ⟨items, -, h⟩ := exists_of_bind_ok h
  exact ofSource_pulses (by simp) (by simp) h

end OTXCollector

namespace CisaKevCollector

theorem yields (E : CollectorEnv) : Yields "cisa_kev" (indicator E) := by
  intro row c h
  obtain ⟨cve, -, h⟩ := exists_of_bind_ok h
  split at h
  · cases h
  · obtain ⟨description, -, h⟩ := exists_of_bind_ok h
    obtain rfl := Option.some.inj (Except.ok.inj h)
    rfl

end CisaKevCollector

namespace RSSCollector

/-- Between two feeds there is room for one more indicator. -/
theorem ofSource_collectFeeds {E : CollectorEnv} {limit : Nat} {rest : List String}
    {out result : List Collected} (hroom : out.length < max limit 1)
    (hout : ∀ c ∈ out, c.source = "rss") {w w' : Outbound}
    (h : (collectFeeds E limit out rest).run w = (.ok result, w')) : OfSource "rss" limit result := by
  induction rest generalizing out w with
  | nil =>
      obtain ⟨hresult, -⟩ := Prod.mk.inj h
      obtain rfl := Except.ok.inj hresult
      exact ⟨hroom.le, hout⟩
  | cons feedUrl rest ih =>
      obtain ⟨resp, w₁, -, h⟩ := Routine.run_bind_eq_ok.mp h
      obtain ⟨entries, w₂, -, h⟩ := Routine.run_bind_eq_ok.mp h
      obtain ⟨⟨out', returned⟩, w₃, hgather, h⟩ := Routine.run_bind_eq_ok.mp h
      obtain ⟨hgather, -⟩ := Prod.mk.inj hgather
      obtain ⟨hlen, hmore⟩ := gather_full hroom hgather
      have hyields : Yields "rss" fun entry => pure (some (indicator entry)) := by
        intro entry c hc
        obtain rfl := Option.some.inj (Except.ok.inj hc)
        rfl
      have hsource := gather_source hyields hout hgather
      cases returned with
      | true =>
          obtain ⟨hresult, -⟩ := Prod.mk.inj h
          obtain rfl := Except.ok.inj hresult
          exact ⟨hlen, hsource⟩
      | false => exact ih (hmore rfl) hsource h

end RSSCollector

section

variable {E : CollectorEnv} {provider : String} {r : HttpRequest}
  {normalise : Json → Except CollectExn (List Collected)} {w w' : Outbound} {out : List Collected}

theorem run_collectJson_ok (h : (collectJson E provider r normalise).run w = (.ok out, w')) :
    ∃ data, normalise data = .ok out := by
  obtain ⟨client, w₁, -, h⟩ := Routine.run_bind_eq_ok.mp h
  obtain ⟨data, w₂, -, h⟩ := Routine.run_bind_eq_ok.mp h
  exact ⟨data, (Prod.mk.inj h).1⟩

/-- What a live run yields, if it yields anything. -/
theorem ofSource_collectLive {apiKey : PyStr} {limit : Nat} {source : Source}
    (h : (source.collectLive E apiKey limit).run w = (.ok out, w')) :
    OfSource source.name limit out := by
  cases source with
  | abuseipdb =>
      obtain ⟨data, hdata⟩ := run_collectJson_ok h
      exact ofSource_normaliseRows (AbuseIPDBCollector.yields E) hdata
  | urlhaus =>
      obtain ⟨data, hdata⟩ := run_collectJson_ok h
      exact URLHausCollector.ofSource_normalise hdata
  | malwarebazaar =>
      obtain ⟨data, hdata⟩ := run_collectJson_ok h
      exact ofSource_normaliseRows (MalwareBazaarCollector.yields E) hdata
  | otx =>
      obtain ⟨data, hdata⟩ := run_collectJson_ok h
      exact OTXCollector.ofSource_normalise hdata
  | cisaKev =>
      obtain ⟨data, hdata⟩ := run_collectJson_ok h
      exact ofSource_normaliseRows (CisaKevCollector.yields E) hdata
  | rss => exact RSSCollector.ofSource_collectFeeds (by simp) (by simp) h

end

theorem ofSource_sampleFor (source : Source) (limit : Nat) :
    OfSource source.name limit (sampleFor source limit) where
  length_le := (List.length_take_le _ _).trans (le_max_left _ _)
  source := by
    intro c hc
    have hc : c ∈ samples source := List.mem_of_mem_take hc
    have hall : ∀ c ∈ samples source, c.source = source.name := by
      cases source <;> simp [samples, Source.name]
    exact hall c hc

/-! ## What a live run sends -/

/-- Where a source is asked. -/
def Source.url : Source → String
  | abuseipdb => "https://api.abuseipdb.com/api/v2/blacklist"
  | urlhaus => "https://urlhaus.abuse.ch/downloads/json_recent/"
  | malwarebazaar => "https://mb-api.abuse.ch/api/v1/"
  | otx => "https://otx.alienvault.com/api/v1/pulses/subscribed"
  | cisaKev =>
      "https://www.cisa.gov/sites/default/files/feeds/known_exploited_vulnerabilities.json"
  | rss => "https://www.cisa.gov/cybersecurity-advisories/all.xml"

/-- What a source is asked for; no key goes into it. -/
def Source.params (limit : Nat) : Source → List (String × Detail)
  | abuseipdb => [("confidenceMinimum", .int 75), ("limit", .int limit)]
  | malwarebazaar => [("query", .str "get_recent"), ("selector", .str "time")]
  | otx => [("limit", .int limit)]
  | urlhaus | cisaKev | rss => []

/-- A request to the source, with no credential but its key. -/
structure Sanctioned (source : Source) (apiKey : PyStr) (limit : Nat) (r : HttpRequest) : Prop where
  url : r.url = source.url
  params : r.params = source.params limit
  headers : ∀ header ∈ r.headers, header.1 = "Accept" ∨ header.2 = apiKey

/-- The breaker that a source goes through; the feeds have none. -/
def Source.breakerName (source : Source) : String := ProviderHttpClient.breakerName source.name

section

variable {P : HttpRequest → Prop} {E : CollectorEnv}

theorem outgoing_collectJson {provider : String} {r : HttpRequest}
    (normalise : Json → Except CollectExn (List Collected)) (h : P r) :
    Routine.Costs (Outgoing P (· = ProviderHttpClient.breakerName provider)) 3
      (collectJson E provider r normalise) := by
  have hg := graded_outgoing P (· = ProviderHttpClient.breakerName provider)
  have hget : Routine.Costs (Outgoing P (· = ProviderHttpClient.breakerName provider)) 3
      (ProviderHttpClient.getJson E.toInternet { provider } r) := fun w =>
    (ProviderHttpClient.outgoing_getJson E.toInternet { provider } r w).imp
      (fun _ heq => heq ▸ h) fun _ h => h
  intro w
  rw [collectJson, Routine.run_bind_ok (ProviderHttpClient.run_new provider w)]
  exact hg.trans (outgoing_setBreaker w _ _) (hg.bind (k := 0) hget (fun _ => hg.ofExcept _) _)

theorem outgoing_collectFeeds {touched : String → Prop} {limit : Nat} (out : List Collected)
    {feeds : List String} (h : ∀ url ∈ feeds, P { url }) :
    Routine.Costs (Outgoing P touched) feeds.length (RSSCollector.collectFeeds E limit out feeds) := by
  have hg := graded_outgoing P touched
  induction feeds generalizing out with
  | nil => exact hg.pure _
  | cons feedUrl rest ih =>
      obtain ⟨hfeed, hrest⟩ := List.forall_mem_cons.mp h
      have hget : Routine.Costs (Outgoing P touched) 1 (E.toInternet.get { url := feedUrl }) := fun w =>
        (outgoing_get touched E.toInternet { url := feedUrl } w).imp (fun _ heq => heq ▸ hfeed)
          fun _ h => h
      rw [List.length_cons, Nat.add_comm]
      refine hg.bind hget fun resp => ?_
      refine hg.weaken (j := 0 + (0 + rest.length)) ?_ (by omega)
      refine hg.bind (hg.ofExcept _) fun entries => hg.bind (hg.ofExcept _) fun found => ?_
      obtain ⟨out', returned⟩ := found
      cases returned with
      | true => exact hg.weaken (hg.pure _) (Nat.zero_le _)
      | false => exact ih out' hrest

/-- **A live run** sends at most three requests, to its source and with its
key alone, and touches no breaker but its own. -/
theorem outgoing_collectLive (E : CollectorEnv) (apiKey : PyStr) (limit : Nat) (source : Source) :
    Routine.Costs (Outgoing (Sanctioned source apiKey limit) (· = source.breakerName)) 3
      (source.collectLive E apiKey limit) := by
  cases source with
  | abuseipdb => exact outgoing_collectJson _ ⟨rfl, rfl, by simp⟩
  | urlhaus => exact outgoing_collectJson _ ⟨rfl, rfl, by simp⟩
  | malwarebazaar => exact outgoing_collectJson _ ⟨rfl, rfl, by simp⟩
  | otx => exact outgoing_collectJson _ ⟨rfl, rfl, by simp⟩
  | cisaKev => exact outgoing_collectJson _ ⟨rfl, rfl, by simp⟩
  | rss =>
      have hfeeds : ∀ url ∈ RSSCollector.feeds, Sanctioned .rss apiKey limit { url } := by
        intro url hurl
        obtain rfl := List.mem_singleton.mp hurl
        exact ⟨rfl, rfl, by simp⟩
      have hg := graded_outgoing (Sanctioned .rss apiKey limit) (· = Source.rss.breakerName)
      exact hg.weaken (outgoing_collectFeeds [] hfeeds) (by decide)

end

/-! ## Collecting -/

/-- The registry says of a source what its class says. -/
theorem getInfo_name (source : Source) :
    ∃ info, getInfo source.name.toList = some info ∧ info.requiresKey = source.requiresKey := by
  cases source <;> exact ⟨_, rfl, rfl⟩

theorem lookup_keyProviders (source : Source) :
    (keyProviders.lookup source.name).getD source.name = source.name := by
  cases source <;> rfl

/-- There is no setting for a key that is not needed. -/
theorem providerKey_of_not_required {source : Source} (h : source.requiresKey = false)
    (settings : CollectorSettings) : settings.providerKey source.name = [] := by
  cases source with
  | abuseipdb => cases h
  | otx => cases h
  | urlhaus => rfl
  | malwarebazaar => rfl
  | cisaKev => rfl
  | rss => rfl

/-- What the factory builds is for the source of that name, with the key of
that source. -/
theorem build_eq_ok {settings : CollectorSettings} {name : PyStr} {c : Collector}
    (h : settings.build name = .ok c) :
    c.source.name.toList = PyStr.lower name ∧ c.settings = settings ∧
      c.apiKey = settings.providerKey c.source.name := by
  unfold CollectorSettings.build at h
  cases hfind : Source.collectorClasses.find? fun source =>
      source.name.toList = PyStr.lower name with
  | none =>
      simp only [hfind] at h
      cases hsupported : isSupported (PyStr.lower name) <;> simp [hsupported] at h
  | some source =>
      have hname : source.name.toList = PyStr.lower name := by simpa using List.find?_some hfind
      obtain ⟨info, hinfo, hkey⟩ := getInfo_name source
      rw [hname] at hinfo
      have hsupported : isSupported (PyStr.lower name) = true := by rw [isSupported, hinfo]; rfl
      simp only [hfind, hsupported, hinfo] at h
      obtain rfl := Except.ok.inj h
      refine ⟨hname, rfl, ?_⟩
      rw [Option.any_some, hkey, lookup_keyProviders]
      cases hrequired : source.requiresKey with
      | true => rfl
      | false => exact (providerKey_of_not_required hrequired settings).symm

namespace Collector

/-- **Collecting never fails**, whatever the provider does, and yields no
more than was asked for, all of it of this source. It sends at most three
requests, to this source, with no key but that of this source in a header
and none in the parameters. While the policy keeps collectors offline, or a
key is needed and there is none, nothing is sent and the samples are what it
yields. -/
theorem collect_contract (E : CollectorEnv) {settings : CollectorSettings} {name : PyStr}
    {c : Collector} (hbuild : settings.build name = .ok c) (limit : Nat) (w : Outbound) :
    ∃ out w', (c.collect E limit).run w = (.ok out, w') ∧ OfSource c.source.name limit out ∧
      (1 ≤ limit → out.length ≤ limit) ∧
      (∃ new, w'.sent = w.sent ++ new ∧ new.length ≤ 3 ∧
        ∀ r ∈ new, r.url = c.source.url ∧ r.params = c.source.params limit ∧
          ∀ header ∈ r.headers, header.1 = "Accept" ∨
            header.2 = settings.providerKey c.source.name) ∧
      (settings.enableLiveCollectors = false ∨
          c.source.requiresKey = true ∧ settings.providerKey c.source.name = [] →
        out = sampleFor c.source limit ∧ w' = w) := by
  obtain ⟨hname, hsettings, hkey⟩ := build_eq_ok hbuild
  cases hlive : c.isLive with
  | false =>
      refine ⟨sampleFor c.source limit, w, ?_, ofSource_sampleFor _ _,
        fun _ => List.length_take_le _ _, ⟨[], by simp⟩, fun _ => ⟨rfl, rfl⟩⟩
      rw [collect, if_pos hlive]
      rfl
  | true =>
      have honline : ¬ (settings.enableLiveCollectors = false ∨
          c.source.requiresKey = true ∧ settings.providerKey c.source.name = []) := by
        rintro (hoff | ⟨hneeded, hnone⟩)
        · simp [isLive, hsettings, hoff] at hlive
        · simp [isLive, hneeded, hkey, hnone] at hlive
      obtain ⟨new, hsent, hlen, hnew⟩ := (outgoing_collectLive E c.apiKey limit c.source w).sent
      have hsanctioned : ∀ r ∈ new, r.url = c.source.url ∧ r.params = c.source.params limit ∧
          ∀ header ∈ r.headers, header.1 = "Accept" ∨
            header.2 = settings.providerKey c.source.name :=
        fun r hr => ⟨(hnew r hr).url, (hnew r hr).params, hkey ▸ (hnew r hr).headers⟩
      rw [collect, if_neg (by simp [hlive])]
      rcases hrun : (c.source.collectLive E c.apiKey limit).run w with ⟨e | out, w'⟩
      · rw [hrun] at hsent
        exact ⟨sampleFor c.source limit, w', Routine.tryExcept_caught hrun rfl,
          ofSource_sampleFor _ _, fun _ => List.length_take_le _ _, ⟨new, hsent, hlen, hsanctioned⟩,
          fun h => absurd h honline⟩
      · rw [hrun] at hsent
        have hout : OfSource c.source.name limit out := ofSource_collectLive hrun
        have hlimit : 1 ≤ limit → out.length ≤ limit := fun hpos => by
          have := hout.length_le
          omega
        exact ⟨out, w', Routine.tryExcept_ok hrun, hout, hlimit, ⟨new, hsent, hlen, hsanctioned⟩,
          fun h => absurd h honline⟩

/-- Providers that nothing gets through to. -/
def offlineEnv : CollectorEnv where
  respond _ _ := .error (.transport "timed out")
  takes _ := 0
  takes_nonneg _ := le_rfl
  interpreter := .ascii
  intOfFloat _ := .error .valueError
  intOfStr _ := .error .valueError
  parseFeed _ := .ok []

/-- Live collection, with a key for one of the two sources that need one. -/
def sampleSettings : CollectorSettings where
  enableLiveCollectors := true
  otxApiKey := "k".toList

theorem collect_contract_sample :
    ∃ out w', (collect offlineEnv ⟨.otx, sampleSettings, "k".toList⟩ 5).run { now := 0 } =
        (.ok out, w') ∧ OfSource "otx" 5 out ∧ (1 ≤ 5 → out.length ≤ 5) ∧
      (∃ new, w'.sent = [] ++ new ∧ new.length ≤ 3 ∧
        ∀ r ∈ new, r.url = Source.otx.url ∧ r.params = Source.otx.params 5 ∧
          ∀ header ∈ r.headers, header.1 = "Accept" ∨
            header.2 = sampleSettings.providerKey "otx") ∧
      (sampleSettings.enableLiveCollectors = false ∨
          Source.otx.requiresKey = true ∧ sampleSettings.providerKey "otx" = [] →
        out = sampleFor .otx 5 ∧ w' = { now := 0 }) :=
  @collect_contract offlineEnv sampleSettings "OTX".toList ⟨.otx, sampleSettings, "k".toList⟩ rfl 5
    { now := 0 }

end Collector

end ThreatIntel
