import ThreatIntel.Ingest

/-!
# What an upsert does

One lemma for each stage of an upsert up to the evaluation of the rules,
in both directions: what a stage has done when it succeeds, and that it
succeeds unless it fails at one of its own places.
-/

namespace ThreatIntel

/-! ## Sites -/

namespace Conditions

variable {c : Conditions} {site : Site} {w w' : IntelWorld}

theorem failsIn_iff {sites : List Site} :
    c.FailsIn sites ↔ ∃ fault, c.fault = some fault ∧ fault.site ∈ sites := Iff.rfl

theorem not_failsIn_append {sites sites' : List Site} :
    ¬ c.FailsIn (sites ++ sites') ↔ ¬ c.FailsIn sites ∧ ¬ c.FailsIn sites' := by
  simp only [failsIn_iff, List.mem_append]
  grind

/-- A fault is at one place only. -/
theorem site_eq_of_failsIn {site' : Site} (h : c.FailsIn [site]) (h' : c.FailsIn [site']) :
    site = site' := by
  obtain ⟨fault, hfault, hsite⟩ := h
  obtain ⟨fault', hfault', hsite'⟩ := h'
  obtain rfl := Option.mem_unique hfault hfault'
  rw [← List.mem_singleton.mp hsite, List.mem_singleton.mp hsite']

theorem run_pass (h : ¬ c.FailsIn [site]) (w : IntelWorld) : (c.pass site).run w = (.ok (), w) := by
  unfold pass
  split
  · next fault hfault =>
      have hne : fault.site ≠ site := fun heq => h ⟨fault, hfault, by simp [heq]⟩
      simp [hne]
  · rfl

theorem run_pass_failsIn (h : c.FailsIn [site]) (w : IntelWorld) :
    ∃ e, (c.pass site).run w = (.error e, w) := by
  obtain ⟨fault, hfault, hsite⟩ := h
  have hsite : fault.site = site := by simpa using hsite
  exact ⟨fault.exn, by simp [pass, Option.mem_def.mp hfault, hsite]⟩

theorem run_pass_eq_ok {u : Unit} :
    (c.pass site).run w = (.ok u, w') ↔ ¬ c.FailsIn [site] ∧ w' = w := by
  by_cases h : c.FailsIn [site]
  · obtain ⟨e, he⟩ := run_pass_failsIn h w
    simp [he, h]
  · simp [run_pass h, h, eq_comm]

theorem keeps_pass (I : IntelWorld → Prop) (c : Conditions) (site : Site) :
    Routine.Keeps I (c.pass site) := by
  intro w h
  by_cases hf : c.FailsIn [site]
  · obtain ⟨e, he⟩ := run_pass_failsIn hf w
    rwa [he]
  · rwa [run_pass hf]

end Conditions

/-! ## Columns -/

/-- An integer column can hold the number. -/
def Fits (n : Int) : Prop := -2 ^ 63 ≤ n ∧ n < 2 ^ 63

instance (n : Int) : Decidable (Fits n) := inferInstanceAs (Decidable (_ ∧ _))

theorem run_toColumn_eq_ok {n : Int} {m : IntColumn} {w w' : IntelWorld} :
    (toColumn n).run w = (.ok m, w') ↔ m.val = n ∧ w' = w := by
  unfold toColumn
  split
  · next h =>
      constructor
      · intro hrun
        cases hrun
        exact ⟨rfl, rfl⟩
      · rintro ⟨rfl, rfl⟩
        rfl
  · next h =>
      constructor
      · intro hrun
        cases hrun
      · rintro ⟨rfl, -⟩
        exact absurd m.property h

theorem keeps_toColumn (I : IntelWorld → Prop) (n : Int) : Routine.Keeps I (toColumn n) := by
  unfold toColumn
  split
  · exact Routine.keeps_pure I _
  · exact Routine.keeps_raise I _

namespace IOCService

variable {S : IOCService} {call : UpsertCall} {c : Conditions} {parsed : ParsedIndicator}
  {known : Option Ioc} {score : ScoreResult} {ioc : Ioc} {w w' : IntelWorld}

/-! ## The stages of an upsert -/

/-- The answer of the enrichers, if they are asked. -/
def enrichmentOf (call : UpsertCall) (c : Conditions) : Enrichment :=
  if call.doEnrich then c.enrichment else {}

/-- Asking the enrichers is a place to fail. -/
def enrichSites (call : UpsertCall) : List Site := if call.doEnrich then [.enrich] else []

theorem run_enrich_eq_ok {e : Enrichment} :
    (enrich call c).run w = (.ok e, w') ↔
      ¬ c.FailsIn (enrichSites call) ∧ e = enrichmentOf call c ∧ w' = w := by
  unfold enrich enrichSites enrichmentOf
  split
  · rw [Routine.run_bind_eq_ok]
    constructor
    · rintro ⟨u, w₁, hpass, hpure⟩
      obtain ⟨hnot, rfl⟩ := Conditions.run_pass_eq_ok.mp hpass
      cases hpure
      exact ⟨hnot, rfl, rfl⟩
    · rintro ⟨hnot, rfl, rfl⟩
      exact ⟨(), w', Conditions.run_pass hnot w', rfl⟩
  · constructor
    · intro h
      cases h
      exact ⟨by simp [Conditions.failsIn_iff], rfl, rfl⟩
    · rintro ⟨-, rfl, rfl⟩
      rfl

theorem keeps_enrich (I : IntelWorld → Prop) (call : UpsertCall) (c : Conditions) :
    Routine.Keeps I (enrich call c) := by
  unfold enrich
  split
  · exact (Conditions.keeps_pass I c _).bind fun _ => Routine.keeps_pure I _
  · exact Routine.keeps_pure I _

/-- What storing an indicator does: a row is inserted, under a fresh
identifier, or the row that is known is brought up to date. -/
inductive Stored (S : IOCService) (call : UpsertCall) (c : Conditions) (parsed : ParsedIndicator)
    (score : ScoreResult) (w : IntelWorld) : Option Ioc → Ioc → IntelWorld → Prop where
  | created {sightings threatScore : IntColumn} {ioc : Ioc} (hsightings : sightings.val = 1)
      (hscore : threatScore.val = score.score)
      (hioc : ioc = newIoc parsed call c.now threatScore score.level sightings (S.uuid4 w.issued))
      (hnew : w.db.iocs.hasKey ioc.key = false) :
      Stored S call c parsed score w none ioc
        { w with db := { w.db with iocs := w.db.iocs.insert ioc }, issued := w.issued + 1 }
  | updated {sightings threatScore : IntColumn} {row : Ioc}
      (hsightings : sightings.val = row.sightings.val + 1)
      (hscore : threatScore.val = score.score) :
      Stored S call c parsed score w (some row)
        (row.resight call c.now threatScore score.level sightings)
        { w with db := { w.db with
            iocs := w.db.iocs.modify row.key
              (Ioc.resight call c.now threatScore score.level sightings) fun _ => rfl } }

theorem store_ok (h : (S.store call c parsed known score).run w = (.ok ioc, w')) :
    ¬ c.FailsIn [.store] ∧ Stored S call c parsed score w known ioc w' := by
  unfold store at h
  obtain ⟨sightings, w₁, hfirst, h₁⟩ := Routine.run_bind_eq_ok.mp h
  obtain ⟨hsightings, rfl⟩ := run_toColumn_eq_ok.mp hfirst
  obtain ⟨threatScore, w₂, hsecond, h₂⟩ := Routine.run_bind_eq_ok.mp h₁
  obtain ⟨hscore, rfl⟩ := run_toColumn_eq_ok.mp hsecond
  obtain ⟨u, w₃, hthird, h₃⟩ := Routine.run_bind_eq_ok.mp h₂
  obtain ⟨hpass, rfl⟩ := Conditions.run_pass_eq_ok.mp hthird
  refine ⟨hpass, ?_⟩
  cases known with
  | none =>
      simp only [uuid4, IOCRepository.add, Routine.run_bind_modifyGet, Routine.run_bind_assoc,
        Routine.run_bind_gets, Routine.run_bind_raiseIf, Routine.run_bind_update,
        Routine.run_pure] at h₃
      split at h₃
      · cases h₃
      · next hnew =>
          cases h₃
          exact .created hsightings hscore rfl (by simpa using hnew)
  | some row =>
      cases h₃
      exact .updated hsightings hscore

theorem Stored.fits (h : Stored S call c parsed score w known ioc w') :
    Fits (sightingsOf known) ∧ Fits score.score := by
  cases h with
  | @created sightings threatScore ioc hsightings hscore hioc hnew =>
      refine ⟨?_, hscore ▸ threatScore.property⟩
      rw [sightingsOf, ← hsightings]
      exact sightings.property
  | @updated sightings threatScore row hsightings hscore =>
      refine ⟨?_, hscore ▸ threatScore.property⟩
      rw [sightingsOf, ← hsightings]
      exact sightings.property

theorem store_succeeds_iff
    (hnew : known = none → w.db.iocs.hasKey (parsed.type.value, parsed.value) = false) :
    (S.store call c parsed known score).Succeeds w ↔
      ¬ c.FailsIn [.store] ∧ Fits (sightingsOf known) ∧ Fits score.score := by
  constructor
  · rintro ⟨ioc, w', h⟩
    obtain ⟨hpass, hstored⟩ := store_ok h
    exact ⟨hpass, hstored.fits⟩
  · rintro ⟨hpass, hsightings, hscore⟩
    unfold store
    rw [Routine.succeeds_bind_iff]
    refine ⟨⟨_, hsightings⟩, w, run_toColumn_eq_ok.mpr ⟨rfl, rfl⟩, ?_⟩
    rw [Routine.succeeds_bind_iff]
    refine ⟨⟨_, hscore⟩, w, run_toColumn_eq_ok.mpr ⟨rfl, rfl⟩, ?_⟩
    rw [Routine.succeeds_bind_iff]
    refine ⟨(), w, Conditions.run_pass hpass w, ?_⟩
    cases known with
    | none =>
        refine ⟨?_, ?_, ?_⟩
        rotate_left 2
        simp only [uuid4, IOCRepository.add, Routine.run_bind_modifyGet, Routine.run_bind_assoc,
          Routine.run_bind_gets, Routine.run_bind_raiseIf, Routine.run_bind_update,
          Routine.run_pure]
        rw [if_neg]
        simpa [Ioc.key, newIoc] using hnew rfl
    | some row => exact ⟨_, _, rfl⟩

/-- Nothing but the engine records and the edges differs. -/
structure Frame (w w' : IntelWorld) : Prop where
  iocs : w'.db.iocs = w.db.iocs
  alertRules : w'.db.alertRules = w.db.alertRules
  alerts : w'.db.alerts = w.db.alerts
  auditLogs : w'.db.auditLogs = w.db.auditLogs
  published : w'.published = w.published
  issued : w'.issued = w.issued

theorem Frame.refl (w : IntelWorld) : Frame w w := ⟨rfl, rfl, rfl, rfl, rfl, rfl⟩

/-- The engine record of an indicator holds this payload, and no other
record has changed. -/
structure Recorded (iocId : String) (data : EnginePayload) (w w' : IntelWorld) : Prop where
  record : w'.db.enrichments.get? (iocId, "engine") = some { iocId, provider := "engine", data }
  others : ∀ key, key ≠ (iocId, "engine") →
    w'.db.enrichments.get? key = w.db.enrichments.get? key

theorem run_enrichmentUpsert (iocId : String) (data : EnginePayload) (w : IntelWorld) :
    ∃ w', (EnrichmentRepository.upsert iocId "engine" data).run w = (.ok (), w') ∧ Frame w w' ∧
      Recorded iocId data w w' ∧ w'.db.edges = w.db.edges := by
  simp only [EnrichmentRepository.upsert, Routine.run_bind_gets]
  cases hget : w.db.enrichments.get? (iocId, "engine") with
  | none =>
      have hfree : w.db.enrichments.hasKey
          (EnrichmentRecord.key { iocId, provider := "engine", data }) = false := by
        rw [EnrichmentRecord.key, Table.hasKey, hget]
        rfl
      refine ⟨_, rfl, ⟨rfl, rfl, rfl, rfl, rfl, rfl⟩, ⟨?_, fun key hkey => ?_⟩, rfl⟩
      · exact (Table.get?_insert hfree _).trans (if_pos rfl)
      · exact (Table.get?_insert hfree _).trans (if_neg (Ne.symm hkey))
  | some record =>
      refine ⟨_, rfl, ⟨rfl, rfl, rfl, rfl, rfl, rfl⟩, ⟨?_, fun key hkey => ?_⟩, rfl⟩
      · have hkey : record.key = (iocId, "engine") := Table.key_of_get? hget
        obtain ⟨hid, hprovider⟩ := Prod.mk.inj hkey
        have hself := Table.get?_modify_self w.db.enrichments (iocId, "engine")
          (fun r => { r with data }) fun _ => rfl
        rw [hget, Option.map_some, hid, hprovider] at hself
        exact hself
      · exact Table.get?_modify_ne w.db.enrichments (fun r => { r with data }) (fun _ => rfl) hkey

/-- The edges that are there are those of before and these. -/
def Linked (es : List CorrelationEdge) (w w' : IntelWorld) : Prop :=
  ∀ triple, w'.db.edges.hasKey triple = true ↔
    w.db.edges.hasKey triple = true ∨ ∃ e ∈ es, e.triple = triple

theorem Linked.nil (w : IntelWorld) : Linked [] w w := by
  intro triple
  simp

theorem Linked.cons {e : CorrelationEdge} {es : List CorrelationEdge} {w₁ : IntelWorld}
    (h : Linked [e] w w₁) (h' : Linked es w₁ w') : Linked (e :: es) w w' := by
  intro triple
  rw [h' triple, h triple]
  simp [or_assoc]

theorem run_upsertEdge (e : CorrelationEdge) (w : IntelWorld) :
    ∃ w', (CorrelationRepository.upsertEdge e).run w = (.ok (), w') ∧ Frame w w' ∧
      Linked [e] w w' := by
  simp only [CorrelationRepository.upsertEdge, Routine.run_bind_gets]
  cases hget : w.db.edges.get? e.triple with
  | none =>
      refine ⟨_, rfl, ⟨rfl, rfl, rfl, rfl, rfl, rfl⟩, fun triple => ?_⟩
      simp [Table.hasKey_insert_iff]
  | some edge =>
      refine ⟨_, rfl, ⟨rfl, rfl, rfl, rfl, rfl, rfl⟩, fun triple => ?_⟩
      have hkept := Table.hasKey_modify w.db.edges e.triple triple
        (fun r => { r with confidence := e.confidence }) fun _ => rfl
      have hthere : w.db.edges.hasKey e.triple = true := Table.hasKey_of_get? hget
      refine (iff_of_eq (congrArg (· = true) hkept)).trans ⟨.inl, ?_⟩
      rintro (h | ⟨e', he', rfl⟩)
      · exact h
      · rwa [List.mem_singleton.mp he']

theorem Frame.trans {w₁ w₂ w₃ : IntelWorld} (h : Frame w₁ w₂) (h' : Frame w₂ w₃) : Frame w₁ w₃ where
  iocs := h'.iocs.trans h.iocs
  alertRules := h'.alertRules.trans h.alertRules
  alerts := h'.alerts.trans h.alerts
  auditLogs := h'.auditLogs.trans h.auditLogs
  published := h'.published.trans h.published
  issued := h'.issued.trans h.issued

/-- Where edges can fail, from the n-th on. -/
def edgeSites (n : Nat) (es : List CorrelationEdge) : List Site :=
  (List.range' n es.length).map .edge

theorem edgeSites_cons (n : Nat) (e : CorrelationEdge) (es : List CorrelationEdge) :
    edgeSites n (e :: es) = [.edge n] ++ edgeSites (n + 1) es := by
  simp [edgeSites, List.range'_succ]

theorem upsertEdges_ok {n : Nat} {es : List CorrelationEdge} {u : Unit}
    (h : (upsertEdges c n es).run w = (.ok u, w')) :
    ¬ c.FailsIn (edgeSites n es) ∧ Frame w w' ∧ Linked es w w' := by
  induction es generalizing n w with
  | nil =>
      cases h
      exact ⟨by simp [edgeSites, Conditions.failsIn_iff], .refl _, .nil _⟩
  | cons e es ih =>
      obtain ⟨u₁, w₁, hfirst, h₁⟩ := Routine.run_bind_eq_ok.mp h
      obtain ⟨hpass, rfl⟩ := Conditions.run_pass_eq_ok.mp hfirst
      obtain ⟨w₂, hedge, hframe, hlinked⟩ := run_upsertEdge e w₁
      rw [Routine.run_bind_ok hedge] at h₁
      obtain ⟨hrest, hframe', hlinked'⟩ := ih h₁
      rw [edgeSites_cons, Conditions.not_failsIn_append]
      exact ⟨⟨hpass, hrest⟩, hframe.trans hframe', hlinked.cons hlinked'⟩

/-- Edges are kept in a table of their own. -/
theorem keeps_enrichments_upsertEdges (t : Table EnrichmentRecord EnrichmentRecord.key)
    (c : Conditions) (n : Nat) (es : List CorrelationEdge) :
    Routine.Keeps (fun w => w.db.enrichments = t) (upsertEdges c n es) := by
  induction es generalizing n with
  | nil => exact Routine.keeps_pure _ _
  | cons e es ih =>
      refine (Conditions.keeps_pass _ c _).bind fun _ => ?_
      refine Routine.Keeps.bind ?_ fun _ => ih (n + 1)
      refine (Routine.keeps_gets _ _).bind fun edge => ?_
      cases edge with
      | none => exact Routine.keeps_update fun _ h => h
      | some _ => exact Routine.keeps_update fun _ h => h

theorem upsertEdges_succeeds {n : Nat} {es : List CorrelationEdge}
    (h : ¬ c.FailsIn (edgeSites n es)) (w : IntelWorld) : (upsertEdges c n es).Succeeds w := by
  induction es generalizing n w with
  | nil => exact ⟨(), w, rfl⟩
  | cons e es ih =>
      rw [edgeSites_cons, Conditions.not_failsIn_append] at h
      obtain ⟨w₁, hedge, -⟩ := run_upsertEdge e w
      obtain ⟨u, w₂, hrest⟩ := ih h.2 w₁
      refine ⟨u, w₂, ?_⟩
      rw [upsertEdges, Routine.run_bind_ok (Conditions.run_pass h.1 w), Routine.run_bind_ok hedge]
      exact hrest

/-! ## Up to the rules -/

/-- The edges of an upsert. -/
def edgesOf (S : IOCService) (call : UpsertCall) (c : Conditions) (parsed : ParsedIndicator) :
    Except Exn (List CorrelationEdge) :=
  relationships S.interpreter.unicode S.lower parsed (enrichmentOf call c) call.source

/-- The places an upsert goes through before it comes to the rules. -/
def persistSites (call : UpsertCall) (es : List CorrelationEdge) : List Site :=
  enrichSites call ++ ([.fetch] ++ ([.store] ++ ([.engineRecord] ++ (edgeSites 0 es ++ [.audit]))))

/-- The row that is known before an upsert. -/
def knownIoc (db : IntelDb) (parsed : ParsedIndicator) : Option Ioc :=
  db.iocs.get? (parsed.type.value, parsed.value)

/-- The score an upsert gives an indicator. -/
def scoreOf (S : IOCService) (db : IntelDb) (call : UpsertCall) (c : Conditions)
    (parsed : ParsedIndicator) : ScoreResult :=
  S.assess call (enrichmentOf call c) c.now (knownIoc db parsed)

/-- What an upsert that comes to the rules has done: the indicator is
stored and one audit row written. -/
structure Persisted (S : IOCService) (call : UpsertCall) (c : Conditions) (w : IntelWorld)
    (parsed : ParsedIndicator) (ioc : Ioc) (w' : IntelWorld) : Prop where
  classified : Indicators.classifyIndicator S.interpreter.unicode call.rawValue = .ok parsed
  stored : ∃ w₁, Stored S call c parsed (S.scoreOf w.db call c parsed) w (knownIoc w.db parsed) ioc
    w₁ ∧ w'.db.iocs = w₁.db.iocs ∧ w'.issued = w₁.issued
  alertRules : w'.db.alertRules = w.db.alertRules
  alerts : w'.db.alerts = w.db.alerts
  auditLogs : ∃ row, w'.db.auditLogs = w.db.auditLogs ++ [row]
  published : w'.published = w.published

theorem Stored.frame (h : Stored S call c parsed score w known ioc w') :
    w'.db.alertRules = w.db.alertRules ∧ w'.db.alerts = w.db.alerts ∧
      w'.db.auditLogs = w.db.auditLogs ∧ w'.published = w.published := by
  cases h <;> exact ⟨rfl, rfl, rfl, rfl⟩

theorem Stored.enrichments (h : Stored S call c parsed score w known ioc w') :
    w'.db.enrichments = w.db.enrichments ∧ w'.db.edges = w.db.edges := by
  cases h <;> exact ⟨rfl, rfl⟩

theorem run_recordIngest (action : String) (userId : Option String)
    (detail : List (String × Detail)) (w : IntelWorld) :
    (AuditRepository.recordIngest action userId detail).run w =
      (.ok (), { w with db := { w.db with
        auditLogs := w.db.auditLogs ++ [{ action, userId, ipAddress := none, detail }] } }) := rfl

variable {enrichment : Enrichment}

theorem annotate_ok {u : Unit}
    (h : (S.annotate call c parsed known enrichment score ioc).run w = (.ok u, w')) :
    ∃ es, relationships S.interpreter.unicode S.lower parsed enrichment call.source = .ok es ∧
      ¬ c.FailsIn ([.engineRecord] ++ (edgeSites 0 es ++ [.audit])) ∧
      ∃ w₁ row, Frame w w₁ ∧ Recorded ioc.id { enrichment, score } w w₁ ∧ Linked es w w₁ ∧
        w' = { w₁ with db := { w₁.db with auditLogs := w₁.db.auditLogs ++ [row] } } := by
  rw [annotate] at h
  obtain ⟨u₁, w₁, hengine, h₁⟩ := Routine.run_bind_eq_ok.mp h
  obtain ⟨hrecord, rfl⟩ := Conditions.run_pass_eq_ok.mp hengine
  obtain ⟨w₂, hupsert, hframe, hrecorded, hedgesKept⟩ :=
    run_enrichmentUpsert ioc.id { enrichment, score } w₁
  rw [Routine.run_bind_ok hupsert] at h₁
  obtain ⟨u₃, w₃, hcorrelate, h₃⟩ := Routine.run_bind_eq_ok.mp h₁
  obtain ⟨es, w₄, hrel, hedges⟩ := Routine.run_bind_eq_ok.mp hcorrelate
  obtain ⟨hes, rfl⟩ : relationships S.interpreter.unicode S.lower parsed enrichment call.source =
      .ok es ∧ w₂ = w₄ := by simpa using hrel
  obtain ⟨hsites, hframe', hlinked⟩ := upsertEdges_ok hedges
  obtain ⟨u₅, w₅, haudit, h₅⟩ := Routine.run_bind_eq_ok.mp h₃
  obtain ⟨hpass, rfl⟩ := Conditions.run_pass_eq_ok.mp haudit
  have hkeep : w₅.db.enrichments = w₂.db.enrichments := by
    have hkeep := keeps_enrichments_upsertEdges w₂.db.enrichments c 0 es w₂ rfl
    rwa [hedges] at hkeep
  rw [run_recordIngest] at h₅
  cases h₅
  rw [Linked, hedgesKept] at hlinked
  refine ⟨es, hes, ?_, w₅, _, hframe.trans hframe', ⟨?_, ?_⟩, hlinked, rfl⟩
  · simp only [Conditions.not_failsIn_append]
    exact ⟨hrecord, hsites, hpass⟩
  · rw [hkeep]
    exact hrecorded.record
  · rw [hkeep]
    exact hrecorded.others

theorem annotate_succeeds {es : List CorrelationEdge}
    (hes : relationships S.interpreter.unicode S.lower parsed enrichment call.source = .ok es)
    (h : ¬ c.FailsIn ([.engineRecord] ++ (edgeSites 0 es ++ [.audit]))) (w : IntelWorld) :
    (S.annotate call c parsed known enrichment score ioc).Succeeds w := by
  simp only [Conditions.not_failsIn_append] at h
  obtain ⟨hrecord, hsites, hpass⟩ := h
  obtain ⟨w₁, hupsert, -⟩ := run_enrichmentUpsert ioc.id { enrichment, score } w
  obtain ⟨u, w₂, hedges⟩ := upsertEdges_succeeds hsites w₁
  have hread : (Routine.ofExcept (relationships S.interpreter.unicode S.lower parsed enrichment
      call.source) : IntelRoutine (List CorrelationEdge)).run w₁ = (.ok es, w₁) := by simp [hes]
  have hcorrelate : (S.autoCorrelate c parsed enrichment call.source).run w₁ = (.ok u, w₂) := by
    rw [autoCorrelate, Routine.run_bind_ok hread]
    exact hedges
  rw [annotate, Routine.succeeds_bind_of_ok (Conditions.run_pass hrecord w),
    Routine.succeeds_bind_of_ok hupsert, Routine.succeeds_bind_of_ok hcorrelate,
    Routine.succeeds_bind_of_ok (Conditions.run_pass hpass w₂)]
  exact Routine.succeeds_of_run (run_recordIngest _ _ _ w₂)

theorem persist_ok (h : (S.persist call c).run w = (.ok ioc, w')) :
    ∃ parsed es, S.edgesOf call c parsed = .ok es ∧ ¬ c.FailsIn (persistSites call es) ∧
      Persisted S call c w parsed ioc w' ∧
      Recorded ioc.id ⟨enrichmentOf call c, S.scoreOf w.db call c parsed⟩ w w' ∧
      Linked es w w' := by
  rw [persist] at h
  obtain ⟨parsed, w₁, hclass, h₁⟩ := Routine.run_bind_eq_ok.mp h
  obtain ⟨hcls, rfl⟩ : Indicators.classifyIndicator S.interpreter.unicode call.rawValue =
      .ok parsed ∧ w = w₁ := by simpa using hclass
  obtain ⟨enrichment, w₂, henrich, h₂⟩ := Routine.run_bind_eq_ok.mp h₁
  obtain ⟨hasked, rfl, rfl⟩ := run_enrich_eq_ok.mp henrich
  obtain ⟨u₁, w₃, hfetch, h₃⟩ := Routine.run_bind_eq_ok.mp h₂
  obtain ⟨hfetched, rfl⟩ := Conditions.run_pass_eq_ok.mp hfetch
  simp only [IOCRepository.getByTypeValue, Routine.run_bind_gets] at h₃
  obtain ⟨ioc', w₄, hstore, h₄⟩ := Routine.run_bind_eq_ok.mp h₃
  obtain ⟨hpass, hstored⟩ := store_ok hstore
  obtain ⟨u₂, w₅, hannotate, h₅⟩ := Routine.run_bind_eq_ok.mp h₄
  obtain ⟨es, hes, hsites, w₆, row, hframe, hrecorded, hlinked, rfl⟩ := annotate_ok hannotate
  cases h₅
  obtain ⟨hrules, halerts, hlogs, hpublished⟩ := hstored.frame
  obtain ⟨henrichments, hedges⟩ := hstored.enrichments
  rw [Linked, hedges] at hlinked
  refine ⟨parsed, es, hes, ?_, ⟨hcls, ⟨w₄, hstored, hframe.iocs, hframe.issued⟩,
    hframe.alertRules.trans hrules, hframe.alerts.trans halerts, ⟨row, ?_⟩,
    hframe.published.trans hpublished⟩, ⟨hrecorded.record, fun key hkey => ?_⟩, hlinked⟩
  · simp only [persistSites, Conditions.not_failsIn_append] at hsites ⊢
    exact ⟨hasked, hfetched, hpass, hsites⟩
  · simp only
    rw [hframe.auditLogs, hlogs]
  · rw [← henrichments]
    exact hrecorded.others key hkey

theorem hasKey_of_knownIoc_eq_none {db : IntelDb} (h : knownIoc db parsed = none) :
    db.iocs.hasKey (parsed.type.value, parsed.value) = false := by
  rw [Table.hasKey, show db.iocs.get? (parsed.type.value, parsed.value) = none from h]
  rfl

/-- An upsert comes to the rules exactly if the value is an indicator, the
numbers fit their columns, and it fails at none of the places before. -/
theorem persist_succeeds_iff :
    (S.persist call c).Succeeds w ↔
      ∃ parsed es,
        Indicators.classifyIndicator S.interpreter.unicode call.rawValue = .ok parsed ∧
        S.edgesOf call c parsed = .ok es ∧ ¬ c.FailsIn (persistSites call es) ∧
        Fits (sightingsOf (knownIoc w.db parsed)) ∧ Fits (S.scoreOf w.db call c parsed).score := by
  constructor
  · rintro ⟨ioc, w', h⟩
    obtain ⟨parsed, es, hes, hsites, hp, -⟩ := persist_ok h
    obtain ⟨w₁, hstored, -⟩ := hp.stored
    exact ⟨parsed, es, hp.classified, hes, hsites, hstored.fits⟩
  · rintro ⟨parsed, es, hclass, hes, hsites, hsightings, hscore⟩
    simp only [persistSites, Conditions.not_failsIn_append] at hsites
    obtain ⟨hasked, hfetched, hpass, hrest⟩ := hsites
    obtain ⟨ioc, w₁, hstore⟩ : (S.store call c parsed (knownIoc w.db parsed)
        (S.scoreOf w.db call c parsed)).Succeeds w :=
      (store_succeeds_iff hasKey_of_knownIoc_eq_none).mpr ⟨hpass, hsightings, hscore⟩
    obtain ⟨u, w₂, hannotate⟩ : (S.annotate call c parsed (knownIoc w.db parsed)
        (enrichmentOf call c) (S.scoreOf w.db call c parsed) ioc).Succeeds w₁ :=
      annotate_succeeds hes (by simpa only [Conditions.not_failsIn_append] using hrest) w₁
    have hparsed : (Routine.ofExcept (Indicators.classifyIndicator S.interpreter.unicode
        call.rawValue) : IntelRoutine ParsedIndicator).run w = (.ok parsed, w) := by simp [hclass]
    have hknown : (IOCRepository.getByTypeValue (parsed.type.value, parsed.value)).run w =
        (.ok (knownIoc w.db parsed), w) := rfl
    rw [persist, Routine.succeeds_bind_of_ok hparsed,
      Routine.succeeds_bind_of_ok (run_enrich_eq_ok.mpr ⟨hasked, rfl, rfl⟩),
      Routine.succeeds_bind_of_ok (Conditions.run_pass hfetched w),
      Routine.succeeds_bind_of_ok hknown]
    exact (Routine.succeeds_bind_of_ok hstore).mpr
      ((Routine.succeeds_bind_of_ok hannotate).mpr ⟨ioc, w₂, rfl⟩)

/-! ## What is published before the rules -/

/-- Whatever comes of it, nothing is published and no identifier given
back. -/
def Silent {α : Type} (x : IntelRoutine α) : Prop :=
  ∀ p n, Routine.Keeps (fun w => w.published = p ∧ n ≤ w.issued) x

theorem Silent.bind {α β : Type} {x : IntelRoutine α} {f : α → IntelRoutine β} (hx : Silent x)
    (hf : ∀ a, Silent (f a)) : Silent (x >>= f) := fun p n => (hx p n).bind fun a => hf a p n

theorem silent_pass (c : Conditions) (site : Site) : Silent (c.pass site) :=
  fun _ _ => Conditions.keeps_pass _ c site

theorem silent_store : Silent (S.store call c parsed known score) := by
  unfold store
  refine .bind (fun _ _ => keeps_toColumn _ _) fun sightings => ?_
  refine .bind (fun _ _ => keeps_toColumn _ _) fun threatScore => ?_
  refine (silent_pass c .store).bind fun _ => ?_
  cases known with
  | none =>
      refine .bind (fun _ _ => Routine.keeps_modifyGet fun _ h => ⟨h.1, Nat.le_succ_of_le h.2⟩) fun id => ?_
      refine .bind (.bind (fun _ _ => Routine.keeps_gets _ _) fun taken => ?_) fun _ => ?_
      · refine .bind (fun _ _ => Routine.keeps_raiseIf _ _ _) fun _ _ _ => ?_
        exact Routine.keeps_update fun _ h => h
      · exact fun _ _ => Routine.keeps_pure _ _
  | some row =>
      exact .bind (fun _ _ => Routine.keeps_update fun _ h => h) fun _ _ _ => Routine.keeps_pure _ _

theorem silent_of_frame {x : IntelRoutine Unit} (h : ∀ w, ∃ w', x.run w = (.ok (), w') ∧ Frame w w') :
    Silent x := by
  intro p n w hw
  obtain ⟨w', hrun, hframe⟩ := h w
  rw [hrun]
  exact ⟨hframe.published.trans hw.1, hframe.issued ▸ hw.2⟩

theorem silent_upsertEdges (c : Conditions) (n : Nat) (es : List CorrelationEdge) :
    Silent (upsertEdges c n es) := by
  induction es generalizing n with
  | nil => exact fun _ _ => Routine.keeps_pure _ _
  | cons e es ih =>
      refine (silent_pass c _).bind fun _ => (silent_of_frame fun w => ?_).bind fun _ => ih _
      obtain ⟨w', hrun, hframe, -⟩ := run_upsertEdge e w
      exact ⟨w', hrun, hframe⟩

theorem silent_ofExcept {α : Type} (x : Except Exn α) : Silent (.ofExcept x : IntelRoutine α) :=
  fun _ _ _ h => h

theorem silent_annotate : Silent (S.annotate call c parsed known enrichment score ioc) := by
  unfold annotate autoCorrelate
  refine (silent_pass c _).bind fun _ => ?_
  refine (silent_of_frame fun w => ?_).bind fun _ => ?_
  · obtain ⟨w', hrun, hframe, -⟩ := run_enrichmentUpsert ioc.id { enrichment, score } w
    exact ⟨w', hrun, hframe⟩
  refine ((silent_ofExcept _).bind fun es => silent_upsertEdges c 0 es).bind fun _ => ?_
  exact (silent_pass c _).bind fun _ _ _ => Routine.keeps_update fun _ h => h

theorem silent_persist : Silent (S.persist call c) := by
  unfold persist
  refine (silent_ofExcept _).bind fun parsed => ?_
  refine .bind (fun _ _ => keeps_enrich _ call c) fun enrichment => ?_
  refine (silent_pass c _).bind fun _ => ?_
  refine .bind (fun _ _ => Routine.keeps_gets _ _) fun known => ?_
  refine silent_store.bind fun ioc => ?_
  exact silent_annotate.bind fun _ _ _ => Routine.keeps_pure _ _

end IOCService

end ThreatIntel
