import ThreatIntel.Explanation
import ThreatIntel.ScoreOrder

/-!
# A second sighting

What an upsert leaves in the row it has stored (`Sighted`), and what that
means for the next upsert of the same indicator. The score is computed anew
from the source that reports it, so that a sighting more can lower it: it
does so exactly where the source before was reputable and the new one is
not (`resighted_iff`).
-/

namespace ThreatIntel

/-! ## The scores of two sightings -/

namespace Scoring

section Resighted

variable {K : Type} [Field K] [LinearOrder K] [IsStrictOrderedRing K]

omit [IsStrictOrderedRing K] in
/-- The weighted sum, signal by signal. -/
theorem raw_eq (signals : ScoreSignals K) :
    raw signals = share signals .sourceReputation + share signals .detectionRatio +
      share signals .blacklistPresence + share signals .confidence + share signals .recency +
      share signals .frequency + share signals .geoRisk + share signals .portRisk +
      share signals .historicalActivity := by
  rw [raw, totalWeight_eq, Rat.cast_one, div_one]
  simp only [Signal.all, List.map_cons, List.map_nil, List.sum_cons, List.sum_nil]
  ring

variable [FloorRing K]

/-- Two scores are apart where their averages are more than a point apart. -/
theorem score_lt_of_raw_lt {a b : ScoreSignals K} (h : raw a + 1 / 100 < raw b) :
    (computeThreatScore a).score < (computeThreatScore b).score := by
  obtain ⟨-, ha⟩ := abs_le.mp (Rounding.abs_roundEven_sub_le (raw a * 100))
  obtain ⟨hb, -⟩ := abs_le.mp (Rounding.abs_roundEven_sub_le (raw b * 100))
  have hlt : ((computeThreatScore a).score : K) < (computeThreatScore b).score := by
    simp only [computeThreatScore]
    linarith
  exact_mod_cast hlt

end Resighted

/-- The source is on the list of the reputable ones. -/
def isReputable (source : PyStr) : Bool := reputable.contains (String.ofList source)

/-- The signals of an upsert by a source, which is blacklisted where it is
reputable. -/
noncomputable def signalsBy (enrichment : Enrichment) (confidence : ℚ) (ageDays : ℚ) (source : PyStr)
    (sightings : Int) : ScoreSignals ℝ :=
  upsertSignals realMath enrichment source confidence (isReputable source) sightings ageDays

variable {enrichment : Enrichment} {confidence age : ℚ} {source source' : PyStr} {n n' : Int}

theorem sourceReputationScore_reputable : (sourceReputationScore 2 : ℝ) = 1 / 2 := by
  norm_num [sourceReputationScore, clamp01]

theorem sourceReputationScore_other : (sourceReputationScore 1 : ℝ) = 1 / 4 := by
  norm_num [sourceReputationScore, clamp01]

/-- A source that is at least as good, and sightings that do not fall. -/
theorem score_signalsBy_mono (hn : n ≤ n')
    (h : isReputable source = true → isReputable source' = true) :
    (computeThreatScore (signalsBy enrichment confidence age source n)).score ≤
      (computeThreatScore (signalsBy enrichment confidence age source' n')).score := by
  refine score_mono fun s => ?_
  cases s with
  | sourceReputation =>
      have hgoal : (sourceReputationScore (1 + if isReputable source then 1 else 0) : ℝ) ≤
          sourceReputationScore (1 + if isReputable source' then 1 else 0) := by
        by_cases hrep : isReputable source = true
        · rw [if_pos hrep, if_pos (h hrep)]
        · rw [if_neg hrep, add_zero, sourceReputationScore_other]
          split
          · rw [show (1 : Int) + 1 = 2 by rfl, sourceReputationScore_reputable]
            norm_num
          · rw [add_zero, sourceReputationScore_other]
      exact hgoal
  | blacklistPresence =>
      have hgoal : (if isReputable source then (1 : ℝ) else 0) ≤
          if isReputable source' then 1 else 0 := by
        by_cases hrep : isReputable source = true
        · rw [if_pos hrep, if_pos (h hrep)]
        · rw [if_neg hrep]
          split <;> norm_num
      exact hgoal
  | frequency => exact frequencyScore_mono hn
  | historicalActivity => exact historicalActivity_mono hn
  | detectionRatio | confidence | recency | geoRisk | portRisk => exact le_rfl

theorem share_le (signals : ScoreSignals ℝ) (s : Signal) {w : ℝ} (h : ((s.weight : ℚ) : ℝ) = w) :
    0 ≤ share signals s ∧ share signals s ≤ w :=
  h ▸ share_mem signals s

/-- What a reputable source adds outweighs every sighting there could be. -/
theorem score_signalsBy_lt (hrep : isReputable source = true)
    (hother : isReputable source' = false) :
    (computeThreatScore (signalsBy enrichment confidence age source' n')).score <
      (computeThreatScore (signalsBy enrichment confidence age source n)).score := by
  let a := signalsBy enrichment confidence age source' n'
  let b := signalsBy enrichment confidence age source n
  have hrepA : share a .sourceReputation = 1 / 4 * (22 / 100) := by
    have hvalue : Signal.sourceReputation.value a = (1 / 4 : ℝ) := by
      rw [← sourceReputationScore_other]
      show (sourceReputationScore (1 + if isReputable source' then 1 else 0) : ℝ) = _
      rw [hother]
      rfl
    rw [share, hvalue, Signal.weight]
    norm_num [clamp01]
  have hrepB : share b .sourceReputation = 1 / 2 * (22 / 100) := by
    have hvalue : Signal.sourceReputation.value b = (1 / 2 : ℝ) := by
      rw [← sourceReputationScore_reputable]
      show (sourceReputationScore (1 + if isReputable source then 1 else 0) : ℝ) = _
      rw [hrep]
      rfl
    rw [share, hvalue, Signal.weight]
    norm_num [clamp01]
  have hblackA : share a .blacklistPresence = 0 := by
    have hvalue : Signal.blacklistPresence.value a = (0 : ℝ) := by
      show (if isReputable source' then (1 : ℝ) else 0) = 0
      rw [hother]
      rfl
    rw [share, hvalue]
    norm_num [clamp01]
  have hblackB : share b .blacklistPresence = 14 / 100 := by
    have hvalue : Signal.blacklistPresence.value b = (1 : ℝ) := by
      show (if isReputable source then (1 : ℝ) else 0) = 1
      rw [hrep]
      rfl
    rw [share, hvalue, Signal.weight]
    norm_num [clamp01]
  obtain ⟨-, hfreqA⟩ := share_le a .frequency (w := 8 / 100) (by norm_num [Signal.weight])
  obtain ⟨hfreqB, -⟩ := share_le b .frequency (w := 8 / 100) (by norm_num [Signal.weight])
  obtain ⟨-, hpastA⟩ := share_le a .historicalActivity (w := 3 / 100) (by norm_num [Signal.weight])
  obtain ⟨hpastB, -⟩ := share_le b .historicalActivity (w := 3 / 100) (by norm_num [Signal.weight])
  have hsame : share a .detectionRatio = share b .detectionRatio ∧
      share a .confidence = share b .confidence ∧ share a .recency = share b .recency ∧
      share a .geoRisk = share b .geoRisk ∧ share a .portRisk = share b .portRisk :=
    ⟨rfl, rfl, rfl, rfl, rfl⟩
  obtain ⟨hdetection, hconfidence, hrecency, hgeo, hport⟩ := hsame
  refine score_lt_of_raw_lt (a := a) (b := b) ?_
  rw [raw_eq a, raw_eq b, hrepA, hrepB, hblackA, hblackB, hdetection, hconfidence, hrecency, hgeo,
    hport]
  linarith

/-- The score does not fall exactly if a reputable source is followed by a
reputable one. -/
theorem score_signalsBy_le_iff (hn : n ≤ n') :
    (computeThreatScore (signalsBy enrichment confidence age source n)).score ≤
        (computeThreatScore (signalsBy enrichment confidence age source' n')).score ↔
      (isReputable source = true → isReputable source' = true) := by
  constructor
  · intro h hrep
    by_contra hother
    exact absurd h (not_le.mpr (score_signalsBy_lt hrep (by simpa using hother)))
  · exact score_signalsBy_mono hn

end Scoring

namespace IOCService

open Scoring (computeThreatScore)

variable {S : IOCService} {call : UpsertCall} {c : Conditions} {parsed : ParsedIndicator}
  {score : ScoreResult} {ioc : Ioc} {w w' : IntelWorld}

/-! ## The row of an upsert -/

/-- What an upsert that goes through leaves of its indicator. -/
structure Sighted (S : IOCService) (call : UpsertCall) (c : Conditions) (w : IntelWorld)
    (parsed : ParsedIndicator) (ioc : Ioc) (w' : IntelWorld) : Prop where
  classified : Indicators.classifyIndicator S.interpreter.unicode call.rawValue = .ok parsed
  key : ioc.key = (parsed.type.value, parsed.value)
  found : w'.db.iocs.get? ioc.key = some ioc
  score : ioc.threatScore.val = (S.scoreOf w.db call c parsed).score
  sightings : ioc.sightings.val = sightingsOf (knownIoc w.db parsed)
  age : ageDays (some ioc) c.now = ageDays (knownIoc w.db parsed) c.now
  record : w'.db.enrichments.get? (ioc.id, "engine") =
    some { iocId := ioc.id, provider := "engine",
           data := ⟨enrichmentOf call c, S.scoreOf w.db call c parsed⟩ }
  others : ∀ key, key ≠ (ioc.id, "engine") →
    w'.db.enrichments.get? key = w.db.enrichments.get? key
  stored : ∃ w₁, Stored S call c parsed (S.scoreOf w.db call c parsed) w (knownIoc w.db parsed) ioc
    w₁ ∧ w'.db.iocs = w₁.db.iocs ∧ w₁.issued ≤ w'.issued

/-- The indicator is found again, as old as it was. -/
theorem Stored.found (h : Stored S call c parsed score w (knownIoc w.db parsed) ioc w') :
    ioc.key = (parsed.type.value, parsed.value) ∧ w'.db.iocs.get? ioc.key = some ioc ∧
      ageDays (some ioc) c.now = ageDays (knownIoc w.db parsed) c.now := by
  generalize hknown : knownIoc w.db parsed = known at h
  cases h with
  | created hsightings hscore hioc hnew =>
      refine ⟨by rw [hioc]; rfl, (Table.get?_insert hnew _).trans (if_pos rfl), ?_⟩
      rw [hioc]
      simp [ageDays, newIoc]
  | @updated sightings threatScore row hsightings hscore =>
      have hkey : row.key = (parsed.type.value, parsed.value) := Table.key_of_get? hknown
      have hself := Table.get?_modify_self w.db.iocs row.key
        (Ioc.resight call c.now threatScore score.level sightings) fun _ => rfl
      rw [hkey, show w.db.iocs.get? (parsed.type.value, parsed.value) = some row from hknown,
        ← hkey] at hself
      exact ⟨hkey, hself, rfl⟩

theorem sighted_of_ok (h : (S.upsert call c).run w = (.ok ioc, w')) :
    ∃ parsed, Sighted S call c w parsed ioc w' := by
  obtain ⟨w₁, hpersist, hdb, hissued⟩ := persist_of_upsert_ok h
  obtain ⟨parsed, es, -, -, hp, hrecorded, -⟩ := persist_ok hpersist
  obtain ⟨w₂, hstored, hiocs, hissued₂⟩ := hp.stored
  obtain ⟨hkey, hfound, hage⟩ := hstored.found
  have hiocs' : w'.db.iocs = w₂.db.iocs := by rw [hdb, hiocs]
  have henrichments : w'.db.enrichments = w₁.db.enrichments := by rw [hdb]
  have hsightings : ioc.sightings.val = sightingsOf (knownIoc w.db parsed) := by
    rcases hstored.rows with ⟨hnone, -, hone, -⟩ | ⟨row, -, hknown, -, hone, -⟩
    · rw [hnone, hone, sightingsOf]
    · rw [hknown, hone, sightingsOf]
  exact ⟨parsed, hp.classified, hkey, hiocs' ▸ hfound, hstored.score, hsightings, hage,
    henrichments ▸ hrecorded.record, henrichments ▸ hrecorded.others,
    w₂, hstored, hiocs', hissued₂ ▸ hissued⟩

/-- An upsert meets the row that is there. -/
theorem Sighted.knownIoc_eq {row : Ioc} (h : Sighted S call c w parsed ioc w')
    (hrow : row ∈ w.db.iocs.rows) (hkey : ioc.key = row.key) : knownIoc w.db parsed = some row := by
  rw [knownIoc, ← h.key]
  exact (Table.get?_eq_some_iff _ _ _).mpr ⟨hrow, hkey.symm⟩

/-- An upsert writes to the row of its indicator, and leaves the others
where they are. -/
theorem Sighted.row_cases {row : Ioc} (h : Sighted S call c w parsed ioc w') (hi : S.Identified w)
    (hrow : row ∈ w.db.iocs.rows) :
    (ioc.key = row.key ∧ ioc.id = row.id) ∨
      (ioc.key ≠ row.key ∧ ioc.id ≠ row.id ∧ row ∈ w'.db.iocs.rows) := by
  obtain ⟨w₁, hstored, hiocs, -⟩ := h.stored
  rw [hiocs]
  rcases hstored.rows with ⟨hnone, hid, -, hrows, -⟩ | ⟨r, hr, hknown, hid, -, hrows, -⟩
  · have hne : ioc.key ≠ row.key := by
      intro heq
      have hknown := h.knownIoc_eq hrow heq
      exact absurd (hnone.symm.trans hknown) (by simp)
    refine .inr ⟨hne, fun heq => hi.fresh row hrow (heq.symm.trans hid), ?_⟩
    rw [hrows]
    exact List.mem_append_left _ hrow
  · have hrkey : r.key = ioc.key := (Table.key_of_get? hknown).trans h.key.symm
    by_cases hkey : r.key = row.key
    · obtain rfl := List.inj_on_of_nodup_map w.db.iocs.nodupKeys hr hrow hkey
      exact .inl ⟨hrkey.symm, hid⟩
    · refine .inr ⟨hrkey ▸ hkey, fun heq => hkey ?_, ?_⟩
      · rw [hi.eq_of_id hr hrow (hid.symm.trans heq)]
      · rw [hrows]
        exact List.mem_map.mpr ⟨row, hrow, if_neg (Ne.symm hkey)⟩

theorem invariant_identified (S : IOCService) : S.Invariant S.Identified where
  failed hi hdb hissued := hi.congr (by rw [hdb]) hissued
  upserted hi h := by
    obtain ⟨parsed, hup⟩ := sighted_of_ok h
    obtain ⟨w₁, hstored, hiocs, hissued⟩ := hup.stored
    exact (hi.stored hstored).1.congr (by rw [hiocs]) hissued

theorem identified_withRules (S : IOCService) (rules : Table AlertRule AlertRule.id) :
    S.Identified { db := .withRules rules } := by
  constructor <;> simp [IntelDb.withRules, Table.empty]

/-- In every state that is reached, no two indicators share an identifier. -/
theorem identified_run (S : IOCService) (rules : Table AlertRule AlertRule.id)
    (requests : List Request) :
    S.Identified (Runs.run S.step { db := .withRules rules } requests) :=
  (invariant_identified S).run (identified_withRules S rules) requests

/-! ## Sightings of one indicator -/

/-- The service with the scoring engine of the source. -/
noncomputable def scored (S : IOCService) : IOCService := S.scoredBy (Scoring.upsertSignals realMath)

theorem scoreOf_scored (S : IOCService) (db : IntelDb) (call : UpsertCall) (c : Conditions)
    (parsed : ParsedIndicator) :
    S.scored.scoreOf db call c parsed =
      computeThreatScore (Scoring.signalsBy (enrichmentOf call c) call.confidence.toFloat
        (ageDays (knownIoc db parsed) c.now) call.source (sightingsOf (knownIoc db parsed))) := rfl

/-- **When a further sighting keeps the verdict.** An upsert leaves an
indicator in the table; as long as its row is there, a second upsert, at the
same instant, with the same payload and the same confidence, gives it at
least the score it has, exactly if it does not come from a source that is
not reputable after one that is. -/
theorem resighted_iff (S : IOCService) {call again : UpsertCall} {c c' : Conditions}
    {ioc ioc' : Ioc} {w₀ w₁ w₂ w₃ : IntelWorld}
    (hfirst : (S.scored.upsert call c).run w₀ = (.ok ioc, w₁))
    (hrow : ioc ∈ w₂.db.iocs.rows)
    (hagain : (S.scored.upsert again c').run w₂ = (.ok ioc', w₃)) (hkey : ioc'.key = ioc.key)
    (hnow : c'.now = c.now) (henrichment : enrichmentOf again c' = enrichmentOf call c)
    (hconfidence : again.confidence = call.confidence) :
    ioc.threatScore.val ≤ ioc'.threatScore.val ↔
      (Scoring.isReputable call.source = true → Scoring.isReputable again.source = true) := by
  obtain ⟨parsed, hup⟩ := sighted_of_ok hfirst
  obtain ⟨parsed', hup'⟩ := sighted_of_ok hagain
  have hknown := hup'.knownIoc_eq hrow hkey
  have hage : ageDays (some ioc) c'.now = ageDays (knownIoc w₀.db parsed) c.now := by
    rw [hnow, hup.age]
  rw [hup.score, hup'.score, scoreOf_scored, scoreOf_scored, hknown, hage, henrichment, hconfidence,
    sightingsOf, hup.sightings]
  exact Scoring.score_signalsBy_le_iff (by omega)

/-! ## A reputable source and an analyst -/

/-- Without rules and without a fault, an upsert goes through while there is
room for another sighting. -/
theorem exists_upsert_ok (halerts : S.alerts = none) (hjudges : S.Judges)
    {es : List CorrelationEdge} (call : UpsertCall) (c : Conditions) (w : IntelWorld)
    (hclass : Indicators.classifyIndicator S.interpreter.unicode call.rawValue = .ok parsed)
    (hes : S.edgesOf call c parsed = .ok es) (hfault : c.fault = none)
    (hroom : Fits (sightingsOf (knownIoc w.db parsed))) :
    ∃ ioc w', (S.upsert call c).run w = (.ok ioc, w') := by
  obtain ⟨hlo, hhi⟩ := (hjudges w.db call c parsed).range
  have hscore : Fits (S.scoreOf w.db call c parsed).score := by
    constructor <;> omega
  have hsites : ¬ c.FailsIn (persistSites call es) := by
    simp [Conditions.FailsIn, hfault]
  rw [run_upsert_quiet halerts]
  exact persist_succeeds_iff.mpr ⟨parsed, es, hclass, hes, hsites, hroom, hscore⟩

/-- A service without rules. -/
def quietService : IOCService := { IntelEnv.sample with alerts := none }

def feedSighting : UpsertCall := { rawValue := "8.8.8.8".toList, source := "otx".toList }

def manualSighting : UpsertCall := { rawValue := "8.8.8.8".toList }

def emptyWorld : IntelWorld := { db := .withRules .empty }

theorem judges_scored (S : IOCService) : S.scored.Judges := judges_scoredBy S _

/-- The feed reports an address, and then an analyst does. -/
theorem exists_sightings : ∃ ioc w₁ ioc' w₂,
    (quietService.scored.upsert feedSighting { now := 0 }).run emptyWorld = (.ok ioc, w₁) ∧
      (quietService.scored.upsert manualSighting { now := 0 }).run w₁ = (.ok ioc', w₂) ∧
      ioc ∈ w₁.db.iocs.rows ∧ ioc'.key = ioc.key := by
  have hclass : Indicators.classifyIndicator .ascii "8.8.8.8".toList =
      .ok ⟨.ipv4, "8.8.8.8".toList⟩ := by decide +kernel
  have hfeed : quietService.scored.edgesOf feedSighting { now := 0 } ⟨.ipv4, "8.8.8.8".toList⟩ =
      .ok [] := rfl
  have hmanual : quietService.scored.edgesOf manualSighting { now := 0 }
      ⟨.ipv4, "8.8.8.8".toList⟩ = .ok [] := rfl
  obtain ⟨ioc, w₁, hfirst⟩ := exists_upsert_ok rfl (judges_scored quietService) feedSighting
    { now := 0 } emptyWorld hclass hfeed rfl (by decide)
  obtain ⟨parsed, hup⟩ := sighted_of_ok hfirst
  obtain rfl : parsed = ⟨.ipv4, "8.8.8.8".toList⟩ :=
    Except.ok.inj (hup.classified.symm.trans hclass)
  have hknown : knownIoc w₁.db ⟨.ipv4, "8.8.8.8".toList⟩ = some ioc := by
    rw [knownIoc, ← hup.key]
    exact hup.found
  have hroom : Fits (sightingsOf (knownIoc w₁.db ⟨.ipv4, "8.8.8.8".toList⟩)) := by
    rw [hknown, sightingsOf, hup.sightings]
    decide
  obtain ⟨ioc', w₂, hagain⟩ := exists_upsert_ok rfl (judges_scored quietService) manualSighting
    { now := 0 } w₁ hclass hmanual rfl hroom
  obtain ⟨parsed', hup'⟩ := sighted_of_ok hagain
  obtain rfl : parsed' = ⟨.ipv4, "8.8.8.8".toList⟩ :=
    Except.ok.inj (hup'.classified.symm.trans hclass)
  exact ⟨ioc, w₁, ioc', w₂, hfirst, hagain, Table.mem_of_get? hup.found,
    hup'.key.trans hup.key.symm⟩

theorem resighted_sample : ∃ ioc ioc' : Ioc, ∃ w₁ w₂ : IntelWorld,
    (quietService.scored.upsert feedSighting { now := 0 }).run emptyWorld = (.ok ioc, w₁) ∧
      (quietService.scored.upsert manualSighting { now := 0 }).run w₁ = (.ok ioc', w₂) ∧
      (ioc.threatScore.val ≤ ioc'.threatScore.val ↔
        (Scoring.isReputable feedSighting.source = true →
          Scoring.isReputable manualSighting.source = true)) := by
  obtain ⟨ioc, w₁, ioc', w₂, hfirst, hagain, hrow, hkey⟩ := exists_sightings
  exact ⟨ioc, ioc', w₁, w₂, hfirst, hagain,
    resighted_iff quietService hfirst hrow hagain hkey rfl rfl rfl⟩

/-- The analyst's report lowers the score. -/
theorem resighting_lowers :
    ¬ ∀ (S : IOCService) (call again : UpsertCall) (c c' : Conditions) (ioc ioc' : Ioc)
        (w₀ w₁ w₂ w₃ : IntelWorld),
      (S.scored.upsert call c).run w₀ = (.ok ioc, w₁) → ioc ∈ w₂.db.iocs.rows →
      (S.scored.upsert again c').run w₂ = (.ok ioc', w₃) → ioc'.key = ioc.key → c'.now = c.now →
      enrichmentOf again c' = enrichmentOf call c → again.confidence = call.confidence →
      ioc.threatScore.val ≤ ioc'.threatScore.val := by
  intro h
  obtain ⟨ioc, w₁, ioc', w₂, hfirst, hagain, hrow, hkey⟩ := exists_sightings
  have hle := h quietService _ _ _ _ ioc ioc' _ _ _ _ hfirst hrow hagain hkey rfl rfl rfl
  obtain ⟨parsed, hup⟩ := sighted_of_ok hfirst
  obtain ⟨parsed', hup'⟩ := sighted_of_ok hagain
  have hage : ageDays (some ioc) 0 = ageDays (knownIoc emptyWorld.db parsed) 0 := hup.age
  rw [hup.score, hup'.score, scoreOf_scored, scoreOf_scored, hup'.knownIoc_eq hrow hkey] at hle
  refine absurd hle (not_le.mpr ?_)
  rw [show ageDays (some ioc) _ = _ from hage]
  exact Scoring.score_signalsBy_lt (by decide) (by decide)

end IOCService

end ThreatIntel
