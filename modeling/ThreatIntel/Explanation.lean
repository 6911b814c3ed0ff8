import Mathlib.Data.Rat.Floor
import ThreatIntel.IngestBatch
import ThreatIntel.Scoring

/-!
# The explanation of a verdict

The score of an indicator is written twice by every upsert: to its row,
and with its contributions to the engine record from which it is
explained. In every state the service reaches the two agree, and the
contributions add up to the score as far as rounding lets them.
-/

namespace ThreatIntel

namespace IOCService

open Scoring (computeThreatScore contributed levelForScore)

variable {S : IOCService} {call : UpsertCall} {c : Conditions} {ioc : Ioc} {w w' : IntelWorld}

/-- The service with the scoring engine; `signals` stands for
`signals_from`, such as `Scoring.upsertSignals`. -/
def scoredBy {K : Type} [Field K] [LinearOrder K] [FloorRing K] (S : IOCService)
    (signals : Enrichment → PyStr → ℚ → Bool → Int → ℚ → ScoreSignals K) : IOCService :=
  { S with
    score := fun enrichment source confidence blacklisted sightings ageDays =>
      computeThreatScore (signals enrichment source confidence blacklisted sightings ageDays) }

/-! ## Verdicts -/

/-- A score in its range, with its level and contributions that add up. -/
structure Verdict (result : ScoreResult) : Prop where
  range : 0 ≤ result.score ∧ result.score ≤ 100
  level : result.level = levelForScore result.score
  sum : |contributed result - result.score| ≤ 545 / 1000

theorem verdict_computeThreatScore {K : Type} [Field K] [LinearOrder K] [IsStrictOrderedRing K]
    [FloorRing K] (signals : ScoreSignals K) : Verdict (computeThreatScore signals) where
  range := Scoring.score_mem signals
  level := rfl
  sum := Scoring.abs_contributed_sub_le signals

/-- Every score the service gives is a verdict. -/
def Judges (S : IOCService) : Prop :=
  ∀ db call c parsed, Verdict (S.scoreOf db call c parsed)

theorem judges_scoredBy {K : Type} [Field K] [LinearOrder K] [IsStrictOrderedRing K] [FloorRing K]
    (S : IOCService) (signals : Enrichment → PyStr → ℚ → Bool → Int → ℚ → ScoreSignals K) :
    (S.scoredBy signals).Judges :=
  fun _ _ _ _ => verdict_computeThreatScore _

/-! ## The invariant -/

/-- The row and the engine record agree on a verdict. -/
structure Explains (ioc : Ioc) (data : EnginePayload) : Prop where
  score : data.score.score = ioc.threatScore.val
  level : data.score.level.value = ioc.threatLevel
  verdict : Verdict data.score

/-- Every row has an engine record that explains it. -/
def Explained (w : IntelWorld) : Prop :=
  ∀ ioc ∈ w.db.iocs.rows, ∃ data,
    w.db.enrichments.get? (ioc.id, "engine") = some { iocId := ioc.id, provider := "engine", data } ∧
      Explains ioc data

theorem Stored.explains {parsed : ParsedIndicator} {score : ScoreResult} {known : Option Ioc}
    (h : Stored S call c parsed score w known ioc w') (hscore : Verdict score)
    (enrichment : Enrichment) : Explains ioc { enrichment, score } := by
  cases h with
  | created hsightings hvalue hioc hnew =>
      rw [hioc]
      exact ⟨hvalue.symm, rfl, hscore⟩
  | updated hsightings hvalue => exact ⟨hvalue.symm, rfl, hscore⟩

/-- An upsert explains its row and leaves the other explanations alone. -/
theorem explained_upserted (hjudges : S.Judges) (hi : S.Identified w) (he : Explained w)
    (h : (S.upsert call c).run w = (.ok ioc, w')) : S.Identified w' ∧ Explained w' := by
  obtain ⟨w₁, hpersist, hdb, hissued⟩ := persist_of_upsert_ok h
  obtain ⟨parsed, es, -, -, hp, hrecorded, -⟩ := persist_ok hpersist
  obtain ⟨w₂, hstored, hiocs, hissued₂⟩ := hp.stored
  obtain ⟨hi₂, hcases⟩ := hi.stored hstored
  have hrows : w'.db.iocs.rows = w₂.db.iocs.rows := by rw [hdb, hiocs]
  refine ⟨hi₂.congr hrows (hissued₂ ▸ hissued), fun r hr => ?_⟩
  have henrichments : w'.db.enrichments = w₁.db.enrichments := by rw [hdb]
  rw [henrichments]
  rcases hcases r (hrows ▸ hr) with rfl | ⟨hold, hne⟩
  · exact ⟨_, hrecorded.record, hstored.explains (hjudges _ _ _ _) _⟩
  · obtain ⟨data, hdata, hexplains⟩ := he r hold
    refine ⟨data, ?_, hexplains⟩
    rw [hrecorded.others _ fun hkey => hne (Prod.mk.inj hkey).1]
    exact hdata

theorem invariant_explained (hjudges : S.Judges) :
    S.Invariant fun w => S.Identified w ∧ Explained w where
  failed := by
    rintro w w' ⟨hi, he⟩ hdb hissued
    exact ⟨hi.congr (by rw [hdb]) hissued, by rw [Explained, hdb]; exact he⟩
  upserted := by
    rintro w w' call c ioc ⟨hi, he⟩ h
    exact explained_upserted hjudges hi he h

theorem explained_withRules (rules : Table AlertRule AlertRule.id) :
    S.Identified { db := .withRules rules } ∧ Explained { db := .withRules rules } := by
  refine ⟨⟨?_, ?_⟩, ?_⟩ <;> simp [IntelDb.withRules, Table.empty, Explained]

/-- The engine records of an indicator. -/
def engineRecords (db : IntelDb) (iocId : String) : List EnrichmentRecord :=
  db.enrichments.rows.filter fun record => record.iocId = iocId && record.provider = "engine"

/-- A record that is found is the only one. -/
theorem engineRecords_eq {db : IntelDb} {iocId : String} {record : EnrichmentRecord}
    (h : db.enrichments.get? (iocId, "engine") = some record) : engineRecords db iocId = [record] := by
  obtain ⟨hmem, hkey⟩ := (Table.get?_eq_some_iff _ _ _).mp h
  have hnodup : db.enrichments.rows.Nodup := List.Nodup.of_map _ db.enrichments.nodupKeys
  have hfilter : engineRecords db iocId = db.enrichments.rows.filter (· == record) := by
    refine List.filter_congr fun r hr => ?_
    have hiff : (r.iocId = iocId ∧ r.provider = "engine") ↔ r = record := by
      constructor
      · rintro ⟨hid, hprovider⟩
        refine List.inj_on_of_nodup_map db.enrichments.nodupKeys hr hmem ?_
        rw [hkey, EnrichmentRecord.key, hid, hprovider]
      · rintro rfl
        exact Prod.mk.inj hkey
    rw [Bool.eq_iff_iff]
    simpa using hiff
  rw [hfilter, List.filter_beq, List.count_eq_one_of_mem hnodup hmem, List.replicate_one]

/-- In every state that is reached from a database without indicators,
each row has a score in its range, the level of that score, and one engine
record, with the same score and level and with contributions that differ
from the score by the roundings. -/
theorem explanation_matches_verdict {K : Type} [Field K] [LinearOrder K] [IsStrictOrderedRing K]
    [FloorRing K] (S : IOCService)
    (signals : Enrichment → PyStr → ℚ → Bool → Int → ℚ → ScoreSignals K)
    (rules : Table AlertRule AlertRule.id) (requests : List Request) :
    ∀ ioc ∈ (Runs.run (S.scoredBy signals).step { db := .withRules rules } requests).db.iocs.rows,
      (0 ≤ ioc.threatScore.val ∧ ioc.threatScore.val ≤ 100) ∧
      ioc.threatLevel = (levelForScore ioc.threatScore.val).value ∧
      ∃ record,
        engineRecords (Runs.run (S.scoredBy signals).step { db := .withRules rules } requests).db
          ioc.id = [record] ∧
        record.data.score.score = ioc.threatScore.val ∧
        record.data.score.level.value = ioc.threatLevel ∧
        |contributed record.data.score - ioc.threatScore.val| ≤ 545 / 1000 := by
  intro ioc hioc
  obtain ⟨-, hexplained⟩ := (invariant_explained (judges_scoredBy S signals)).run
    (explained_withRules rules) requests
  obtain ⟨data, hdata, hexplains⟩ := hexplained ioc hioc
  obtain ⟨hscore, hlevel, hverdict⟩ := hexplains
  refine ⟨hscore ▸ hverdict.range, ?_, _, engineRecords_eq hdata, hscore, hlevel, ?_⟩
  · rw [← hlevel, hverdict.level, hscore]
  · rw [← hscore]
    exact hverdict.sum

/-- Signals of an engine whose powers and logarithms are constant. -/
def sampleSignals : Enrichment → PyStr → ℚ → Bool → Int → ℚ → ScoreSignals ℚ :=
  Scoring.upsertSignals { pow := fun _ _ => 1, log1p := fun _ => 1 }

/-- A first sighting and a re-import. -/
def sampleRequests : List Request :=
  [.upsert { rawValue := "8.8.8.8".toList } { now := 0 } none,
    .bulk { content := "8.8.8.8".toList } (fun _ => { now := 1 }) none]

theorem explanation_matches_verdict_sample :
    ((Runs.run ((getIocService .sample ⟨false⟩).scoredBy sampleSignals).step
      { db := .withRules .empty } sampleRequests).db.iocs.rows.map (·.value)) = ["8.8.8.8".toList] ∧
    ∀ ioc ∈ (Runs.run ((getIocService .sample ⟨false⟩).scoredBy sampleSignals).step
      { db := .withRules .empty } sampleRequests).db.iocs.rows,
      0 ≤ ioc.threatScore.val ∧ ioc.threatScore.val ≤ 100 :=
  ⟨by decide +kernel, fun ioc hioc =>
    (explanation_matches_verdict _ sampleSignals .empty sampleRequests ioc hioc).1⟩

end IOCService

end ThreatIntel
