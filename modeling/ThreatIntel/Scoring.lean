import Mathlib.Algebra.BigOperators.Ring.List
import ThreatIntel.Ingest
import ThreatIntel.Rounding

/-!
# The scoring engine

`app/scoring/engine.py` and the signals of `app/enrichment/engine.py`, in
exact arithmetic: nine signals, each clamped to the unit interval, are
averaged by their weights, and the average is rounded to a score. What a
signal contributes is reported on its own, rounded to two decimals.

The weights sum to one, so the unrounded contributions sum to the
unrounded score, and what is reported differs from the score by the ten
roundings and nothing else (`abs_sum_contributions_sub_le`).
-/

namespace ThreatIntel

open Rounding (roundEven roundTo)

/-- Functions of `math` of which nothing but their being functions is used. -/
structure FloatMath (K : Type) where
  pow : K → K → K
  log1p : K → K

/-! ## Signals -/

structure ScoreSignals (K : Type) [Zero K] where
  sourceReputation : K := 0
  detectionRatio : K := 0
  blacklistPresence : K := 0
  confidence : K := 0
  recency : K := 0
  frequency : K := 0
  geoRisk : K := 0
  portRisk : K := 0
  historicalActivity : K := 0

inductive Signal where
  | sourceReputation
  | detectionRatio
  | blacklistPresence
  | confidence
  | recency
  | frequency
  | geoRisk
  | portRisk
  | historicalActivity
  deriving DecidableEq, Repr

namespace Signal

/-- The keys of `WEIGHTS`, in order. -/
def all : List Signal :=
  [sourceReputation, detectionRatio, blacklistPresence, confidence, recency, frequency, geoRisk,
    portRisk, historicalActivity]

def name : Signal → String
  | sourceReputation => "source_reputation"
  | detectionRatio => "detection_ratio"
  | blacklistPresence => "blacklist_presence"
  | confidence => "confidence"
  | recency => "recency"
  | frequency => "frequency"
  | geoRisk => "geo_risk"
  | portRisk => "port_risk"
  | historicalActivity => "historical_activity"

/-- `WEIGHTS`. -/
def weight : Signal → ℚ
  | sourceReputation => 22 / 100
  | detectionRatio => 20 / 100
  | blacklistPresence => 14 / 100
  | confidence => 12 / 100
  | recency => 10 / 100
  | frequency => 8 / 100
  | geoRisk => 6 / 100
  | portRisk => 5 / 100
  | historicalActivity => 3 / 100

def value {K : Type} [Zero K] (signals : ScoreSignals K) : Signal → K
  | sourceReputation => signals.sourceReputation
  | detectionRatio => signals.detectionRatio
  | blacklistPresence => signals.blacklistPresence
  | confidence => signals.confidence
  | recency => signals.recency
  | frequency => signals.frequency
  | geoRisk => signals.geoRisk
  | portRisk => signals.portRisk
  | historicalActivity => signals.historicalActivity

end Signal

namespace Scoring

variable {K : Type} [Field K] [LinearOrder K]

/-- `_clamp01`. -/
def clamp01 (value : K) : K := max 0 (min 1 value)

def detectionRatio (detected total : Int) : K := if total ≤ 0 then 0 else clamp01 (detected / total)

def recencyScore (m : FloatMath K) (ageDays : K) (halfLifeDays : K := 30) : K :=
  let ageDays := if ageDays < 0 then 0 else ageDays
  clamp01 (m.pow (1 / 2) (ageDays / halfLifeDays))

def frequencyScore (m : FloatMath K) (sightings : Int) (saturateAt : Int := 20) : K :=
  if sightings ≤ 0 then 0 else clamp01 (m.log1p sightings / m.log1p saturateAt)

def sourceReputationScore (reputableSources : Int) (saturateAt : Int := 4) : K :=
  if reputableSources ≤ 0 then 0 else clamp01 (reputableSources / saturateAt)

/-- `HIGH_RISK_GEOS`. -/
def highRiskGeos : List String := ["RU", "CN", "KP", "IR", "BY"]

def geoRiskScore (countryCode : Option String) : K :=
  match countryCode with
  | none => 0
  | some code => if highRiskGeos.contains (String.ofList (PyStr.upper code.toList)) then 1 else 0

/-- `RISKY_PORTS`. -/
def riskyPorts : List Int :=
  [21, 22, 23, 135, 139, 445, 1433, 3306, 3389, 4444, 5900, 6379, 8080, 9001, 9050]

def portRiskScore (openPorts : Option (List Int)) : K :=
  match openPorts with
  | none => 0
  | some ports => clamp01 ((ports.countP riskyPorts.contains : Nat) / 3)

/-- The arguments of `signals_from`; of the enrichment, the detections with
their total, and the country. -/
structure SignalInputs (K : Type) [Field K] where
  reputation : Option (Int × Int) := none
  country : Option String := none
  source : PyStr
  sightings : Int := 1
  ageDays : K := 0
  openPorts : Option (List Int) := none
  confidence : K := 1 / 2
  blacklisted : Bool := false

/-- `EnrichmentEngine.signals_from`. -/
def signalsFrom (m : FloatMath K) (inputs : SignalInputs K) : ScoreSignals K where
  sourceReputation :=
    sourceReputationScore (1 + if reputable.contains (String.ofList inputs.source) then 1 else 0)
  detectionRatio :=
    match inputs.reputation with
    | some (detected, total) => detectionRatio detected total
    | none => 0
  blacklistPresence := if inputs.blacklisted then 1 else 0
  confidence := inputs.confidence
  recency := recencyScore m inputs.ageDays
  frequency := frequencyScore m inputs.sightings
  geoRisk := geoRiskScore inputs.country
  portRisk := portRiskScore inputs.openPorts
  historicalActivity := min 1 (inputs.sightings / 50)

/-- The signals of an upsert, which passes no open ports. -/
def upsertSignals (m : FloatMath K) (enrichment : Enrichment) (source : PyStr) (confidence : ℚ)
    (blacklisted : Bool) (sightings : Int) (ageDays : ℚ) : ScoreSignals K :=
  signalsFrom m
    { reputation := enrichment.reputation.map fun rep => (rep.detected, rep.total)
      country := enrichment.geoip.map (·.country)
      source, sightings, ageDays, confidence, blacklisted }

/-! ## The score -/

def levelForScore (score : Int) : ThreatLevel :=
  if 85 ≤ score then .critical
  else if 65 ≤ score then .high
  else if 40 ≤ score then .medium
  else if 15 ≤ score then .low
  else .clean

def totalWeight : ℚ := (Signal.all.map Signal.weight).sum

/-- A signal's share in the average. -/
def share (signals : ScoreSignals K) (s : Signal) : K := clamp01 (s.value signals) * s.weight

/-- The weighted average. -/
def raw (signals : ScoreSignals K) : K := (Signal.all.map (share signals)).sum / totalWeight

def computeThreatScore [FloorRing K] (signals : ScoreSignals K) : ScoreResult where
  score := roundEven (raw signals * 100)
  level := levelForScore (roundEven (raw signals * 100))
  contributions :=
    Signal.all.map fun s => (s.name, roundTo 2 (share signals s / totalWeight * 100))

/-! ## What the score and its explanation add up to -/

/-- The sum of a result's contributions. -/
def contributed (result : ScoreResult) : ℚ := (result.contributions.map Prod.snd).sum

theorem totalWeight_eq : totalWeight = 1 := by
  simp only [totalWeight, Signal.all, Signal.weight, List.map_cons, List.map_nil, List.sum_cons,
    List.sum_nil]
  norm_num

variable [IsStrictOrderedRing K]

theorem share_mem (signals : ScoreSignals K) (s : Signal) :
    0 ≤ share signals s ∧ share signals s ≤ s.weight := by
  have hweight : (0 : K) ≤ s.weight := by
    cases s <;> simp only [Signal.weight] <;> push_cast <;> positivity
  have hlo : 0 ≤ clamp01 (s.value signals) := le_max_left _ _
  have hhi : clamp01 (s.value signals) ≤ 1 := max_le zero_le_one (min_le_left _ _)
  exact ⟨mul_nonneg hlo hweight, mul_le_of_le_one_left hweight hhi⟩

theorem raw_mem (signals : ScoreSignals K) : 0 ≤ raw signals ∧ raw signals ≤ 1 := by
  rw [raw, totalWeight_eq, Rat.cast_one, div_one]
  constructor
  · refine List.sum_nonneg fun x hx => ?_
    obtain ⟨s, -, rfl⟩ := List.mem_map.mp hx
    exact (share_mem signals s).1
  · have hle : (Signal.all.map (share signals)).sum ≤
        (Signal.all.map fun s => (s.weight : K)).sum :=
      List.sum_le_sum fun s _ => (share_mem signals s).2
    have htotal : (Signal.all.map fun s => (s.weight : K)).sum = (totalWeight : ℚ) := by
      rw [totalWeight, ← Rat.coe_castHom, map_list_sum, List.map_map]
      rfl
    rwa [htotal, totalWeight_eq, Rat.cast_one] at hle

variable [FloorRing K]

theorem score_mem (signals : ScoreSignals K) :
    0 ≤ (computeThreatScore signals).score ∧ (computeThreatScore signals).score ≤ 100 := by
  obtain ⟨hlo, hhi⟩ := raw_mem signals
  refine Rounding.roundEven_mem_Icc ?_ ?_
  · rw [Int.cast_zero]
    positivity
  · push_cast
    linarith

/-- The contributions differ from the score by nine roundings to two
decimals and one to an integer. -/
theorem abs_contributed_sub_le (signals : ScoreSignals K) :
    |contributed (computeThreatScore signals) - (computeThreatScore signals).score| ≤ 545 / 1000 := by
  let parts : List K := Signal.all.map fun s => share signals s / totalWeight * 100
  have hsum : parts.sum = raw signals * 100 := by
    simp only [parts, raw, div_eq_mul_inv, List.sum_map_mul_right]
  have hparts : contributed (computeThreatScore signals) = (parts.map (roundTo 2)).sum := by
    simp only [contributed, computeThreatScore, parts, List.map_map, Function.comp_def]
  have hnine : |((contributed (computeThreatScore signals) : ℚ) : K) - raw signals * 100| ≤
      9 * (1 / 2 / 10 ^ 2) := by
    rw [hparts, ← hsum]
    exact Rounding.abs_sum_roundTo_sub_le 2 parts
  have hone : |raw signals * 100 - ((computeThreatScore signals).score : K)| ≤ 1 / 2 := by
    rw [abs_sub_comm]
    exact Rounding.abs_roundEven_sub_le _
  have hboth : |((contributed (computeThreatScore signals) : ℚ) : K) -
      ((computeThreatScore signals).score : K)| ≤ 545 / 1000 := by
    refine (abs_sub_le _ (raw signals * 100) _).trans ((add_le_add hnine hone).trans ?_)
    norm_num
  rw [← Rat.cast_le (K := K)]
  push_cast
  exact hboth

end Scoring

end ThreatIntel
