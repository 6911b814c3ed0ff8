import Mathlib.Analysis.SpecialFunctions.Pow.Real
import ThreatIntel.Scoring

/-!
# The order of scores

A score follows its signals: clamping, the weighted average and the
rounding keep the order, so that raising a signal never lowers a score
(`score_mono`). The signals follow what is known of an indicator: its
sightings and its detections, whether its source is reputable, and, the
other way round, its age. Powers and logarithms are those of the reals.
-/

namespace ThreatIntel

/-- The place of a level among the levels. -/
def ThreatLevel.rank : ThreatLevel → Nat
  | clean => 0
  | low => 1
  | medium => 2
  | high => 3
  | critical => 4

/-- The functions of `math`, on the reals. -/
noncomputable def realMath : FloatMath ℝ where
  pow x y := x ^ y
  log1p x := Real.log (1 + x)

namespace Scoring

open Rounding (roundEven roundEven_mono)

/-! ## From the signals to the score -/

section Signals

variable {K : Type} [Field K] [LinearOrder K] [IsStrictOrderedRing K] {a b : ScoreSignals K}

theorem clamp01_mem (x : K) : 0 ≤ clamp01 x ∧ clamp01 x ≤ 1 :=
  ⟨le_max_left _ _, max_le zero_le_one (min_le_left _ _)⟩

omit [IsStrictOrderedRing K] in
theorem clamp01_mono {x y : K} (h : x ≤ y) : clamp01 x ≤ clamp01 y :=
  max_le_max le_rfl (min_le_min le_rfl h)

theorem share_mono {s : Signal} (h : s.value a ≤ s.value b) : share a s ≤ share b s := by
  have hweight : (0 : K) ≤ s.weight := by
    cases s <;> simp only [Signal.weight] <;> push_cast <;> positivity
  exact mul_le_mul_of_nonneg_right (clamp01_mono h) hweight

theorem raw_mono (h : ∀ s : Signal, s.value a ≤ s.value b) : raw a ≤ raw b := by
  rw [raw, raw, totalWeight_eq, Rat.cast_one, div_one, div_one]
  exact List.sum_le_sum fun s _ => share_mono (h s)

theorem rank_levelForScore_mono {m n : Int} (h : m ≤ n) :
    (levelForScore m).rank ≤ (levelForScore n).rank := by
  unfold levelForScore
  split_ifs <;> simp only [ThreatLevel.rank] <;> omega

variable [FloorRing K]

theorem score_le_of_raw_le (h : raw a ≤ raw b) :
    (computeThreatScore a).score ≤ (computeThreatScore b).score :=
  roundEven_mono (mul_le_mul_of_nonneg_right h (by norm_num))

/-- **Raising signals never lowers the score.** -/
theorem score_mono (h : ∀ s : Signal, s.value a ≤ s.value b) :
    (computeThreatScore a).score ≤ (computeThreatScore b).score :=
  score_le_of_raw_le (raw_mono h)

/-- Nor does it lower the level. -/
theorem level_mono (h : ∀ s : Signal, s.value a ≤ s.value b) :
    (computeThreatScore a).level.rank ≤ (computeThreatScore b).level.rank :=
  rank_levelForScore_mono (score_mono h)

end Signals

/-! ## From what is known to the signals -/

theorem detectionRatio_mono {detected detected' : Int} (h : detected ≤ detected') (total : Int) :
    (detectionRatio detected total : ℝ) ≤ detectionRatio detected' total := by
  unfold detectionRatio
  split
  · exact le_rfl
  · next htotal =>
      have hpos : (0 : ℝ) < total := by exact_mod_cast not_le.mp htotal
      exact clamp01_mono ((div_le_div_iff_of_pos_right hpos).mpr (by exact_mod_cast h))

theorem frequencyScore_mono {n n' : Int} (h : n ≤ n') :
    frequencyScore realMath n ≤ frequencyScore realMath n' := by
  unfold frequencyScore
  split
  · split
    · exact le_rfl
    · exact (clamp01_mem _).1
  · next hn =>
      have hpos : (0 : ℝ) < n := by exact_mod_cast not_le.mp hn
      have hle : (n : ℝ) ≤ n' := by exact_mod_cast h
      have hsaturate : 0 < realMath.log1p ((20 : Int) : ℝ) := by
        refine Real.log_pos ?_
        norm_num
      rw [if_neg (by omega)]
      refine clamp01_mono ((div_le_div_iff_of_pos_right hsaturate).mpr ?_)
      exact Real.log_le_log (by linarith) (by linarith)

/-- An indicator fades: the power of one half falls with the age. -/
theorem recencyScore_antitone {x y : ℝ} (h : x ≤ y) :
    recencyScore realMath y ≤ recencyScore realMath x := by
  have hage : ∀ x : ℝ, (if x < 0 then 0 else x) = max 0 x := by
    intro x
    split
    · next hneg => rw [max_eq_left hneg.le]
    · next hpos => rw [max_eq_right (not_lt.mp hpos)]
  simp only [recencyScore, hage]
  refine clamp01_mono (Real.rpow_le_rpow_of_exponent_ge (by norm_num) (by norm_num) ?_)
  exact (div_le_div_iff_of_pos_right (by norm_num)).mpr (max_le_max le_rfl h)

theorem historicalActivity_mono {n n' : Int} (h : n ≤ n') :
    min 1 ((n : ℝ) / 50) ≤ min 1 ((n' : ℝ) / 50) := by
  have hle : (n : ℝ) ≤ n' := by exact_mod_cast h
  exact min_le_min le_rfl ((div_le_div_iff_of_pos_right (by norm_num)).mpr hle)

/-- What one indicator is known for at least as much as another, that is
like it in everything else. -/
structure AtLeast (i j : SignalInputs ℝ) : Prop where
  reputation : i.reputation = j.reputation ∨ ∃ detected detected' total,
    i.reputation = some (detected, total) ∧ j.reputation = some (detected', total) ∧
      detected ≤ detected'
  country : i.country = j.country
  source : i.source = j.source
  sightings : i.sightings ≤ j.sightings
  ageDays : j.ageDays ≤ i.ageDays
  openPorts : i.openPorts = j.openPorts
  confidence : i.confidence = j.confidence
  blacklisted : i.blacklisted = true → j.blacklisted = true

/-- Every signal follows. -/
theorem AtLeast.value_le {i j : SignalInputs ℝ} (h : AtLeast i j) (s : Signal) :
    s.value (signalsFrom realMath i) ≤ s.value (signalsFrom realMath j) := by
  cases s with
  | sourceReputation => simp only [Signal.value, signalsFrom, h.source, le_refl]
  | detectionRatio =>
      rcases h.reputation with heq | ⟨detected, detected', total, hi, hj, hle⟩
      · simp only [Signal.value, signalsFrom, heq, le_refl]
      · simp only [Signal.value, signalsFrom, hi, hj]
        exact detectionRatio_mono hle total
  | blacklistPresence =>
      have hb := h.blacklisted
      simp only [Signal.value, signalsFrom]
      by_cases hi : i.blacklisted = true
      · simp [hi, hb hi]
      · rw [if_neg hi]
        split <;> simp
  | confidence => exact le_of_eq h.confidence
  | recency => exact recencyScore_antitone h.ageDays
  | frequency => exact frequencyScore_mono h.sightings
  | geoRisk => simp only [Signal.value, signalsFrom, h.country, le_refl]
  | portRisk => simp only [Signal.value, signalsFrom, h.openPorts, le_refl]
  | historicalActivity => exact historicalActivity_mono h.sightings

/-- The score of what is known. -/
noncomputable def scoreOf (i : SignalInputs ℝ) : Int :=
  (computeThreatScore (signalsFrom realMath i)).score

theorem AtLeast.score_le {i j : SignalInputs ℝ} (h : AtLeast i j) : scoreOf i ≤ scoreOf j :=
  score_mono h.value_le

/-- **Bounded and monotone.** A score is between 0 and 100, whatever the
signals; it and its level follow every signal; and it follows the sightings,
the detections and the blacklist, and against its age. -/
theorem score_bounded_monotone :
    (∀ signals : ScoreSignals ℝ,
      0 ≤ (computeThreatScore signals).score ∧ (computeThreatScore signals).score ≤ 100) ∧
    (∀ a b : ScoreSignals ℝ, (∀ s : Signal, s.value a ≤ s.value b) →
      (computeThreatScore a).score ≤ (computeThreatScore b).score ∧
        (computeThreatScore a).level.rank ≤ (computeThreatScore b).level.rank) ∧
    ∀ i : SignalInputs ℝ,
      (∀ n n' : Int, n ≤ n' →
        scoreOf { i with sightings := n } ≤ scoreOf { i with sightings := n' }) ∧
      (∀ detected detected' total : Int, detected ≤ detected' →
        scoreOf { i with reputation := some (detected, total) } ≤
          scoreOf { i with reputation := some (detected', total) }) ∧
      scoreOf { i with blacklisted := false } ≤ scoreOf { i with blacklisted := true } ∧
      ∀ x y : ℝ, x ≤ y → scoreOf { i with ageDays := y } ≤ scoreOf { i with ageDays := x } := by
  refine ⟨score_mem, fun a b h => ⟨score_mono h, level_mono h⟩, fun i => ⟨?_, ?_, ?_, ?_⟩⟩
  · intro n n' h
    exact AtLeast.score_le ⟨.inl rfl, rfl, rfl, h, le_rfl, rfl, rfl, id⟩
  · intro detected detected' total h
    exact AtLeast.score_le
      ⟨.inr ⟨detected, detected', total, rfl, rfl, h⟩, rfl, rfl, le_rfl, le_rfl, rfl, rfl, id⟩
  · exact AtLeast.score_le ⟨.inl rfl, rfl, rfl, le_rfl, le_rfl, rfl, rfl, nofun⟩
  · intro x y h
    exact AtLeast.score_le ⟨.inl rfl, rfl, rfl, le_rfl, h, rfl, rfl, id⟩

/-- One sighting more of an indicator that is half a day old. -/
theorem score_bounded_monotone_sighting :
    scoreOf { source := "otx".toList, sightings := 1, ageDays := 1 / 2 } ≤
      scoreOf { source := "otx".toList, sightings := 2, ageDays := 1 / 2 } :=
  (score_bounded_monotone.2.2 { source := "otx".toList, ageDays := 1 / 2 }).1 1 2 (by decide)

end Scoring

end ThreatIntel
