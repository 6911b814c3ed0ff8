import ThreatIntel.Earliest
import ThreatIntel.ExtractSpec

/-!
# The limit of an extraction

A run that returns has reached no candidate on which it fails before its
limit was full, and then a run with a smaller limit does not either. Both
return the first of the same distinct classifications.
-/

namespace ThreatIntel

namespace Extract

open Harvest Indicators

/-- The values are what the candidates contribute: some of their
classifications, in the order of the candidates, no type and value twice. -/
def Contributed (U : Unicode) (cs found : List PyStr) : Prop :=
  ∃ ps : List ParsedIndicator,
    ps.Sublist (cs.filterMap fun c => (classifyIndicator U c).toOption) ∧
      (ps.map fun p => (p.type.value, p.value)).Nodup ∧ found = ps.map ParsedIndicator.value

theorem contributed_take {U : Unicode} {cs found : List PyStr} (h : Contributed U cs found)
    (k : Nat) : Contributed U cs (found.take k) := by
  obtain ⟨ps, hsub, hnodup, rfl⟩ := h
  refine ⟨ps.take k, (List.take_sublist k ps).trans hsub, ?_, List.map_take.symm⟩
  exact hnodup.sublist ((List.take_sublist k ps).map _)

section Loops

variable {U : Unicode} {cs found : List PyStr} {n : Nat}

/-- What a loop has returned are the first distinct classifications. -/
theorem harvested_eq_ok (h : harvested U n cs = .ok found) :
    Clear (classifyIndicator U) isUnknownIndicator (max n 1) [] cs ∧
      found = ((distinct [] (hits (classifyIndicator U) cs)).take (max n 1)).map
        ParsedIndicator.value := by
  rw [harvested] at h
  have hclear : Clear (classifyIndicator U) isUnknownIndicator (max n 1) [] cs := by
    by_contra hclear
    obtain ⟨a, -, e, -, -, hrun⟩ := harvest_of_not_clear (by omega) hclear
    rw [hrun] at h
    cases h
  rw [harvest_of_clear (by omega) hclear] at h
  exact ⟨hclear, (Except.ok.inj h).symm⟩

theorem contributed_of_harvested (h : harvested U n cs = .ok found) : Contributed U cs found := by
  have hnodup := Earliest.nodup_distinct [] (hits (classifyIndicator U) cs)
  rw [(harvested_eq_ok h).2, List.map_take]
  refine contributed_take ⟨_, distinct_sublist _ _, hnodup.map key_injective, rfl⟩ _

/-- **A smaller limit takes less of the same list.** -/
theorem harvested_take {k : Nat} (hk : 1 ≤ k) (hkn : k ≤ n) (h : harvested U n cs = .ok found) :
    harvested U k cs = .ok (found.take (min k found.length)) := by
  obtain ⟨hclear, hfound⟩ := harvested_eq_ok h
  have hmin : min k (max n 1) = max k 1 := by omega
  rw [harvested, harvest_of_clear (by omega) (hclear.mono (by omega)), ← List.take_eq_take_min, hfound,
    ← List.map_take, List.take_take, hmin]
  rfl

theorem length_harvested_le (hn : 1 ≤ n) (h : harvested U n cs = .ok found) : found.length ≤ n := by
  rw [(harvested_eq_ok h).2, List.length_map, List.length_take]
  omega

end Loops

/-- **The limit takes the first of a list without repetitions**: from a text
and from a bundle, with a limit under which the run returns and with any
smaller one. -/
theorem limit_takes_first (I : Interpreter) (content : PyStr) {k n : Nat} (hk : 1 ≤ k) (hkn : k ≤ n) :
    (∀ found, extractFromText I content n = .ok found →
        extractFromText I content k = .ok (found.take (min k found.length)) ∧ found.length ≤ n ∧
          Contributed I.unicode (candidates I.unicode patterns (refang content)) found) ∧
      (∀ found, extractFromStix I content n = .ok found →
        extractFromStix I content k = .ok (found.take (min k found.length)) ∧ found.length ≤ n ∧
          ∃ values, stixValues I content = .ok values ∧ Contributed I.unicode values found) := by
  constructor
  · intro found h
    rw [extractFromText, collectText_eq] at h ⊢
    exact ⟨harvested_take hk hkn h, length_harvested_le (hk.trans hkn) h, contributed_of_harvested h⟩
  · intro found h
    cases hvalues : stixValues I content with
    | error e =>
        rw [extractFromStix, hvalues] at h
        cases h
    | ok values =>
        have hrun : ∀ limit, extractFromStix I content limit = harvested I.unicode limit values := by
          intro limit
          rw [← collectStix_eq, extractFromStix, hvalues]
          rfl
        rw [hrun] at h ⊢
        exact ⟨harvested_take hk hkn h, length_harvested_le (hk.trans hkn) h, values, rfl,
          contributed_of_harvested h⟩

/-- Two addresses, one of them twice. -/
def sampleText : PyStr := "8.8.8.8 8.8.8.8 9.9.9.9".toList

/-- The same in a bundle. -/
def sampleBundle : PyStr :=
  ("\x7b\"objects\": [\x7b\"pattern\": \"[a = '8.8.8.8' OR a = '8.8.8.8']\"\x7d, " ++
    "\x7b\"pattern\": \"[a = '9.9.9.9']\"\x7d]\x7d").toList

/-- What both yield. -/
def sampleFound : List PyStr := ["8.8.8.8".toList, "9.9.9.9".toList]

theorem limit_takes_first_sample :
    (extractFromText .ascii sampleText 1 = .ok (sampleFound.take (min 1 sampleFound.length)) ∧
        sampleFound.length ≤ 2 ∧
          Contributed Unicode.ascii (candidates .ascii patterns (refang sampleText)) sampleFound) ∧
      extractFromStix .ascii sampleBundle 1 = .ok (sampleFound.take (min 1 sampleFound.length)) ∧
        sampleFound.length ≤ 2 ∧
          ∃ values, stixValues .ascii sampleBundle = .ok values ∧
            Contributed Unicode.ascii values sampleFound :=
  ⟨(limit_takes_first .ascii sampleText (by decide) (by decide)).1 sampleFound (by decide +kernel),
    (limit_takes_first .ascii sampleBundle (by decide) (by decide)).2 sampleFound
      (by decide +kernel)⟩

end Extract

end ThreatIntel
