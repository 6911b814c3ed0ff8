import ThreatIntel.ExtractSpec

/-!
# Clean failure of extraction

A document that cannot be read is to be answered with a `ValidationError`.
The loops catch `UnknownIndicatorError`, and the JSON reader's
`JSONDecodeError` is turned into a `ValidationError`; the other exceptions
that the three parsers can meet pass through: `ValueError` for an authority
that `urlsplit` does not accept, for a number with too many digits,
`RecursionError` for a document that is nested too deeply, `TypeError` for
a bundle whose values are not of the expected type, and `csv.Error`.
`failsCleanly_iff` is the complete account.
-/

namespace ThreatIntel

namespace Extract

open Harvest Indicators

/-- A result, or a `ValidationError` (or an error of a class below it). -/
def FailsCleanly {α : Type} : Except Exn α → Prop
  | .ok _ => True
  | .error (.app e) => e.isValidationError = true
  | .error _ => False

/-! ## Conditions -/

section Conditions

variable (I : Interpreter) (limit : Nat)

/-- A candidate with a bad authority comes, if at all, after as many
distinct indicators as are asked for. -/
def Untroubled (cs : List PyStr) : Prop :=
  ∀ pre c post, cs = pre ++ c :: post → BadAuthority I.unicode c →
    max limit 1 ≤ (distinct [] (hits (classifyIndicator I.unicode) pre)).length

def ScannableText (text : PyStr) : Prop :=
  Untroubled I limit (candidates I.unicode patterns (refang text))

/-- The rows can be read, and the text of the cells can be scanned. -/
def ScannableCsv (text : PyStr) : Prop :=
  ∃ rows, Csv.reader (dialectOf I text) text = .ok rows ∧
    (rows ≠ [] → ScannableText I limit (PyStr.join '\n' (cellsOf rows)))

/-- The document is no JSON at all, or no object; or its objects can be
looked at one by one, and what they offer can be scanned. -/
def ScannableStix (text : PyStr) : Prop :=
  match Json.loads I.maxDepth text with
  | .error (.decode _) => True
  | .error _ => False
  | .ok (.obj members) =>
      let objects := (Json.get? members "objects").getD (.arr [])
      Iterable objects ∧ (∀ obj ∈ items objects, Readable I obj) ∧
        Untroubled I limit ((items objects).flatMap (offered I))
  | .ok _ => True

structure Scannable (content : PyStr) (fmt : String) : Prop where
  stix : resolveFormat content fmt = "stix" → ScannableStix I limit content
  csv : resolveFormat content fmt = "csv" → ScannableCsv I limit content
  text : resolveFormat content fmt = "text" → ScannableText I limit content

end Conditions

/-! ## The extractors -/

variable {I : Interpreter} {limit : Nat}

theorem failsCleanly_validationError {α : Type} (message : PyStr) :
    FailsCleanly (.error (validationError message) : Except Exn α) := rfl

theorem untroubled_iff {cs : List PyStr} :
    Untroubled I limit cs ↔
      Clear (classifyIndicator I.unicode) isUnknownIndicator (max limit 1) [] cs := by
  simp only [Untroubled, Clear, fails_iff]

/-- **The loop fails cleanly** exactly if no bad authority is reached. -/
theorem failsCleanly_harvested {cs : List PyStr} :
    FailsCleanly (harvested I.unicode limit cs) ↔ Untroubled I limit cs := by
  have hroom : 0 < max limit 1 := by omega
  by_cases hclear : Clear (classifyIndicator I.unicode) isUnknownIndicator (max limit 1) [] cs
  · rw [untroubled_iff, harvested, harvest_of_clear hroom hclear]
    exact iff_of_true trivial hclear
  · obtain ⟨c, -, e, he, hskip, hrun⟩ := harvest_of_not_clear hroom hclear
    obtain rfl : e = .python .valueError := by
      rcases classify_error_cases he with hunknown | ⟨-, h⟩
      · exact absurd (hskip.symm.trans hunknown) Bool.false_ne_true
      · exact h
    rw [untroubled_iff, harvested, hrun]
    exact iff_of_false id hclear

theorem failsCleanly_text {text : PyStr} :
    FailsCleanly (extractFromText I text limit) ↔ ScannableText I limit text := by
  rw [extractFromText, collectText_eq, failsCleanly_harvested]
  rfl

/-! ### Tables -/

theorem failsCleanly_csv {text : PyStr} :
    FailsCleanly (extractFromCsv I text limit) ↔ ScannableCsv I limit text := by
  unfold extractFromCsv ScannableCsv
  cases hrows : Csv.reader (dialectOf I text) text with
  | error e =>
      obtain rfl := Csv.readRows_error hrows
      simp [bind, Except.bind, FailsCleanly]
  | ok rows =>
      by_cases hnil : rows = []
      · simp [hnil, bind, Except.bind, pure, Except.pure, FailsCleanly]
      · simp [hnil, bind, Except.bind, failsCleanly_text]

/-- Without carriage returns it is only the text of the cells that counts. -/
theorem scannableCsv_iff_of_notMem_cr {text : PyStr} (hlen : text.length ≤ maxContentChars)
    (hcr : '\r' ∉ text) :
    ScannableCsv I limit text ↔ ∀ rows, Csv.reader (dialectOf I text) text = .ok rows →
      rows ≠ [] → ScannableText I limit (PyStr.join '\n' (cellsOf rows)) := by
  constructor
  · rintro ⟨rows, hrows, htext⟩ rows' hrows' hne
    obtain rfl := Except.ok.inj (hrows.symm.trans hrows')
    exact htext hne
  · intro h
    obtain ⟨rows, hrows⟩ := Csv.reader_of_notMem_cr (d := dialectOf I text) hlen hcr
    exact ⟨rows, hrows, h rows hrows⟩

/-! ### Bundles -/

theorem failsCleanly_stix {text : PyStr} :
    FailsCleanly (extractFromStix I text limit) ↔ ScannableStix I limit text := by
  simp only [extractFromStix, stixValues, ScannableStix]
  cases hloads : Json.loads I.maxDepth text with
  | error e =>
      cases e with
      | decode msg => exact iff_of_true (failsCleanly_validationError _) trivial
      | _ => exact iff_of_false id id
  | ok v =>
      cases v with
      | obj members =>
          dsimp only
          generalize (Json.get? members "objects").getD (.arr []) = objects
          by_cases hiter : Iterable objects
          · by_cases hread : ∀ obj ∈ items objects, Readable I obj
            · simp only [iterate_of_iterable hiter, valuesOfAll_of_readable hread, bind, Except.bind,
                collectStix_eq, failsCleanly_harvested]
              exact ⟨fun h => ⟨hiter, hread, h⟩, fun h => h.2.2⟩
            · simp only [iterate_of_iterable hiter, valuesOfAll_of_not_readable hread, bind,
                Except.bind]
              exact iff_of_false id fun h => hread h.2.1
          · simp only [iterate_of_not_iterable hiter, bind, Except.bind]
            exact iff_of_false id fun h => hiter h.1
      | _ => exact iff_of_true (failsCleanly_validationError _) trivial

/-! ## Every document -/

/-- **Extraction fails cleanly** exactly for the documents that are turned
down for their length and for those that can be scanned. -/
theorem failsCleanly_iff (I : Interpreter) (content : PyStr) (fmt : String) (limit : Nat) :
    FailsCleanly (extractIndicators I content fmt limit) ↔
      maxContentChars < content.length ∨ Scannable I limit content fmt := by
  unfold extractIndicators
  by_cases hlen : maxContentChars < content.length
  · rw [if_pos hlen]
    exact iff_of_true (failsCleanly_validationError _) (.inl hlen)
  · rw [if_neg hlen, or_iff_right hlen]
    dsimp only
    generalize hf : resolveFormat content fmt = f
    by_cases hstix : f = "stix"
    · subst hstix
      rw [if_pos rfl, failsCleanly_stix]
      exact ⟨fun h => ⟨fun _ => h, by simp [hf], by simp [hf]⟩, fun h => h.stix hf⟩
    · by_cases hcsv : f = "csv"
      · subst hcsv
        rw [if_neg hstix, if_pos rfl, failsCleanly_csv]
        exact ⟨fun h => ⟨by simp [hf], fun _ => h, by simp [hf]⟩, fun h => h.csv hf⟩
      · by_cases htext : f = "text"
        · subst htext
          rw [if_neg hstix, if_neg hcsv, if_pos rfl, failsCleanly_text]
          exact ⟨fun h => ⟨by simp [hf], by simp [hf], fun _ => h⟩, fun h => h.text hf⟩
        · rw [if_neg hstix, if_neg hcsv, if_neg htext]
          refine iff_of_true (failsCleanly_validationError _) ⟨?_, ?_, ?_⟩
          · exact fun h => absurd (hf.symm.trans h) hstix
          · exact fun h => absurd (hf.symm.trans h) hcsv
          · exact fun h => absurd (hf.symm.trans h) htext

/-- A text with half an IPv6 address in it: `urlsplit` raises, and so does
the extraction. -/
theorem openBracket_raises :
    ¬ ∀ (I : Interpreter) (content : PyStr) (fmt : String) (limit : Nat),
      content.length ≤ maxContentChars → 1 ≤ limit →
        FailsCleanly (extractIndicators I content fmt limit) := by
  intro h
  have hclean := h .ascii "http://[x".toList "text" 10 (by decide) (by decide)
  have hrun : extractIndicators .ascii "http://[x".toList "text" 10 =
      .error (.python .valueError) := by decide +kernel
  rw [hrun] at hclean
  exact hclean

end Extract

end ThreatIntel
