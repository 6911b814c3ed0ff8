import ThreatIntel.Extract
import ThreatIntel.Harvest
import ThreatIntel.IndicatorSpec

/-!
# What extraction does

Both loops are the harvesting of the candidates' classifications
(`collectText_eq`, `collectStix_eq`), and a candidate ends one of them if
and only if it has an authority that `urlsplit` does not accept
(`fails_iff`). Of a bundle, what each object offers is a list of values
(`offered`), provided that Python can look at it at all (`Readable`).
-/

namespace ThreatIntel

namespace Extract

open Harvest Indicators

/-! ## Candidates -/

/-- The key under which a classification is remembered. -/
def key (p : ParsedIndicator) : String × PyStr := (p.type.value, p.value)

theorem key_injective : Function.Injective key := by
  rintro ⟨t, v⟩ ⟨t', v'⟩ h
  obtain ⟨htype, rfl⟩ : t.value = t'.value ∧ v = v' := by simpa [key] using h
  have hinj : t = t' := by
    cases t <;> cases t' <;> first | rfl | exact absurd htype (by decide)
  rw [hinj]

/-- The refanged text has an authority that `urlsplit` does not accept. -/
def BadAuthority (U : Unicode) (raw : PyStr) : Prop :=
  PyStr.includes "://".toList (refang raw) = true ∧
    urlsplit U (refang raw) = .error (.python .valueError)

instance (U : Unicode) (raw : PyStr) : Decidable (BadAuthority U raw) :=
  inferInstanceAs (Decidable (_ ∧ _))

theorem isUnknownIndicator_unrecognised (U : Unicode) (raw : PyStr) :
    isUnknownIndicator (unrecognised U raw) = true := rfl

/-- A value with `://` in it is none of the formats tried before URLs. -/
theorem noId_of_includes {value : PyStr} (hstrip : value.strip = value)
    (h : PyStr.includes "://".toList value = true) : NoId value := by
  obtain ⟨c, hc, hsame⟩ := Rewrite.exists_of_occurs h (p := ':') (by decide)
  obtain rfl : ':' = c := by simpa [PyStr.sameChar] using hsame
  refine ⟨hashType_eq_none hstrip hc (by decide), ?_, ?_⟩
  · exact Bool.eq_false_iff.mpr fun hm => plainFormat_cveRe.colon_notMem hstrip hm hc
  · exact Bool.eq_false_iff.mpr fun hm => plainFormat_techniqueRe.colon_notMem hstrip hm hc

theorem classifyHost_error {U : Unicode} {raw value : PyStr} {e : Exn}
    (h : classifyHost U raw value = .error e) : e = unrecognised U raw := by
  unfold classifyHost at h
  split at h
  · cases h
  · split at h
    · cases h
    · split at h
      · cases h
      · cases h
        rfl

theorem classifyValue_error {U : Unicode} {raw value : PyStr} {e : Exn}
    (h : classifyValue U raw value = .error e) :
    e = unrecognised U raw ∨
      PyStr.includes "://".toList value = true ∧ urlsplit U value = .error e := by
  unfold classifyValue at h
  split at h
  · cases h
  · split at h
    · cases h
    · split at h
      · cases h
      · split at h
        · next hsep =>
            cases hsplit : urlsplit U value with
            | error e' =>
                rw [hsplit] at h
                cases h
                exact .inr ⟨hsep, rfl⟩
            | ok parts =>
                simp only [hsplit, bind, Except.bind] at h
                split at h
                · cases h
                · exact .inl (classifyHost_error h)
        · exact .inl (classifyHost_error h)

theorem classify_of_badAuthority {U : Unicode} {raw : PyStr} (h : BadAuthority U raw) :
    classifyIndicator U raw = .error (.python .valueError) := by
  have hid := noId_of_includes (strip_refang raw) h.1
  have hne : refang raw ≠ [] := by
    intro hnil
    have := h.1
    rw [hnil] at this
    exact absurd this (by decide)
  simp only [classifyIndicator, strip_refang, if_neg hne, classifyValue, hid.hash, hid.cve,
    hid.technique, h.1, h.2, Bool.false_eq_true, if_true, if_false, bind, Except.bind]

/-- `UnknownIndicatorError`, or the error of a bad authority. -/
theorem classify_error_cases {U : Unicode} {raw : PyStr} {e : Exn}
    (h : classifyIndicator U raw = .error e) :
    isUnknownIndicator e = true ∨ BadAuthority U raw ∧ e = .python .valueError := by
  have hraise := h
  simp only [classifyIndicator, strip_refang] at h
  split at h
  · cases h
    exact .inl rfl
  · rcases classifyValue_error h with rfl | ⟨hsep, hsplit⟩
    · exact .inl (isUnknownIndicator_unrecognised U raw)
    · obtain rfl := urlsplit_error hsplit
      exact .inr ⟨⟨hsep, hsplit⟩, rfl⟩

/-- **A candidate ends the loop** exactly if its authority is bad. -/
theorem fails_iff {U : Unicode} {raw : PyStr} :
    Fails (classifyIndicator U) isUnknownIndicator raw ↔ BadAuthority U raw := by
  constructor
  · rintro ⟨e, he, hskip⟩
    rcases classify_error_cases he with hunknown | ⟨hbad, -⟩
    · exact absurd (hskip.symm.trans hunknown) Bool.false_ne_true
    · exact hbad
  · exact fun h => ⟨_, classify_of_badAuthority h, rfl⟩

/-! ## The loops -/

section Loops

variable (U : Unicode) (limit : Nat)

/-- What is harvested, as the loops return it. -/
def harvested (cs : List PyStr) : Except Exn (List PyStr) :=
  (harvest (classifyIndicator U) isUnknownIndicator (max limit 1) [] cs).map
    (List.map ParsedIndicator.value)

theorem mem_seen_iff {seen : List ParsedIndicator} {p : ParsedIndicator} :
    (p.type.value, p.value) ∈ seen.map key ↔ p ∈ seen :=
  List.mem_map_of_injective key_injective

variable {U limit}

/-- The loop of `extract_from_text`, after `found`. -/
theorem collectText_eq_harvest (cs : List PyStr) (seen : List ParsedIndicator)
    (found : List PyStr) (hroom : found.length < max limit 1) :
    collectText U limit cs (seen.map key) found =
      (harvest (classifyIndicator U) isUnknownIndicator (max limit 1 - found.length) seen cs).map
        fun ps => found ++ ps.map ParsedIndicator.value := by
  induction cs generalizing seen found with
  | nil => simp [collectText, harvest, Except.map, pure, Except.pure]
  | cons c cs ih =>
      rw [collectText, harvest]
      cases hc : classifyIndicator U c with
      | error e =>
          by_cases hs : isUnknownIndicator e = true
          · simp only [hs, if_true]
            exact ih seen found hroom
          · simp only [hs]
            rfl
      | ok p =>
          simp only [mem_seen_iff]
          by_cases hp : p ∈ seen
          · simp only [hp, if_true]
            exact ih seen found hroom
          · simp only [hp, if_false, List.length_append, List.length_singleton]
            by_cases hfull : limit ≤ found.length + 1
            · rw [if_pos hfull, if_pos (by omega)]
              rfl
            · have hkeys : (p.type.value, p.value) :: seen.map key = (p :: seen).map key := rfl
              have hlen : (found ++ [p.value]).length = found.length + 1 := by simp
              rw [if_neg hfull, if_neg (by omega), hkeys, ih (p :: seen) _ (by omega), hlen,
                Nat.sub_add_eq]
              cases harvest (classifyIndicator U) isUnknownIndicator
                (max limit 1 - found.length - 1) (p :: seen) cs with
              | error e => rfl
              | ok ps => simp [Except.map, bind, Except.bind, pure, Except.pure]

/-- The loop of `extract_from_stix` looks at the limit more often, to no
effect: behind a repeated value there is room. -/
theorem collectStix_eq_collectText (cs : List PyStr) (seen : List (String × PyStr))
    (found : List PyStr) (hroom : found.length < limit ∨ seen = []) :
    collectStix U limit cs seen found = collectText U limit cs seen found := by
  induction cs generalizing seen found with
  | nil => rfl
  | cons c cs ih =>
      rw [collectStix, collectText]
      cases hc : classifyIndicator U c with
      | error e =>
          dsimp only
          rw [ih seen found hroom]
      | ok p =>
          dsimp only
          by_cases hp : (p.type.value, p.value) ∈ seen
          · have hlt : found.length < limit := by
              rcases hroom with h | rfl
              · exact h
              · exact absurd hp List.not_mem_nil
            simp only [hp, if_true]
            rw [if_neg (by omega), ih seen found (.inl hlt)]
          · simp only [hp, if_false]
            split
            · rfl
            · next hfull => exact ih _ _ (.inl (by omega))

/-- **Both loops harvest** the classifications of the candidates. -/
theorem collectText_eq (cs : List PyStr) : collectText U limit cs [] [] = harvested U limit cs := by
  have h : collectText U limit cs ([].map key) [] = _ :=
    collectText_eq_harvest cs [] [] (show 0 < max limit 1 by omega)
  simpa [harvested] using h

theorem collectStix_eq (cs : List PyStr) : collectStix U limit cs [] [] = harvested U limit cs := by
  rw [collectStix_eq_collectText cs [] [] (.inr rfl), collectText_eq]

end Loops

/-! ## Bundles -/

/-- `for item in value` does not raise. -/
def Iterable : Json → Prop
  | .arr _ => True
  | .obj _ => True
  | .str _ => True
  | _ => False

/-- The value can be looked up in a set. -/
def Hashable : Json → Prop
  | .arr _ => False
  | .obj _ => False
  | _ => True

/-- A vulnerability or an attack pattern. -/
def isReference (members : List (PyStr × Json)) : Bool :=
  match Json.get? members "type" with
  | some (.str s) => s = "vulnerability".toList || s = "attack-pattern".toList
  | _ => false

/-- Python can look at the object: at its type, and, of a vulnerability or
an attack pattern, at the references if there are any. -/
def Readable (I : Interpreter) : Json → Prop
  | .obj members =>
      (∀ t, Json.get? members "type" = some t → Hashable t) ∧
        (isReference members = true → ∀ refs,
          Json.get? members "external_references" = some refs → truthy I refs = true →
            Iterable refs)
  | _ => True

/-- What there is to iterate over. -/
def items : Json → List Json
  | .arr items => items
  | .obj members => (members.map Prod.fst).eraseDups.map Json.str
  | .str s => s.map fun c => .str [c]
  | _ => []

/-- The values that the object offers. -/
def offered (I : Interpreter) : Json → List PyStr
  | .obj members =>
      if isReference members then
        match Json.get? members "external_references" with
        | some refs => if truthy I refs then externalIds I (items refs) else []
        | none => []
      else
        match Json.get? members "pattern" with
        | some (.str pattern) =>
            (Regex.groups patternPre patternBody patternPost pattern).map unescape
        | _ => []
  | _ => []

theorem iterate_of_iterable {v : Json} (h : Iterable v) : iterate v = .ok (items v) := by
  cases v <;> first | rfl | exact absurd h id

theorem iterate_of_not_iterable {v : Json} (h : ¬ Iterable v) :
    iterate v = .error (.python .typeError) := by
  cases v <;> first | rfl | exact absurd trivial h

theorem isReferenceType_of_hashable {members : List (PyStr × Json)}
    (h : ∀ t, Json.get? members "type" = some t → Hashable t) :
    isReferenceType (Json.get? members "type") = .ok (isReference members) := by
  unfold isReference
  cases ht : Json.get? members "type" with
  | none => rfl
  | some t =>
      have := h t ht
      cases t <;> first | rfl | exact absurd this id

theorem isReferenceType_of_not_hashable {members : List (PyStr × Json)}
    (h : ¬ ∀ t, Json.get? members "type" = some t → Hashable t) :
    isReferenceType (Json.get? members "type") = .error (.python .typeError) := by
  push Not at h
  obtain ⟨t, ht, hnot⟩ := h
  rw [ht]
  cases t <;> first | rfl | exact absurd trivial hnot

theorem valuesOf_of_readable {I : Interpreter} {obj : Json} (h : Readable I obj) :
    valuesOf I obj = .ok (offered I obj) := by
  cases obj with
  | obj members =>
      obtain ⟨htype, hrefs⟩ := h
      simp only [valuesOf, offered, isReferenceType_of_hashable htype, bind, Except.bind]
      by_cases href : isReference members = true
      · simp only [href, if_true]
        cases hget : Json.get? members "external_references" with
        | none => rfl
        | some refs =>
            by_cases htrue : truthy I refs = true
            · simp only [htrue, if_true, iterate_of_iterable (hrefs href refs hget htrue)]
              rfl
            · simp only [htrue]
              rfl
      · simp only [href]
        cases hget : Json.get? members "pattern" with
        | none => rfl
        | some pattern => cases pattern <;> rfl
  | _ => rfl

theorem valuesOf_of_not_readable {I : Interpreter} {obj : Json} (h : ¬ Readable I obj) :
    valuesOf I obj = .error (.python .typeError) := by
  cases obj with
  | obj members =>
      by_cases htype : ∀ t, Json.get? members "type" = some t → Hashable t
      · have hrefs := (not_and.mp h) htype
        push Not at hrefs
        obtain ⟨href, refs, hget, htrue, hnot⟩ := hrefs
        simp only [valuesOf, isReferenceType_of_hashable htype, bind, Except.bind, href, if_true,
          hget, htrue, iterate_of_not_iterable hnot]
      · simp only [valuesOf, isReferenceType_of_not_hashable htype, bind, Except.bind]
  | _ => exact absurd trivial h

/-- The values of the objects, as long as all of them are readable. -/
theorem valuesOfAll_of_readable {I : Interpreter} {objects : List Json}
    (h : ∀ obj ∈ objects, Readable I obj) :
    valuesOfAll I objects = .ok (objects.flatMap (offered I)) := by
  induction objects with
  | nil => rfl
  | cons obj objects ih =>
      simp only [valuesOfAll, valuesOf_of_readable (h obj List.mem_cons_self),
        ih fun o ho => h o (List.mem_cons_of_mem _ ho), bind, Except.bind, List.flatMap_cons]
      rfl

theorem valuesOfAll_of_not_readable {I : Interpreter} {objects : List Json}
    (h : ¬ ∀ obj ∈ objects, Readable I obj) :
    valuesOfAll I objects = .error (.python .typeError) := by
  induction objects with
  | nil => exact absurd (fun obj hobj => nomatch hobj) h
  | cons obj objects ih =>
      by_cases hobj : Readable I obj
      · have hrest : ¬ ∀ o ∈ objects, Readable I o := fun hall =>
          h (List.forall_mem_cons.mpr ⟨hobj, hall⟩)
        simp only [valuesOfAll, valuesOf_of_readable hobj, ih hrest, bind, Except.bind]
      · simp only [valuesOfAll, valuesOf_of_not_readable hobj, bind, Except.bind]

end Extract

end ThreatIntel
