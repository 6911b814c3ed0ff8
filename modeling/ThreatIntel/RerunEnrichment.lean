import ThreatIntel.Resighting

/-!
# Re-running the enrichment

`rerun_enrichment` submits the stored value once more, and every submission
is counted: a re-enrichment that comes to its row adds a sighting to it. It
leaves the row alone only where it fails, or where the stored value is read
as another indicator (`rerun_isNoSighting_iff`).
-/

namespace ThreatIntel

namespace IOCService

variable {S : IOCService} {s : AlertService} {call : UpsertCall} {c : Conditions}
  {parsed : ParsedIndicator} {score : ScoreResult} {ioc ioc' : Ioc} {w w' : IntelWorld}
  {userId : Option String}

/-! ## What a re-enrichment may change -/

/-- Nothing but the verdict and the time of the last sighting differs. -/
structure SameRecord (ioc ioc' : Ioc) : Prop where
  id : ioc'.id = ioc.id
  key : ioc'.key = ioc.key
  sightings : ioc'.sightings = ioc.sightings
  tags : ioc'.tags = ioc.tags
  references : ioc'.references = ioc.references
  description : ioc'.description = ioc.description
  firstSeen : ioc'.firstSeen = ioc.firstSeen

theorem SameRecord.refl (ioc : Ioc) : SameRecord ioc ioc := ⟨rfl, rfl, rfl, rfl, rfl, rfl, rfl⟩

/-- From `w`, one re-enrichment has led to `w₁` and a second to `w₂`, and
neither counts as a sighting. -/
structure NotASighting (ioc : Ioc) (w w₁ w₂ : IntelWorld) : Prop where
  kept : ∃ ioc₁ ∈ w₁.db.iocs.rows, SameRecord ioc ioc₁
  rows : w₁.db.iocs.rows.map (·.id) = w.db.iocs.rows.map (·.id)
  twice : ∃ ioc₁ ∈ w₁.db.iocs.rows, ∃ ioc₂ ∈ w₂.db.iocs.rows, ioc₁.id = ioc.id ∧
    ioc₂.id = ioc.id ∧ ioc₂.threatScore = ioc₁.threatScore ∧ ioc₂.threatLevel = ioc₁.threatLevel

/-- A re-enrichment goes through, and its value is read as the indicator
itself, or as one that is not known. -/
def CountsSighting (S : IOCService) (db : IntelDb) (ioc : Ioc) (userId : Option String)
    (c : Conditions) : Prop :=
  ∃ call parsed, rerunCall ioc userId = some call ∧
    Indicators.classifyIndicator S.interpreter.unicode ioc.value = .ok parsed ∧
    S.Completes db call c ∧ (ioc.key = (parsed.type.value, parsed.value) ∨ knownIoc db parsed = none)

/-- The service is asked to re-enrich the indicator. -/
def rerun (S : IOCService) (w : IntelWorld) (ioc : Ioc) (userId : Option String) (c : Conditions) :
    IntelWorld :=
  S.step w (.rerun ioc.id userId c none)

theorem rawValue_rerunCall (h : rerunCall ioc userId = some call) : call.rawValue = ioc.value := by
  simp only [rerunCall, Option.bind_eq_bind, Option.bind_eq_some_iff] at h
  obtain ⟨confidence, -, severity, -, heq⟩ := h
  exact congrArg UpsertCall.rawValue (Option.some.inj heq).symm

/-- The row that is asked for is found by its identifier. -/
theorem requestedRerun_eq (hi : S.Identified w) (hioc : ioc ∈ w.db.iocs.rows)
    (userId : Option String) : requestedRerun w.db ioc.id userId = rerunCall ioc userId := by
  have hfind : w.db.iocs.rows.find? (fun r => r.id = ioc.id) = some ioc := by
    cases hfound : w.db.iocs.rows.find? fun r => r.id = ioc.id with
    | none =>
        have hnot := List.find?_eq_none.mp hfound ioc hioc
        simp at hnot
    | some r =>
        have hid : r.id = ioc.id := by simpa using List.find?_some hfound
        rw [hi.eq_of_id (List.mem_of_find?_eq_some hfound) hioc hid]
  rw [requestedRerun, hfind, Option.bind_some]

/-- It leaves the state as it is, or what an upsert that fails or goes
through leaves. -/
theorem rerun_cases (hi : S.Identified w) (hioc : ioc ∈ w.db.iocs.rows) (userId : Option String)
    (c : Conditions) :
    (rerunCall ioc userId = none ∧ S.rerun w ioc userId c = w) ∨
      ∃ call, rerunCall ioc userId = some call ∧
        ((∃ e w', (S.upsert call c).run w = (.error e, w') ∧
            (S.rerun w ioc userId c).db = w.db) ∨
          ∃ ioc', (S.upsert call c).run w = (.ok ioc', S.rerun w ioc userId c)) := by
  rw [rerun, step_rerun, requestedRerun_eq hi hioc]
  cases hcall : rerunCall ioc userId with
  | none => exact .inl ⟨rfl, rfl⟩
  | some call =>
      refine .inr ⟨call, rfl, ?_⟩
      dsimp only
      rcases hrun : (S.upsert call c).run w with ⟨e | ioc', w'⟩
      · exact .inl ⟨e, w', rfl, by rw [afterUpsert_error hrun, IntelWorld.rollback]⟩
      · exact .inr ⟨ioc', by rw [afterUpsert_ok hrun, settle]⟩

/-! ## Where it does not count -/

/-- A row that is brought up to date leaves the identifiers alone. -/
theorem Stored.ids (h : Stored S call c parsed score w (knownIoc w.db parsed) ioc w')
    (hknown : knownIoc w.db parsed ≠ none) :
    w'.db.iocs.rows.map (·.id) = w.db.iocs.rows.map (·.id) := by
  rcases h.rows with ⟨hnone, -⟩ | ⟨row, hrow, -, hid, -, hrows, -⟩
  · exact absurd hnone hknown
  · rw [hrows, List.map_map]
    refine List.map_congr_left fun r hr => ?_
    by_cases heq : r.key = row.key
    · simp [hid, List.inj_on_of_nodup_map w.db.iocs.nodupKeys hr hrow heq]
    · simp [heq]

/-- A re-enrichment that does not count leaves the row where it is, and
the next one does not count either. -/
theorem rerun_of_not_countsSighting (halerts : S.alerts = some s) (hi : S.Identified w)
    (hioc : ioc ∈ w.db.iocs.rows) (h : ¬ S.CountsSighting w.db ioc userId c) :
    ioc ∈ (S.rerun w ioc userId c).db.iocs.rows ∧
      (S.rerun w ioc userId c).db.iocs.rows.map (·.id) = w.db.iocs.rows.map (·.id) ∧
      ¬ S.CountsSighting (S.rerun w ioc userId c).db ioc userId c := by
  rcases rerun_cases hi hioc userId c with
    ⟨-, hsame⟩ | ⟨call, hcall, ⟨e, w', -, hsame⟩ | ⟨ioc', hrun⟩⟩
  · rw [hsame]
    exact ⟨hioc, rfl, h⟩
  · rw [hsame]
    exact ⟨hioc, rfl, h⟩
  · obtain ⟨parsed, hup⟩ := sighted_of_ok hrun
    obtain ⟨w₁, hstored, hiocs, -⟩ := hup.stored
    have hclass : Indicators.classifyIndicator S.interpreter.unicode ioc.value = .ok parsed := by
      rw [← rawValue_rerunCall hcall]
      exact hup.classified
    have hcomplete := completes_of_upsert_ok halerts hrun
    have hkey : ioc.key ≠ (parsed.type.value, parsed.value) := fun heq =>
      h ⟨call, parsed, hcall, hclass, hcomplete, .inl heq⟩
    have hknown : knownIoc w.db parsed ≠ none := fun hnone =>
      h ⟨call, parsed, hcall, hclass, hcomplete, .inr hnone⟩
    rcases hup.row_cases hi hioc with ⟨heq, -⟩ | ⟨-, -, hmem⟩
    · exact absurd (heq.symm.trans hup.key) hkey
    refine ⟨hmem, hiocs ▸ hstored.ids hknown, ?_⟩
    rintro ⟨call', parsed', hcall', hclass', -, hcount⟩
    obtain rfl : parsed = parsed' := Except.ok.inj (hclass.symm.trans hclass')
    have hstill : knownIoc (S.rerun w ioc userId c).db parsed = some ioc' := by
      rw [knownIoc, ← hup.key]
      exact hup.found
    rcases hcount with heq | hnone
    · exact hkey heq
    · exact absurd (hstill.symm.trans hnone) (by simp)

/-! ## Where it counts -/

/-- What counts as a sighting is one: the row has one more, or there is a
row more. -/
theorem not_notASighting (halerts : S.alerts = some s) (hi : S.Identified w)
    (hioc : ioc ∈ w.db.iocs.rows) (h : S.CountsSighting w.db ioc userId c) (w₂ : IntelWorld) :
    ¬ NotASighting ioc w (S.rerun w ioc userId c) w₂ := by
  obtain ⟨call, parsed, hcall, hclass, hcomplete, hcount⟩ := h
  obtain ⟨-, -, ioc₁, -, -, w₁, hok, -⟩ := upsert_completes halerts hcomplete
  rcases rerun_cases hi hioc userId c with
    ⟨hnone, -⟩ | ⟨call', hcall', ⟨e, w', herror, -⟩ | ⟨ioc', hrun⟩⟩
  · exact absurd (hcall.symm.trans hnone) (by simp)
  · obtain rfl := Option.some.inj (hcall.symm.trans hcall')
    rw [hok] at herror
    cases herror
  · obtain rfl := Option.some.inj (hcall.symm.trans hcall')
    obtain ⟨parsed', hup⟩ := sighted_of_ok hrun
    obtain rfl : parsed = parsed' := by
      refine Except.ok.inj (hclass.symm.trans ?_)
      rw [← rawValue_rerunCall hcall]
      exact hup.classified
    obtain ⟨w₂, hstored, hiocs, -⟩ := hup.stored
    intro hsame
    rcases hstored.rows with ⟨hnone, -, -, hrows, -⟩ | ⟨row, hrow, hknown, hid, hsightings, -⟩
    · have hlen := congrArg List.length hsame.rows
      rw [hiocs, hrows] at hlen
      simp at hlen
    · have hkey : ioc.key = (parsed.type.value, parsed.value) := by
        rcases hcount with hkey | hnone
        · exact hkey
        · exact absurd (hknown.symm.trans hnone) (by simp)
      have hrowkey : row.key = (parsed.type.value, parsed.value) := Table.key_of_get? hknown
      obtain rfl : row = ioc :=
        List.inj_on_of_nodup_map w.db.iocs.nodupKeys hrow hioc (hrowkey.trans hkey.symm)
      obtain ⟨ioc₁, hmem, hrecord⟩ := hsame.kept
      rw [hiocs] at hmem
      rcases (hi.stored hstored).2 ioc₁ hmem with rfl | ⟨-, hne⟩
      · rw [hrecord.sightings] at hsightings
        omega
      · exact hne (hrecord.id.trans hid.symm)

/-- **When re-running the enrichment is not a sighting.** In every state that
is reached, asking for a re-enrichment of a stored indicator, once or twice,
leaves its record and the table alone exactly if it fails, or if the stored
value is read as another indicator that is stored. -/
theorem rerun_isNoSighting_iff (env : IntelEnv) (alerts : AlertService)
    (rules : Table AlertRule AlertRule.id) (requests : List Request) {ioc : Ioc} {w : IntelWorld}
    (hw : w = Runs.run (getIocService env alerts).step { db := .withRules rules } requests)
    (hioc : ioc ∈ w.db.iocs.rows) (userId : Option String) (c : Conditions) :
    NotASighting ioc w ((getIocService env alerts).rerun w ioc userId c)
        ((getIocService env alerts).rerun ((getIocService env alerts).rerun w ioc userId c) ioc
          userId c) ↔
      ¬ (getIocService env alerts).CountsSighting w.db ioc userId c := by
  have hi : (getIocService env alerts).Identified w := hw ▸ identified_run _ rules requests
  constructor
  · exact fun hsame hcounts => not_notASighting rfl hi hioc hcounts _ hsame
  · intro hnot
    obtain ⟨hkept, hids, hnot'⟩ := rerun_of_not_countsSighting rfl hi hioc hnot
    have hi' : (getIocService env alerts).Identified
        ((getIocService env alerts).rerun w ioc userId c) :=
      (invariant_identified _).step hi _
    obtain ⟨hkept', -, -⟩ := rerun_of_not_countsSighting rfl hi' hkept hnot'
    exact ⟨⟨ioc, hkept, .refl ioc⟩, hids, ioc, hkept, ioc, hkept', rfl, rfl, rfl, rfl⟩

/-- One indicator, entered by hand. -/
def sightedOnce : List Request :=
  [.upsert { rawValue := "evil.example".toList, doEnrich := false } { now := 0 } none]

def sightedWorld : IntelWorld :=
  Runs.run (getIocService .sample ⟨false⟩).step { db := .withRules .empty } sightedOnce

/-- Its re-enrichment, where the enrichers do not answer. -/
theorem rerun_unanswered : ∃ ioc ∈ sightedWorld.db.iocs.rows,
    (NotASighting ioc sightedWorld
        ((getIocService .sample ⟨false⟩).rerun sightedWorld ioc none
          { now := 1, fault := some ⟨.enrich, .integrity⟩ })
        ((getIocService .sample ⟨false⟩).rerun ((getIocService .sample ⟨false⟩).rerun sightedWorld
          ioc none { now := 1, fault := some ⟨.enrich, .integrity⟩ }) ioc none
          { now := 1, fault := some ⟨.enrich, .integrity⟩ }) ↔
      ¬ (getIocService .sample ⟨false⟩).CountsSighting sightedWorld.db ioc none
        { now := 1, fault := some ⟨.enrich, .integrity⟩ }) := by
  obtain ⟨ioc, hioc⟩ := List.exists_mem_of_ne_nil sightedWorld.db.iocs.rows
    (List.ne_nil_of_length_pos (by decide +kernel))
  exact ⟨ioc, hioc, rerun_isNoSighting_iff .sample ⟨false⟩ .empty sightedOnce rfl hioc none _⟩

/-- With enrichers that answer, the row has been sighted twice. -/
theorem rerun_counted :
    ¬ ∀ (env : IntelEnv) (alerts : AlertService) (rules : Table AlertRule AlertRule.id)
        (requests : List Request) (ioc : Ioc) (w : IntelWorld),
      w = Runs.run (getIocService env alerts).step { db := .withRules rules } requests →
      ioc ∈ w.db.iocs.rows → ∀ (userId : Option String) (c : Conditions),
        NotASighting ioc w ((getIocService env alerts).rerun w ioc userId c)
          ((getIocService env alerts).rerun ((getIocService env alerts).rerun w ioc userId c) ioc
            userId c) := by
  intro h
  have hbefore : sightedWorld.db.iocs.rows.map (fun r => (r.id, r.sightings.val)) = [("", 1)] := by
    decide +kernel
  have hafter : ((getIocService .sample ⟨false⟩).step sightedWorld
      (.rerun "" none { now := 1 } none)).db.iocs.rows.map (·.sightings.val) = [2] := by
    decide +kernel
  obtain ⟨ioc, hioc⟩ := List.exists_mem_of_ne_nil sightedWorld.db.iocs.rows fun hnil => by
    rw [hnil] at hbefore
    cases hbefore
  have hsame := h .sample ⟨false⟩ .empty sightedOnce ioc sightedWorld rfl hioc none { now := 1 }
  have hpair := List.mem_map_of_mem (f := fun r : Ioc => (r.id, r.sightings.val)) hioc
  rw [hbefore, List.mem_singleton] at hpair
  obtain ⟨hid, hone⟩ := Prod.mk.inj hpair
  obtain ⟨ioc₁, hmem, hrecord⟩ := hsame.kept
  rw [rerun, hid] at hmem
  have htwo := List.mem_map_of_mem (f := fun r : Ioc => r.sightings.val) hmem
  rw [hafter, List.mem_singleton, hrecord.sightings, hone] at htwo
  cases htwo

end IOCService

end ThreatIntel
