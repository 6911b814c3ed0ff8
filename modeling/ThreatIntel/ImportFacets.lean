import ThreatIntel.Resighting

/-!
# Imports without enrichment

The engine record of an indicator is replaced as a whole by every upsert.
One that does not ask the enrichers has nothing to put in it but the score,
so that the facets that were there are gone: they are kept exactly as long
as no such upsert of the indicator goes through (`facets_kept_iff`).
-/

namespace ThreatIntel

/-- The facets of the one payload are in the other, as they are. -/
structure Enrichment.IsIn (known kept : Enrichment) : Prop where
  geoip : ∀ geoip, known.geoip = some geoip → kept.geoip = some geoip
  dns : ∀ dns, known.dns = some dns → kept.dns = some dns
  reputation : ∀ rep, known.reputation = some rep → kept.reputation = some rep

theorem Enrichment.IsIn.refl (known : Enrichment) : known.IsIn known :=
  ⟨fun _ => id, fun _ => id, fun _ => id⟩

/-- Nothing is in an empty payload but an empty one. -/
theorem Enrichment.isIn_empty_iff {known : Enrichment} : known.IsIn {} ↔ known = {} := by
  constructor
  · intro h
    obtain ⟨geoip, dns, rep⟩ := known
    have hgeoip : geoip = none := Option.eq_none_iff_forall_not_mem.mpr fun a ha =>
      absurd (h.geoip a ha) (by simp)
    have hdns : dns = none := Option.eq_none_iff_forall_not_mem.mpr fun a ha =>
      absurd (h.dns a ha) (by simp)
    have hrep : rep = none := Option.eq_none_iff_forall_not_mem.mpr fun a ha =>
      absurd (h.reputation a ha) (by simp)
    rw [hgeoip, hdns, hrep]
  · rintro rfl
    exact .refl _

namespace IOCService

variable {S : IOCService} {s : AlertService} {w w' : IntelWorld} {ioc : Ioc} {known : Enrichment}

/-! ## Later upserts -/

/-- The value is read as the indicator with this key. -/
def Reads (S : IOCService) (call : UpsertCall) (key : String × PyStr) : Prop :=
  ∃ parsed, Indicators.classifyIndicator S.interpreter.unicode call.rawValue = .ok parsed ∧
    (parsed.type.value, parsed.value) = key

/-- A later upsert, with the error its commit ends in, if it does. The
enrichers are not asked about the indicator with this key. -/
structure LaterUpsert (S : IOCService) (key : String × PyStr) where
  call : UpsertCall
  c : Conditions
  commit : Option Exn
  plain : S.Reads call key → call.doEnrich = false

namespace LaterUpsert

variable {key : String × PyStr}

def step (w : IntelWorld) (e : LaterUpsert S key) : IntelWorld :=
  S.step w (.upsert e.call e.c e.commit)

/-- It is not of the indicator, or it does not go through. -/
def Spares (w : IntelWorld) (e : LaterUpsert S key) : Prop :=
  ¬ (S.Reads e.call key ∧ e.commit = none ∧ S.Completes w.db e.call e.c)

end LaterUpsert

/-- The engine record of an indicator holds these facets. -/
def HoldsFacets (known : Enrichment) (iocId : String) (w : IntelWorld) : Prop :=
  ∃ data, w.db.enrichments.get? (iocId, "engine") =
    some { iocId, provider := "engine", data } ∧ known.IsIn data.enrichment

/-- The indicator is stored, and its record holds what was known or
nothing. -/
structure Recalled (S : IOCService) (ioc : Ioc) (known : Enrichment) (w : IntelWorld) : Prop where
  identified : S.Identified w
  row : ∃ r ∈ w.db.iocs.rows, r.id = ioc.id ∧ r.key = ioc.key
  record : ∃ data, w.db.enrichments.get? (ioc.id, "engine") =
    some { iocId := ioc.id, provider := "engine", data } ∧
      (known.IsIn data.enrichment ∨ data.enrichment = {})

theorem Recalled.congr (h : Recalled S ioc known w) (hdb : w'.db = w.db)
    (hissued : w.issued ≤ w'.issued) : Recalled S ioc known w' where
  identified := h.identified.congr (by rw [hdb]) hissued
  row := by
    rw [hdb]
    exact h.row
  record := by
    rw [hdb]
    exact h.record

/-! ## One upsert -/

/-- An upsert of another indicator. -/
theorem recalled_of_ne {call : UpsertCall} {c : Conditions} {parsed : ParsedIndicator} {ioc' : Ioc}
    (h : Recalled S ioc known w) (hup : Sighted S call c w parsed ioc' w') (hi' : S.Identified w')
    (hne : ioc'.key ≠ ioc.key) :
    Recalled S ioc known w' ∧ (HoldsFacets known ioc.id w' ↔ HoldsFacets known ioc.id w) := by
  obtain ⟨row, hrow, hid, hkey⟩ := h.row
  rcases hup.row_cases h.identified hrow with ⟨heq, -⟩ | ⟨-, hidne, hmem⟩
  · exact absurd (heq.trans hkey) hne
  · have hget := hup.others (ioc.id, "engine") fun heq =>
      hidne ((Prod.mk.inj heq).1.symm.trans hid.symm)
    refine ⟨⟨hi', ⟨row, hmem, hid, hkey⟩, ?_⟩, ?_⟩
    · rw [hget]
      exact h.record
    · rw [HoldsFacets, HoldsFacets, hget]

/-- An upsert of the indicator, of which the enrichers are not asked. -/
theorem recalled_of_eq {call : UpsertCall} {c : Conditions} {parsed : ParsedIndicator} {ioc' : Ioc}
    (h : Recalled S ioc known w) (hup : Sighted S call c w parsed ioc' w') (hi' : S.Identified w')
    (heq : ioc'.key = ioc.key) (hplain : call.doEnrich = false) (hknown : known ≠ {}) :
    Recalled S ioc known w' ∧ ¬ HoldsFacets known ioc.id w' := by
  obtain ⟨row, hrow, hid, hkey⟩ := h.row
  have hsame : ioc'.id = ioc.id := by
    rcases hup.row_cases h.identified hrow with ⟨-, hsame⟩ | ⟨hne, -⟩
    · exact hsame.trans hid
    · exact absurd (heq.trans hkey.symm) hne
  have hempty : enrichmentOf call c = {} := by
    rw [enrichmentOf, if_neg (by simp [hplain])]
  have hrecord := hup.record
  rw [hsame, hempty] at hrecord
  refine ⟨⟨hi', ⟨ioc', Table.mem_of_get? hup.found, hsame, heq⟩, _, hrecord, .inr rfl⟩, ?_⟩
  rintro ⟨data, hdata, hin⟩
  rw [hrecord] at hdata
  cases hdata
  exact hknown (Enrichment.isIn_empty_iff.mp hin)

/-- What a later upsert does to the record. -/
theorem recalled_step (halerts : S.alerts = some s) (hknown : known ≠ {})
    (h : Recalled S ioc known w) (e : LaterUpsert S ioc.key) :
    Recalled S ioc known (LaterUpsert.step w e) ∧
      (HoldsFacets known ioc.id (LaterUpsert.step w e) ↔
        HoldsFacets known ioc.id w ∧ LaterUpsert.Spares w e) := by
  obtain ⟨call, c, commit, hplain⟩ := e
  have hissued := issued_le_upsert (S := S) call c w
  rw [LaterUpsert.step, LaterUpsert.Spares, step_upsert]
  -- a failure, of the upsert or of its commit, leaves the database as it was
  have hfail : ∀ w', w'.db = w.db → w.issued ≤ w'.issued →
      ¬ (S.Reads call ioc.key ∧ commit = none ∧ S.Completes w.db call c) →
      Recalled S ioc known w' ∧ (HoldsFacets known ioc.id w' ↔ HoldsFacets known ioc.id w ∧
        ¬ (S.Reads call ioc.key ∧ commit = none ∧ S.Completes w.db call c)) := by
    intro w' hdb hle hnot
    refine ⟨h.congr hdb hle, ?_⟩
    rw [HoldsFacets, HoldsFacets, hdb, and_iff_left hnot]
  rcases hrun : (S.upsert call c).run w with ⟨e | ioc', w'⟩
  · rw [hrun] at hissued
    rw [afterUpsert_error hrun]
    refine hfail _ rfl hissued ?_
    rintro ⟨-, -, hcomplete⟩
    obtain ⟨-, -, ioc₁, -, -, w₁, hok, -⟩ := upsert_completes halerts hcomplete
    rw [hrun] at hok
    cases hok
  · rw [hrun] at hissued
    rw [afterUpsert_ok hrun]
    cases commit with
    | some e => exact hfail _ rfl hissued fun hnot => absurd hnot.2.1 (by simp)
    | none =>
        obtain ⟨parsed, hup⟩ := sighted_of_ok hrun
        have hcomplete := completes_of_upsert_ok halerts hrun
        have hi' := (invariant_identified S).upserted h.identified hrun
        rw [settle]
        by_cases heq : ioc'.key = ioc.key
        · have hreads : S.Reads call ioc.key := ⟨parsed, hup.classified, hup.key.symm.trans heq⟩
          obtain ⟨hrecalled, hlost⟩ :=
            recalled_of_eq h hup hi' heq (hplain hreads) hknown
          exact ⟨hrecalled, by simp [hlost, hreads, hcomplete]⟩
        · obtain ⟨hrecalled, hsame⟩ := recalled_of_ne h hup hi' heq
          have hreads : ¬ S.Reads call ioc.key := by
            rintro ⟨parsed', hclass, hkey⟩
            obtain rfl : parsed = parsed' := Except.ok.inj (hup.classified.symm.trans hclass)
            exact heq (hup.key.trans hkey)
          exact ⟨hrecalled, by rw [hsame]; simp [hreads]⟩

/-! ## Any number of them -/

/-- **When imports keep what is known.** In every state that is reached, and
for every sequence of later upserts of which those of the indicator do not
ask the enrichers: the facets in its engine record are there in the end if
and only if none of those upserts has gone through. -/
theorem facets_kept_iff (env : IntelEnv) (alerts : AlertService)
    (rules : Table AlertRule AlertRule.id) (requests : List Request) {w : IntelWorld}
    (hw : w = Runs.run (getIocService env alerts).step { db := .withRules rules } requests)
    {ioc : Ioc} (hioc : ioc ∈ w.db.iocs.rows) {data : EnginePayload}
    (hdata : w.db.enrichments.get? (ioc.id, "engine") =
      some { iocId := ioc.id, provider := "engine", data })
    (hfacets : data.enrichment ≠ {})
    (later : List (LaterUpsert (getIocService env alerts) ioc.key)) :
    HoldsFacets data.enrichment ioc.id (Runs.run LaterUpsert.step w later) ↔
      Runs.Meets LaterUpsert.step LaterUpsert.Spares w later := by
  have hstart : Recalled (getIocService env alerts) ioc data.enrichment w :=
    ⟨hw ▸ identified_run _ rules requests, ⟨ioc, hioc, rfl, rfl⟩, data, hdata, .inl (.refl _)⟩
  have hholds : HoldsFacets data.enrichment ioc.id w := ⟨data, hdata, .refl _⟩
  refine Runs.run_iff_meets (I := Recalled (getIocService env alerts) ioc data.enrichment)
    (Q := HoldsFacets data.enrichment ioc.id) (fun w e h => ?_) (fun w e h hq => ?_)
    (fun w e h hq => ?_) hstart hholds
  · exact (recalled_step rfl hfacets h e).1
  · rw [(recalled_step rfl hfacets h e).2, and_iff_right hq]
  · rw [(recalled_step rfl hfacets h e).2]
    exact fun hboth => hq hboth.1

/-- What the enrichers say of an address. -/
def addressFacets : Enrichment :=
  { geoip := some { country := "RU", asn := 64500, org := "Example", source := "mock" } }

/-- One address, enriched. -/
def enrichedOnce : List Request :=
  [.upsert { rawValue := "8.8.8.8".toList } { enrichment := addressFacets, now := 0 } none]

def enrichedWorld : IntelWorld :=
  Runs.run (getIocService .sample ⟨false⟩).step { db := .withRules .empty } enrichedOnce

theorem exists_enriched : ∃ ioc ∈ enrichedWorld.db.iocs.rows, ioc.id = "" ∧
    ∃ data : EnginePayload, enrichedWorld.db.enrichments.get? (ioc.id, "engine") =
      some { iocId := ioc.id, provider := "engine", data } ∧ data.enrichment = addressFacets := by
  have hrows : enrichedWorld.db.iocs.rows.map (·.id) = [""] := by decide +kernel
  obtain ⟨ioc, hioc⟩ := List.exists_mem_of_ne_nil enrichedWorld.db.iocs.rows fun hnil => by
    rw [hnil] at hrows
    cases hrows
  have hid : ioc.id = "" := by
    have hmem := List.mem_map_of_mem (f := fun r : Ioc => r.id) hioc
    rwa [hrows, List.mem_singleton] at hmem
  refine ⟨ioc, hioc, hid, ⟨addressFacets, IntelEnv.sample.score {} [] 0 false 0 0⟩, ?_, rfl⟩
  rw [hid]
  decide +kernel

/-- The upsert of a value, as `bulk_import` makes it by default. -/
def importCall (value : PyStr) : UpsertCall :=
  { rawValue := value, source := "import".toList, confidence := .low, doEnrich := false }

def importOf (key : String × PyStr) (value : PyStr) :
    LaterUpsert (getIocService .sample ⟨false⟩) key where
  call := importCall value
  c := { now := 1 }
  commit := none
  plain _ := rfl

/-- The import of another address. -/
theorem facets_kept_sample : ∃ ioc ∈ enrichedWorld.db.iocs.rows,
    (HoldsFacets addressFacets ioc.id
        (Runs.run LaterUpsert.step enrichedWorld [importOf ioc.key "9.9.9.9".toList]) ↔
      Runs.Meets LaterUpsert.step LaterUpsert.Spares enrichedWorld
        [importOf ioc.key "9.9.9.9".toList]) := by
  obtain ⟨ioc, hioc, -, data, hdata, heq⟩ := exists_enriched
  refine ⟨ioc, hioc, ?_⟩
  rw [← heq]
  exact facets_kept_iff .sample ⟨false⟩ .empty enrichedOnce rfl hioc hdata (by rw [heq]; decide) _

/-- The import of the address itself: its facets are gone. -/
theorem facets_lost :
    ¬ ∀ (env : IntelEnv) (alerts : AlertService) (rules : Table AlertRule AlertRule.id)
        (requests : List Request) (w : IntelWorld),
      w = Runs.run (getIocService env alerts).step { db := .withRules rules } requests →
      ∀ ioc ∈ w.db.iocs.rows, ∀ data : EnginePayload,
        w.db.enrichments.get? (ioc.id, "engine") =
          some { iocId := ioc.id, provider := "engine", data } → data.enrichment ≠ {} →
        ∀ later : List (LaterUpsert (getIocService env alerts) ioc.key),
          HoldsFacets data.enrichment ioc.id (Runs.run LaterUpsert.step w later) := by
  intro h
  obtain ⟨ioc, hioc, hid, data, hdata, heq⟩ := exists_enriched
  obtain ⟨data', hdata', hin⟩ := h .sample ⟨false⟩ .empty enrichedOnce enrichedWorld rfl ioc hioc data
    hdata (by rw [heq]; decide) [importOf ioc.key "8.8.8.8".toList]
  have hafter : ((getIocService .sample ⟨false⟩).step enrichedWorld
      (.upsert (importCall "8.8.8.8".toList) { now := 1 } none)).db.enrichments.get?
        ("", "engine") =
      some ⟨"", "engine", {}, IntelEnv.sample.score {} [] 0 false 0 0⟩ := by decide +kernel
  simp only [Runs.run_cons, Runs.run_nil, LaterUpsert.step, importOf] at hdata'
  rw [hid, hafter] at hdata'
  cases hdata'
  rw [heq, Enrichment.isIn_empty_iff] at hin
  exact absurd hin (by decide)

end IOCService

end ThreatIntel
