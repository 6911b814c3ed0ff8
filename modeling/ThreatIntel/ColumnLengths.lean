import ThreatIntel.Defang
import ThreatIntel.IndicatorFormats
import ThreatIntel.IngestBatch

/-!
# What the columns hold

The lengths that the request models of `app/schemas` allow, against the
lengths that `app/models` declares. A value becomes longer when it is
defanged, and an alert puts the name of a rule in front of it; no place in
the code relates the two sides. `fits_schema_iff` says which upserts write
only what a database that enforces its column lengths would take.
-/

namespace ThreatIntel

/-! ## The two sides -/

/-- `IOCCreate`, of whose bounds only that on the value matters here. -/
structure IOCCreate where
  value : PyStr
  source : PyStr := "manual".toList
  confidence : Confidence := .medium
  severity : Severity := .medium
  tags : List PyStr := []
  references : List PyStr := []
  description : Option PyStr := none
  enrich : Bool := true
  valueLength : 1 ≤ value.length ∧ value.length ≤ 2048

/-- The upsert that `create_ioc` asks for. -/
def IOCCreate.call (payload : IOCCreate) (userId : String) : UpsertCall where
  rawValue := payload.value
  source := payload.source
  confidence := payload.confidence
  severity := payload.severity
  tags := payload.tags
  references := payload.references
  description := payload.description
  doEnrich := payload.enrich
  userId := some userId

/-- `AlertRuleCreate` takes the name; `word` is the `\w` of its pattern. -/
structure AlertRuleCreate.TakesName (word : Char → Bool) (name : PyStr) : Prop where
  length : 1 ≤ name.length ∧ name.length ≤ 120
  pattern : ∀ c ∈ name, word c = true ∨ c ∈ " .-".toList

/-- `String(2048)` for the value, `String(2100)` for the way it is shown. -/
def Ioc.Fits (ioc : Ioc) : Prop := ioc.value.length ≤ 2048 ∧ ioc.defangedValue.length ≤ 2100

/-- `String(2100)` for both ends. -/
def CorrelationEdge.Fits (e : CorrelationEdge) : Prop :=
  e.sourceRef.length ≤ 2100 ∧ e.targetRef.length ≤ 2100

/-- `String(256)` for the title. -/
def Alert.Fits (alert : Alert) : Prop := alert.title.length ≤ 256

/-- Every text is within the length its column declares. -/
structure IntelDb.FitsSchema (db : IntelDb) : Prop where
  iocs : ∀ ioc ∈ db.iocs.rows, ioc.Fits
  edges : ∀ e ∈ db.edges.rows, e.Fits
  alerts : ∀ alert ∈ db.alerts, alert.Fits

/-- Each row shows its own value. -/
def IntelDb.Shown (db : IntelDb) : Prop :=
  ∀ ioc ∈ db.iocs.rows, ioc.defangedValue = defang ioc.value

/-! ## The length of a defanged value -/

namespace Indicators

open Rewrite (startsWith)

/-- How often `://` begins in the text. -/
def schemeSeparators (v : PyStr) : Nat :=
  v.tails.countP fun t => startsWith PyStr.sameChar "://".toList t

/-- A dot and a `://` become two characters longer, an `@` three. -/
def defangedLength (v : PyStr) : Nat :=
  v.length + 2 * v.count '.' + 2 * schemeSeparators v + 3 * v.count '@'

theorem schemeSeparators_cons (c : Char) (s : PyStr) :
    schemeSeparators (c :: s) =
      schemeSeparators s + if startsWith PyStr.sameChar "://".toList (c :: s) then 1 else 0 := by
  rw [schemeSeparators, List.tails_cons, List.countP_cons, schemeSeparators]

theorem defangedLength_cons (c : Char) (s : PyStr) :
    defangedLength (c :: s) =
      defangedLength s + 1 + (if c = '.' then 2 else 0) +
        (if startsWith PyStr.sameChar "://".toList (c :: s) then 2 else 0) +
        if c = '@' then 3 else 0 := by
  simp only [defangedLength, schemeSeparators_cons, List.length_cons, List.count_cons, beq_iff_eq]
  split_ifs <;> omega

/-- A character that is none of the texts that grow. -/
theorem defangedLength_cons_of_plain {c : Char} {s : PyStr} (hdot : c ≠ '.') (hat : c ≠ '@')
    (hsep : startsWith PyStr.sameChar "://".toList (c :: s) = false) :
    defangedLength (c :: s) = 1 + defangedLength s := by
  rw [defangedLength_cons, if_neg hdot, if_neg (Bool.eq_false_iff.mp hsep), if_neg hat]
  omega

theorem not_startsWith_separator {c : Char} (hc : c ≠ ':') (s : PyStr) :
    startsWith PyStr.sameChar "://".toList (c :: s) = false := by
  simp [startsWith, PyStr.sameChar, Ne.symm hc]

theorem defangedLength_append {w : PyStr} (hw : ∀ c ∈ w, c ∉ [':', '.', '@']) (s : PyStr) :
    defangedLength (w ++ s) = w.length + defangedLength s := by
  induction w with
  | nil => simp
  | cons c w ih =>
      have hc := hw c List.mem_cons_self
      simp only [List.mem_cons, List.not_mem_nil, or_false, not_or] at hc
      obtain ⟨hcolon, hdot, hat⟩ := hc
      rw [List.cons_append, defangedLength_cons_of_plain hdot hat (not_startsWith_separator hcolon _),
        ih fun d hd => hw d (List.mem_cons_of_mem _ hd), List.length_cons]
      omega

/-- Each part is counted at its defanged length. -/
theorem defangedLength_part {a : Part} {m : List Part} (ha : a.Maximal m) :
    defangedLength (a.text ++ m.flatMap Part.text) =
      a.defanged.length + defangedLength (m.flatMap Part.text) := by
  cases a with
  | https c =>
      refine defangedLength_append (w := "http".toList ++ [c]) ?_ _
      rcases eq_of_sameFold_s ha with rfl | rfl | rfl <;> simp
  | http => exact defangedLength_append (w := "http".toList) (by simp) _
  | dot =>
      simp only [Part.text, Part.defanged, String.reduceToList, List.cons_append, List.nil_append]
      rw [defangedLength_cons, if_pos rfl, not_startsWith_separator (by decide)]
      simp
      omega
  | sep =>
      have hslash : ∀ t : PyStr, defangedLength ('/' :: t) = 1 + defangedLength t := fun t =>
        defangedLength_cons_of_plain (by decide) (by decide) (not_startsWith_separator (by decide) t)
      simp only [Part.text, Part.defanged, String.reduceToList, List.cons_append, List.nil_append]
      rw [defangedLength_cons, hslash, hslash]
      simp [startsWith, PyStr.sameChar]
      omega
  | atSign =>
      simp only [Part.text, Part.defanged, String.reduceToList, List.cons_append, List.nil_append]
      rw [defangedLength_cons, not_startsWith_separator (by decide), if_pos rfl]
      simp
      omega
  | char c =>
      have hdot := ha ⟨PyStr.sameChar, ".".toList, "[.]".toList⟩ (by simp [defangPasses])
      have hat := ha ⟨PyStr.sameChar, "@".toList, "[at]".toList⟩ (by simp [defangPasses])
      have hsep := ha ⟨PyStr.sameChar, "://".toList, "[://]".toList⟩ (by simp [defangPasses])
      simp only [startsWith, PyStr.sameChar, String.reduceToList, Bool.and_true,
        decide_eq_false_iff_not] at hdot hat
      exact defangedLength_cons_of_plain (Ne.symm hdot) (Ne.symm hat) hsep

theorem length_defang (v : PyStr) : (defang v).length = defangedLength v := by
  obtain ⟨l, rfl, hl⟩ := exists_parts v
  rw [defang_parts hl]
  induction l with
  | nil => rfl
  | cons a m ih =>
      have hm : Parsed m := fun b n h => hl b n (h.trans (List.suffix_cons _ _))
      rw [List.flatMap_cons, List.flatMap_cons, List.length_append, ih hm,
        defangedLength_part (hl a m (List.suffix_refl _))]

/-! ## The length of a classified value -/

theorem length_lower (s : PyStr) : s.lower.length = s.length + s.count 'İ' := by
  induction s with
  | nil => rfl
  | cons c s ih =>
      rw [PyStr.lower] at ih ⊢
      rw [List.flatMap_cons, List.length_append, ih, List.length_cons, List.count_cons]
      by_cases hc : c = 'İ'
      · simp [hc]
        omega
      · simp [hc]
        omega

theorem length_upper (s : PyStr) : s.upper.length = s.length := List.length_map _

theorem length_strip_le (s : PyStr) : s.strip.length ≤ s.length := (PyStr.strip_isInfix s).length_le

theorem length_refang_le (raw : PyStr) : (refang raw).length ≤ raw.length :=
  ((length_strip_le _).trans (length_foldl_rewrite_le (by decide) _)).trans (length_strip_le raw)

/-- The lookahead bounds a domain, the newline that `$` passes over apart. -/
theorem length_of_domainRe {text : PyStr} (h : domainRe.isMatch text = true) :
    text.length ≤ 254 := by
  obtain ⟨c, hc⟩ := Regex.isMatch_iff_exists.mp h
  obtain ⟨c₀, hstart, hc⟩ := List.mem_flatMap.mp hc
  obtain ⟨c₁, hlook, -⟩ := List.mem_flatMap.mp hc
  have hstart : c₀ = ⟨[], text⟩ := by simpa [bol, Regex.ends] using hstart
  obtain ⟨c₂, hc₂⟩ := Regex.exists_of_mem_ends_look hlook
  obtain ⟨w, hw, ⟨htext, -⟩, hend⟩ :=
    ((Regex.finds_run 1 (some 253) (fun c : Char => c ≠ '\n')).then findsTo_eol _ _).mp hc₂
  rw [mul_one] at hw
  have hlen : w.length ≤ 253 := hw.2.1 253 rfl
  have hrest : c₂.after.length ≤ 1 := by
    rcases hend with hend | hend <;> simp [hend]
  rw [hstart] at htext
  rw [show text = w ++ c₂.after from htext, List.length_append]
  omega

theorem length_bareHost_le (value : PyStr) : (bareHost value).length ≤ value.length := by
  rcases bareHost_cases value with hself | ⟨-, hcut⟩
  · rw [hself]
  · rw [hcut]
    exact (List.takeWhile_prefix _).length_le

/-- Only an email address can grow beyond the bound on what is submitted. -/
theorem length_value_le {U : Unicode} {value : PyStr} {p : ParsedIndicator}
    (h : Recognised U value p) (hstrip : value.strip = value) (hlen : value.length ≤ 2048)
    (htype : p.type ≠ .email) : p.value.length ≤ 2048 := by
  cases h with
  | hash hhash =>
      obtain ⟨n, hn⟩ := isMatch_of_hashType hhash
      have hdotted : 'İ' ∉ value :=
        notMem_of_isMatch (atEnd_hashRe n) hstrip hn (reads_hashRe n (by decide))
      rw [length_lower, List.count_eq_zero.mpr hdotted]
      exact hlen
  | cve hhash h => exact (length_upper value).le.trans hlen
  | technique hhash hcve h => exact (length_upper value).le.trans hlen
  | url hid hsep hsplit h => exact hlen
  | email hid hurl h => exact absurd rfl htype
  | ip hid hurl hemail h => exact (length_bareHost_le value).trans hlen
  | domain hid hurl hemail hip h =>
      have hbound := length_of_domainRe h
      have hcount := List.count_le_length (a := 'İ') (l := value)
      rw [length_lower]
      omega

end Indicators

/-! ## References -/

/-- A reference to a host is within the columns of an edge. -/
def FitsRef (host : PyStr) : Prop := (refTypeForHost host).value.length + 1 + host.length ≤ 2100

instance (host : PyStr) : Decidable (FitsRef host) := inferInstanceAs (Decidable (_ ≤ _))

theorem length_makeRef (iocType : String) (value : PyStr) :
    (makeRef iocType value).length = iocType.length + 1 + value.length := by
  rw [makeRef, List.length_append, List.length_cons, String.length_toList]
  omega

/-- No name of a type is longer than that of a technique. -/
theorem IOCType.length_value_le (t : IOCType) : t.value.length ≤ 14 := by
  cases t <;> decide

theorem fitsRef_nil : FitsRef [] := by decide

theorem hostEdge_fits_iff {selfRef : PyStr} (hself : selfRef.length ≤ 2100) (source : PyStr)
    (host : Option PyStr) :
    (∀ e ∈ hostEdge selfRef source host, e.Fits) ↔ ∀ h, host = some h → FitsRef h := by
  cases host with
  | none => simp [hostEdge]
  | some host =>
      by_cases hnil : host = []
      · simp [hostEdge, hnil, fitsRef_nil]
      · simp [hostEdge, hnil, CorrelationEdge.Fits, hself, length_makeRef, FitsRef]

/-- With a value that fits, it is only the other ends of the edges that may
not. -/
theorem relationships_fit_iff {U : Unicode} {lower : PyStr → PyStr} {parsed : ParsedIndicator}
    {enrichment : Enrichment} {source : PyStr} {es : List CorrelationEdge}
    (hvalue : parsed.value.length ≤ 2048)
    (hes : relationships U lower parsed enrichment source = .ok es) :
    (∀ e ∈ es, e.Fits) ↔
      (parsed.type = .url → ∀ host,
        extractHost U lower parsed.value .url = .ok (some host) → FitsRef host) ∧
      ∀ ip ∈ enrichment.resolved, FitsRef ip := by
  have hself : (makeRef parsed.type.value parsed.value).length ≤ 2100 := by
    have htype := parsed.type.length_value_le
    rw [length_makeRef]
    omega
  have hips : (∀ ip ∈ enrichment.resolved, FitsRef ip) ↔
      ∀ ip ∈ enrichment.resolved, CorrelationEdge.Fits
        { sourceRef := makeRef parsed.type.value parsed.value
          targetRef := makeRef (refTypeForHost ip).value ip
          relationship := "resolves-to"
          confidence := 8 / 10
          source := "dns".toList } := by
    rw [length_makeRef] at hself
    simp [CorrelationEdge.Fits, hself, length_makeRef, FitsRef]
  rw [relationships] at hes
  by_cases htype : parsed.type = .url
  · rw [if_pos htype] at hes
    cases hhost : extractHost U lower parsed.value .url with
    | error e => simp [hhost, bind, Except.bind] at hes
    | ok host =>
        rw [hhost] at hes
        cases hes
        rw [List.forall_mem_append, hostEdge_fits_iff hself, List.forall_mem_map, hips]
        simp [htype]
  · rw [if_neg htype] at hes
    cases hes
    rw [List.forall_mem_append, hostEdge_fits_iff hself, List.forall_mem_map, hips]
    simp [htype]

/-! ## Titles -/

namespace AlertService

variable {s : AlertService} {env : IntelEnv} {c : Conditions} {ioc : Ioc} {w w' : IntelWorld}

/-- The titles of the alerts that the rules raise. -/
theorem titles_evaluateRules {n : Nat} {rules : List AlertRule} {created : List Alert}
    (h : (evaluateRules s env c ioc n rules).run w = (.ok created, w')) :
    w'.db.alerts.map (·.title) = w.db.alerts.map (·.title) ++
      (firing rules ioc.threatScore.val).map fun rule =>
        rule.name ++ ": ".toList ++ ioc.defangedValue := by
  induction rules generalizing n w created with
  | nil =>
      cases h
      simp [firing]
  | cons rule rules ih =>
      cases hmatch : ruleMatches rule ioc.threatScore.val with
      | false =>
          rw [evaluateRules_skip rules hmatch] at h
          rw [firing_cons_skip hmatch]
          exact ih h
      | true =>
          rw [evaluateRules, if_neg (by simp [hmatch])] at h
          simp only [uuid4, Routine.run_bind_modifyGet] at h
          obtain ⟨u₁, w₁, hraise, h⟩ := Routine.run_bind_eq_ok.mp h
          obtain ⟨-, rfl⟩ := Conditions.run_pass_eq_ok.mp hraise
          simp only [add, Routine.run_bind_update] at h
          obtain ⟨u₂, w₂, hdeliver, h⟩ := Routine.run_bind_eq_ok.mp h
          obtain ⟨-, rfl⟩ := Conditions.run_pass_eq_ok.mp hdeliver
          simp only [setDelivered, publish, Routine.run_bind_update] at h
          obtain ⟨rest, w₃, hrest, h⟩ := Routine.run_bind_eq_ok.mp h
          cases h
          have htitle : ∀ a : Alert, (if a.id = env.uuid4 w.issued then
              { a with delivered := s.deliver rule (c.posted n) } else a).title = a.title := by
            intro a
            split <;> rfl
          rw [ih hrest, firing_cons_fire hmatch]
          simp [Function.comp_def, htitle, alertFor]

end AlertService

namespace IOCService

open Indicators

variable {S : IOCService} {s : AlertService} {call : UpsertCall} {c : Conditions}
  {parsed : ParsedIndicator} {score : ScoreResult} {ioc : Ioc} {w w' : IntelWorld}

/-- An upsert has raised the alerts of the rules that were active before. -/
theorem titles_of_upsert_ok (halerts : S.alerts = some s)
    (h : (S.upsert call c).run w = (.ok ioc, w')) :
    ∃ w₁, (S.persist call c).run w = (.ok ioc, w₁) ∧
      w'.db = { w₁.db with alerts := w'.db.alerts } ∧
      w'.db.alerts.map (·.title) = w₁.db.alerts.map (·.title) ++
        (AlertService.firing (AlertService.activeRules w₁.db) ioc.threatScore.val).map fun rule =>
          rule.name ++ ": ".toList ++ ioc.defangedValue := by
  obtain ⟨w₁, hpersist, hdb, -⟩ := persist_of_upsert_ok h
  refine ⟨w₁, hpersist, hdb, ?_⟩
  rw [upsert, Routine.run_bind_ok hpersist, halerts] at h
  obtain ⟨created, w₂, hevaluate, h⟩ := Routine.run_bind_eq_ok.mp h
  cases h
  obtain ⟨u, w₃, hpass, hrules⟩ := Routine.run_bind_eq_ok.mp hevaluate
  obtain ⟨-, rfl⟩ := Conditions.run_pass_eq_ok.mp hpass
  exact AlertService.titles_evaluateRules hrules

/-! ## The row -/

/-- The indicator that is stored is the one that was submitted. -/
theorem Stored.value_eq (hshown : w.db.Shown)
    (h : Stored S call c parsed score w (knownIoc w.db parsed) ioc w') :
    ioc.value = parsed.value ∧ ioc.defangedValue = defang parsed.value := by
  generalize hknown : knownIoc w.db parsed = known at h
  cases h with
  | created hsightings hscore hioc hnew => exact ⟨by rw [hioc, newIoc], by rw [hioc, newIoc]⟩
  | @updated sightings threatScore row hsightings hscore =>
      have hkey : row.key = (parsed.type.value, parsed.value) := Table.key_of_get? hknown
      have hvalue : row.value = parsed.value := (Prod.mk.inj hkey).2
      exact ⟨hvalue, (hshown row (Table.mem_of_get? hknown)).trans (by rw [hvalue])⟩

/-- It is in the table, and the others were there before. -/
theorem Stored.mem_rows (h : Stored S call c parsed score w (knownIoc w.db parsed) ioc w') :
    ioc ∈ w'.db.iocs.rows ∧ ∀ r ∈ w'.db.iocs.rows, r = ioc ∨ r ∈ w.db.iocs.rows := by
  rcases h.rows with ⟨-, -, -, hrows, -⟩ | ⟨row, hrow, -, -, -, hrows, -⟩
  · rw [hrows]
    exact ⟨by simp, fun r hr => by simpa [or_comm] using hr⟩
  · rw [hrows]
    refine ⟨List.mem_map.mpr ⟨row, hrow, by simp⟩, fun r hr => ?_⟩
    obtain ⟨r₀, hr₀, rfl⟩ := List.mem_map.mp hr
    split
    · exact .inl rfl
    · exact .inr hr₀

/-- Every row shows its own value, in every state that is reached. -/
theorem invariant_shown (S : IOCService) : S.Invariant fun w => w.db.Shown where
  failed hw hdb _ := by
    rw [hdb]
    exact hw
  upserted := by
    intro w w' call c ioc hw hrun
    obtain ⟨parsed, w₁, hp, hiocs⟩ := upsert_ok hrun
    obtain ⟨w₂, hstored, hiocs', -⟩ := hp.stored
    obtain ⟨hvalue, hdefanged⟩ := hstored.value_eq hw
    intro r hr
    rw [hiocs, hiocs'] at hr
    rcases hstored.mem_rows.2 r hr with rfl | hold
    · rw [hdefanged, hvalue]
    · exact hw r hold

/-! ## What fits -/

/-- There is room in the columns for what an upsert writes. -/
structure Room (S : IOCService) (db : IntelDb) (call : UpsertCall) (c : Conditions)
    (parsed : ParsedIndicator) : Prop where
  /-- Lower-casing makes two characters of a dotted capital i. -/
  email : parsed.type = .email →
    (refang call.rawValue).length + (refang call.rawValue).count 'İ' ≤ 2048
  defanged : defangedLength parsed.value ≤ 2100
  host : parsed.type = .url → ∀ host,
    extractHost S.interpreter.unicode S.lower parsed.value .url = .ok (some host) → FitsRef host
  resolved : ∀ ip ∈ (enrichmentOf call c).resolved, FitsRef ip
  titles : ∀ rule ∈ AlertService.firing (AlertService.activeRules db)
      (S.scoreOf db call c parsed).score,
    rule.name.length + 2 + defangedLength parsed.value ≤ 256

/-- The edges fit exactly if those of before and the new ones do. -/
theorem edges_fit_iff {es : List CorrelationEdge} (h : Linked es w w') :
    (∀ e ∈ w'.db.edges.rows, e.Fits) ↔ (∀ e ∈ w.db.edges.rows, e.Fits) ∧ ∀ e ∈ es, e.Fits := by
  have hrows : ∀ t : Table CorrelationEdge CorrelationEdge.triple,
      (∀ e ∈ t.rows, e.Fits) ↔
        ∀ k, t.hasKey k = true → k.1.length ≤ 2100 ∧ k.2.1.length ≤ 2100 := by
    intro t
    simp only [Table.hasKey_iff]
    constructor
    · rintro hall k ⟨e, he, rfl⟩
      exact hall e he
    · exact fun hall e he => hall e.triple ⟨e, he, rfl⟩
  rw [hrows, hrows]
  constructor
  · intro hall
    exact ⟨fun k hk => hall k ((h k).mpr (.inl hk)),
      fun e he => hall e.triple ((h e.triple).mpr (.inr ⟨e, he, rfl⟩))⟩
  · rintro ⟨hold, hnew⟩ k hk
    rcases (h k).mp hk with hk | ⟨e, he, rfl⟩
    · exact hold k hk
    · exact hnew e he

theorem row_fits_iff (hshown : w.db.Shown) (hfits : ∀ r ∈ w.db.iocs.rows, r.Fits)
    (h : Stored S call c parsed score w (knownIoc w.db parsed) ioc w') :
    (∀ r ∈ w'.db.iocs.rows, r.Fits) ↔
      parsed.value.length ≤ 2048 ∧ defangedLength parsed.value ≤ 2100 := by
  obtain ⟨hvalue, hdefanged⟩ := h.value_eq hshown
  have hioc : ioc.Fits ↔ parsed.value.length ≤ 2048 ∧ defangedLength parsed.value ≤ 2100 := by
    rw [Ioc.Fits, hvalue, hdefanged, length_defang]
  rw [← hioc]
  refine ⟨fun hall => hall ioc h.mem_rows.1, fun hnew r hr => ?_⟩
  rcases h.mem_rows.2 r hr with rfl | hold
  · exact hnew
  · exact hfits r hold

/-- The value of an accepted payload is within its column, unless it is an
email address with characters that lower-casing doubles. -/
theorem value_fits_iff {payload : IOCCreate} {U : Unicode}
    (hclass : classifyIndicator U payload.value = .ok parsed) :
    parsed.value.length ≤ 2048 ↔
      (parsed.type = .email →
        (refang payload.value).length + (refang payload.value).count 'İ' ≤ 2048) := by
  obtain ⟨-, hrec⟩ := classifyIndicator_eq_ok_iff.mp hclass
  have hlen : (refang payload.value).length ≤ 2048 :=
    (length_refang_le _).trans payload.valueLength.2
  by_cases htype : parsed.type = .email
  · rw [(hrec.value_of_email htype).1, length_lower]
    simp [htype]
  · simp [htype, length_value_le hrec (strip_refang _) hlen htype]

/-- **What an upsert writes fits the schema exactly if there is room.** The
database before is any that fits it and shows each value defanged, as every
database the service reaches does (`invariant_shown`). -/
theorem fits_schema_iff (halerts : S.alerts = some s) {payload : IOCCreate} {userId : String}
    (hclass : classifyIndicator S.interpreter.unicode payload.value = .ok parsed)
    (hrun : (S.upsert (payload.call userId) c).run w = (.ok ioc, w'))
    (hshown : w.db.Shown) (hfits : w.db.FitsSchema) :
    w'.db.FitsSchema ↔ S.Room w.db (payload.call userId) c parsed := by
  obtain ⟨w₁, hpersist, hdb, htitles⟩ := titles_of_upsert_ok halerts hrun
  obtain ⟨parsed', es, hes, -, hp, -, hlinked⟩ := persist_ok hpersist
  obtain rfl : parsed' = parsed := Except.ok.inj (hp.classified.symm.trans hclass)
  obtain ⟨w₂, hstored, hiocs, -⟩ := hp.stored
  obtain ⟨-, hdefanged⟩ := hstored.value_eq hshown
  have hiocs' : (∀ r ∈ w'.db.iocs.rows, r.Fits) ↔
      parsed'.value.length ≤ 2048 ∧ defangedLength parsed'.value ≤ 2100 := by
    rw [hdb]
    dsimp only
    rw [hiocs]
    exact row_fits_iff hshown hfits.iocs hstored
  have hedges : (∀ e ∈ w'.db.edges.rows, e.Fits) ↔ ∀ e ∈ es, e.Fits := by
    rw [hdb]
    exact (edges_fit_iff hlinked).trans (and_iff_right hfits.edges)
  have halertsFit : (∀ a ∈ w'.db.alerts, a.Fits) ↔
      ∀ rule ∈ AlertService.firing (AlertService.activeRules w.db)
        (S.scoreOf w.db (payload.call userId) c parsed').score,
        rule.name.length + 2 + defangedLength parsed'.value ≤ 256 := by
    have hmap : ∀ l : List Alert,
        (∀ a ∈ l, a.Fits) ↔ ∀ t ∈ l.map (·.title), t.length ≤ 256 := fun l => by
      simp [Alert.Fits]
    rw [hp.activeRules, hstored.score, hdefanged, hp.alerts] at htitles
    have htitle : ∀ rule : AlertRule, (rule.name ++ ": ".toList ++ defang parsed'.value).length =
        rule.name.length + 2 + defangedLength parsed'.value := fun rule => by
      simp only [List.length_append, length_defang]
      rfl
    rw [hmap, htitles, List.forall_mem_append, ← hmap]
    refine (and_iff_right hfits.alerts).trans ?_
    simp only [List.forall_mem_map, htitle]
  have hvalue := value_fits_iff hclass
  constructor
  · intro h
    obtain ⟨hlen, hshort⟩ := hiocs'.mp h.iocs
    obtain ⟨hhost, hresolved⟩ := (relationships_fit_iff hlen hes).mp (hedges.mp h.edges)
    exact ⟨hvalue.mp hlen, hshort, hhost, hresolved, halertsFit.mp h.alerts⟩
  · intro h
    have hlen := hvalue.mpr h.email
    exact ⟨hiocs'.mpr ⟨hlen, h.defanged⟩,
      hedges.mpr ((relationships_fit_iff hlen hes).mpr ⟨h.host, h.resolved⟩),
      halertsFit.mpr h.titles⟩

/-- An address, submitted by hand. -/
def plainAddress : IOCCreate where
  value := "8.8.8.8".toList
  valueLength := by decide

/-- It is stored, and the one rule, which fires for every indicator, raises
its alert. -/
theorem fits_schema_address :
    ∃ ioc w', ((getIocService .sample { enableLiveCollectors := false }).upsert
        (plainAddress.call "u1") { now := 0 }).run
          { db := .withRules ⟨[.sample "r1"], by decide⟩ } = (.ok ioc, w') ∧
      w'.db.FitsSchema := by
  rcases hrun : ((getIocService .sample { enableLiveCollectors := false }).upsert
    (plainAddress.call "u1") { now := 0 }).run
      { db := .withRules ⟨[.sample "r1"], by decide⟩ } with ⟨e | ioc, w'⟩
  · have hok : (((getIocService .sample { enableLiveCollectors := false }).upsert
        (plainAddress.call "u1") { now := 0 }).run
          { db := .withRules ⟨[.sample "r1"], by decide⟩ }).1.toOption.isSome = true := by
      decide +kernel
    rw [hrun] at hok
    cases hok
  · have hempty : (IntelDb.withRules ⟨[.sample "r1"], by decide⟩).FitsSchema :=
      ⟨by simp [IntelDb.withRules, Table.empty], by simp [IntelDb.withRules, Table.empty],
        by simp [IntelDb.withRules]⟩
    have hshown : (IntelDb.withRules ⟨[.sample "r1"], by decide⟩).Shown := by
      simp [IntelDb.Shown, IntelDb.withRules, Table.empty]
    have hclass : classifyIndicator
        (getIocService .sample { enableLiveCollectors := false }).interpreter.unicode
        plainAddress.value = .ok ⟨.ipv4, "8.8.8.8".toList⟩ := by
      decide +kernel
    have htitles : ∀ rule ∈ AlertService.firing
        (AlertService.activeRules (.withRules ⟨[.sample "r1"], by decide⟩))
        ((getIocService .sample { enableLiveCollectors := false }).scoreOf
          (.withRules ⟨[.sample "r1"], by decide⟩) (plainAddress.call "u1") { now := 0 }
          ⟨.ipv4, "8.8.8.8".toList⟩).score,
        rule.name.length + 2 + defangedLength "8.8.8.8".toList ≤ 256 := by
      decide +kernel
    have hroom : (getIocService .sample { enableLiveCollectors := false }).Room
        (.withRules ⟨[.sample "r1"], by decide⟩) (plainAddress.call "u1") { now := 0 }
        ⟨.ipv4, "8.8.8.8".toList⟩ :=
      ⟨by simp, by decide +kernel, by simp, by decide +kernel, htitles⟩
    exact ⟨ioc, w', rfl, (fits_schema_iff rfl hclass hrun hshown hempty).mpr hroom⟩

/-- What the bounds of the request models leave room for. -/
theorem titles_fit_of_short {word : Char → Bool} {db : IntelDb} {v : PyStr}
    (hrules : ∀ rule ∈ db.alertRules.rows, AlertRuleCreate.TakesName word rule.name)
    (hshort : defangedLength v ≤ 134) (threatScore : Int) :
    ∀ rule ∈ AlertService.firing (AlertService.activeRules db) threatScore,
      rule.name.length + 2 + defangedLength v ≤ 256 := by
  intro rule hrule
  have hmem : rule ∈ db.alertRules.rows := List.mem_of_mem_filter (List.mem_of_mem_filter hrule)
  have hname := (hrules rule hmem).length.2
  omega

/-- A rule with a name of 120 characters. -/
def longNamed : AlertRule := { AlertRule.sample "r1" with name := List.replicate 120 'a' }

/-- A domain of 73 characters, 33 of them dots. -/
def dottedDomain : IOCCreate where
  value := (List.replicate 33 "a.".toList).flatten ++ "example".toList
  valueLength := by decide

/-- The title of the alert has 261 characters. -/
theorem long_title_does_not_fit :
    ¬ ∀ (payload : IOCCreate) (rules : Table AlertRule AlertRule.id) (ioc : Ioc) (w' : IntelWorld),
      (∀ rule ∈ rules.rows, AlertRuleCreate.TakesName Char.isAlphanum rule.name) →
      ((getIocService .sample { enableLiveCollectors := false }).upsert (payload.call "u1")
        { now := 0 }).run { db := .withRules rules } = (.ok ioc, w') → w'.db.FitsSchema := by
  intro h
  have hlong : (((getIocService .sample { enableLiveCollectors := false }).upsert
      (dottedDomain.call "u1") { now := 0 }).run
        { db := .withRules ⟨[longNamed], by decide⟩ }).2.db.alerts.map (·.title.length) = [261] := by
    decide +kernel
  have hnamed : ∀ rule ∈ [longNamed], AlertRuleCreate.TakesName Char.isAlphanum rule.name := by
    intro rule hrule
    rw [List.mem_singleton.mp hrule]
    exact ⟨by simp [longNamed], by simp [longNamed]⟩
  rcases hrun : ((getIocService .sample { enableLiveCollectors := false }).upsert
    (dottedDomain.call "u1") { now := 0 }).run { db := .withRules ⟨[longNamed], by decide⟩ } with
    ⟨e | ioc, w'⟩
  · have hok : (((getIocService .sample { enableLiveCollectors := false }).upsert
        (dottedDomain.call "u1") { now := 0 }).run
          { db := .withRules ⟨[longNamed], by decide⟩ }).1.toOption.isSome = true := by
      decide +kernel
    rw [hrun] at hok
    cases hok
  · have hfits := h dottedDomain ⟨[longNamed], by decide⟩ ioc w' hnamed hrun
    rw [hrun] at hlong
    obtain ⟨alert, hone, hlen⟩ := List.map_eq_singleton_iff.mp hlong
    have halerts : w'.db.alerts = [alert] := hone
    have hfit : alert.Fits := hfits.alerts alert (by simp [halerts])
    rw [Alert.Fits, hlen] at hfit
    omega

end IOCService

end ThreatIntel
