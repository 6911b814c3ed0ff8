import ThreatIntel.ExtractSpec
import ThreatIntel.IndicatorFixpoint
import ThreatIntel.JsonRoundTrip
import ThreatIntel.StixPattern

/-!
# STIX export and import

The bundle is read back as it was written, every object is looked at, and
each offers one value: the value of the record with its backslashes
doubled (`extractFromStix_toStix`). Whether that is classified as the value
itself is a question about refanging (`Survives`), and the round trip of a
list is the identity exactly if all of its values survive it
(`roundTrip_iff`).
-/

namespace ThreatIntel

namespace Stix

open Extract Harvest Indicators

/-! ## Values -/

/-- Refanging puts the value back together, and there is no combining dot
in it, which a dotted capital i leaves, unless there is a colon. -/
def Survives (value : PyStr) : Prop :=
  refang (doubled value) = value ∧ ('\u0307' ∈ value → ':' ∈ value)

instance (value : PyStr) : Decidable (Survives value) := inferInstanceAs (Decidable (_ ∧ _))

theorem refang_doubled_of_plain {value : PyStr} (hplain : ∀ c ∈ value, plain c = true) :
    refang (doubled value) = refang value := by
  rw [doubled_of_notMem]
  exact fun hmem => absurd (hplain _ hmem) (by decide)

section Again

variable {U : Unicode} {value : PyStr}

/-- A value in lower case that was recognised in a format over plain
characters. -/
theorem survives_lower (hv : Refanged value) {r : Regex Char} (hr : PlainFormat r)
    (h : r.isMatch value = true) (hdotted : 'İ' ∉ value) : Survives value.lower := by
  have hchars := hr.plain hv.strip h
  have hlower : ∀ c ∈ value.lower, plain c = true := by
    intro c hc
    rw [PyStr.lower_eq_map hdotted] at hc
    obtain ⟨d, hd, rfl⟩ := List.mem_map.mp hc
    rw [foldsTo_lowerOne.plain, hchars d hd]
  refine ⟨?_, fun hmem => ?_⟩
  · rw [refang_doubled_of_plain hlower, hv.refang_lower hchars hdotted]
  · rcases PyStr.dot_mem_lower.mp hmem with hmem | hmem
    · exact absurd hmem hdotted
    · exact absurd hmem (hr.dot_notMem hv.strip h)

theorem survives_upper (hv : Refanged value) {r : Regex Char} (hr : PlainFormat r)
    (h : r.isMatch value = true) : Survives value.upper := by
  have hchars := hr.plain hv.strip h
  have hupper : ∀ c ∈ value.upper, plain c = true := by
    intro c hc
    obtain ⟨d, hd, rfl⟩ := List.mem_map.mp hc
    rw [foldsTo_upperOne.plain, hchars d hd]
  refine ⟨?_, fun hmem => ?_⟩
  · rw [refang_doubled_of_plain hupper]
    exact hv.refang_map foldsTo_upperOne hchars
  · obtain ⟨d, hd, hone⟩ := List.mem_map.mp hmem
    have hkeep : ∀ c, PyStr.upperOne c = '\u0307' → c = '\u0307' := fun c =>
      PyStr.mapThrough_rel (R := fun c d => d = '\u0307' → c = '\u0307') (fun _ h => h)
        (by decide) c
    rw [hkeep d hone] at hd
    exact absurd hd (hr.dot_notMem hv.strip h)

theorem survives_ipv4 (h : isIpv4 value = true) : Survives value := by
  have hchars := mem_ipv4Chars h
  have hback : '\\' ∉ value := fun hmem => absurd (hchars _ hmem) (by decide)
  refine ⟨?_, fun hmem => absurd (hchars _ hmem) (by decide)⟩
  rw [doubled_of_notMem hback]
  exact (recognised_of_isIpv4 (U := .ascii) h).1

/-- **What comes back as itself survives**: the value is recognised, as
whatever it may be, in its refanged form. -/
theorem survives_of_recognised {q : ParsedIndicator}
    (h : Recognised U (refang (doubled value)) q) (hvalue : q.value = value) : Survives value := by
  generalize hw : refang (doubled value) = w at h
  have hv : Refanged w := hw ▸ refanged_refang (doubled value)
  -- a dotted capital i before lower-casing would have been one of the value
  have hdotted : w.lower = value → 'İ' ∉ w := by
    intro hlower hmem
    have hmem' : 'İ' ∈ doubled value := mem_of_mem_refang (by decide) (hw ▸ hmem)
    rw [mem_doubled, ← hlower] at hmem'
    exact PyStr.dotted_notMem_lower w hmem'
  cases h with
  | hash h =>
      dsimp only at hvalue
      obtain ⟨n, hn⟩ := isMatch_of_hashType h
      rw [← hvalue]
      exact survives_lower hv (plainFormat_hashRe n) hn (hdotted hvalue)
  | cve hhash h =>
      dsimp only at hvalue
      rw [← hvalue]
      exact survives_upper hv plainFormat_cveRe h
  | technique hhash hcve h =>
      dsimp only at hvalue
      rw [← hvalue]
      exact survives_upper hv plainFormat_techniqueRe h
  | url hid hsep hsplit h =>
      dsimp only at hvalue
      exact ⟨hw.trans hvalue, fun _ => hvalue ▸ (exists_isAlpha_of_scheme hsplit h.1).1⟩
  | email hid hurl h =>
      dsimp only at hvalue
      rw [← hvalue]
      exact survives_lower hv plainFormat_emailRe h (hdotted hvalue)
  | domain hid hurl hemail hip h =>
      dsimp only at hvalue
      rw [← hvalue]
      exact survives_lower hv plainFormat_domainRe h (hdotted hvalue)
  | ip hid hurl hemail h =>
      dsimp only at hvalue
      rcases ipType_cases h with ⟨-, h4⟩ | ⟨-, h6⟩
      · exact survives_ipv4 (hvalue ▸ h4)
      · have hself := bareHost_of_isIpv6 h6
        have hcolon := colon_mem_of_isIpv6 h6
        rw [hvalue] at hself hcolon
        exact ⟨hw.trans hself.symm, fun _ => hcolon⟩

/-- A value in lower case that survives had no dotted capital i. -/
theorem dotted_notMem_of_survives {r : Regex Char} (hr : PlainFormat r) (hv : Refanged value)
    (h : r.isMatch value = true) (hs : Survives value.lower) : 'İ' ∉ value := by
  intro hmem
  have hlower := hs.2 (PyStr.dot_mem_lower.mpr (.inl hmem))
  obtain ⟨c, hc, hone⟩ := List.mem_flatMap.mp hlower
  split at hone
  · simp at hone
  · have hkeep : ∀ d, PyStr.lowerOne d = ':' → d = ':' := fun d =>
      PyStr.mapThrough_rel (R := fun c d => d = ':' → c = ':') (fun _ h => h) (by decide) d
    rw [hkeep c (List.mem_singleton.mp hone).symm] at hc
    exact hr.colon_notMem hv.strip h hc

theorem recognised_of_survives (hv : Refanged value) {p : ParsedIndicator}
    (h : Recognised U value p) (hs : Survives p.value) : Recognised U p.value p := by
  -- for a value over plain characters `refang` undoes nothing
  have hself : (∀ c ∈ p.value, plain c = true) → refang p.value = p.value := fun hplain =>
    (refang_doubled_of_plain hplain).symm.trans hs.1
  have hsettled := recognised_again hv h
  cases h with
  | url hid hsep hsplit h => exact .url hid hsep hsplit h
  | hash h =>
      obtain ⟨n, hn⟩ := isMatch_of_hashType h
      obtain ⟨hplain, hdotted⟩ := plain_of_hashRe hv hn
      have hagain := hsettled (hv.settled hplain hdotted)
      rwa [show refang value.lower = value.lower from hv.refang_lower hplain hdotted] at hagain
  | cve hhash h =>
      have hplain := plainFormat_cveRe.plain hv.strip h
      have hagain := recognised_cve (U := U) hv hhash h
      rwa [show refang value.upper = value.upper from hv.refang_map foldsTo_upperOne hplain] at hagain
  | technique hhash hcve h =>
      have hplain := plainFormat_techniqueRe.plain hv.strip h
      have hagain := recognised_technique (U := U) hv hhash hcve h
      rwa [show refang value.upper = value.upper from hv.refang_map foldsTo_upperOne hplain] at hagain
  | email hid hurl h =>
      have hplain := plainFormat_emailRe.plain hv.strip h
      have hdotted := dotted_notMem_of_survives plainFormat_emailRe hv h hs
      have hagain := hsettled (hv.settled hplain hdotted)
      rwa [show refang value.lower = value.lower from hv.refang_lower hplain hdotted] at hagain
  | domain hid hurl hemail hip h =>
      have hplain := plainFormat_domainRe.plain hv.strip h
      have hdotted := dotted_notMem_of_survives plainFormat_domainRe hv h hs
      have hagain := hsettled (hv.settled hplain hdotted)
      rwa [show refang value.lower = value.lower from hv.refang_lower hplain hdotted] at hagain
  | ip hid hurl hemail h =>
      rcases ipType_cases h with ⟨rfl, h4⟩ | ⟨rfl, h6⟩
      · exact (recognised_of_isIpv4 h4).2
      · have hip := Recognised.ip (U := U) hid hurl hemail h
        have hbare := bareHost_of_isIpv6 h6
        rw [hbare] at hip ⊢
        exact hip

end Again

theorem survives_of_classify {U : Unicode} {value : PyStr} {q : ParsedIndicator}
    (h : classifyIndicator U (doubled value) = .ok q) (hvalue : q.value = value) :
    Survives value :=
  survives_of_recognised (classifyIndicator_eq_ok_iff.mp h).2 hvalue

theorem classify_of_survives {U : Unicode} {raw : PyStr} {p : ParsedIndicator}
    (h : classifyIndicator U raw = .ok p) (hs : Survives p.value) :
    classifyIndicator U (doubled p.value) = .ok p := by
  have hrec := (classifyIndicator_eq_ok_iff.mp h).2
  have hagain := recognised_of_survives (refanged_refang raw) hrec hs
  rw [classifyIndicator_eq_ok_iff, hs.1]
  exact ⟨hagain.ne_nil, hagain⟩

/-! ## Objects -/

section Objects

variable {I : Interpreter} {members : Members}

theorem readable_of_type {t : PyStr} (htype : Json.get? members "type" = some (.str t))
    (hrefs : isReference members = true →
      ∃ refs, Json.get? members "external_references" = some (.arr refs)) :
    Readable I (.obj members) := by
  refine ⟨fun t' ht' => ?_, fun href refs hget _ => ?_⟩
  · rw [htype] at ht'
    obtain rfl := Option.some.inj ht'
    trivial
  · obtain ⟨refs', hget'⟩ := hrefs href
    obtain rfl := Option.some.inj (hget'.symm.trans hget)
    trivial

/-- An object that refers to one external id. -/
theorem offered_reference {ref : Members} {id : PyStr} (href : isReference members = true)
    (hrefs : Json.get? members "external_references" = some (.arr [.obj ref]))
    (hid : Json.get? ref "external_id" = some (.str id)) (hne : id ≠ []) :
    offered I (.obj members) = [id] := by
  simp [offered, href, hrefs, items, externalIds, hid, truthy, hne, textOf]

/-- An object with a pattern. -/
theorem offered_pattern {left value : PyStr} (href : isReference members = false)
    (hpattern : Json.get? members "pattern" = some (.str (comparison left (escape value))))
    (hleft : '=' ∉ left) : offered I (.obj members) = [doubled value] := by
  simp [offered, href, hpattern, groups_comparison hleft, unescape_escape]

variable (E : Exporter) (createdByRef : PyStr) (ioc : Ioc)

theorem readable_identity (name : PyStr) : Readable I (.obj (identity E name)) :=
  readable_of_type (t := "identity".toList) rfl fun href => nomatch href

theorem offered_identity (name : PyStr) : offered I (.obj (identity E name)) = [] := by
  have href : isReference (identity E name) = false := rfl
  have hpattern : Json.get? (identity E name) "pattern" = none := rfl
  simp [offered, href, hpattern]

theorem vulnerability_spec (hne : ioc.value ≠ []) :
    Readable I (.obj (dropNone (vulnerability E createdByRef ioc))) ∧
      offered I (.obj (dropNone (vulnerability E createdByRef ioc))) = [ioc.value] := by
  refine ⟨readable_of_type (t := "vulnerability".toList) rfl fun _ => ⟨_, rfl⟩, ?_⟩
  have hrefs : Json.get? (dropNone (vulnerability E createdByRef ioc)) "external_references" =
      some (.arr [.obj [("source_name".toList, .str "cve".toList),
        ("external_id".toList, .str ioc.value)]]) := rfl
  exact offered_reference rfl hrefs rfl hne

theorem attackPattern_spec (hne : ioc.value ≠ []) :
    Readable I (.obj (dropNone (attackPattern E createdByRef ioc))) ∧
      offered I (.obj (dropNone (attackPattern E createdByRef ioc))) = [ioc.value] := by
  have hrefs : ∃ ref, Json.get? (dropNone (attackPattern E createdByRef ioc))
      "external_references" = some (.arr [.obj ref]) ∧
        Json.get? ref "external_id" = some (.str ioc.value) := by
    unfold attackPattern
    dsimp only
    split
    · exact ⟨_, rfl, rfl⟩
    · exact ⟨_, rfl, rfl⟩
  have htype : Json.get? (dropNone (attackPattern E createdByRef ioc)) "type" =
      some (.str "attack-pattern".toList) := by
    unfold attackPattern
    dsimp only
    split <;> rfl
  obtain ⟨ref, hget, hid⟩ := hrefs
  have href : isReference (dropNone (attackPattern E createdByRef ioc)) = true := by
    rw [isReference, htype]
    rfl
  exact ⟨readable_of_type htype fun _ => ⟨_, hget⟩, offered_reference href hget hid hne⟩

theorem indicator_spec {left : PyStr} (hleft : '=' ∉ left) :
    Readable I (.obj (dropNone
        (indicator E createdByRef (comparison left (escape ioc.value)) ioc))) ∧
      offered I (.obj (dropNone
        (indicator E createdByRef (comparison left (escape ioc.value)) ioc))) =
          [doubled ioc.value] := by
  have hget : ∀ pattern,
      Json.get? (dropNone (indicator E createdByRef pattern ioc)) "type" =
          some (.str "indicator".toList) ∧
        Json.get? (dropNone (indicator E createdByRef pattern ioc)) "pattern" =
          some (.str pattern) := fun pattern => ⟨rfl, rfl⟩
  obtain ⟨htype, hpattern⟩ := hget (comparison left (escape ioc.value))
  have href : isReference (dropNone
      (indicator E createdByRef (comparison left (escape ioc.value)) ioc)) = false := by
    rw [isReference, htype]
    rfl
  refine ⟨readable_of_type htype fun h => ?_, offered_pattern href hpattern hleft⟩
  exact absurd (href.symm.trans h) Bool.false_ne_true

end Objects

/-! ## Records -/

/-- Type and value are what `classify_indicator` returned. -/
def Classified (U : Unicode) (ioc : Ioc) (p : ParsedIndicator) : Prop :=
  (ioc.type = p.type.value ∧ ioc.value = p.value) ∧ ∃ raw, classifyIndicator U raw = .ok p

/-- CVEs and techniques need no escaping, and the others have a pattern. -/
theorem exported_cases {U : Unicode} {value : PyStr} (hv : Refanged value) {p : ParsedIndicator}
    (h : Recognised U value p) :
    ((p.type = .cve ∨ p.type = .mitreTechnique) ∧ p.value ≠ [] ∧ doubled p.value = p.value) ∨
      p.type ≠ .cve ∧ p.type ≠ .mitreTechnique ∧ ∃ pattern, stixPattern p.type p.value = some pattern := by
  have hupper : ∀ {r : Regex Char}, PlainFormat r → r.isMatch value = true →
      value.upper ≠ [] ∧ doubled value.upper = value.upper := by
    intro r hr hm
    refine ⟨fun hnil => h.ne_nil (List.map_eq_nil_iff.mp hnil), doubled_of_notMem fun hmem => ?_⟩
    obtain ⟨c, hc, hone⟩ := List.mem_map.mp hmem
    have hback : plain (PyStr.upperOne c) = true :=
      (foldsTo_upperOne.plain c).trans (hr.plain hv.strip hm c hc)
    rw [hone] at hback
    exact absurd hback (by decide)
  cases h with
  | cve hhash h => exact .inl ⟨.inl rfl, hupper plainFormat_cveRe h⟩
  | technique hhash hcve h => exact .inl ⟨.inr rfl, hupper plainFormat_techniqueRe h⟩
  | hash h =>
      rcases hashType_range h with rfl | rfl | rfl <;>
        exact .inr ⟨nofun, nofun, _, rfl⟩
  | ip hid hurl hemail h =>
      rcases ipType_cases h with ⟨rfl, -⟩ | ⟨rfl, -⟩ <;>
        exact .inr ⟨nofun, nofun, _, rfl⟩
  | url hid hsep hsplit h => exact .inr ⟨nofun, nofun, _, rfl⟩
  | email hid hurl h => exact .inr ⟨nofun, nofun, _, rfl⟩
  | domain hid hurl hemail hip h => exact .inr ⟨nofun, nofun, _, rfl⟩

/-- **What a record offers**: its value, with every backslash doubled. -/
theorem sdoFor_spec {I : Interpreter} {U : Unicode} (E : Exporter) (createdByRef : PyStr) {ioc : Ioc}
    {p : ParsedIndicator} (h : Classified U ioc p) :
    ∃ sdo, sdoFor E createdByRef ioc = some sdo ∧ Readable I (.obj (dropNone sdo)) ∧
      offered I (.obj (dropNone sdo)) = [doubled p.value] := by
  obtain ⟨⟨htype, hvalue⟩, raw, hraw⟩ := h
  have htype' : IOCType.ofValue? ioc.type = some p.type := by
    rw [htype, IOCType.ofValue?_value]
  rw [← hvalue]
  rcases exported_cases (refanged_refang raw) (classifyIndicator_eq_ok_iff.mp hraw).2 with
    ⟨hkind, hne, hself⟩ | ⟨hcve, htech, pattern, hpattern⟩
  · rw [← hvalue] at hne hself
    rw [hself]
    rcases hkind with hkind | hkind
    · exact ⟨_, by rw [sdoFor, htype', hkind], vulnerability_spec E createdByRef ioc hne⟩
    · exact ⟨_, by rw [sdoFor, htype', hkind], attackPattern_spec E createdByRef ioc hne⟩
  · rw [← hvalue] at hpattern
    obtain ⟨left, hleft, rfl⟩ := stixPattern_eq_some hpattern
    refine ⟨_, ?_, indicator_spec E createdByRef ioc hleft⟩
    rw [sdoFor, htype']
    split
    · next heq => cases heq
    · next heq => exact absurd (Option.some.inj heq) hcve
    · next heq => exact absurd (Option.some.inj heq) htech
    · next t _ _ heq =>
        obtain rfl := Option.some.inj heq
        rw [hpattern]
        rfl

/-! ## The bundle -/

section Bundle

variable (E : Exporter)

/-- No integer of the bundle is too long to be read back. -/
theorem digits_intColumn (n : IntColumn) :
    (Nat.toDigits 10 n.val.natAbs).length ≤ Json.maxDigits := by
  have hbound : n.val.natAbs < 10 ^ 19 := by
    have h := n.property
    omega
  have hlen := (Nat.length_toDigits_le_iff (b := 10) (by decide) (by decide)).mpr hbound
  exact hlen.trans (by decide)

theorem digits_confidence (confidence : String) :
    (Nat.toDigits 10 ((confidenceScale.lookup confidence).getD 50).natAbs).length ≤
      Json.maxDigits := by
  have hrange : ∃ n : IntColumn, (confidenceScale.lookup confidence).getD 50 = n := by
    cases h : confidenceScale.lookup confidence with
    | none => exact ⟨⟨50, by decide⟩, rfl⟩
    | some n =>
        have htable : ∀ kv ∈ confidenceScale, 0 ≤ kv.2 ∧ kv.2 < 100 := by decide
        obtain ⟨k, v, hsplit, -⟩ := List.lookup_eq_some_iff.mp h
        have hn := htable (confidence, n) (by rw [hsplit]; simp)
        exact ⟨⟨n, by omega⟩, rfl⟩
  obtain ⟨n, hn⟩ := hrange
  rw [hn]
  exact digits_intColumn n

theorem fits_sdo (depth : Nat) {createdByRef : PyStr} {ioc : Ioc} {sdo : Members}
    (h : sdoFor E createdByRef ioc = some sdo) : ∀ kv ∈ sdo, Json.Fits (depth + 2) kv.2 := by
  have hrefs : ∀ v ∈ externalReferences ioc, Json.Fits (depth + 1) v := by
    simp only [externalReferences, List.forall_mem_cons, List.forall_mem_map]
    simp [Json.Fits]
  unfold sdoFor at h
  split at h
  · cases h
  · obtain rfl := Option.some.inj h
    simp [vulnerability, header, Json.Fits]
  · obtain rfl := Option.some.inj h
    simp only [attackPattern, header]
    split <;> simp [Json.Fits]
  · obtain ⟨pattern, -, rfl⟩ := Option.map_eq_some_iff.mp h
    simp [indicator, header, Json.Fits]
    exact ⟨digits_confidence ioc.confidence, hrefs, digits_intColumn ioc.threatScore,
      digits_intColumn ioc.sightings⟩

theorem fits_bundle (depth : Nat) (iocs : List Ioc) :
    Json.Fits (depth + 5) (toStixBundle E iocs) := by
  have hidentity : Json.Fits (depth + 3) (.obj (identity E producer)) := by
    simp [identity, Json.Fits]
  have hsdos : ∀ v ∈ (iocs.filterMap fun ioc =>
      (sdoFor E (identityId E producer) ioc).map dropNone).map Json.obj,
        Json.Fits (depth + 3) v := by
    intro v hv
    obtain ⟨members, hmembers, rfl⟩ := List.mem_map.mp hv
    obtain ⟨ioc, -, hioc⟩ := List.mem_filterMap.mp hmembers
    obtain ⟨sdo, hsdo, rfl⟩ := Option.map_eq_some_iff.mp hioc
    exact fun kv hkv => fits_sdo E depth hsdo kv (List.mem_of_mem_filter hkv)
  simp only [toStixBundle, Json.Fits, List.forall_mem_cons]
  exact ⟨trivial, trivial, ⟨hidentity, hsdos⟩, List.forall_mem_nil _⟩

/-- The objects of the records, one for each. -/
theorem sdos_spec {I : Interpreter} {U : Unicode} {iocs : List Ioc} {ps : List ParsedIndicator}
    (h : List.Forall₂ (Classified U) iocs ps) (createdByRef : PyStr) :
    ∃ sdos, (iocs.filterMap fun ioc => (sdoFor E createdByRef ioc).map dropNone) = sdos ∧
      (∀ obj ∈ sdos.map Json.obj, Readable I obj) ∧
        (sdos.map Json.obj).flatMap (offered I) = ps.map fun p => doubled p.value := by
  induction h with
  | nil => exact ⟨[], rfl, List.forall_mem_nil _, rfl⟩
  | @cons ioc p iocs ps hp hps ih =>
      obtain ⟨sdos, hsdos, hread, hoffered⟩ := ih
      obtain ⟨sdo, hsdo, hread', hoffered'⟩ := sdoFor_spec (I := I) E createdByRef hp
      refine ⟨dropNone sdo :: sdos, ?_, List.forall_mem_cons.mpr ⟨hread', hread⟩, ?_⟩
      · rw [List.filterMap_cons, hsdo, hsdos]
        rfl
      · rw [List.map_cons, List.flatMap_cons, hoffered', hoffered]
        rfl

/-- **What the import sees of the export**: the values of the records, in
order, with every backslash doubled. -/
theorem extractFromStix_toStix (I : Interpreter) {U : Unicode} {iocs : List Ioc}
    {ps : List ParsedIndicator} (h : List.Forall₂ (Classified U) iocs ps) (limit : Nat) :
    extractFromStix I (toStix E iocs) limit =
      harvested I.unicode limit (ps.map fun p => doubled p.value) := by
  obtain ⟨depth, hdepth⟩ : ∃ depth, I.maxDepth = depth + 5 :=
    ⟨I.maxDepth - 5, by have := I.hundred_le; omega⟩
  have hloads : Json.loads I.maxDepth (toStix E iocs) = .ok (toStixBundle E iocs) := by
    rw [hdepth]
    exact Json.loads_dumps (fits_bundle E depth iocs)
  obtain ⟨sdos, hsdos, hread, hoffered⟩ := sdos_spec (I := I) E h (identityId E producer)
  have hvalues : stixValues I (toStix E iocs) = .ok (ps.map fun p => doubled p.value) := by
    simp only [stixValues, hloads, toStixBundle, hsdos]
    show (do
      let objects ← iterate (.arr (.obj (identity E producer) :: sdos.map Json.obj))
      valuesOfAll I objects) = _
    have hall := valuesOfAll_of_readable (I := I)
      (List.forall_mem_cons.mpr ⟨readable_identity E producer, hread⟩)
    simp only [iterate, pure, Except.pure, bind, Except.bind]
    rw [hall, List.flatMap_cons, offered_identity, hoffered]
    rfl
  simp only [extractFromStix, hvalues, bind, Except.bind, collectStix_eq]

end Bundle

/-! ## The round trip -/

/-- The pairs are harvested as they are, and nothing stands in the way. -/
theorem harvested_doubled_iff {U : Unicode} {ps : List ParsedIndicator}
    (h : ∀ p ∈ ps, ∃ raw, classifyIndicator U raw = .ok p) :
    harvested U ps.length (ps.map fun p => doubled p.value) =
        .ok ((distinct [] ps).map ParsedIndicator.value) ↔
      ∀ p ∈ ps, Survives p.value := by
  have hroom : 0 < max ps.length 1 := by omega
  have hhits : hits (classifyIndicator U) (ps.map fun p => doubled p.value) =
      ps.filterMap fun p => (classifyIndicator U (doubled p.value)).toOption := by
    simp only [hits, List.filterMap_map, Function.comp_def]
  constructor
  · intro hrun
    by_cases hclear : Clear (classifyIndicator U) isUnknownIndicator (max ps.length 1) []
        (ps.map fun p => doubled p.value)
    · rw [harvested, harvest_of_clear hroom hclear, hhits] at hrun
      intro p hp
      obtain ⟨q, hq, hvalue⟩ := exists_of_distinct_eq (Except.ok.inj hrun) p hp
      cases hclass : classifyIndicator U (doubled p.value) with
      | error e => simp [hclass, Except.toOption] at hq
      | ok q' =>
          obtain rfl : q' = q := by simpa [hclass, Except.toOption] using hq
          exact survives_of_classify hclass hvalue
    · obtain ⟨c, -, e, -, -, herror⟩ := harvest_of_not_clear hroom hclear
      rw [harvested, herror] at hrun
      cases hrun
  · intro hs
    have hagain : ∀ p ∈ ps, classifyIndicator U (doubled p.value) = .ok p := fun p hp => by
      obtain ⟨raw, hraw⟩ := h p hp
      exact classify_of_survives hraw (hs p hp)
    have hclear : Clear (classifyIndicator U) isUnknownIndicator (max ps.length 1) []
        (ps.map fun p => doubled p.value) := by
      intro pre c post hsplit hfails
      have hmem : c ∈ ps.map fun p => doubled p.value := by
        rw [hsplit]
        simp
      obtain ⟨p, hp, rfl⟩ := List.mem_map.mp hmem
      exact absurd hfails (not_fails_of_ok (hagain p hp))
    have hself : (ps.filterMap fun p => (classifyIndicator U (doubled p.value)).toOption) = ps := by
      rw [List.filterMap_congr (g := some) fun p hp => by rw [hagain p hp]; rfl]
      exact List.filterMap_some
    have hlen := length_distinct_le [] ps
    rw [harvested, harvest_of_clear hroom hclear, hhits, hself,
      List.take_of_length_le (by omega)]
    rfl

/-- Type and value of a record. -/
def pair (ioc : Ioc) : String × PyStr := (ioc.type, ioc.value)

theorem exists_parsed {U : Unicode} {iocs : List Ioc} (h : ∀ ioc ∈ iocs, ∃ p, Classified U ioc p) :
    ∃ ps, List.Forall₂ (Classified U) iocs ps ∧ iocs.map pair = ps.map key ∧
      ∀ p ∈ ps, ∃ raw, classifyIndicator U raw = .ok p := by
  induction iocs with
  | nil => exact ⟨[], .nil, rfl, List.forall_mem_nil _⟩
  | cons ioc iocs ih =>
      obtain ⟨⟨p, hp⟩, hrest⟩ := List.forall_mem_cons.mp h
      obtain ⟨ps, hps, hkeys, hparsed⟩ := ih hrest
      refine ⟨p :: ps, .cons hp hps, ?_, List.forall_mem_cons.mpr ⟨hp.2, hparsed⟩⟩
      rw [List.map_cons, List.map_cons, hkeys, pair, key, hp.1.1, hp.1.2]

/-- **When the round trip is the identity**: exactly if every value
survives its own escaping. -/
theorem roundTrip_iff (I : Interpreter) (E : Exporter) (iocs : List Ioc)
    (h : ∀ ioc ∈ iocs, ∃ p, Classified I.unicode ioc p) :
    extractFromStix I (toStix E iocs) iocs.length = .ok ((distinct [] (iocs.map pair)).map Prod.snd) ↔
      ∀ ioc ∈ iocs, Survives ioc.value := by
  obtain ⟨ps, hps, hkeys, hparsed⟩ := exists_parsed h
  have hlen : iocs.length = ps.length := by simpa using congrArg List.length hkeys
  have hdistinct : (distinct [] (iocs.map pair)).map Prod.snd =
      (distinct [] ps).map ParsedIndicator.value := by
    have hmap := distinct_map key_injective [] ps
    rw [hkeys, ← List.map_nil (f := key), hmap, List.map_map]
    rfl
  have hvalues : (∀ ioc ∈ iocs, Survives ioc.value) ↔ ∀ p ∈ ps, Survives p.value := by
    have hsnd : iocs.map Ioc.value = ps.map ParsedIndicator.value := by
      have := congrArg (List.map Prod.snd) hkeys
      simpa [List.map_map, Function.comp_def, pair, key] using this
    rw [← List.forall_mem_map (f := Ioc.value) (P := Survives), hsnd, List.forall_mem_map]
  rw [extractFromStix_toStix E I hps, hdistinct, hlen, harvested_doubled_iff hparsed, hvalues]

/-! ## Instances -/

/-- An exporter for the instances; what it writes beside the patterns is
not read. -/
def sampleExporter : Exporter := { uuid5 := id, uuid4 := [], now := 0, isoMillis := fun _ => [] }

/-- A record of the given type and value. -/
def sampleIoc (type : IOCType) (value : PyStr) : Ioc where
  id := "1"
  type := type.value
  value := value
  defangedValue := value
  source := "manual".toList
  confidence := "medium"
  severity := "medium"
  threatScore := ⟨50, by decide⟩
  threatLevel := "medium"
  sightings := ⟨1, IntColumn.one_fits⟩
  tags := []
  references := []
  description := none
  firstSeen := none
  lastSeen := none

def quotedUrl : PyStr := "http://a.com/?q=".toList ++ [PyStr.apostrophe, 'x', PyStr.apostrophe]

def backslashUrl : PyStr := "http://a.com/a\\b".toList

/-- Apostrophes and equals signs survive the round trip. -/
theorem quotedUrl_roundTrip :
    extractFromStix .ascii (toStix sampleExporter [sampleIoc .url quotedUrl]) 1 =
      .ok [quotedUrl] := by
  have hclass : classifyIndicator .ascii quotedUrl = .ok ⟨.url, quotedUrl⟩ := by decide +kernel
  have hrecord : ∀ ioc ∈ [sampleIoc .url quotedUrl],
      ∃ p, Classified Interpreter.ascii.unicode ioc p :=
    List.forall_mem_singleton.mpr ⟨_, ⟨rfl, rfl⟩, quotedUrl, hclass⟩
  have hsurvives : ∀ ioc ∈ [sampleIoc .url quotedUrl], Survives ioc.value :=
    List.forall_mem_singleton.mpr (show Survives quotedUrl by decide +kernel)
  exact (roundTrip_iff .ascii sampleExporter _ hrecord).mpr hsurvives

/-- A backslash comes back as two. -/
theorem backslashUrl_doubled :
    ¬ ∀ (I : Interpreter) (E : Exporter) (iocs : List Ioc),
      (∀ ioc ∈ iocs, ∃ p, Classified I.unicode ioc p) →
        extractFromStix I (toStix E iocs) iocs.length =
          .ok ((distinct [] (iocs.map pair)).map Prod.snd) := by
  intro h
  have hclass : classifyIndicator .ascii backslashUrl = .ok ⟨.url, backslashUrl⟩ := by
    decide +kernel
  have hrecord : Classified Interpreter.ascii.unicode (sampleIoc .url backslashUrl)
      ⟨.url, backslashUrl⟩ := ⟨⟨rfl, rfl⟩, backslashUrl, hclass⟩
  have hrun := h .ascii sampleExporter [sampleIoc .url backslashUrl]
    (List.forall_mem_singleton.mpr ⟨_, hrecord⟩)
  rw [extractFromStix_toStix sampleExporter .ascii (.cons hrecord .nil)] at hrun
  have hvalue : harvested .ascii 1 [doubled backslashUrl] =
      .ok ["http://a.com/a\\\\b".toList] := by decide +kernel
  exact absurd (hvalue.symm.trans hrun) (by decide +kernel)

end Stix

end ThreatIntel
