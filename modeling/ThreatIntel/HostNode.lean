import ThreatIntel.SameIndicator
import ThreatIntel.IngestSpec

/-!
# The node of a URL's host

The edge of a URL names its host by what `urlsplit` makes of it, put in
lower case, and a test whether that is an address. Submitted by itself the
host is refanged before it is classified. The two names are the same exactly
if refanging leaves the host alone (`hostNode_iff`).
-/

namespace ThreatIntel

open Indicators

/-! ## Lower case -/

/-- What `str.lower` makes of one character: ASCII is mapped as such, and any
other character becomes characters in lower case, of which the ASCII ones
are letters. -/
def LowerPiece (c : Char) (piece : PyStr) : Prop :=
  if c.toNat < 128 then piece = [PyStr.lowerOne c]
  else ∀ d ∈ piece, (PyStr.lowerOne d = d ∧ d ≠ 'İ') ∧ (d.toNat < 128 → PyStr.isAsciiLower d = true)

/-- The documented behaviour of `str.lower`: the characters one after the
other, whatever stands around them decides of each. -/
def StrLower (lower : PyStr → PyStr) : Prop :=
  ∀ s, ∃ pieces, lower s = pieces.flatten ∧ List.Forall₂ LowerPiece s pieces

section StrLower

variable {lower : PyStr → PyStr} {c : Char} {piece s : PyStr}

theorem LowerPiece.fixed (h : LowerPiece c piece) :
    ∀ d ∈ piece, PyStr.lowerOne d = d ∧ d ≠ 'İ' := by
  unfold LowerPiece at h
  split at h
  · next hascii =>
      subst h
      intro d hd
      obtain rfl := List.mem_singleton.mp hd
      refine ⟨PyStr.lowerOne_lowerOne c, fun heq => ?_⟩
      rw [(PyStr.lowerOne_eq_dotted c).mp heq] at hascii
      exact absurd hascii (by decide)
  · exact fun d hd => (h d hd).1

/-- No colon comes or goes. -/
theorem LowerPiece.count_colon (h : LowerPiece c piece) :
    piece.count ':' = if c = ':' then 1 else 0 := by
  unfold LowerPiece at h
  split at h
  · next hascii =>
      subst h
      have hiff : PyStr.lowerOne c = ':' ↔ c = ':' :=
        PyStr.mapThrough_rel (R := fun c d => d = ':' ↔ c = ':') (fun _ => Iff.rfl) (by decide) c
      simp [List.count_singleton, hiff]
  · next hascii =>
      have hne : c ≠ ':' := by
        rintro rfl
        exact hascii (by decide)
      rw [if_neg hne, List.count_eq_zero]
      intro hmem
      exact absurd ((h _ hmem).2 (by decide)) (by decide)

theorem StrLower.fixed (h : StrLower lower) (s : PyStr) :
    ∀ d ∈ lower s, PyStr.lowerOne d = d ∧ d ≠ 'İ' := by
  obtain ⟨pieces, heq, hpieces⟩ := h s
  rw [heq]
  clear heq
  induction hpieces with
  | nil => simp
  | cons hfirst _ ih =>
      intro d hd
      rw [List.flatten_cons, List.mem_append] at hd
      exact hd.elim (hfirst.fixed d) (ih d)

theorem StrLower.count_colon (h : StrLower lower) (s : PyStr) :
    (lower s).count ':' = s.count ':' := by
  obtain ⟨pieces, heq, hpieces⟩ := h s
  rw [heq]
  clear heq
  induction hpieces with
  | nil => rfl
  | cons hfirst _ ih =>
      rw [List.flatten_cons, List.count_append, ih, hfirst.count_colon, List.count_cons, add_comm]
      simp

/-- A text that begins with a small letter still does. -/
theorem StrLower.head? (h : StrLower lower) (hs : s.head? = some 'v') :
    (lower s).head? = some 'v' := by
  obtain ⟨pieces, heq, hpieces⟩ := h s
  rw [heq]
  cases hpieces with
  | nil => simp at hs
  | @cons c piece rest pieces hfirst =>
      obtain rfl : c = 'v' := by simpa using hs
      rw [LowerPiece, if_pos (by decide)] at hfirst
      rw [hfirst]
      rfl

theorem lowerPiece_lower (c : Char) :
    LowerPiece c (if c = 'İ' then ['i', '\u0307'] else [PyStr.lowerOne c]) := by
  unfold LowerPiece
  split
  · next hascii =>
      rw [if_neg]
      rintro rfl
      exact absurd hascii (by decide)
  · next hascii =>
      split
      · intro d hd
        rcases List.mem_cons.mp hd with rfl | hd
        · decide
        · obtain rfl := List.mem_singleton.mp hd
          decide
      · next hne =>
          intro d hd
          obtain rfl := List.mem_singleton.mp hd
          refine ⟨⟨PyStr.lowerOne_lowerOne c, mt (PyStr.lowerOne_eq_dotted c).mp hne⟩, fun hlt => ?_⟩
          rcases PyStr.mapThrough_cases PyStr.lowerTable c with hself | hin
          · exact absurd ((congrArg Char.toNat hself).symm.trans_lt hlt) hascii
          · revert hin
            have htable : ∀ kv ∈ PyStr.lowerTable, PyStr.isAsciiLower kv.2 = true := by decide
            exact fun hin => htable _ hin

/-- The model of `str.lower` behaves so. -/
theorem strLower_lower : StrLower PyStr.lower := by
  intro s
  refine ⟨s.map fun c => if c = 'İ' then ['i', '\u0307'] else [PyStr.lowerOne c], ?_, ?_⟩
  · rw [PyStr.lower, List.flatMap_def]
  · exact List.forall₂_map_right_iff.mpr (List.forall₂_same.mpr fun c _ => lowerPiece_lower c)

end StrLower

/-! ## The host of a URL -/

section Host

variable {U : Unicode} {lower : PyStr → PyStr} {url host : PyStr} {parts : SplitResult}

/-- An authority with brackets has passed their check. -/
theorem bracketed_of_splitNetloc {rest netloc : PyStr} (h : splitNetloc url = .ok (netloc, rest))
    (hb : '[' ∈ netloc) : checkBracketedNetloc netloc = .ok () := by
  unfold splitNetloc at h
  split at h
  · next tail =>
      dsimp only at h
      split at h
      · cases h
      · next hsame =>
          cases hcheck : checkBracketedNetloc (tail.takeWhile fun c => !("/?#".toList.contains c)) with
          | error e =>
              split at h
              · rw [hcheck] at h
                cases h
              · next hboth =>
                  obtain ⟨rfl, -⟩ := Prod.mk.inj (Except.ok.inj h)
                  have hopen := List.contains_iff_mem.mpr hb
                  simp only [hopen, Bool.true_bne, Bool.not_eq_true, Bool.not_eq_false',
                    Bool.true_and] at hsame hboth
                  exact absurd (hboth.symm.trans hsame) Bool.false_ne_true
          | ok u =>
              split at h
              · rw [hcheck] at h
                obtain ⟨rfl, -⟩ := Prod.mk.inj (Except.ok.inj h)
                exact hcheck
              · obtain ⟨rfl, -⟩ := Prod.mk.inj (Except.ok.inj h)
                exact hcheck
  · obtain ⟨rfl, -⟩ := Prod.mk.inj (Except.ok.inj h)
    cases hb

theorem bracketed_of_urlsplit (h : urlsplit U url = .ok parts) (hb : '[' ∈ parts.netloc) :
    checkBracketedNetloc parts.netloc = .ok () := by
  simp only [urlsplit] at h
  cases hnet : splitNetloc (splitScheme (cleanUrl url)).2 with
  | error e => simp [hnet, bind, Except.bind] at h
  | ok n =>
      cases hcheck : checkNetloc U n.1 with
      | error e => simp [hnet, hcheck, bind, Except.bind] at h
      | ok u =>
          simp [hnet, hcheck, bind, Except.bind, pure, Except.pure] at h
          rw [← h] at hb ⊢
          exact bracketed_of_splitNetloc hnet hb

/-- A host is a name in lower case and perhaps a zone. It has no colon,
unless it stood in brackets, as an address with two colons at least or as
one of a future version. -/
theorem hostname_spec (h : urlsplit U url = .ok parts) (hhost : parts.hostname lower = some host) :
    ∃ name zone, host = lower name ++ zone ∧ (zone = [] ∨ zone.head? = some '%') ∧
      (':' ∉ name ++ zone ∨ 2 ≤ name.count ':' ∨ name.head? = some 'v') := by
  simp only [SplitResult.hostname] at hhost
  generalize hinfo : (if (afterLast '@' parts.netloc).contains '[' = true then
    (cutAt ']' (cutAt '[' (afterLast '@' parts.netloc)).2).1
    else (cutAt ':' (afterLast '@' parts.netloc)).1) = hostname at hhost
  split at hhost
  · cases hhost
  · refine ⟨hostname.takeWhile (· ≠ '%'), hostname.dropWhile (· ≠ '%'),
      (Option.some.inj hhost).symm, ?_, ?_⟩
    · cases hzone : hostname.dropWhile (· ≠ '%') with
      | nil => exact .inl rfl
      | cons c rest =>
          have hstop := List.head?_dropWhile_not (· ≠ '%') hostname
          rw [hzone] at hstop
          exact .inr (by simpa using hstop)
    · rw [List.takeWhile_append_dropWhile]
      split at hinfo
      · next hopen =>
          have hmem : '[' ∈ parts.netloc := by
            have hmem := List.contains_iff_mem.mp hopen
            rw [afterLast, List.mem_reverse] at hmem
            exact List.mem_reverse.mp ((List.takeWhile_sublist _).subset hmem)
          have hcheck := bracketed_of_urlsplit h hmem
          simp only [checkBracketedNetloc, hopen, if_true] at hcheck
          split at hcheck
          · cases hcheck
          · split at hcheck
            · cases hcheck
            · rw [hinfo, checkBracketedHost] at hcheck
              split at hcheck
              · next hv =>
                  refine .inr (.inr ?_)
                  cases hostname with
                  | nil => cases hv
                  | cons c rest =>
                      obtain rfl : c = 'v' := by simpa using hv
                      rfl
              · split at hcheck
                · next hip =>
                    have h6 : isIpv6 hostname = true := by
                      unfold ipAddress? at hip
                      split at hip
                      · cases hip
                      · split at hip
                        · assumption
                        · cases hip
                    exact .inr (.inl (two_le_count_address h6))
                · cases hcheck
      · exact .inl (hinfo ▸ colon_notMem_takeWhile _)

/-- The bare host is the host. -/
theorem bareHost_hostname (hlower : StrLower lower) (h : urlsplit U url = .ok parts)
    (hhost : parts.hostname lower = some host) {t : IOCType}
    (hip : ipType (bareHost host) = some t) : bareHost host = host := by
  obtain ⟨name, zone, rfl, -, hcases⟩ := hostname_spec h hhost
  rcases ipType_cases hip with ⟨-, h4⟩ | ⟨-, h6⟩
  · have hcount : (lower name ++ zone).count ':' = (name ++ zone).count ':' := by
      rw [List.count_append, List.count_append, hlower.count_colon]
    rcases hcases with hcolon | htwo | hv
    · refine bareHost_of_notMem (List.count_eq_zero.mp ?_)
      rw [hcount, List.count_eq_zero.mpr hcolon]
    · refine if_neg fun hone => ?_
      rw [hcount, List.count_append] at hone
      omega
    · -- no address begins with a letter
      have hhead : ∃ rest, bareHost (lower name ++ zone) = 'v' :: rest := by
        cases hname : lower name with
        | nil =>
            have hhead := hlower.head? hv
            rw [hname] at hhead
            cases hhead
        | cons c rest =>
            have hhead := hlower.head? hv
            rw [hname] at hhead
            obtain rfl : c = 'v' := by simpa using hhead
            rcases bareHost_cases ('v' :: rest ++ zone) with hself | ⟨-, hcut⟩
            · exact ⟨_, hself⟩
            · exact ⟨_, hcut.trans (List.takeWhile_cons_of_pos (by decide))⟩
      obtain ⟨rest, hrest⟩ := hhead
      rcases digit_or_dot_of_isIpv4 h4 'v' (hrest ▸ List.mem_cons_self) with hdigit | hdot
      · exact absurd hdigit (by decide)
      · exact absurd hdot (by decide)
  · exact bareHost_of_isIpv6 h6

/-- A host without a zone is in lower case. -/
theorem lower_hostname (hlower : StrLower lower) (h : urlsplit U url = .ok parts)
    (hhost : parts.hostname lower = some host) (hzone : '%' ∉ host) :
    ∀ c ∈ host, PyStr.lowerOne c = c ∧ c ≠ 'İ' := by
  obtain ⟨name, zone, rfl, hcases, -⟩ := hostname_spec h hhost
  obtain rfl : zone = [] := by
    rcases hcases with hnil | hhead
    · exact hnil
    · exact absurd (List.mem_append_right _ (List.mem_of_head? hhead)) hzone
  rw [List.append_nil]
  exact hlower.fixed name

/-! ## The two names -/

theorem colon_notMem_value (t : IOCType) : ':' ∉ t.value.toList := by
  cases t <;> decide

/-- A reference can be taken apart. -/
theorem makeRef_inj {t t' : IOCType} {v v' : PyStr} (h : makeRef t.value v = makeRef t'.value v') :
    t.value = t'.value ∧ v = v' := by
  have hsplit : ∀ (t : IOCType) (v : PyStr),
      (makeRef t.value v).takeWhile (· ≠ ':') = t.value.toList := fun t v => by
    rw [makeRef, List.takeWhile_append_of_pos, List.takeWhile_cons_of_neg (by simp),
      List.append_nil]
    intro c hc
    simpa using fun heq : c = ':' => colon_notMem_value t (heq ▸ hc)
  have htype : t.value.toList = t'.value.toList := by rw [← hsplit t v, h, hsplit t' v']
  rw [makeRef, makeRef, htype] at h
  exact ⟨String.toList_injective htype, (List.cons.inj (List.append_cancel_left h)).2⟩

theorem refTypeForHost_of_ipType {t : IOCType} (h : ipType host = some t) :
    refTypeForHost host = t := by
  unfold ipType at h
  unfold refTypeForHost
  cases hip : ipAddress? host with
  | none =>
      rw [hip] at h
      cases h
  | some v =>
      rw [hip] at h
      cases v <;> exact Option.some.inj h

theorem refTypeForHost_of_none (h : ipType host = none) : refTypeForHost host = .domain := by
  unfold ipType at h
  unfold refTypeForHost
  cases hip : ipAddress? host with
  | none => rfl
  | some v =>
      rw [hip] at h
      cases v <;> cases h

/-- The types of a node that a host can be. -/
def IsHostType (t : IOCType) : Prop := t = .ipv4 ∨ t = .ipv6 ∨ t = .domain

/-- **One name or two.** -/
theorem makeRef_host_iff (hlower : StrLower lower) (hsplit : urlsplit U url = .ok parts)
    (hhost : parts.hostname lower = some host) {t : IOCType} {w : PyStr}
    (hnode : classifyIndicator U host = .ok ⟨t, w⟩) (ht : IsHostType t) :
    makeRef (refTypeForHost host).value host = makeRef t.value w ↔ refang host = host := by
  have hrec := (classifyIndicator_eq_ok_iff.mp hnode).2
  generalize hp : (⟨t, w⟩ : ParsedIndicator) = p at hrec
  cases hrec with
  | hash h =>
      cases hp
      rcases hashType_range h with rfl | rfl | rfl <;> rcases ht with h | h | h <;> cases h
  | cve | technique | url | email =>
      cases hp
      rcases ht with h | h | h <;> cases h
  | @ip hid hurl hemail t' hip =>
      cases hp
      constructor
      · intro heq
        obtain ⟨-, hself⟩ := makeRef_inj heq
        rcases bareHost_cases (refang host) with hbare | ⟨-, hcut⟩
        · exact (hself.trans hbare).symm
        · -- without its port the address is the host, and that has nothing to refang
          rcases ipType_cases hip with ⟨-, h4⟩ | ⟨-, h6⟩
          · exact (recognised_of_isIpv4 (U := U) (hself ▸ h4)).1
          · exact ((bareHost_of_isIpv6 h6).symm.trans hself.symm)
      · intro hself
        rw [hself] at hip ⊢
        have hbare := bareHost_hostname hlower hsplit hhost hip
        rw [hbare] at hip ⊢
        rw [refTypeForHost_of_ipType hip]
  | domain hid hurl hemail hip hdomain =>
      cases hp
      have hcolon : ':' ∉ refang host := plainFormat_domainRe.colon_notMem (strip_refang _) hdomain
      have hpercent : '%' ∉ refang host :=
        notMem_of_isMatch atEnd_domainRe (strip_refang _) hdomain (by decide)
      constructor
      · intro heq
        obtain ⟨-, hself⟩ := makeRef_inj heq
        have hzone : '%' ∉ host := by
          rw [hself]
          exact mt (mem_lower_iff (by decide) (by decide)).mp hpercent
        have hfixed : ∀ c ∈ refang host, PyStr.lowerOne c = c ∧ c ≠ 'İ' := by
          intro c hc
          rcases mem_foldl_rewrite ((PyStr.strip_isInfix _).subset hc) with hmem | ⟨tr, htr, hmem⟩
          · exact lower_hostname hlower hsplit hhost hzone c ((PyStr.strip_isInfix _).subset hmem)
          · have htable : (refangReplacements.flatMap Prod.snd).Forall
                fun d => PyStr.lowerOne d = d ∧ d ≠ 'İ' := by
              decide +kernel
            exact List.forall_iff_forall_mem.mp htable c (List.mem_flatMap.mpr ⟨tr, htr, hmem⟩)
        exact (PyStr.lower_eq_self hfixed).symm.trans hself.symm
      · intro hself
        rw [hself] at hip hcolon hpercent ⊢
        rw [bareHost_of_notMem hcolon] at hip
        rw [refTypeForHost_of_none hip,
          PyStr.lower_eq_self (lower_hostname hlower hsplit hhost hpercent)]

end Host

namespace IOCService

/-- The edges of a URL to its host. -/
def hostEdges (es : List CorrelationEdge) : List CorrelationEdge :=
  es.filter fun e => e.relationship = "communicates-with"

theorem hostEdges_edgesOf {S : IOCService} {call : UpsertCall} {c : Conditions} {url host : PyStr}
    {es : List CorrelationEdge}
    (hhost : extractHost S.interpreter.unicode S.lower url .url = .ok (some host))
    (hes : S.edgesOf call c ⟨.url, url⟩ = .ok es) :
    hostEdges es = hostEdge (makeRef IOCType.url.value url) call.source (some host) := by
  simp only [edgesOf, relationships, hhost, if_true, bind, Except.bind, pure, Except.pure] at hes
  rw [← Except.ok.inj hes, hostEdges, List.filter_append]
  have hresolved : ∀ (f : PyStr → CorrelationEdge) (ips : List PyStr),
      (∀ ip, (f ip).relationship = "resolves-to") →
        (ips.map f).filter (fun e => e.relationship = "communicates-with") = [] := by
    intro f ips hf
    simp [List.filter_eq_nil_iff, hf]
  rw [hresolved _ _ fun ip => rfl, List.append_nil]
  by_cases hnil : host = []
  · simp [hostEdge, hnil]
  · simp [hostEdge, hnil]

/-- **When a URL is linked to the node of its host.** Let the host of a URL
be an address or a domain by itself: the one edge that an upsert of the URL
stores for it points at that indicator exactly if refanging leaves the host
alone. -/
theorem hostNode_iff (S : IOCService) (hlower : StrLower S.lower) {url host : PyStr}
    (hhost : extractHost S.interpreter.unicode S.lower url .url = .ok (some host)) {t : IOCType}
    {w : PyStr} (hnode : classifyIndicator S.interpreter.unicode host = .ok ⟨t, w⟩)
    (ht : IsHostType t) {call : UpsertCall} {c : Conditions} {es : List CorrelationEdge}
    (hes : S.edgesOf call c ⟨.url, url⟩ = .ok es) :
    (hostEdges es).map (·.targetRef) = [makeRef t.value w] ↔ refang host = host := by
  obtain ⟨parts, hsplit, hname⟩ : ∃ parts, urlsplit S.interpreter.unicode url = .ok parts ∧
      parts.hostname S.lower = some host := by
    simp only [extractHost, bind, Except.bind] at hhost
    cases hsplit : urlsplit S.interpreter.unicode url with
    | error e =>
        rw [hsplit] at hhost
        cases hhost
    | ok parts =>
        rw [hsplit] at hhost
        exact ⟨parts, rfl, Except.ok.inj hhost⟩
  have hne : host ≠ [] := by
    rintro rfl
    have hempty := (classifyIndicator_eq_ok_iff.mp hnode).1
    exact hempty (by decide)
  rw [hostEdges_edgesOf hhost hes, hostEdge, if_neg hne, ← makeRef_host_iff hlower hsplit hname hnode ht]
  simp

/-- A service that lower-cases. -/
def lowerService : IOCService := { IntelEnv.sample with lower := PyStr.lower, alerts := none }

/-- User information, capitals and a port are no obstacle. -/
theorem capitalHost_node :
    (hostEdges (hostEdge (makeRef "url" "http://me@EVIL.com:80/x".toList) "manual".toList
        (some "evil.com".toList))).map (·.targetRef) =
        [makeRef "domain-name" "evil.com".toList] ↔
      refang "evil.com".toList = "evil.com".toList :=
  @hostNode_iff lowerService strLower_lower "http://me@EVIL.com:80/x".toList "evil.com".toList
    (by decide +kernel) .domain "evil.com".toList (by decide +kernel) (.inr (.inr rfl))
    { rawValue := [] } { now := 0 }
    (hostEdge (makeRef "url" "http://me@EVIL.com:80/x".toList) "manual".toList
      (some "evil.com".toList)) (by decide +kernel)

/-- A space before the host is part of it, until it is refanged. -/
theorem spacedHost_node :
    ¬ ∀ (S : IOCService), StrLower S.lower → ∀ raw url host : PyStr,
      classifyIndicator S.interpreter.unicode raw = .ok ⟨.url, url⟩ →
      extractHost S.interpreter.unicode S.lower url .url = .ok (some host) →
      ∀ (t : IOCType) (w : PyStr), classifyIndicator S.interpreter.unicode host = .ok ⟨t, w⟩ →
        IsHostType t → ∀ (call : UpsertCall) (c : Conditions) (es : List CorrelationEdge),
          S.edgesOf call c ⟨.url, url⟩ = .ok es →
          (hostEdges es).map (·.targetRef) = [makeRef t.value w] := by
  intro h
  have htarget := h lowerService strLower_lower "http:// evil.com/x".toList
    "http:// evil.com/x".toList " evil.com".toList (by decide +kernel) (by decide +kernel) .domain
    "evil.com".toList (by decide +kernel) (.inr (.inr rfl)) { rawValue := [] } { now := 0 }
    (hostEdge (makeRef "url" "http:// evil.com/x".toList) "manual".toList
      (some " evil.com".toList)) (by decide +kernel)
  exact absurd htarget (by decide +kernel)

end IOCService

end ThreatIntel
