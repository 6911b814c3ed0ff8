import ThreatIntel.PatternMatches
import ThreatIntel.SameIndicator

/-!
# The matches in one value

A pattern finds nothing in a text that lacks a character every match of it
has (`quiet_of_notMem`), so of an indicator the scan makes a single match,
by the pattern for its type, of all of it. An email address is read from
its first word character on, whatever that leaves of it.
-/

namespace ThreatIntel

open Indicators PyStr Regex

namespace Extract

variable {U : Unicode} {text w : PyStr}

/-! ## Patterns that find nothing -/

/-- The pattern finds nothing in the text. -/
def Quiet (U : Unicode) (text : PyStr) (pattern : Pattern) : Prop :=
  ∀ w, .found w ∉ (pattern.re U).pieces text

theorem quiet_of_notMem {pattern : Pattern} {x : Char} (hr : (pattern.re U).Forces (· = x))
    (hx : x ∉ text) : Quiet U text pattern := by
  intro w hw
  obtain ⟨y, hy, rfl⟩ := exists_of_found hr hw
  exact hx ((infix_of_found hw).subset hy)

theorem forces_lit {x : Char} : (lit x).Forces (· = x) := fun _ h => of_decide_eq_true h

theorem quiet_url (h : '/' ∉ text) : Quiet U text .url :=
  quiet_of_notMem (.inr (.inr (.inl (.inr (.inl forces_lit))))) h

theorem quiet_email (h : '@' ∉ text) : Quiet U text .email :=
  quiet_of_notMem (.inr (.inr (.inl forces_lit))) h

theorem quiet_cve (h : '-' ∉ text) : Quiet U text .cve :=
  quiet_of_notMem (.inr (.inr (.inr (.inl forces_lit)))) h

theorem quiet_technique (h : 'T' ∉ text) : Quiet U text .technique :=
  quiet_of_notMem (.inr (.inl forces_lit)) h

theorem quiet_ipv6 (h : ':' ∉ text) : Quiet U text .ipv6 :=
  quiet_of_notMem (.inr (.inl ⟨by decide, .inr forces_lit⟩)) h

theorem length_of_found_hash (hw : .found w ∈ (Pattern.hash.re U).pieces text) : 32 ≤ w.length := by
  have hlong : ∀ n, 32 ≤ n → Within {v : PyStr | 32 ≤ v.length} (hashRunRe U n).ends :=
    fun n hn c c' hc' => (within_hashRun U n c c' hc').imp fun v hv => ⟨hn.trans hv.1.1, hv.2⟩
  have hwithin : Within {v : PyStr | 32 ≤ v.length} (Pattern.hash.re U).ends :=
    (hlong 64 (by decide)).alt ((hlong 40 (by decide)).alt (hlong 32 (by decide)))
  exact hwithin.mem_of_found hw

theorem quiet_hash (h : text.length < 32) : Quiet U text .hash := by
  intro w hw
  have hmany := length_of_found_hash hw
  have hfew := (infix_of_found hw).length_le
  omega

/-- A hash does not go beyond a separator. -/
theorem quiet_hash_of_splitOn {sep : Char} (hsep : hexDigit.reads sep = false)
    (hword : isWord U sep = false) (h : ∀ g ∈ text.splitOn sep, g.length < 32) :
    Quiet U text .hash := by
  intro w hw
  have hreads : (Pattern.hash.re U).reads sep = false := by
    simpa [Pattern.re, hashRunRe, seqs, reads, times, wordBoundary] using hsep
  have hlocal : (Pattern.hash.re U).Local (· = sep) := by
    refine local_of_guarded (guarded_re ?_ .hash) ?_
    · rintro s rfl
      exact hword
    · rintro s rfl
      exact hreads
  have htext : [sep].intercalate (text.splitOn sep) = text := List.intercalate_splitOn sep
  rw [← htext] at hw
  obtain ⟨g, hg, hfound⟩ := found_of_intercalate hlocal hw
  exact quiet_hash (h g hg) w hfound

/-! ## What the scan makes of a value -/

/-- Patterns that find nothing leave the text as it is. -/
theorem matched_quiet {qs : List Pattern} (h : ∀ q ∈ qs, Quiet U text q) (ps : List Pattern) :
    matched U (qs ++ ps) text = matched U ps text := by
  induction qs with
  | nil => rfl
  | cons q qs ih =>
      have hkept : (q.re U).pieces text = text.map .kept :=
        piecesFrom_eq_kept (h q List.mem_cons_self)
      have hblank : ∀ t : PyStr, blanked (t.map .kept) = t := by
        intro t
        induction t with
        | nil => rfl
        | cons c t ih => simp [blanked, ih]
      have hnone : ∀ t : PyStr, (t.map Piece.kept).filterMap Piece.text? = [] := by
        intro t
        induction t with
        | nil => rfl
        | cons c t ih => exact ih
      rw [List.cons_append, matched, hkept, hnone, hblank,
        ih fun p hp => h p (List.mem_cons_of_mem q hp)]
      rfl

/-- Every pattern but that for URLs ends at the edge of a word. -/
theorem endsIn_re {pattern : Pattern} (h : pattern ≠ .url) :
    EndsIn (fun c => (c.before.head?.any (isWord U) != c.after.head?.any (isWord U)) = true) 1
      (pattern.re U) := by
  have hb : EndsIn (fun c => (c.before.head?.any (isWord U) != c.after.head?.any (isWord U)) = true) 1
      (wordBoundary U) := (findsTo_assert _).endsIn
  cases pattern with
  | url => exact absurd rfl h
  | email => exact (((((hb.seq _).seq _).seq _).seq _).seq _).seq _
  | hash =>
      have hrun : ∀ n, EndsIn _ 1 (hashRunRe U n) := fun n => (hb.seq _).seq _
      exact (hrun 64).alt ((hrun 40).alt (hrun 32))
  | cve => exact ((((hb.seq _).seq _).seq _).seq _).seq _
  | technique => exact (((hb.seq _).seq _).seq _).seq _
  | ipv6 => exact ((hb.seq _).seq _).seq _
  | ipv4 => exact ((hb.seq _).seq _).seq _
  | domain => exact ((hb.seq _).seq _).seq _

/-- A text that ends in a word is a candidate as it stands. -/
theorem rstrip_of_last (hlast : ∃ c, w.getLast? = some c ∧ isWord U c = true) :
    rstripChars trailing w = w := by
  obtain ⟨c, hc, hword⟩ := hlast
  refine List.rdropWhile_eq_self_iff.mpr fun hne htrailing => ?_
  obtain rfl : w.getLast hne = c := by
    rw [List.getLast?_eq_some_getLast hne] at hc
    exact Option.some.inj hc
  have htable : ∀ c ∈ trailing, isWord U c = false := by simp [trailing, isWord, apostrophe]
  exact Bool.false_ne_true ((htable _ (List.contains_iff_mem.mp htrailing)).symm.trans hword)

theorem last_of_takes {pattern : Pattern} (hp : pattern ≠ .url)
    (h : Takes (pattern.re U).ends text [] []) : ∃ c, text.getLast? = some c ∧ isWord U c = true := by
  have hlast : text.reverse.head?.any (isWord U) = true := by
    simpa using (endsIn_re hp).of_takes h
  rw [List.head?_reverse, Option.any_eq_true] at hlast
  exact hlast

/-- The pattern that takes the whole text leaves nothing to the others. -/
theorem candidates_takes (hU : U.Words) {qs ps : List Pattern} {pattern : Pattern}
    (hpatterns : patterns = qs ++ pattern :: ps) (hquiet : ∀ q ∈ qs, Quiet U text q)
    (hp : pattern ≠ .url ∧ pattern ≠ .domain) (hne : text ≠ [])
    (h : Takes (pattern.re U).ends text [] []) : candidates U patterns text = [text] := by
  have hpieces : (pattern.re U).pieces text = [.found text] := piecesFrom_of_takes hne h
  have hblank : matched U ps [' '] = [] :=
    List.eq_nil_iff_forall_not_mem.mpr fun m hm => by
      have hnil := (mem_matched_cons hU (by decide) ps []).mp hm
      rw [matched_nil] at hnil
      exact List.not_mem_nil hnil
  have hmatched : matched U patterns text = [(pattern, text)] := by
    rw [hpatterns, matched_quiet hquiet, matched, hpieces]
    simp [Piece.text?, blanked, hblank]
  rw [candidates_eq, hmatched]
  simp [candidateOf, hp.2, rstrip_of_last (last_of_takes hp.1 h)]

theorem candidates_hash (hU : U.Words) {t : IOCType} (hstrip : text.strip = text)
    (h : hashType text = some t) : candidates U patterns text = [text] := by
  obtain ⟨n, hn⟩ := isMatch_of_hashType h
  have hnot : ∀ {c : Char}, hexDigit.reads c = false → c ∉ text := fun hc =>
    notMem_of_isMatch (atEnd_hashRe n) hstrip hn (reads_hashRe n hc)
  have hne : text ≠ [] := (Recognised.hash (U := U) h).ne_nil
  refine candidates_takes hU (show patterns = [.url, .email] ++ .hash :: _ from rfl) ?_ (by decide) hne
    (takes_hash hU hstrip h)
  simp [quiet_url (hnot (by decide)), quiet_email (hnot (by decide))]

theorem candidates_cve (hU : U.Words) (hstrip : text.strip = text) (h : cveRe.isMatch text = true) :
    candidates U patterns text = [text] := by
  have hnot : ∀ {c : Char}, cveRe.reads c = false → c ∉ text :=
    notMem_of_isMatch atEnd_cveRe hstrip h
  obtain ⟨head, year, number, htext, hhead, hyear, hnumber⟩ := parts_of_cveRe hstrip h
  have hlen : text.length < 32 := by
    have hhead' : ("cve-".toList.map sameFold).length = head.length := List.Forall₂.length_eq hhead
    have hyear' : year.length ≤ 4 := hyear.2.1 4 rfl
    have hnumber' : number.length ≤ 7 := hnumber.2.1 7 rfl
    rw [htext]
    simp at hhead' ⊢
    omega
  have hne : text ≠ [] := by
    rw [htext]
    simp
  refine candidates_takes hU (show patterns = [.url, .email, .hash] ++ .cve :: _ from rfl) ?_ (by decide) hne
    (takes_cve hU hstrip h)
  simp [quiet_url (hnot (by decide)), quiet_email (hnot (by decide)), quiet_hash hlen]

theorem candidates_technique (hU : U.Words) (hstrip : text.strip = text) (h : techniqueRe.isMatch text = true) :
    candidates U patterns text = [text] := by
  have hnot : ∀ {c : Char}, techniqueRe.reads c = false → c ∉ text :=
    notMem_of_isMatch atEnd_techniqueRe hstrip h
  obtain ⟨year, sub, htext, hyear, hsub⟩ := parts_of_techniqueRe hstrip h
  have hlen : text.length < 32 := by
    have hyear' : year.length ≤ 4 := hyear.2.1 4 rfl
    have hsub' : sub.length ≤ 4 := by
      rcases hsub with rfl | ⟨digits, hdigits, rfl⟩
      · exact Nat.zero_le _
      · exact Nat.succ_le_succ (hdigits.2.1 3 rfl)
    rw [htext]
    simp
    omega
  refine candidates_takes hU (show patterns = [.url, .email, .hash, .cve] ++ .technique :: _ from rfl)
    ?_ (by decide) (htext ▸ List.cons_ne_nil _ _) (takes_technique hU hstrip h)
  simp [quiet_url (hnot (by decide)), quiet_email (hnot (by decide)), quiet_hash hlen,
    quiet_cve (hnot (by decide))]

theorem candidates_ipv4 (hU : U.Words) (h : isIpv4 text = true) : candidates U patterns text = [text] := by
  have hnot : ∀ {c : Char}, c ∉ ipv4Chars → c ∉ text := fun hc hmem => hc (mem_ipv4Chars h _ hmem)
  have hgroups : ∀ g ∈ text.splitOn '.', g.length < 32 := by
    intro g hg
    simp only [isIpv4, Bool.and_eq_true, decide_eq_true_eq, List.all_eq_true] at h
    exact Nat.lt_of_le_of_lt ((octet_mem (h.2 g hg)).2.1 3 rfl) (by decide)
  have hhash : Quiet U text .hash := quiet_hash_of_splitOn (by decide) (by simp [isWord]) hgroups
  refine candidates_takes hU
    (show patterns = [.url, .email, .hash, .cve, .technique, .ipv6] ++ .ipv4 :: _ from rfl) ?_ (by decide) ?_
    (takes_ipv4 hU h)
  · simp [quiet_url (hnot (by decide)), quiet_email (hnot (by decide)), hhash,
      quiet_cve (hnot (by decide)), quiet_technique (hnot (by decide)),
      quiet_ipv6 (hnot (by decide))]
  · exact List.ne_nil_of_mem (dot_mem_of_isIpv4 h)

theorem ipv6_chars (h : isIpv6 text = true) (hout : WrittenOut text) :
    ∀ c ∈ text, c = ':' ∨ hexDigit.reads c = true := by
  intro c hc
  by_cases hcolon : c = ':'
  · exact .inl hcolon
  · obtain ⟨g, hg, hmem⟩ := mem_of_mem_splitOn hc hcolon
    exact .inr ((hextet_mem ((groups_of_isIpv6 h hout).2 g hg)).2.2 c hmem)

theorem candidates_ipv6 (hU : U.Words) (h : isIpv6 text = true) (hout : WrittenOut text) :
    candidates U patterns text = [text] := by
  obtain ⟨-, hgroups⟩ := groups_of_isIpv6 h hout
  have hnot : ∀ {c : Char}, c ≠ ':' → hexDigit.reads c = false → c ∉ text := fun hc hhex hmem =>
    (ipv6_chars h hout _ hmem).elim hc fun hread => Bool.false_ne_true (hhex.symm.trans hread)
  have hhash : Quiet U text .hash := by
    refine @quiet_hash_of_splitOn U text ':' (by decide) (by simp [isWord]) fun g hg => ?_
    exact Nat.lt_of_le_of_lt ((hextet_mem (hgroups g hg)).2.1 4 rfl) (by decide)
  refine candidates_takes hU
    (show patterns = [.url, .email, .hash, .cve, .technique] ++ .ipv6 :: _ from rfl) ?_ (by decide) ?_
    (takes_ipv6 hU h hout)
  · simp [quiet_url (hnot (by decide) (by decide)), quiet_email (hnot (by decide) (by decide)), hhash,
      quiet_cve (hnot (by decide) (by decide)), quiet_technique (hnot (by decide) (by decide))]
  · exact List.ne_nil_of_mem (colon_mem_of_isIpv6 h)

/-! ## Email addresses -/

theorem EmailParts.slash_notMem {name host tld : PyStr} (h : EmailParts text name host tld) :
    '/' ∉ text := by
  obtain ⟨rfl, hname, hhost, htld⟩ := h
  intro hmem
  rcases List.mem_append.mp hmem with hmem | hmem
  · exact absurd (hname.2.2 _ hmem) (by decide)
  · rcases List.mem_cons.mp hmem with heq | hmem
    · exact absurd heq (by decide)
    · rcases List.mem_append.mp hmem with hmem | hmem
      · exact absurd (hhost.2.2 _ hmem) (by decide)
      · rcases List.mem_cons.mp hmem with heq | hmem
        · exact absurd heq (by decide)
        · exact absurd (htld.2.2 _ hmem) (by decide)

theorem candidates_email (hU : U.Words) {name host tld : PyStr} (h : EmailParts text name host tld)
    (hhead : text.head?.any (isWord U) = true) : candidates U patterns text = [text] := by
  refine candidates_takes hU (show patterns = [.url] ++ .email :: _ from rfl) ?_ (by decide) ?_
    (takes_email hU h rfl hhead)
  · simp [quiet_url h.slash_notMem]
  · rw [h.eq]
    simp

/-- There is no match where no word begins. -/
theorem ends_email_nil {before rest : PyStr} (hbefore : before.head?.any (isWord U) = false)
    (hrest : rest.head?.any (isWord U) = false) : (Pattern.email.re U).ends ⟨before, rest⟩ = [] := by
  have hnone : (wordBoundary U).ends ⟨before, rest⟩ = [] := by
    simp [wordBoundary, ends, hbefore, hrest]
  exact ends_seq_nil hnone _

/-- The first word character of the name begins the match, and it takes
everything behind it; where the name has none, there is no match. -/
theorem head_of_found_email (hU : U.Words) {name host tld before : PyStr}
    (hname : ∀ c ∈ name, (alnumOr "._%+-".toList).reads c = true)
    (hhost : host ∈ runOf 1 none (alnumOr ".-".toList).reads)
    (htld : tld ∈ runOf 2 none letter.reads) (hbefore : before.head?.any (isWord U) = false)
    (hw : .found w ∈ (Pattern.email.re U).piecesFrom 0 before
      (name ++ ('@' :: (host ++ ('.' :: tld))))) : w.head?.any (isWord U) = true := by
  induction name generalizing before with
  | nil =>
      -- behind the `@` there is no other
      have hat : isWord U '@' = false := by simp [isWord]
      have hnone : (Pattern.email.re U).ends ⟨before, '@' :: (host ++ ('.' :: tld))⟩ = [] :=
        ends_email_nil hbefore hat
      rw [List.nil_append, piecesFrom_of_ends_nil hnone] at hw
      have hfound := (List.mem_cons.mp hw).resolve_left (by simp)
      obtain ⟨c, hc, rfl⟩ := exists_of_found (r := Pattern.email.re U) (p := (· = '@'))
        (.inr (.inr (.inl forces_lit))) hfound
      rcases List.mem_append.mp ((infix_of_found hfound).subset hc) with hmem | hmem
      · exact absurd (hhost.2.2 _ hmem) (by decide)
      · rcases List.mem_cons.mp hmem with heq | hmem
        · exact absurd heq (by decide)
        · exact absurd (htld.2.2 _ hmem) (by decide)
  | cons x name ih =>
      have hparts : EmailParts (x :: name ++ ('@' :: (host ++ ('.' :: tld)))) (x :: name) host tld :=
        ⟨rfl, ⟨by simp, by simp, hname⟩, hhost, htld⟩
      by_cases hx : isWord U x = true
      · have htake := takes_email hU hparts hbefore hx
        rw [piecesFrom_of_takes (by simp) htake, List.mem_singleton] at hw
        obtain rfl := Piece.found.inj hw
        exact hx
      · have hx' : isWord U x = false := by simpa using hx
        rw [List.cons_append, piecesFrom_of_ends_nil (ends_email_nil hbefore hx')] at hw
        have hnext : (x :: before).head?.any (isWord U) = false := hx'
        exact ih (fun c hc => hname c (List.mem_cons_of_mem x hc)) hnext
          ((List.mem_cons.mp hw).resolve_left (by simp))

end Extract

end ThreatIntel
