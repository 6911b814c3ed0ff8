import ThreatIntel.IndicatorFormats
import ThreatIntel.RegexFirst
import ThreatIntel.WhiteSpace

/-!
# Indicators the patterns find

Search patterns and classification have grammars of their own. For each of
the formats this says of which texts in it the search pattern takes the
whole (`Takes`): they begin and end where `\b` is, and the run that is
given back to reach the last dot is that of the classification.
-/

namespace ThreatIntel

open Indicators PyStr Regex

/-! ## Word characters -/

theorem sameFold_letter {p c : Char} (hp : isAsciiLower (foldCase p) = true)
    (h : sameFold p c = true) : ignoreCase isAsciiLower c = true := by
  have heq : foldCase p = foldCase c := by simpa [sameFold] using h
  rwa [heq] at hp

theorem isDecimal_of_isAsciiDigit {c : Char} (h : isAsciiDigit c = true) : isDecimal c = true := by
  have hrange : 48 ≤ c.toNat ∧ c.toNat < 48 + 10 := by
    grind [isAsciiDigit, Char.le_def, Char.toNat, UInt32.le_iff_toNat_le]
  exact List.any_eq_true.mpr ⟨0x30, by decide, by simpa using hrange⟩

/-- A digit folds to nothing else, and nothing else folds to a digit. -/
theorem isDecimal_of_ignoreCase {c : Char} (h : ignoreCase isAsciiDigit c = true) :
    isDecimal c = true := by
  have htable : ∀ kv ∈ caseTable, isAsciiDigit kv.2 = isAsciiDigit kv.1 := by decide
  rw [ignoreCase_eq htable] at h
  exact isDecimal_of_isAsciiDigit h

theorem Unicode.Words.alnum {U : Unicode} (hU : U.Words) {c : Char}
    (h : (alnumOr []).reads c = true) : isWord U c = true := by
  have hcases : isAsciiLower (foldCase c) = true ∨ isAsciiDigit (foldCase c) = true := by
    simpa [alnumOr, reads, ignoreCase] using h
  exact hcases.elim (hU.letter c) fun hdigit => hU.decimal c (isDecimal_of_ignoreCase hdigit)

theorem alnum_of_hex {c : Char} (h : hexDigit.reads c = true) : (alnumOr []).reads c = true := by
  have hcases : ('a' ≤ foldCase c ∧ foldCase c ≤ 'f') ∨ isAsciiDigit (foldCase c) = true := by
    simpa [hexDigit, reads, ignoreCase] using h
  have hgoal : isAsciiLower (foldCase c) = true ∨ isAsciiDigit (foldCase c) = true := by
    refine hcases.imp_left fun hrange => ?_
    grind [isAsciiLower, Char.le_def, UInt32.le_iff_toNat_le]
  simpa [alnumOr, reads, ignoreCase] using hgoal

namespace Extract

variable {U : Unicode} {text w before rest : PyStr}

/-- `\b` before a text that begins with a word character. -/
theorem takes_start {r : Regex Char} (hbefore : before.head?.any (isWord U) = false)
    (hhead : text.head?.any (isWord U) = true) (h : Takes r.ends text before []) :
    Takes (seq (wordBoundary U) r).ends text before [] := by
  have hfirst : Takes (wordBoundary U).ends [] before (text ++ []) :=
    takes_assert (by simp [hbefore, hhead])
  exact takes_seq hfirst h

/-- `\b` behind a text that ends in a word character. -/
theorem takes_end {r : Regex Char} (hlast : ∃ c, w.getLast? = some c ∧ isWord U c = true)
    (h : Takes r.ends w before []) : Takes (seq r (wordBoundary U)).ends w before [] := by
  obtain ⟨c, hc, hword⟩ := hlast
  have hne : w ≠ [] := by
    rintro rfl
    cases hc
  have hhead : (w.reverse ++ before).head? = some c := by
    rw [List.head?_append_of_ne_nil _ (by simpa using hne), List.head?_reverse, hc]
  have hend : Takes (wordBoundary U).ends [] (w.reverse ++ before) [] :=
    takes_assert (by simp [hhead, hword])
  have hboth := takes_seq (w := []) (by simpa using h) hend
  rwa [List.append_nil] at hboth

/-- A run of word characters ends in one. -/
theorem exists_last {p : Char → Bool} {lo : Nat} {hi : Option Nat} (hlo : 0 < lo)
    (hw : w ∈ runOf lo hi p) (hp : ∀ c, p c = true → isWord U c = true) :
    ∃ c, w.getLast? = some c ∧ isWord U c = true :=
  (getLast?_of_run hw hlo).imp fun c hc => ⟨hc.1, hp c hc.2⟩

theorem any_head {p : Char → Bool} {lo : Nat} {hi : Option Nat} (hlo : 0 < lo)
    (hw : w ∈ runOf lo hi p) (hp : ∀ c, p c = true → isWord U c = true) :
    w.head?.any (isWord U) = true := by
  obtain ⟨x, u, rfl⟩ := List.exists_cons_of_ne_nil
    (List.ne_nil_of_length_pos (Nat.lt_of_lt_of_le hlo hw.1))
  exact hp x (hw.2.2 x List.mem_cons_self)

/-! ## Classification -/

theorem isMatch_bol (r : Regex Char) : (seq bol r).isMatch text = r.isMatch text := by
  simp [isMatch, ends, bol]

/-- A text in a format is a text of its language: there is no newline behind
it. -/
theorem mem_of_isMatch {L : Language Char} {r : Regex Char}
    (hr : FindsTo (fun c => AtEnd c.after) L r.ends) (hstrip : text.strip = text)
    (hm : r.isMatch text = true) : text ∈ L := by
  obtain ⟨w, hw, rest, rfl, hend | hend⟩ := hr.isMatch_iff.mp hm
  · obtain rfl : rest = [] := hend
    rwa [List.append_nil]
  · obtain rfl : rest = ['\n'] := hend
    exact absurd (by simp) (newline_not_last hstrip)

theorem mem_of_hashRe {n : Nat} (hstrip : text.strip = text) (hm : (hashRe n).isMatch text = true) :
    text ∈ runOf n (some n) hexDigit.reads := by
  have hL := mem_of_isMatch ((finds_run n (some n) _).then findsTo_eol) hstrip
    ((isMatch_bol _).symm.trans hm)
  rwa [mul_one] at hL

/-! ## Hashes -/

theorem takes_hashRun (hU : U.Words) {n : Nat} (hn : 0 < n)
    (hhex : text ∈ runOf n (some n) hexDigit.reads) :
    Takes (hashRunRe U n).ends text [] [] := by
  have hword : ∀ c, hexDigit.reads c = true → isWord U c = true := fun c hc =>
    hU.alnum (alnum_of_hex hc)
  exact takes_start rfl (any_head hn hhex hword)
    (takes_end (exists_last hn hhex hword) (takes_times hhex))

/-- What a search for so many hexadecimal digits passes. -/
theorem within_hashRun (U : Unicode) (n : Nat) :
    Within (runOf n (some n) hexDigit.reads) (hashRunRe U n).ends := by
  have h : Within (1 * (runOf n (some n) hexDigit.reads * 1)) (hashRunRe U n).ends :=
    (within_assert _).seq ((finds_run n (some n) _).within.seq (within_assert _))
  rwa [one_mul, mul_one] at h

theorem hashRun_ends_nil {n : Nat} (hlen : rest.length < n) :
    (hashRunRe U n).ends ⟨before, rest⟩ = [] := by
  refine List.eq_nil_iff_forall_not_mem.mpr fun c' hc' => ?_
  obtain ⟨w, hw, hpast⟩ := within_hashRun U n _ c' hc'
  have hfew := hpast.length_le
  have hmany : n ≤ w.length := hw.1
  dsimp only at hfew
  omega

theorem takes_hash (hU : U.Words) {t : IOCType} (hstrip : text.strip = text)
    (h : hashType text = some t) : Takes (Pattern.hash.re U).ends text [] [] := by
  have hrun : ∀ n, 0 < n → (hashRe n).isMatch text = true →
      text.length = n ∧ Takes (hashRunRe U n).ends text [] [] := by
    intro n hn hm
    have hhex := mem_of_hashRe hstrip hm
    exact ⟨Nat.le_antisymm (by simpa using hhex.2.1 n rfl) hhex.1, takes_hashRun hU hn hhex⟩
  unfold hashType at h
  split at h
  · next hm =>
      obtain ⟨hlen, htake⟩ := hrun 32 (by decide) hm
      have hlong : ∀ n, 32 < n → (hashRunRe U n).ends ⟨[], text ++ []⟩ = [] := fun n hn =>
        hashRun_ends_nil (by simpa [hlen] using hn)
      exact takes_alt_of_ends_nil (hlong 64 (by decide))
        (takes_alt_of_ends_nil (hlong 40 (by decide)) htake)
  · split at h
    · next hm =>
        obtain ⟨hlen, htake⟩ := hrun 40 (by decide) hm
        have hlong : (hashRunRe U 64).ends ⟨[], text ++ []⟩ = [] :=
          hashRun_ends_nil (by simp [hlen])
        exact takes_alt_of_ends_nil hlong (takes_alt htake _)
    · split at h
      · next hm => exact takes_alt (hrun 64 (by decide) hm).2 _
      · cases h

/-! ## CVE and technique ids -/

theorem parts_of_cveRe (hstrip : text.strip = text) (hm : cveRe.isMatch text = true) :
    ∃ head year number, text = head ++ (year ++ ('-' :: number)) ∧
      head ∈ inEach ("cve-".toList.map sameFold) ∧ year ∈ runOf 4 (some 4) isDecimal ∧
      number ∈ runOf 4 (some 7) isDecimal := by
  have hdash : Finds (oneOf fun x => decide (x = '-')) (lit '-').ends := finds_cls _
  have hL := mem_of_isMatch ((finds_classes ("cve-".toList.map sameFold)).then
    ((finds_run 4 (some 4) _).then (hdash.then
      ((finds_run 4 (some 7) _).then findsTo_eol)))) hstrip ((isMatch_bol _).symm.trans hm)
  obtain ⟨head, hhead, u, hu, rfl⟩ := Language.mem_mul.mp hL
  obtain ⟨year, hyear, v, hv, rfl⟩ := Language.mem_mul.mp hu
  obtain ⟨_, ⟨x, hx, rfl⟩, number, hnumber, rfl⟩ := Language.mem_mul.mp hv
  obtain rfl : x = '-' := of_decide_eq_true hx
  rw [mul_one] at hnumber
  exact ⟨head, year, number, rfl, hhead, hyear, hnumber⟩

theorem takes_cve (hU : U.Words) (hstrip : text.strip = text) (hm : cveRe.isMatch text = true) :
    Takes (Pattern.cve.re U).ends text [] [] := by
  obtain ⟨head, year, number, rfl, hhead, hyear, hnumber⟩ := parts_of_cveRe hstrip hm
  have hword : (head ++ (year ++ ('-' :: number))).head?.any (isWord U) = true := by
    obtain ⟨x, u, hx, -, rfl⟩ := List.forall₂_cons_left_iff.mp hhead
    exact hU.letter x (sameFold_letter (by decide) hx)
  exact takes_start rfl hword (takes_seq (takes_classes hhead _ _)
    (takes_seq (takes_times hyear) (takes_seq (v := ['-']) (takes_lit '-' _ _)
      (takes_end (exists_last (by decide) hnumber hU.decimal)
        (takes_run hnumber (by simp) (.inr (by simp)))))))

theorem parts_of_techniqueRe (hstrip : text.strip = text) (hm : techniqueRe.isMatch text = true) :
    ∃ year sub, text = 'T' :: (year ++ sub) ∧ year ∈ runOf 4 (some 4) isDecimal ∧
      (sub = [] ∨ ∃ digits ∈ runOf 3 (some 3) isDecimal, sub = '.' :: digits) := by
  have hcap : Finds (oneOf fun x => decide (x = 'T')) (lit 'T').ends := finds_cls _
  have hdot : Finds (oneOf fun x => decide (x = '.')) (lit '.').ends := finds_cls _
  have hL := mem_of_isMatch (hcap.then ((finds_run 4 (some 4) _).then
    ((finds_rep (finds_seq hdot (finds_run 3 (some 3) isDecimal)) 0 (some 1) nofun).then
      findsTo_eol))) hstrip ((isMatch_bol _).symm.trans hm)
  obtain ⟨_, ⟨x, hx, rfl⟩, u, hu, rfl⟩ := Language.mem_mul.mp hL
  obtain ⟨year, hyear, sub, hsub, rfl⟩ := Language.mem_mul.mp hu
  obtain rfl : x = 'T' := of_decide_eq_true hx
  rw [mul_one] at hsub
  obtain ⟨n, -, hn, hsub⟩ := hsub
  refine ⟨year, sub, rfl, hyear, ?_⟩
  have hcases : n = 0 ∨ n = 1 := by
    have := hn 1 rfl
    omega
  rcases hcases with rfl | rfl
  · rw [pow_zero, Language.mem_one] at hsub
    exact .inl hsub
  · rw [pow_one] at hsub
    obtain ⟨_, ⟨y, hy, rfl⟩, digits, hdigits, rfl⟩ := Language.mem_mul.mp hsub
    obtain rfl : y = '.' := of_decide_eq_true hy
    exact .inr ⟨digits, hdigits, rfl⟩

theorem takes_technique (hU : U.Words) (hstrip : text.strip = text)
    (hm : techniqueRe.isMatch text = true) : Takes (Pattern.technique.re U).ends text [] [] := by
  obtain ⟨year, sub, rfl, hyear, hsub⟩ := parts_of_techniqueRe hstrip hm
  have hword : isWord U 'T' = true := by
    simp [isWord]
  refine takes_start rfl hword
    (takes_seq (v := ['T']) (w := year ++ sub) (takes_lit 'T' _ _) ?_)
  have hnone : ∀ before, (seq (lit '.') (times 3 digit)).ends ⟨before, []⟩ = [] := fun _ =>
    ends_eq_nil (.inl fun _ _ => trivial) (by simp)
  refine takes_assoc (takes_end ?_ ?_)
  · rcases hsub with rfl | ⟨digits, hdigits, rfl⟩
    · rw [List.append_nil]
      exact exists_last (by decide) hyear hU.decimal
    · obtain ⟨c, hc, hlast⟩ := exists_last (by decide) hdigits hU.decimal
      refine ⟨c, ?_, hlast⟩
      rw [List.getLast?_append, List.getLast?_cons, hc]
      rfl
  · refine takes_seq (takes_times hyear) ?_
    rcases hsub with rfl | ⟨digits, hdigits, rfl⟩
    · exact takes_opt_of_ends_nil (hnone _)
    · exact takes_opt (takes_seq (v := ['.']) (takes_lit '.' _ _) (takes_times hdigits))

/-! ## Addresses -/

section Groups

variable {p : Char → Bool} {sep : Char} {n : Nat} {groups : List PyStr}

/-- One group and the separator behind it. -/
theorem takes_group (hn : 1 ≤ n) (hsep : p sep = false) (hw : w ∈ runOf 1 (some n) p) :
    Takes (seq (between 1 n (cls p)) (lit sep)).ends (w ++ [sep]) before rest := by
  refine takes_seq (takes_run hw (by simpa using hn) (.inr fun x hx => ?_))
    (takes_lit sep _ _)
  obtain rfl : sep = x := by simpa using hx
  exact hsep

theorem takesAll_groups (hn : 1 ≤ n) (hsep : p sep = false)
    (hgroups : ∀ g ∈ groups, g ∈ runOf 1 (some n) p) :
    TakesAll (seq (between 1 n (cls p)) (lit sep)).ends (groups.map (· ++ [sep])) before rest := by
  induction groups generalizing before with
  | nil => exact .nil before rest
  | cons g groups ih =>
      exact .cons (takes_group hn hsep (hgroups g List.mem_cons_self))
        (ih fun h hh => hgroups h (List.mem_cons_of_mem g hh))

theorem intercalate_concat (sep : Char) (groups : List PyStr) (last : PyStr) :
    [sep].intercalate (groups ++ [last]) = (groups.map (· ++ [sep])).flatten ++ last := by
  induction groups with
  | nil => simp [List.intercalate]
  | cons g groups ih =>
      obtain ⟨h, t, ht⟩ := List.exists_cons_of_ne_nil
        (show groups ++ [last] ≠ [] by simp)
      rw [List.cons_append, ht, List.intercalate_cons_cons, ← ht, ih]
      simp

/-- Groups with separators between them, as many as there may be. -/
theorem takes_groups {lo hi : Nat} (hn : 1 ≤ n) (hsep : p sep = false)
    (hword : ∀ c, p c = true → isWord U c = true)
    (hgroups : ∀ g ∈ text.splitOn sep, g ∈ runOf 1 (some n) p)
    (hlen : (text.splitOn sep).length = hi + 1) (hlo : lo ≤ hi) :
    Takes (seqs [wordBoundary U, between lo hi (seq (between 1 n (cls p)) (lit sep)),
      between 1 n (cls p), wordBoundary U]).ends text [] [] := by
  obtain ⟨groups, last, hsplit⟩ : ∃ groups last, text.splitOn sep = groups ++ [last] := by
    rcases List.eq_nil_or_concat (text.splitOn sep) with hnil | ⟨groups, last, h⟩
    · simp [hnil] at hlen
    · exact ⟨groups, last, by simpa using h⟩
  have htext : text = (groups.map (· ++ [sep])).flatten ++ last := by
    rw [← intercalate_concat, ← hsplit, List.intercalate_splitOn]
  rw [hsplit] at hgroups hlen
  have hlast : last ∈ runOf 1 (some n) p := hgroups last (by simp)
  have hcount : groups.length = hi := by simpa using hlen
  have hhead : text.head?.any (isWord U) = true := by
    rw [htext]
    cases groups with
    | nil => simpa using any_head (U := U) Nat.one_pos hlast hword
    | cons g groups =>
        have hg : g ∈ runOf 1 (some n) p := hgroups g (by simp)
        obtain ⟨x, u, rfl⟩ := List.exists_cons_of_ne_nil (List.ne_nil_of_length_pos hg.1)
        exact hword x (hg.2.2 x List.mem_cons_self)
  refine takes_start rfl hhead (htext ▸ takes_seq ?_ (takes_end (exists_last Nat.one_pos hlast hword)
    (takes_run hlast (by simpa using hn) (.inr (by simp)))))
  refine takes_rep (takesAll_groups hn hsep fun g hg => hgroups g (by simp [hg])) ?_ ?_ ?_ (.inl ?_)
  · simp [hcount, hlo]
  · simp [hcount]
  · simp
  · simp [hcount]

end Groups

theorem octet_mem {s : PyStr} (h : isOctet s = true) : s ∈ runOf 1 (some 3) isDecimal := by
  simp only [isOctet, Bool.and_eq_true, decide_eq_true_eq, List.all_eq_true] at h
  obtain ⟨⟨⟨⟨hne, hdigits⟩, hlen⟩, -⟩, -⟩ := h
  refine ⟨List.length_pos_iff.mpr hne, fun m hm => ?_, fun c hc => ?_⟩
  · obtain rfl := Option.some.inj hm
    exact hlen
  · exact isDecimal_of_isAsciiDigit (hdigits c hc)

theorem takes_ipv4 (hU : U.Words) (h : isIpv4 text = true) :
    Takes (Pattern.ipv4.re U).ends text [] [] := by
  simp only [isIpv4, Bool.and_eq_true, decide_eq_true_eq, List.all_eq_true] at h
  exact takes_groups (by decide) (by decide) hU.decimal (fun g hg => octet_mem (h.2 g hg)) h.1
    (Nat.le_refl 3)

/-- The hexadecimal digits of an address are in the class of the pattern. -/
theorem hex_of_isHexDigit {c : Char} (h : isHexDigit c = true) : hexDigit.reads c = true := by
  have htable : ∀ k < 128, isHexDigit (Char.ofNat k) = true → hexDigit.reads (Char.ofNat k) = true := by
    decide +kernel
  have hrange : c.toNat < 128 := by
    grind [isHexDigit, isAsciiDigit, Char.le_def, Char.toNat, UInt32.le_iff_toNat_le]
  have hcode := htable c.toNat hrange
  rw [c.ofNat_toNat] at hcode
  exact hcode h

theorem hextet_mem {s : PyStr} (h : isHextet s = true) : s ∈ runOf 1 (some 4) hexDigit.reads := by
  simp only [isHextet, Bool.and_eq_true, decide_eq_true_eq, List.all_eq_true] at h
  obtain ⟨⟨hne, hdigits⟩, hlen⟩ := h
  refine ⟨List.length_pos_iff.mpr hne, fun m hm => ?_, fun c hc => hex_of_isHexDigit (hdigits c hc)⟩
  obtain rfl := Option.some.inj hm
  exact hlen

/-- An address with all of its groups: no group is empty, none is written as
an IPv4 address, and there is no scope. -/
def WrittenOut (text : PyStr) : Prop := [] ∉ text.splitOn ':' ∧ '.' ∉ text ∧ '%' ∉ text

instance (text : PyStr) : Decidable (WrittenOut text) := inferInstanceAs (Decidable (_ ∧ _))

theorem mem_intercalate {sep : PyStr} {groups : List PyStr} {g : PyStr} {c : Char}
    (hg : g ∈ groups) (hc : c ∈ g) : c ∈ sep.intercalate groups := by
  induction groups with
  | nil => exact absurd hg List.not_mem_nil
  | cons h groups ih =>
      cases groups with
      | nil =>
          obtain rfl : g = h := by simpa using hg
          simpa [List.intercalate] using hc
      | cons k groups =>
          rw [List.intercalate_cons_cons]
          rcases List.mem_cons.mp hg with rfl | hg
          · simp [hc]
          · exact List.mem_append_right _ (ih hg)

theorem mem_of_mem_group {sep c : Char} {g : PyStr} (hg : g ∈ text.splitOn sep) (hc : c ∈ g) :
    c ∈ text := by
  have htext : [sep].intercalate (text.splitOn sep) = text := List.intercalate_splitOn sep
  rw [← htext]
  exact mem_intercalate hg hc

theorem groups_of_isIpv6 (h : isIpv6 text = true) (hout : WrittenOut text) :
    (text.splitOn ':').length = 8 ∧ ∀ g ∈ text.splitOn ':', isHextet g = true := by
  obtain ⟨hfull, hdot, hscope⟩ := hout
  have haddress : text.takeWhile (· ≠ '%') = text :=
    List.takeWhile_eq_self_iff.mpr fun c hc => decide_eq_true fun heq => hscope (heq ▸ hc)
  have h6 : isIpv6Address text = true := by
    simp only [isIpv6, haddress, Bool.and_eq_true] at h
    exact h.2
  have hparts : ipv6Parts? text = some (text.splitOn ':') := by
    simp only [ipv6Parts?]
    split
    · next last hlast =>
        rw [if_neg fun hmem => hdot (mem_of_mem_group (List.mem_of_getLast? hlast) hmem)]
    · rfl
  have hskip : (List.range' 1 ((text.splitOn ':').length - 2)).filter
      (fun i => (text.splitOn ':').getD i [] = []) = [] := by
    refine List.filter_eq_nil_iff.mpr fun i hi => ?_
    have hlt : i < (text.splitOn ':').length := by
      have := List.mem_range'_1.mp hi
      omega
    rw [List.getD_eq_getElem?_getD, List.getElem?_eq_getElem hlt, Option.getD_some,
      decide_eq_true_eq]
    exact fun hnil => hfull (hnil ▸ List.getElem_mem hlt)
  unfold isIpv6Address at h6
  simp only [hparts, hskip] at h6
  split at h6
  · cases h6
  · split at h6
    · cases h6
    · simpa using h6

theorem takes_ipv6 (hU : U.Words) (h : isIpv6 text = true) (hout : WrittenOut text) :
    Takes (Pattern.ipv6.re U).ends text [] [] := by
  obtain ⟨hlen, hgroups⟩ := groups_of_isIpv6 h hout
  exact takes_groups (by decide) (by decide) (fun c hc => hU.alnum (alnum_of_hex hc))
    (fun g hg => hextet_mem (hgroups g hg)) hlen (by decide)

/-! ## Email addresses -/

/-- The parts of an email address: the last dot is the one before the
top-level domain. -/
structure EmailParts (text name host tld : PyStr) : Prop where
  eq : text = name ++ ('@' :: (host ++ ('.' :: tld)))
  name : name ∈ runOf 1 none (alnumOr "._%+-".toList).reads
  host : host ∈ runOf 1 none (alnumOr ".-".toList).reads
  tld : tld ∈ runOf 2 none letter.reads

theorem parts_of_emailRe (hstrip : text.strip = text) (hm : emailRe.isMatch text = true) :
    ∃ name host tld, EmailParts text name host tld := by
  have hat : Finds (oneOf fun x => decide (x = '@')) (lit '@').ends := finds_cls _
  have hdot : Finds (oneOf fun x => decide (x = '.')) (lit '.').ends := finds_cls _
  have hL := mem_of_isMatch ((finds_run 1 none _).then (hat.then ((finds_run 1 none _).then
    (hdot.then ((finds_run 2 none _).then findsTo_eol))))) hstrip ((isMatch_bol _).symm.trans hm)
  obtain ⟨name, hname, u, hu, rfl⟩ := Language.mem_mul.mp hL
  obtain ⟨_, ⟨a, ha, rfl⟩, v, hv, rfl⟩ := Language.mem_mul.mp hu
  obtain ⟨host, hhost, w, hw, rfl⟩ := Language.mem_mul.mp hv
  obtain ⟨_, ⟨d, hd, rfl⟩, tld, htld, rfl⟩ := Language.mem_mul.mp hw
  obtain rfl : a = '@' := of_decide_eq_true ha
  obtain rfl : d = '.' := of_decide_eq_true hd
  rw [mul_one] at htld
  exact ⟨name, host, tld, rfl, hname, hhost, htld⟩

theorem letter_host {c : Char} (h : letter.reads c = true) :
    (alnumOr ".-".toList).reads c = true := by
  have hlower : isAsciiLower (foldCase c) = true := h
  simp [alnumOr, reads, ignoreCase, hlower]

/-- The host is read up to the end and given back up to its last dot. -/
theorem takes_email (hU : U.Words) {name host tld : PyStr} (h : EmailParts text name host tld)
    (hbefore : before.head?.any (isWord U) = false) (hhead : text.head?.any (isWord U) = true) :
    Takes (Pattern.email.re U).ends text before [] := by
  obtain ⟨rfl, hname, hhost, htld⟩ := h
  have hletter : ∀ y z, '.' :: tld = y ++ z → y ≠ [] → ∀ c, (z ++ []).head? = some c → c ≠ '.' := by
    intro y z heq hy c hc
    obtain ⟨x, y, rfl⟩ := List.exists_cons_of_ne_nil hy
    have htail : tld = y ++ z := (List.cons.inj heq).2
    have hmem : c ∈ tld := by
      rw [htail]
      exact List.mem_append_right _ (List.mem_of_head? (by simpa using hc))
    rintro rfl
    exact absurd (htld.2.2 '.' hmem) (by decide)
  have hrest : Takes (seq (plus (alnumOr ".-".toList)) (seqs [lit '.', rep 2 none letter,
      wordBoundary U])).ends (host ++ '.' :: tld) ('@' :: (name.reverse ++ before)) [] := by
    refine takes_giveBack (fun c hc => ?_) hhost.1 nofun (.inr (by simp)) (fun y z heq hy => ?_) ?_
    · rcases List.mem_append.mp hc with hc | hc
      · exact hhost.2.2 c hc
      · rcases List.mem_cons.mp hc with rfl | hc
        · decide
        · exact letter_host (htld.2.2 c hc)
    · refine ends_seq_nil (ends_eq_nil (r := lit '.') (fun _ _ => trivial) fun c hc => ?_) _
      exact decide_eq_false (hletter y z heq hy c hc)
    · exact takes_seq (v := ['.']) (takes_lit '.' _ _) (takes_end (exists_last (by decide) htld hU.letter)
        (takes_run htld nofun (.inr (by simp))))
  refine takes_start hbefore hhead (takes_seq (takes_run hname nofun (.inr fun c hc => ?_))
    (takes_seq (v := ['@']) (takes_lit '@' _ _) hrest))
  obtain rfl : '@' = c := by simpa using hc
  decide

end Extract

end ThreatIntel
