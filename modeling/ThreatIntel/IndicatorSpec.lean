import ThreatIntel.Indicators

/-!
# What refanging and classification do

Refanging first: what one pass achieves (`Refanged`), and that a second
one changes the text exactly if a token is left. Then the formats: the
alphabet of each, and that those matched in any case do not see a change
of case. `Recognised` is what a value is recognised as, format by format:
it is the relational reading of `classifyValue`, and later proofs go
through its cases.
-/

namespace ThreatIntel

namespace Indicators

/-! ## One pass of refanging -/

/-- How a token is compared with the text. -/
def tokenSim (token : PyStr) : Char → Char → Bool :=
  if isSchemeToken token then PyStr.sameFold else PyStr.sameChar

def tokenOccurs (token text : PyStr) : Bool := Rewrite.occurs (tokenSim token) token text

/-- A defang token is still there. -/
def leftover (text : PyStr) : Bool := refangReplacements.any fun tr => tokenOccurs tr.1 text

theorem rewrite_eq (text : PyStr) (tr : PyStr × PyStr) :
    rewrite text tr = Rewrite.replace (tokenSim tr.1) tr.1 tr.2 text := by
  unfold rewrite tokenSim
  split <;> rfl

theorem leftover_eq_false_iff {text : PyStr} :
    leftover text = false ↔ ∀ tr ∈ refangReplacements, tokenOccurs tr.1 text = false := by
  simp [leftover]

theorem foldl_rewrite_eq_self {trs : List (PyStr × PyStr)} {text : PyStr}
    (h : ∀ tr ∈ trs, tokenOccurs tr.1 text = false) : trs.foldl rewrite text = text := by
  induction trs with
  | nil => rfl
  | cons tr trs ih =>
      have hself : rewrite text tr = text := by
        rw [rewrite_eq]
        exact Rewrite.replace_of_not_occurs _ (h tr List.mem_cons_self)
      rw [List.foldl_cons, hself]
      exact ih fun tr' h' => h tr' (List.mem_cons_of_mem _ h')

theorem length_foldl_rewrite_le {trs : List (PyStr × PyStr)}
    (hlen : ∀ tr ∈ trs, tr.2.length ≤ tr.1.length) (text : PyStr) :
    (trs.foldl rewrite text).length ≤ text.length := by
  induction trs generalizing text with
  | nil => exact le_refl _
  | cons tr trs ih =>
      have hhead : (rewrite text tr).length ≤ text.length := by
        rw [rewrite_eq]
        exact Rewrite.length_replace_le (hlen tr List.mem_cons_self) text
      exact (ih (fun tr' h' => hlen tr' (List.mem_cons_of_mem _ h')) _).trans hhead

/-- Rewrites that shorten the text where they apply and do not shorten
it do not apply. -/
theorem not_tokenOccurs_of_length {trs : List (PyStr × PyStr)} {text : PyStr}
    (hle : ∀ tr ∈ trs, tr.2.length ≤ tr.1.length)
    (hlt : ∀ tr ∈ trs, tokenOccurs tr.1 text = false ∨ tr.2.length < tr.1.length)
    (hlen : text.length ≤ (trs.foldl rewrite text).length) :
    ∀ tr ∈ trs, tokenOccurs tr.1 text = false := by
  induction trs with
  | nil => exact fun tr h => absurd h List.not_mem_nil
  | cons tr trs ih =>
      have hrest := fun text' => length_foldl_rewrite_le
        (fun tr' h' => hle tr' (List.mem_cons_of_mem tr h')) text'
      have hhead : tokenOccurs tr.1 text = false := by
        by_contra hocc
        have hocc' : tokenOccurs tr.1 text = true := by simpa using hocc
        have hshort := Rewrite.length_replace_lt
          ((hlt tr List.mem_cons_self).resolve_left hocc) hocc'
        rw [← rewrite_eq] at hshort
        have := hrest (rewrite text tr)
        rw [List.foldl_cons] at hlen
        omega
      have hself : rewrite text tr = text := by
        rw [rewrite_eq]
        exact Rewrite.replace_of_not_occurs _ hhead
      rw [List.foldl_cons, hself] at hlen
      intro tr' h'
      rcases List.mem_cons.mp h' with rfl | h'
      · exact hhead
      · exact ih (fun t ht => hle t (List.mem_cons_of_mem _ ht))
          (fun t ht => hlt t (List.mem_cons_of_mem _ ht)) hlen tr' h'

/-- A pattern that none of the replacement texts can complete stays
absent. -/
theorem not_occurs_foldl {sim : Char → Char → Bool} {pat : PyStr} (hpat : pat ≠ [])
    {trs : List (PyStr × PyStr)} (hsep : ∀ tr ∈ trs, Rewrite.separates sim pat tr.2 = true)
    {text : PyStr} (h : Rewrite.occurs sim pat text = false) :
    Rewrite.occurs sim pat (trs.foldl rewrite text) = false := by
  induction trs generalizing text with
  | nil => exact h
  | cons tr trs ih =>
      refine ih (fun tr' h' => hsep tr' (List.mem_cons_of_mem _ h')) ?_
      rw [rewrite_eq]
      exact Rewrite.occurs_replace hpat (hsep tr List.mem_cons_self) h

/-- A token that no replacement text can complete is absent after the
pass. -/
theorem not_tokenOccurs_foldl {trs : List (PyStr × PyStr)} {tr : PyStr × PyStr} (h : tr ∈ trs)
    (hne : tr.1 ≠ []) (hsep : ∀ t ∈ trs, Rewrite.separates (tokenSim tr.1) tr.1 t.2 = true)
    (text : PyStr) : tokenOccurs tr.1 (trs.foldl rewrite text) = false := by
  induction trs generalizing text with
  | nil => exact absurd h List.not_mem_nil
  | cons t trs ih =>
      have hrest := fun t' (h' : t' ∈ trs) => hsep t' (List.mem_cons_of_mem _ h')
      rcases List.mem_cons.mp h with rfl | h
      · refine not_occurs_foldl hne hrest ?_
        rw [rewrite_eq]
        exact Rewrite.occurs_replace_self hne (hsep tr List.mem_cons_self) text
      · exact ih h hrest _

/-! ## Refanging -/

@[simp] theorem strip_refang (raw : PyStr) : (refang raw).strip = refang raw :=
  PyStr.strip_strip _

/-- The scheme tokens are gone after one pass. -/
theorem not_schemeToken_refang {tr : PyStr × PyStr} (h : tr ∈ refangReplacements)
    (hscheme : isSchemeToken tr.1 = true) (raw : PyStr) : tokenOccurs tr.1 (refang raw) = false := by
  have htable : ∀ tr ∈ refangReplacements, isSchemeToken tr.1 = true →
      tr.1 ≠ [] ∧
        ∀ t ∈ refangReplacements, Rewrite.separates (tokenSim tr.1) tr.1 t.2 = true := by
    decide
  obtain ⟨hne, hsep⟩ := htable tr h hscheme
  have hfold := not_tokenOccurs_foldl h hne hsep raw.strip
  refine Bool.eq_false_iff.mpr fun hocc => ?_
  have hbefore := Rewrite.occurs_of_isInfix (PyStr.strip_isInfix _) hocc
  exact Bool.false_ne_true (hfold.symm.trans hbefore)

theorem refang_of_stripped {text : PyStr} (h : text.strip = text) :
    refang text = (refangReplacements.foldl rewrite text).strip := by
  rw [refang, h]

theorem refang_eq_self {text : PyStr} (hstrip : text.strip = text)
    (hleft : leftover text = false) : refang text = text := by
  rw [refang_of_stripped hstrip, foldl_rewrite_eq_self (leftover_eq_false_iff.mp hleft), hstrip]

/-- Without scheme tokens every rewrite that applies shortens the text, so
a text that refanging leaves as it is has no token in it. -/
theorem not_leftover_of_refang_eq_self {text : PyStr} (hstrip : text.strip = text)
    (hscheme : ∀ tr ∈ refangReplacements, isSchemeToken tr.1 = true →
      tokenOccurs tr.1 text = false)
    (h : refang text = text) : leftover text = false := by
  have htable : ∀ tr ∈ refangReplacements, tr.2.length ≤ tr.1.length ∧
      (isSchemeToken tr.1 = true ∨ tr.2.length < tr.1.length) := by
    decide
  rw [refang_of_stripped hstrip] at h
  have hlen := (PyStr.strip_isInfix (refangReplacements.foldl rewrite text)).length_le
  rw [h] at hlen
  exact leftover_eq_false_iff.mpr (not_tokenOccurs_of_length (fun tr htr => (htable tr htr).1)
    (fun tr htr => (htable tr htr).2.imp_left (hscheme tr htr)) hlen)

/-- What one pass achieves: nothing to strip, and no scheme token. -/
structure Refanged (text : PyStr) : Prop where
  strip : text.strip = text
  scheme : ∀ tr ∈ refangReplacements, isSchemeToken tr.1 = true → tokenOccurs tr.1 text = false

theorem refanged_refang (raw : PyStr) : Refanged (refang raw) :=
  ⟨strip_refang raw, fun _ h hscheme => not_schemeToken_refang h hscheme raw⟩

/-- A second pass changes the text exactly if there is a token left. -/
theorem Refanged.refang_iff {text : PyStr} (h : Refanged text) :
    refang text = text ↔ leftover text = false :=
  ⟨not_leftover_of_refang_eq_self h.strip h.scheme, refang_eq_self h.strip⟩

theorem mem_foldl_rewrite {trs : List (PyStr × PyStr)} {text : PyStr} {c : Char}
    (h : c ∈ trs.foldl rewrite text) : c ∈ text ∨ ∃ tr ∈ trs, c ∈ tr.2 := by
  induction trs generalizing text with
  | nil => exact .inl h
  | cons tr trs ih =>
      rcases ih h with h | ⟨t, ht, hc⟩
      · rw [rewrite_eq] at h
        rcases Rewrite.mem_replace h with h | h
        · exact .inl h
        · exact .inr ⟨tr, List.mem_cons_self, h⟩
      · exact .inr ⟨t, List.mem_cons_of_mem _ ht, hc⟩

/-- Refanging brings in no character but those of the replacement texts. -/
theorem mem_of_mem_refang {text : PyStr} {c : Char}
    (hc : ∀ tr ∈ refangReplacements, c ∉ tr.2) (h : c ∈ refang text) : c ∈ text := by
  rcases mem_foldl_rewrite ((PyStr.strip_isInfix _).subset h) with h | ⟨tr, htr, hmem⟩
  · exact (PyStr.strip_isInfix _).subset h
  · exact absurd hmem (hc tr htr)

/-! ## Texts without defang punctuation -/

/-- The spaces and the characters that begin a defang token other than a
scheme. -/
def notPlain : List Char := PyStr.spaces.map Char.ofNat ++ ['[', '(', '\x7b', '\\']

def plain (c : Char) : Bool := !notPlain.contains c

theorem not_isSpace_of_plain {c : Char} (h : plain c = true) : PyStr.isSpace c = false := by
  refine Bool.eq_false_iff.mpr fun hspace => ?_
  have hmem : c ∈ notPlain := by
    have hcode : c.toNat ∈ PyStr.spaces := by simpa [PyStr.isSpace] using hspace
    exact List.mem_append_left _ (List.mem_map.mpr ⟨c.toNat, hcode, c.ofNat_toNat⟩)
  simp [plain, hmem] at h

/-- A change of case: the representative of a character stays. -/
def FoldsTo (f : Char → Char) : Prop := ∀ c, PyStr.foldCase (f c) = PyStr.foldCase c

theorem foldsTo_lowerOne : FoldsTo PyStr.lowerOne := PyStr.foldCase_lowerOne

theorem foldsTo_upperOne : FoldsTo PyStr.upperOne := PyStr.foldCase_upperOne

section ChangeOfCase

variable {f : Char → Char}

/-- A test that takes a letter in any case does not see a change of case. -/
theorem FoldsTo.test {q : Char → Bool} (hf : FoldsTo f)
    (hq : ∀ kv ∈ PyStr.caseTable, q kv.2 = q kv.1) (c : Char) : q (f c) = q c := by
  rw [← PyStr.ignoreCase_eq hq, ← PyStr.ignoreCase_eq hq c, PyStr.ignoreCase, hf c]
  rfl

theorem FoldsTo.ignoreCase (hf : FoldsTo f) (q : Char → Bool) (c : Char) :
    PyStr.ignoreCase q (f c) = PyStr.ignoreCase q c := by
  rw [PyStr.ignoreCase, hf c]
  rfl

theorem FoldsTo.sameFold (hf : FoldsTo f) (p c : Char) :
    PyStr.sameFold p (f c) = PyStr.sameFold p c := by
  rw [PyStr.sameFold, hf c]
  rfl

theorem FoldsTo.plain (hf : FoldsTo f) (c : Char) : Indicators.plain (f c) = Indicators.plain c :=
  hf.test (by decide) c

/-- A change of case in a text without defang punctuation brings no token
in. -/
theorem not_leftover_map (hf : FoldsTo f) {text : PyStr} (hplain : ∀ c ∈ text, plain c = true)
    (hscheme : ∀ tr ∈ refangReplacements, isSchemeToken tr.1 = true →
      tokenOccurs tr.1 text = false) : leftover (text.map f) = false := by
  refine leftover_eq_false_iff.mpr fun tr htr => ?_
  by_cases hkind : isSchemeToken tr.1 = true
  · have hsim : tokenSim tr.1 = PyStr.sameFold := by rw [tokenSim, if_pos hkind]
    have hbefore := hscheme tr htr hkind
    rw [tokenOccurs, hsim] at hbefore ⊢
    rwa [Rewrite.occurs_map hf.sameFold]
  · have hpunct : ∀ tr ∈ refangReplacements, isSchemeToken tr.1 = false →
        tr.1.any (!plain ·) = true := by decide
    obtain ⟨p, hp, hpp⟩ := List.any_eq_true.mp (hpunct tr htr (by simpa using hkind))
    refine Bool.eq_false_iff.mpr fun hocc => ?_
    obtain ⟨d, hd, hsame⟩ := Rewrite.exists_of_occurs hocc hp
    obtain ⟨c, hc, rfl⟩ := List.mem_map.mp hd
    have hpc : p = f c := by simpa [tokenSim, hkind, PyStr.sameChar] using hsame
    simp [hpc, hf.plain, hplain c hc] at hpp

/-- A refanged text without defang punctuation stays canonical in another
case. -/
theorem Refanged.refang_map (hf : FoldsTo f) {text : PyStr} (h : Refanged text)
    (hplain : ∀ c ∈ text, Indicators.plain c = true) : refang (text.map f) = text.map f := by
  refine refang_eq_self (PyStr.strip_eq_self fun d hd => ?_) (not_leftover_map hf hplain h.scheme)
  obtain ⟨c, hc, rfl⟩ := List.mem_map.mp hd
  exact not_isSpace_of_plain (by rw [hf.plain, hplain c hc])

/-! ## Formats and case -/

theorem blind_eol (hf : FoldsTo f) : eol.Blind f := by
  intro before after
  have hnl : ∀ c, (f c = '\n') ↔ (c = '\n') := fun c => by
    have h := hf.test (q := fun c => c = '\n') (by decide) c
    simpa using h
  rcases after with _ | ⟨c, _ | ⟨d, after⟩⟩ <;> simp [hnl]

theorem blind_bol : bol.Blind f := by
  intro before after
  simp

theorem blind_hashRe (hf : FoldsTo f) (n : Nat) : (hashRe n).Blind f :=
  ⟨blind_bol, hf.ignoreCase _, blind_eol hf⟩

theorem blind_digit (hf : FoldsTo f) : digit.Blind f := hf.test (by decide)

theorem blind_lit (hf : FoldsTo f) {c : Char}
    (hc : ∀ kv ∈ PyStr.caseTable, decide (kv.2 = c) = decide (kv.1 = c)) :
    (Regex.lit c).Blind f :=
  hf.test (q := fun d => d = c) hc

theorem blind_cveRe (hf : FoldsTo f) : cveRe.Blind f :=
  ⟨blind_bol, ⟨hf.sameFold _, hf.sameFold _, hf.sameFold _, hf.sameFold _⟩, blind_digit hf,
    blind_lit hf (by decide), blind_digit hf, blind_eol hf⟩

theorem blind_emailRe (hf : FoldsTo f) : emailRe.Blind f :=
  ⟨blind_bol, hf.ignoreCase _, blind_lit hf (by decide), hf.ignoreCase _,
    blind_lit hf (by decide), hf.ignoreCase _, blind_eol hf⟩

theorem blind_domainRe (hf : FoldsTo f) : domainRe.Blind f :=
  ⟨blind_bol, ⟨hf.test (q := fun c => c ≠ '\n') (by decide), blind_eol hf⟩, blind_lit hf (by decide),
    ⟨hf.ignoreCase _, blind_lit hf (by decide)⟩, hf.ignoreCase _, blind_eol hf⟩

theorem hashType_map (hf : FoldsTo f) (text : PyStr) : hashType (text.map f) = hashType text := by
  have hn : ∀ n, (hashRe n).isMatch (text.map f) = (hashRe n).isMatch text := fun n =>
    Regex.isMatch_map (blind_hashRe hf n) text
  rw [hashType, hashType, md5Re, sha1Re, sha256Re, hn, hn, hn]

end ChangeOfCase

/-! ## Formats and their alphabets -/

/-- What `$` leaves. -/
def AtEnd (after : PyStr) : Prop := after = [] ∨ after = ['\n']

theorem atEnd_eol : eol.EndsBy AtEnd :=
  Regex.endsBy_assert fun before after h => by simpa [AtEnd] using h

theorem atEnd_hashRe (n : Nat) : (hashRe n).EndsBy AtEnd := (atEnd_eol.seq _).seq _

theorem atEnd_cveRe : cveRe.EndsBy AtEnd :=
  ((((atEnd_eol.seq _).seq _).seq _).seq _).seq _

theorem atEnd_techniqueRe : techniqueRe.EndsBy AtEnd :=
  (((atEnd_eol.seq _).seq _).seq _).seq _

theorem atEnd_emailRe : emailRe.EndsBy AtEnd :=
  (((((atEnd_eol.seq _).seq _).seq _).seq _).seq _).seq _

theorem atEnd_domainRe : domainRe.EndsBy AtEnd :=
  ((((atEnd_eol.seq _).seq _).seq _).seq _).seq _

/-- A stripped text that matches up to the end is over the alphabet of the
expression. -/
theorem reads_of_isMatch {r : Regex Char} (hr : r.EndsBy AtEnd) {text : PyStr}
    (hstrip : text.strip = text) (h : r.isMatch text = true) : ∀ c ∈ text, r.reads c = true := by
  obtain ⟨w, rest, htext, hw, hrest | hrest⟩ := Regex.split_of_isMatch hr h
  · rw [htext, hrest, List.append_nil]
    exact hw
  · -- a final newline would have been stripped
    have hlast : text.strip.getLast? = some '\n' := by
      rw [hstrip, htext, hrest, List.getLast?_append, List.getLast?_singleton]
      rfl
    exact absurd (PyStr.not_isSpace_of_getLast?_strip hlast) (by decide)

/-- The characters on a list are not among those of a matching text if the
alphabet has none of them. -/
theorem notMem_of_isMatch {r : Regex Char} (hr : r.EndsBy AtEnd) {text : PyStr}
    (hstrip : text.strip = text) (h : r.isMatch text = true) {c : Char}
    (hc : r.reads c = false) : c ∉ text := fun hmem =>
  Bool.false_ne_true (hc.symm.trans (reads_of_isMatch hr hstrip h c hmem))

theorem plain_of_isMatch {r : Regex Char} (hr : r.EndsBy AtEnd) {text : PyStr}
    (hstrip : text.strip = text) (h : r.isMatch text = true)
    (hplain : r.avoids notPlain = true) : ∀ c ∈ text, plain c = true := by
  intro c hc
  have hnot : c ∉ notPlain := fun hmem =>
    notMem_of_isMatch hr hstrip h (Regex.reads_of_avoids hplain hmem) hc
  simp [plain, hnot]

/-! ### Formats over plain characters -/

/-- A format that reads to the end of the text and in which no character
stands that refanging or lower-casing puts to use: no defang punctuation, no
combining dot, no colon. -/
structure PlainFormat (r : Regex Char) : Prop where
  atEnd : r.EndsBy AtEnd
  avoids : r.avoids notPlain = true
  dot : r.reads '\u0307' = false
  colon : r.reads ':' = false

namespace PlainFormat

variable {r : Regex Char} {text : PyStr}

theorem plain (hr : PlainFormat r) (hstrip : text.strip = text) (h : r.isMatch text = true) :
    ∀ c ∈ text, Indicators.plain c = true :=
  plain_of_isMatch hr.atEnd hstrip h hr.avoids

theorem dot_notMem (hr : PlainFormat r) (hstrip : text.strip = text) (h : r.isMatch text = true) :
    '\u0307' ∉ text :=
  notMem_of_isMatch hr.atEnd hstrip h hr.dot

theorem colon_notMem (hr : PlainFormat r) (hstrip : text.strip = text)
    (h : r.isMatch text = true) : ':' ∉ text :=
  notMem_of_isMatch hr.atEnd hstrip h hr.colon

end PlainFormat

theorem reads_hashRe {c : Char} (n : Nat) (h : hexDigit.reads c = false) :
    (hashRe n).reads c = false := by
  simpa [hashRe, Regex.seqs, Regex.reads, Regex.times, bol, eol] using h

theorem plainFormat_hashRe (n : Nat) : PlainFormat (hashRe n) := by
  have hhex : hexDigit.avoids notPlain = true := by decide +kernel
  refine ⟨atEnd_hashRe n, List.all_eq_true.mpr fun c hc => ?_, reads_hashRe n (by decide),
    reads_hashRe n (by decide)⟩
  rw [reads_hashRe n (Regex.reads_of_avoids hhex hc)]
  rfl

theorem plainFormat_cveRe : PlainFormat cveRe :=
  ⟨atEnd_cveRe, by decide +kernel, by decide +kernel, by decide +kernel⟩

theorem plainFormat_techniqueRe : PlainFormat techniqueRe :=
  ⟨atEnd_techniqueRe, by decide +kernel, by decide +kernel, by decide +kernel⟩

theorem plainFormat_emailRe : PlainFormat emailRe :=
  ⟨atEnd_emailRe, by decide +kernel, by decide +kernel, by decide +kernel⟩

theorem plainFormat_domainRe : PlainFormat domainRe :=
  ⟨atEnd_domainRe, by decide +kernel, by decide +kernel, by decide +kernel⟩

theorem isMatch_of_hashType {text : PyStr} {t : IOCType} (h : hashType text = some t) :
    ∃ n, (hashRe n).isMatch text = true := by
  unfold hashType at h
  split at h
  · next hm => exact ⟨32, hm⟩
  · split at h
    · next hm => exact ⟨40, hm⟩
    · split at h
      · next hm => exact ⟨64, hm⟩
      · cases h

theorem hashType_eq_none {text : PyStr} (hstrip : text.strip = text) {c : Char} (hc : c ∈ text)
    (hread : hexDigit.reads c = false) : hashType text = none := by
  cases h : hashType text with
  | none => rfl
  | some t =>
      obtain ⟨n, hn⟩ := isMatch_of_hashType h
      exact absurd hc (notMem_of_isMatch (atEnd_hashRe n) hstrip hn (reads_hashRe n hread))

theorem forces_techniqueRe : techniqueRe.Forces (· = 'T') :=
  .inr (.inl fun x h => by simpa using h)

theorem forces_emailRe : emailRe.Forces (· = '@') :=
  .inr (.inr (.inl fun x h => by simpa using h))

theorem mem_of_techniqueRe {text : PyStr} (h : techniqueRe.isMatch text = true) : 'T' ∈ text := by
  obtain ⟨c, hc, rfl⟩ := Regex.exists_of_isMatch forces_techniqueRe h
  exact hc

theorem mem_of_emailRe {text : PyStr} (h : emailRe.isMatch text = true) : '@' ∈ text := by
  obtain ⟨c, hc, rfl⟩ := Regex.exists_of_isMatch forces_emailRe h
  exact hc

/-! ## What a value is recognised as -/

/-- There is no `://`, or what `urlsplit` makes of the value lacks a scheme
or an authority. -/
def NoUrl (U : Unicode) (value : PyStr) : Prop :=
  PyStr.includes "://".toList value = true →
    ∃ parts, urlsplit U value = .ok parts ∧ ¬ (parts.scheme ≠ [] ∧ parts.netloc ≠ [])

/-- The value is none of the formats that are tried before URLs. -/
structure NoId (value : PyStr) : Prop where
  hash : hashType value = none
  cve : cveRe.isMatch value = false
  technique : techniqueRe.isMatch value = false

inductive Recognised (U : Unicode) (value : PyStr) : ParsedIndicator → Prop where
  | hash {t : IOCType} (h : hashType value = some t) : Recognised U value ⟨t, value.lower⟩
  | cve (hhash : hashType value = none) (h : cveRe.isMatch value = true) :
      Recognised U value ⟨.cve, value.upper⟩
  | technique (hhash : hashType value = none) (hcve : cveRe.isMatch value = false)
      (h : techniqueRe.isMatch value = true) : Recognised U value ⟨.mitreTechnique, value.upper⟩
  | url (hid : NoId value) (hsep : PyStr.includes "://".toList value = true) {parts : SplitResult}
      (hsplit : urlsplit U value = .ok parts) (h : parts.scheme ≠ [] ∧ parts.netloc ≠ []) :
      Recognised U value ⟨.url, value⟩
  | email (hid : NoId value) (hurl : NoUrl U value) (h : emailRe.isMatch value = true) :
      Recognised U value ⟨.email, value.lower⟩
  | ip (hid : NoId value) (hurl : NoUrl U value) (hemail : emailRe.isMatch value = false)
      {t : IOCType} (h : ipType (bareHost value) = some t) : Recognised U value ⟨t, bareHost value⟩
  | domain (hid : NoId value) (hurl : NoUrl U value) (hemail : emailRe.isMatch value = false)
      (hip : ipType (bareHost value) = none) (h : domainRe.isMatch value = true) :
      Recognised U value ⟨.domain, value.lower⟩

theorem recognised_of_classifyHost {U : Unicode} {raw value : PyStr} {p : ParsedIndicator}
    (hid : NoId value) (hurl : NoUrl U value) (h : classifyHost U raw value = .ok p) :
    Recognised U value p := by
  unfold classifyHost at h
  split at h
  · next hemail =>
      cases h
      exact .email hid hurl hemail
  · next hemail =>
      have hemail' : emailRe.isMatch value = false := by simpa using hemail
      split at h
      · next t hip =>
          cases h
          exact .ip hid hurl hemail' hip
      · next hip =>
          split at h
          · next hdomain =>
              cases h
              exact .domain hid hurl hemail' hip hdomain
          · cases h

theorem recognised_of_classifyValue {U : Unicode} {raw value : PyStr} {p : ParsedIndicator}
    (h : classifyValue U raw value = .ok p) : Recognised U value p := by
  unfold classifyValue at h
  split at h
  · next t hhash =>
      cases h
      exact .hash hhash
  · next hhash =>
      split at h
      · next hcve =>
          cases h
          exact .cve hhash hcve
      · next hcve =>
          have hcve' : cveRe.isMatch value = false := by simpa using hcve
          split at h
          · next htech =>
              cases h
              exact .technique hhash hcve' htech
          · next htech =>
              have hid : NoId value := ⟨hhash, hcve', by simpa using htech⟩
              split at h
              · next hsep =>
                  cases hsplit : urlsplit U value with
                  | error e => simp [hsplit, bind, Except.bind] at h
                  | ok parts =>
                      simp only [hsplit, bind, Except.bind] at h
                      split at h
                      · next hparts =>
                          cases h
                          exact .url hid hsep hsplit hparts
                      · next hparts =>
                          exact recognised_of_classifyHost hid
                            (fun _ => ⟨parts, hsplit, hparts⟩) h
              · next hsep => exact recognised_of_classifyHost hid (fun h => absurd h hsep) h

theorem NoId.classifyValue {U : Unicode} {value : PyStr} (hid : NoId value) (hurl : NoUrl U value)
    (raw : PyStr) : classifyValue U raw value = classifyHost U raw value := by
  by_cases hsep : PyStr.includes "://".toList value = true
  · obtain ⟨parts, hsplit, hparts⟩ := hurl hsep
    simp only [Indicators.classifyValue, hid.hash, hid.cve, hid.technique, hsep, hsplit, bind,
      Except.bind, if_true, Bool.false_eq_true, if_false, if_neg hparts]
  · simp only [Indicators.classifyValue, hid.hash, hid.cve, hid.technique, hsep,
      Bool.false_eq_true, if_false]

theorem classifyValue_of_recognised {U : Unicode} {raw value : PyStr} {p : ParsedIndicator}
    (h : Recognised U value p) : classifyValue U raw value = .ok p := by
  cases h with
  | hash h => simp [classifyValue, h, pure, Except.pure]
  | cve hhash h => simp [classifyValue, hhash, h, pure, Except.pure]
  | technique hhash hcve h => simp [classifyValue, hhash, hcve, h, pure, Except.pure]
  | url hid hsep hsplit h =>
      simp only [classifyValue, hid.hash, hid.cve, hid.technique, hsep, hsplit, bind, Except.bind,
        if_true, Bool.false_eq_true, if_false, if_pos h]
      rfl
  | email hid hurl h => simp [hid.classifyValue hurl, classifyHost, h, pure, Except.pure]
  | ip hid hurl hemail h =>
      simp [hid.classifyValue hurl, classifyHost, hemail, h, pure, Except.pure]
  | domain hid hurl hemail hip h =>
      simp [hid.classifyValue hurl, classifyHost, hemail, hip, h, pure, Except.pure]

/-- **Classification is recognition** of the refanged value. -/
theorem classifyIndicator_eq_ok_iff {U : Unicode} {raw : PyStr} {p : ParsedIndicator} :
    classifyIndicator U raw = .ok p ↔ refang raw ≠ [] ∧ Recognised U (refang raw) p := by
  simp only [classifyIndicator, strip_refang]
  split
  · next h => simp [h, throw, throwThe, MonadExceptOf.throw]
  · next h =>
      exact ⟨fun hp => ⟨h, recognised_of_classifyValue hp⟩,
        fun hp => classifyValue_of_recognised hp.2⟩

/-! ## Types and values -/

theorem hashType_range {value : PyStr} {t : IOCType} (h : hashType value = some t) :
    t = .md5 ∨ t = .sha1 ∨ t = .sha256 := by
  unfold hashType at h
  split at h
  · exact .inl (Option.some.inj h).symm
  · split at h
    · exact .inr (.inl (Option.some.inj h).symm)
    · split at h
      · exact .inr (.inr (Option.some.inj h).symm)
      · cases h

theorem ipType_cases {value : PyStr} {t : IOCType} (h : ipType value = some t) :
    t = .ipv4 ∧ isIpv4 value = true ∨ t = .ipv6 ∧ isIpv6 value = true := by
  unfold ipType ipAddress? at h
  by_cases h4 : isIpv4 value = true
  · exact .inl ⟨by simpa [h4] using h.symm, h4⟩
  · by_cases h6 : isIpv6 value = true
    · exact .inr ⟨by simpa [h4, h6] using h.symm, h6⟩
    · simp [h4, h6] at h

theorem ipType_of_isIpv4 {value : PyStr} (h : isIpv4 value = true) :
    ipType value = some .ipv4 := by
  simp [ipType, ipAddress?, h]

theorem ipType_eq_none_iff {value : PyStr} :
    ipType value = none ↔ isIpv4 value = false ∧ isIpv6 value = false := by
  unfold ipType ipAddress?
  cases isIpv4 value <;> cases isIpv6 value <;> simp

theorem bareHost_of_notMem {value : PyStr} (h : ':' ∉ value) : bareHost value = value := by
  simp [bareHost, List.count_eq_zero.mpr h]

/-- The host of a value with a port has no colon. -/
theorem bareHost_cases (value : PyStr) :
    bareHost value = value ∨ ':' ∈ value ∧ bareHost value = value.takeWhile (· ≠ ':') := by
  unfold bareHost
  split
  · next h => exact .inr ⟨List.count_pos_iff.mp (by omega), rfl⟩
  · exact .inl rfl

theorem colon_notMem_takeWhile (value : PyStr) : ':' ∉ value.takeWhile (· ≠ ':') := by
  intro h
  simpa using List.mem_takeWhile_imp h

theorem bareHost_of_isIpv6 {value : PyStr} (h : isIpv6 (bareHost value) = true) :
    bareHost value = value := by
  rcases bareHost_cases value with hself | ⟨-, hcut⟩
  · exact hself
  · have hcolon := colon_mem_of_isIpv6 h
    rw [hcut] at hcolon
    exact absurd hcolon (colon_notMem_takeWhile value)

theorem colon_notMem_of_isIpv4 {value : PyStr} (h : isIpv4 value = true) : ':' ∉ value := by
  intro hmem
  rcases digit_or_dot_of_isIpv4 h ':' hmem with hc | hc
  · exact absurd hc (by decide)
  · exact absurd hc (by decide)

/-- What stands before the first colon of a URL is no IPv4 address. -/
theorem not_isIpv4_of_url {U : Unicode} {value : PyStr} {parts : SplitResult}
    (hsplit : urlsplit U value = .ok parts) (hscheme : parts.scheme ≠ []) :
    isIpv4 (bareHost value) = false := by
  obtain ⟨hcolon, c, hc, halpha⟩ := exists_isAlpha_of_scheme hsplit hscheme
  refine Bool.eq_false_iff.mpr fun h4 => ?_
  rcases bareHost_cases value with hself | ⟨-, hcut⟩
  · exact colon_notMem_of_isIpv4 h4 (hself.symm ▸ hcolon)
  · rcases digit_or_dot_of_isIpv4 h4 c (hcut.symm ▸ hc) with hdigit | rfl
    · exact Bool.false_ne_true ((not_isAlpha_of_isAsciiDigit hdigit).symm.trans halpha)
    · exact absurd halpha (by decide)

namespace Recognised

variable {U : Unicode} {value : PyStr} {p : ParsedIndicator}

theorem value_of_url (h : Recognised U value p) (hp : p.type = .url) : p.value = value := by
  cases h with
  | @hash t h =>
      obtain rfl : t = _ := hp
      simpa using hashType_range h
  | @ip hid hurl hemail t h =>
      obtain rfl : t = _ := hp
      simpa using ipType_cases h
  | url hid hsep hsplit h => rfl
  | _ => cases hp

theorem value_of_ipv6 (h : Recognised U value p) (hp : p.type = .ipv6) :
    p.value = bareHost value ∧ isIpv6 p.value = true := by
  cases h with
  | @hash t h =>
      obtain rfl : t = _ := hp
      simpa using hashType_range h
  | @ip hid hurl hemail t h =>
      obtain rfl : t = _ := hp
      exact ⟨rfl, by simpa using ipType_cases h⟩
  | _ => cases hp

theorem value_of_email (h : Recognised U value p) (hp : p.type = .email) :
    p.value = value.lower ∧ emailRe.isMatch value = true := by
  cases h with
  | @hash t h =>
      obtain rfl : t = _ := hp
      simpa using hashType_range h
  | @ip hid hurl hemail t h =>
      obtain rfl : t = _ := hp
      simpa using ipType_cases h
  | email hid hurl h => exact ⟨rfl, h⟩
  | _ => cases hp

theorem value_of_domain (h : Recognised U value p) (hp : p.type = .domain) :
    p.value = value.lower ∧ domainRe.isMatch value = true := by
  cases h with
  | @hash t h =>
      obtain rfl : t = _ := hp
      simpa using hashType_range h
  | @ip hid hurl hemail t h =>
      obtain rfl : t = _ := hp
      simpa using ipType_cases h
  | domain hid hurl hemail hip h => exact ⟨rfl, h⟩
  | _ => cases hp

end Recognised

/-- Nothing is recognised in the empty text. -/
theorem Recognised.ne_nil {U : Unicode} {value : PyStr} {p : ParsedIndicator}
    (h : Recognised U value p) : value ≠ [] := by
  rintro rfl
  cases h with
  | hash h => exact absurd (h.symm.trans (by decide : hashType [] = none)) (by simp)
  | cve hhash h => exact absurd h (by decide)
  | technique hhash hcve h => exact absurd h (by decide)
  | url hid hsep hsplit h => exact absurd hsep (by decide)
  | email hid hurl h => exact absurd h (by decide)
  | ip hid hurl hemail h =>
      exact absurd (h.symm.trans (by decide : ipType (bareHost []) = none)) (by simp)
  | domain hid hurl hemail hip h => exact absurd h (by decide)

end Indicators

end ThreatIntel
