import ThreatIntel.IndicatorFixpoint
import ThreatIntel.Ioc
import ThreatIntel.RewriteBlocks

/-!
# Defanging and back

`defang` rewrites four texts, `refang` undoes them among fifteen tokens.
A text is read as a list of parts (`Part`): the occurrences of the four
texts, and single characters. Defanging writes each part in another way,
and on a text without tokens so does refanging after it: the brackets
that are put in do not combine with what is around them, because no token
has a bracket, or an `h`, behind its first character. What does not come
back is an `S` behind `http`: `hxxps` is a scheme in any case, and is
replaced by `https`.
-/

namespace ThreatIntel

namespace Indicators

open Rewrite (Pass runPasses startsWith)

/-! ## Parts -/

/-- The parts of a text that defanging tells apart. -/
inductive Part where
  /-- `http` before an `s` in any case, with that character. -/
  | https (c : Char)
  | http
  | dot
  | sep
  | atSign
  | char (c : Char)

namespace Part

def text : Part → PyStr
  | https c => "http".toList ++ [c]
  | http => "http".toList
  | dot => ".".toList
  | sep => "://".toList
  | atSign => "@".toList
  | char c => [c]

def defanged : Part → PyStr
  | https c => "hxxp".toList ++ [c]
  | http => "hxxp".toList
  | dot => "[.]".toList
  | sep => "[://]".toList
  | atSign => "[at]".toList
  | char c => [c]

/-- What refanging makes of the part. -/
def refanged : Part → PyStr
  | https _ => "https".toList
  | a => a.text

end Part

def defangPasses : List (Pass Char) :=
  [⟨PyStr.sameChar, "http".toList, "hxxp".toList⟩, ⟨PyStr.sameChar, ".".toList, "[.]".toList⟩,
    ⟨PyStr.sameChar, "://".toList, "[://]".toList⟩, ⟨PyStr.sameChar, "@".toList, "[at]".toList⟩]

theorem defang_eq (v : PyStr) : defang v = runPasses defangPasses v := rfl

def passOf (tr : PyStr × PyStr) : Pass Char := ⟨tokenSim tr.1, tr.1, tr.2⟩

theorem foldl_rewrite_eq (trs : List (PyStr × PyStr)) (s : PyStr) :
    trs.foldl rewrite s = runPasses (trs.map passOf) s := by
  induction trs generalizing s with
  | nil => rfl
  | cons tr trs ih =>
      rw [List.foldl_cons, ih, rewrite_eq]
      rfl

/-- What is known of a part from the way the text has been read: nothing is
left that would have been another part. -/
def Part.Maximal : Part → List Part → Prop
  | .https c, _ => PyStr.sameFold 's' c = true
  | .http, m => startsWith PyStr.sameFold ['s'] (m.flatMap Part.text) = false
  | .char c, m => ∀ p ∈ defangPasses, startsWith p.sim p.old (c :: m.flatMap Part.text) = false
  | _, _ => True

def Parsed (l : List Part) : Prop := ∀ a m, a :: m <:+ l → a.Maximal m

theorem Parsed.cons {a : Part} {l : List Part} (ha : a.Maximal l) (hl : Parsed l) : Parsed (a :: l) := by
  intro b m hm
  rcases List.suffix_cons_iff.mp hm with h | h
  · obtain ⟨rfl, rfl⟩ := List.cons.inj h
    exact ha
  · exact hl b m h

theorem parsed_nil : Parsed [] := by
  intro a m hm
  exact absurd (List.suffix_nil.mp hm) (by simp)

theorem exists_append_of_startsWith {pat s : PyStr} (h : startsWith PyStr.sameChar pat s = true) :
    ∃ t, s = pat ++ t := by
  induction pat generalizing s with
  | nil => exact ⟨s, rfl⟩
  | cons p pat ih =>
      cases s with
      | nil => simp [startsWith] at h
      | cons c s =>
          simp only [startsWith, Bool.and_eq_true, PyStr.sameChar, decide_eq_true_eq] at h
          obtain ⟨rfl, h⟩ := h
          obtain ⟨t, rfl⟩ := ih h
          exact ⟨t, rfl⟩

/-- Every text can be read as parts. -/
theorem exists_parts (v : PyStr) : ∃ l, l.flatMap Part.text = v ∧ Parsed l := by
  generalize hn : v.length = n
  induction n using Nat.strongRecOn generalizing v with
  | ind n ih =>
      have hrec : ∀ t : PyStr, t.length < v.length → ∃ l, l.flatMap Part.text = t ∧ Parsed l :=
        fun t ht => ih t.length (hn ▸ ht) t rfl
      cases v with
      | nil => exact ⟨[], rfl, parsed_nil⟩
      | cons c s =>
          by_cases hhttp : startsWith PyStr.sameChar "http".toList (c :: s) = true
          · obtain ⟨t, ht⟩ := exists_append_of_startsWith hhttp
            rw [ht] at hrec ⊢
            by_cases hs : startsWith PyStr.sameFold ['s'] t = true
            · cases t with
              | nil => simp [startsWith] at hs
              | cons d t =>
                  obtain ⟨l, rfl, hl⟩ := hrec t (by simp; omega)
                  have hfold : PyStr.sameFold 's' d = true := by simpa [startsWith] using hs
                  exact ⟨.https d :: l, by simp [Part.text], .cons hfold hl⟩
            · obtain ⟨l, rfl, hl⟩ := hrec t (by simp; omega)
              have hnone : startsWith PyStr.sameFold ['s'] (l.flatMap Part.text) = false :=
                Bool.eq_false_iff.mpr hs
              exact ⟨.http :: l, by simp [Part.text], .cons hnone hl⟩
          · by_cases hdot : startsWith PyStr.sameChar ".".toList (c :: s) = true
            · obtain ⟨t, ht⟩ := exists_append_of_startsWith hdot
              rw [ht] at hrec ⊢
              obtain ⟨l, rfl, hl⟩ := hrec t (by simp)
              exact ⟨.dot :: l, by simp [Part.text], .cons trivial hl⟩
            · by_cases hsep : startsWith PyStr.sameChar "://".toList (c :: s) = true
              · obtain ⟨t, ht⟩ := exists_append_of_startsWith hsep
                rw [ht] at hrec ⊢
                obtain ⟨l, rfl, hl⟩ := hrec t (by simp; omega)
                exact ⟨.sep :: l, by simp [Part.text], .cons trivial hl⟩
              · by_cases hat : startsWith PyStr.sameChar "@".toList (c :: s) = true
                · obtain ⟨t, ht⟩ := exists_append_of_startsWith hat
                  rw [ht] at hrec ⊢
                  obtain ⟨l, rfl, hl⟩ := hrec t (by simp)
                  exact ⟨.atSign :: l, by simp [Part.text], .cons trivial hl⟩
                · obtain ⟨l, rfl, hl⟩ := hrec s (by simp)
                  refine ⟨.char c :: l, by simp [Part.text], .cons (fun p hp => ?_) hl⟩
                  simp only [defangPasses, List.mem_cons, List.not_mem_nil, or_false] at hp
                  rcases hp with rfl | rfl | rfl | rfl
                  · exact Bool.eq_false_iff.mpr hhttp
                  · exact Bool.eq_false_iff.mpr hdot
                  · exact Bool.eq_false_iff.mpr hsep
                  · exact Bool.eq_false_iff.mpr hat

/-! ## Defanging writes each part -/

section Passes

variable {l : List Part}

theorem text_suffix {a : Part} {m : List Part} (h : a :: m <:+ l) :
    a.text ++ m.flatMap Part.text <:+ l.flatMap Part.text := by
  obtain ⟨t, rfl⟩ := h
  rw [List.flatMap_append, List.flatMap_cons]
  exact List.suffix_append _ _

theorem eq_of_sameFold_s {c : Char} (h : PyStr.sameFold 's' c = true) :
    c = 's' ∨ c = 'S' ∨ c = 'ſ' := by
  have htable : ∀ kv ∈ PyStr.caseTable, kv.2 = 's' → kv.1 = 'S' ∨ kv.1 = 'ſ' := by decide
  have hs : PyStr.foldCase c = 's' := by
    have hself : PyStr.foldCase 's' = 's' := by decide
    rw [← hself]
    exact (by simpa [PyStr.sameFold] using h : PyStr.foldCase 's' = PyStr.foldCase c).symm
  rcases PyStr.mapThrough_cases PyStr.caseTable c with hself | hin
  · exact .inl (hself.symm.trans hs)
  · exact .inr (htable _ hin hs)

theorem Parsed.eq_s (hl : Parsed l) {c : Char} {m : List Part} (h : .https c :: m <:+ l) :
    c = 's' ∨ c = 'S' ∨ c = 'ſ' :=
  eq_of_sameFold_s (hl _ _ h)

theorem steady_defang (hl : Parsed l) (a : Part) (m : List Part) (h : a :: m <:+ l) :
    Rewrite.Steady defangPasses Part.text Part.text a m := by
  cases a with
  | char c => exact .inl ⟨c, rfl, rfl, hl _ _ h⟩
  | https c => rcases hl.eq_s h with rfl | rfl | rfl <;> exact .inr (by decide)
  | http => exact .inr (by decide)
  | dot => exact .inr (by decide)
  | sep => exact .inr (by decide)
  | atSign => exact .inr (by decide)

theorem defang_parts (hl : Parsed l) : defang (l.flatMap Part.text) = l.flatMap Part.defanged := by
  rw [defang_eq, Rewrite.runPasses_flatMap (by decide) (steady_defang hl)]
  refine List.flatMap_congr fun a ha => ?_
  obtain ⟨m₁, m, rfl⟩ := List.append_of_mem ha
  have hsuffix : a :: m <:+ m₁ ++ a :: m := List.suffix_append _ _
  cases a with
  | char c => exact Rewrite.runPasses_char (hl _ _ hsuffix)
  | https c => rcases hl.eq_s hsuffix with rfl | rfl | rfl <;> decide
  | http => decide
  | dot => decide
  | sep => decide
  | atSign => decide

/-! ## Refanging undoes it -/

/-- No token begins at a character of a text that has none. -/
theorem not_startsWith_of_leftover (hleft : leftover (l.flatMap Part.text) = false) {c : Char}
    {m : List Part} (h : .char c :: m <:+ l) {tr : PyStr × PyStr} (htr : tr ∈ refangReplacements) :
    startsWith (passOf tr).sim (passOf tr).old (c :: m.flatMap Part.text) = false := by
  refine Bool.eq_false_iff.mpr fun hstart => ?_
  have hocc := Rewrite.startsWith_of_suffix (text_suffix h) hstart
  exact Bool.false_ne_true ((leftover_eq_false_iff.mp hleft tr htr).symm.trans hocc)

/-- The first token, `hxxps`. -/
def httpsPass : Pass Char := passOf ("hxxps".toList, "https".toList)

/-- The parts when the first token has been replaced. -/
def Part.afterHttps : Part → PyStr
  | https _ => "https".toList
  | a => a.defanged

/-- `hxxp` is taken for the token only before an `s`. -/
theorem contained_http {m : List Part} (hm : Part.http.Maximal m) :
    Rewrite.Contained httpsPass.sim httpsPass.old Part.http.defanged
      (m.flatMap Part.defanged) := by
  intro u hu hne hstart
  have hsuffix : u ∈ ["hxxp".toList, "xxp".toList, "xp".toList, "p".toList, []] :=
    (List.mem_tails _ _).mpr hu
  simp only [List.mem_cons, List.not_mem_nil, or_false] at hsuffix
  have hsim : httpsPass.sim = PyStr.sameFold := rfl
  rcases hsuffix with rfl | rfl | rfl | rfl | rfl
  · have hs : startsWith PyStr.sameFold ['s'] (m.flatMap Part.defanged) = true := by
      rw [Rewrite.startsWith_append_eq, Bool.and_eq_true] at hstart
      exact hstart.2
    have hbefore : startsWith PyStr.sameFold ['s'] (m.flatMap Part.text) = true := by
      refine Rewrite.startsWith_flatMap_of (fun a _ => ?_) hs
      cases a with
      | char c => exact .inl rfl
      | https c => exact .inr ⟨'h', _, rfl, List.forall_mem_singleton.mpr (by decide)⟩
      | http => exact .inr ⟨'h', _, rfl, List.forall_mem_singleton.mpr (by decide)⟩
      | dot => exact .inr ⟨'[', _, rfl, List.forall_mem_singleton.mpr (by decide)⟩
      | sep => exact .inr ⟨'[', _, rfl, List.forall_mem_singleton.mpr (by decide)⟩
      | atSign => exact .inr ⟨'[', _, rfl, List.forall_mem_singleton.mpr (by decide)⟩
    exact absurd (hm.symm.trans hbefore) Bool.false_ne_true
  · rw [Rewrite.startsWith_append_of_clash _ (by decide)] at hstart
    cases hstart
  · rw [Rewrite.startsWith_append_of_clash _ (by decide)] at hstart
    cases hstart
  · rw [Rewrite.startsWith_append_of_clash _ (by decide)] at hstart
    cases hstart
  · exact absurd rfl hne

theorem httpsPass_parts (hl : Parsed l) (hleft : leftover (l.flatMap Part.text) = false) :
    httpsPass.apply (l.flatMap Part.defanged) = l.flatMap Part.afterHttps := by
  have hnone : ∀ c m, Part.char c :: m <:+ l →
      startsWith httpsPass.sim httpsPass.old (c :: m.flatMap Part.defanged) = false := by
    intro c m hm
    have hbefore := not_startsWith_of_leftover hleft hm 
      (by decide : ("hxxps".toList, "https".toList) ∈ refangReplacements)
    refine Rewrite.not_startsWith_char (fun b _ => ?_) hbefore
    cases b with
    | char c => exact .inl rfl
    | _ => exact .inr rfl
  have hcontained : ∀ a m, a :: m <:+ l → Rewrite.Contained httpsPass.sim httpsPass.old
      a.defanged (m.flatMap Part.defanged) := by
    intro a m hm
    cases a with
    | char c => exact Rewrite.contained_singleton (hnone c m hm)
    | https c =>
        rcases hl.eq_s hm with rfl | rfl | rfl <;>
          exact Rewrite.contained_of_closedIn (by decide) _
    | http => exact contained_http (hl _ _ hm)
    | dot => exact Rewrite.contained_of_closedIn (by decide) _
    | sep => exact Rewrite.contained_of_closedIn (by decide) _
    | atSign => exact Rewrite.contained_of_closedIn (by decide) _
  refine (Rewrite.replace_flatMap (by decide) hcontained).trans (List.flatMap_congr fun a ha => ?_)
  obtain ⟨m₁, m, rfl⟩ := List.append_of_mem ha
  have hsuffix : a :: m <:+ m₁ ++ a :: m := List.suffix_append _ _
  cases a with
  | char c => exact Rewrite.replace_singleton_of_not_startsWith (hnone c m hsuffix)
  | https c => rcases hl.eq_s hsuffix with rfl | rfl | rfl <;> decide
  | http => decide
  | dot => decide
  | sep => decide
  | atSign => decide

/-- The tokens after the first. -/
theorem refangReplacements_eq :
    refangReplacements.map passOf = httpsPass :: (refangReplacements.drop 1).map passOf := rfl

theorem steady_refang (hl : Parsed l) (hleft : leftover (l.flatMap Part.text) = false) (a : Part)
    (m : List Part) (h : a :: m <:+ l) :
    Rewrite.Steady ((refangReplacements.drop 1).map passOf) Part.text Part.afterHttps a m := by
  cases a with
  | char c =>
      refine .inl ⟨c, rfl, rfl, fun p hp => ?_⟩
      obtain ⟨tr, htr, rfl⟩ := List.mem_map.mp hp
      exact not_startsWith_of_leftover hleft h (List.mem_of_mem_drop htr)
  | https c => rcases hl.eq_s h with rfl | rfl | rfl <;> exact .inr (by decide)
  | http => exact .inr (by decide)
  | dot => exact .inr (by decide)
  | sep => exact .inr (by decide)
  | atSign => exact .inr (by decide)

theorem foldl_rewrite_defang (hl : Parsed l) (hleft : leftover (l.flatMap Part.text) = false) :
    refangReplacements.foldl rewrite (l.flatMap Part.defanged) = l.flatMap Part.refanged := by
  rw [foldl_rewrite_eq, refangReplacements_eq, Rewrite.runPasses_cons, httpsPass_parts hl hleft,
    Rewrite.runPasses_flatMap (by decide) (steady_refang hl hleft)]
  refine List.flatMap_congr fun a ha => ?_
  obtain ⟨m₁, m, rfl⟩ := List.append_of_mem ha
  have hsuffix : a :: m <:+ m₁ ++ a :: m := List.suffix_append _ _
  cases a with
  | char c =>
      refine @Rewrite.runPasses_char _ _ c (m.flatMap Part.text) fun p hp => ?_
      obtain ⟨tr, htr, rfl⟩ := List.mem_map.mp hp
      exact not_startsWith_of_leftover hleft hsuffix (List.mem_of_mem_drop htr)
  | https c =>
      show runPasses ((refangReplacements.drop 1).map passOf) "https".toList = "https".toList
      decide
  | http => decide
  | dot => decide
  | sep => decide
  | atSign => decide

/-! ### The ends of the text -/

/-- A way of writing the parts that puts a space at no end where there was
none. -/
def Trim (r : Part → PyStr) : Prop :=
  ∀ a, r a ≠ [] ∧
    (∀ c, (r a).head? = some c → PyStr.isSpace c = false ∨ a.text.head? = some c) ∧
    ∀ c, (r a).getLast? = some c → PyStr.isSpace c = false ∨ a.text.getLast? = some c

theorem Part.text_ne_nil (a : Part) : a.text ≠ [] := by
  cases a <;> simp [Part.text]

theorem Trim.strip {r : Part → PyStr} (hr : Trim r)
    (hstrip : PyStr.strip (l.flatMap Part.text) = l.flatMap Part.text) :
    PyStr.strip (l.flatMap r) = l.flatMap r := by
  obtain ⟨hhead, hlast⟩ := PyStr.strip_eq_self_iff.mp hstrip
  rw [PyStr.strip_eq_self_iff]
  constructor
  · intro c hc
    cases l with
    | nil => simp at hc
    | cons a m =>
        rw [List.flatMap_cons, List.head?_append_of_ne_nil _ (hr a).1] at hc
        refine ((hr a).2.1 c hc).elim id fun htext => hhead c ?_
        rw [List.flatMap_cons, List.head?_append_of_ne_nil _ a.text_ne_nil, htext]
  · intro c hc
    rcases List.eq_nil_or_concat l with rfl | ⟨m, a, rfl⟩
    · simp at hc
    · rw [List.concat_eq_append, List.flatMap_append, List.flatMap_singleton,
        List.getLast?_append_of_ne_nil _ (hr a).1] at hc
      refine ((hr a).2.2 c hc).elim id fun htext => hlast c ?_
      rw [List.concat_eq_append, List.flatMap_append, List.flatMap_singleton,
        List.getLast?_append_of_ne_nil _ a.text_ne_nil, htext]

/-- No space is put at an end with this character. -/
theorem not_isSpace_of_end {c d : Char} {text : Option Char} (hd : PyStr.isSpace d = false)
    (h : some d = some c) : PyStr.isSpace c = false ∨ text = some c :=
  Option.some.inj h ▸ .inl hd

theorem trim_defanged : Trim Part.defanged := by
  intro a
  cases a with
  | char c => simp [Part.defanged, Part.text]
  | https c => exact ⟨by simp [Part.defanged], fun _ => not_isSpace_of_end (by decide), by
      simp [Part.defanged, Part.text]⟩
  | http => exact ⟨by decide, fun _ => not_isSpace_of_end (by decide),
      fun _ => not_isSpace_of_end (by decide)⟩
  | dot => exact ⟨by decide, fun _ => not_isSpace_of_end (by decide),
      fun _ => not_isSpace_of_end (by decide)⟩
  | sep => exact ⟨by decide, fun _ => not_isSpace_of_end (by decide),
      fun _ => not_isSpace_of_end (by decide)⟩
  | atSign => exact ⟨by decide, fun _ => not_isSpace_of_end (by decide),
      fun _ => not_isSpace_of_end (by decide)⟩

theorem trim_refanged : Trim Part.refanged := by
  intro a
  cases a with
  | https c => exact ⟨by simp [Part.refanged], fun _ => not_isSpace_of_end (by decide),
      fun _ => not_isSpace_of_end (by decide)⟩
  | _ => simp [Part.refanged, Part.text]

/-- **Refanging after defanging**: every part comes back, with the `s` of
`https` in lower case. -/
theorem refang_defang_parts (hl : Parsed l)
    (h : refang (l.flatMap Part.text) = l.flatMap Part.text) :
    refang (defang (l.flatMap Part.text)) = l.flatMap Part.refanged := by
  have href : Refanged (l.flatMap Part.text) := h ▸ refanged_refang _
  have hleft := href.refang_iff.mp h
  rw [defang_parts hl, refang, trim_defanged.strip href.strip, foldl_rewrite_defang hl hleft,
    trim_refanged.strip href.strip]

/-! ## What comes back -/

theorem length_refanged (a : Part) : a.refanged.length = a.text.length := by
  cases a <;> rfl

/-- Texts with parts of the same lengths are equal part by part. -/
theorem flatMap_eq_iff {r r' : Part → PyStr} (hlen : ∀ a, (r a).length = (r' a).length) :
    l.flatMap r = l.flatMap r' ↔ ∀ a ∈ l, r a = r' a := by
  induction l with
  | nil => simp
  | cons a l ih =>
      rw [List.flatMap_cons, List.flatMap_cons, List.forall_mem_cons, ← ih]
      refine ⟨fun h => List.append_inj h (hlen a), fun h => ?_⟩
      rw [h.1, h.2]

end Passes

/-- There is no `http` before an `s` that is not in lower case (the long s
counts as one). -/
def Restorable (v : PyStr) : Prop :=
  PyStr.includes "httpS".toList v = false ∧ PyStr.includes "httpſ".toList v = false

instance (v : PyStr) : Decidable (Restorable v) := inferInstanceAs (Decidable (_ ∧ _))

section Restorable

variable {l : List Part}

theorem includes_of_mem {c : Char} (h : .https c ∈ l) :
    PyStr.includes ("http".toList ++ [c]) (l.flatMap Part.text) = true := by
  obtain ⟨m₁, m, rfl⟩ := List.append_of_mem h
  have hself : startsWith PyStr.sameChar ("http".toList ++ [c]) ("http".toList ++ [c]) = true := by
    simp [startsWith, PyStr.sameChar]
  rw [List.flatMap_append, List.flatMap_cons]
  exact Rewrite.occurs_append_left _
    (Rewrite.occurs_append_right _ (Rewrite.occurs_of_startsWith hself))

/-- `http` and an `s` are found only where they have been read as one part. -/
theorem mem_of_includes (hl : Parsed l) {c : Char} (hc : PyStr.sameFold 's' c = true)
    (h : PyStr.includes ("http".toList ++ [c]) (l.flatMap Part.text) = true) : .https c ∈ l := by
  induction l with
  | nil => simp [PyStr.includes, Rewrite.occurs, startsWith] at h
  | cons a l ih =>
      have ha := hl a l (List.suffix_refl _)
      have hrest := ih fun b m hm => hl b m (hm.trans (List.suffix_cons a l))
      rw [List.flatMap_cons] at h
      -- an occurrence that begins in the part begins with its `h`
      rcases Rewrite.occurs_append_cases h with ⟨u, hu, hne, hstart⟩ | hocc
      · obtain ⟨t, ht⟩ := exists_append_of_startsWith hstart
        cases a with
        | https d =>
            have hcases : u = "http".toList ++ [d] ∨ u = ['t', 't', 'p', d] ∨ u = ['t', 'p', d] ∨
                u = ['p', d] ∨ u = [d] := by
              simpa [Part.text, List.suffix_cons_iff, hne] using hu
            rcases hcases with rfl | rfl | rfl | rfl | rfl
            · simp only [List.append_assoc] at ht
              obtain rfl : d = c := (List.cons.inj (List.append_cancel_left ht)).1
              exact List.mem_cons_self
            · simp at ht
            · simp at ht
            · simp at ht
            · obtain rfl : d = 'h' := (List.cons.inj ht).1
              have hfold : PyStr.sameFold 's' 'h' = true := ha
              exact absurd hfold (by decide)
        | http =>
            have hcases : u = "http".toList ∨ u = ['t', 't', 'p'] ∨ u = ['t', 'p'] ∨ u = ['p'] := by
              simpa [Part.text, List.suffix_cons_iff, hne] using hu
            rcases hcases with rfl | rfl | rfl | rfl
            · rw [List.append_assoc] at ht
              have hnext : l.flatMap Part.text = c :: t := List.append_cancel_left ht
              have hnone : startsWith PyStr.sameFold ['s'] (l.flatMap Part.text) = false := ha
              simp [hnext, startsWith, hc] at hnone
            · simp at ht
            · simp at ht
            · simp at ht
        | dot =>
            obtain rfl : u = ['.'] := by simpa [Part.text, List.suffix_cons_iff, hne] using hu
            simp at ht
        | sep =>
            have hcases : u = "://".toList ∨ u = ['/', '/'] ∨ u = ['/'] := by
              simpa [Part.text, List.suffix_cons_iff, hne] using hu
            rcases hcases with rfl | rfl | rfl <;> simp at ht
        | atSign =>
            obtain rfl : u = ['@'] := by simpa [Part.text, List.suffix_cons_iff, hne] using hu
            simp at ht
        | char d =>
            obtain rfl : u = [d] := by simpa [Part.text, List.suffix_cons_iff, hne] using hu
            have hnone := ha ⟨PyStr.sameChar, "http".toList, "hxxp".toList⟩ 
              List.mem_cons_self
            exact absurd (Rewrite.startsWith_of_prefix hstart) (Bool.eq_false_iff.mp hnone)
      · exact List.mem_cons_of_mem a (hrest hocc)

theorem refanged_eq_text_iff (hl : Parsed l) :
    (∀ a ∈ l, a.refanged = a.text) ↔ Restorable (l.flatMap Part.text) := by
  have hhttps : ∀ c, (Part.https c).refanged = (Part.https c).text ↔ c = 's' := fun c => by
    constructor
    · intro h
      exact (List.cons.inj (List.append_cancel_left (show "http".toList ++ ['s'] = "http".toList ++ [c] from h))).1.symm
    · rintro rfl
      rfl
  constructor
  · intro h
    have hnone : ∀ c, c ≠ 's' → PyStr.sameFold 's' c = true →
        PyStr.includes ("http".toList ++ [c]) (l.flatMap Part.text) = false := by
      intro c hc hfold
      refine Bool.eq_false_iff.mpr fun hocc => hc ?_
      exact (hhttps c).mp (h _ (mem_of_includes hl hfold hocc))
    exact ⟨hnone 'S' (by decide) (by decide), hnone 'ſ' (by decide) (by decide)⟩
  · intro h a ha
    cases a with
    | https c =>
        refine (hhttps c).mpr ?_
        obtain ⟨m₁, m, hm⟩ := List.append_of_mem ha
        have hocc := includes_of_mem ha
        rcases hl.eq_s (hm ▸ List.suffix_append _ _) with rfl | rfl | rfl
        · rfl
        · exact absurd (h.1.symm.trans hocc) Bool.false_ne_true
        · exact absurd (h.2.symm.trans hocc) Bool.false_ne_true
    | _ => rfl

end Restorable

/-- A text that is its own refanged form comes back from its defanged form
exactly if no `http` stands before an `S`. -/
theorem refang_defang_iff {v : PyStr} (h : refang v = v) :
    refang (defang v) = v ↔ Restorable v := by
  obtain ⟨l, rfl, hl⟩ := exists_parts v
  rw [refang_defang_parts hl h, flatMap_eq_iff length_refanged, refanged_eq_text_iff hl]

/-! ### A second time -/

variable {l : List Part}

/-- The part that stands where this one was. -/
def Part.back : Part → Part
  | https _ => https 's'
  | a => a

theorem Part.text_back (a : Part) : a.back.text = a.refanged := by
  cases a <;> rfl

/-- What comes back is read as the same parts. -/
theorem Parsed.back (hl : Parsed l) : Parsed (l.map Part.back) := by
  intro b m' hm
  obtain ⟨t, ht⟩ := hm
  obtain ⟨l₁, l₂, rfl, -, hl₂⟩ := List.map_eq_append_iff.mp ht.symm
  obtain ⟨a, m, rfl, rfl, rfl⟩ := List.map_eq_cons_iff.mp hl₂
  have ha := hl a m (List.suffix_append _ _)
  have htext : (m.map Part.back).flatMap Part.text = m.flatMap Part.refanged := by
    rw [List.flatMap_map]
    exact List.flatMap_congr fun a _ => a.text_back
  cases a with
  | https c => exact (by decide : PyStr.sameFold 's' 's' = true)
  | http =>
      refine Bool.eq_false_iff.mpr fun hs => Bool.eq_false_iff.mp ha ?_
      rw [htext] at hs
      refine Rewrite.startsWith_flatMap_of (fun a _ => ?_) hs
      cases a with
      | https c => exact .inr ⟨'h', _, rfl, List.forall_mem_singleton.mpr (by decide)⟩
      | _ => exact .inl rfl
  | char c =>
      intro p hp
      rw [htext]
      refine Rewrite.not_startsWith_char (fun b _ => ?_) (ha p hp)
      cases b with
      | https c =>
          have hshield : ∀ p ∈ defangPasses, Rewrite.shields p.sim p.old.tail "https".toList = true := by
            decide
          exact .inr (hshield p hp)
      | _ => exact .inl rfl
  | _ => trivial

/-- What comes back comes back from then on. -/
theorem restorable_refang_defang {v : PyStr} (h : refang v = v) : Restorable (refang (defang v)) := by
  obtain ⟨l, rfl, hl⟩ := exists_parts v
  have htext : (l.map Part.back).flatMap Part.text = l.flatMap Part.refanged := by
    rw [List.flatMap_map]
    exact List.flatMap_congr fun a _ => a.text_back
  rw [refang_defang_parts hl h, ← htext, ← refanged_eq_text_iff hl.back]
  intro a ha
  obtain ⟨b, -, rfl⟩ := List.mem_map.mp ha
  cases b <;> rfl

/-- A stretch of a text that comes back comes back. -/
theorem Restorable.of_isInfix {v w : PyStr} (hw : Restorable w) (h : v <:+: w) : Restorable v := by
  have hnone : ∀ {pat : PyStr}, PyStr.includes pat w = false → PyStr.includes pat v = false :=
    fun hfree => Bool.eq_false_iff.mpr fun hocc =>
      Bool.false_ne_true (hfree.symm.trans (Rewrite.occurs_of_isInfix h hocc))
  exact ⟨hnone hw.1, hnone hw.2⟩

/-- **Defanging is reversible** on the texts that refanging leaves as they
are and in which no `http` stands before an `S`: exactly these come back.
On them the defanged form determines the value, and is classified like
it. -/
theorem defang_reversible {U : Unicode} :
    (∀ v, refang v = v → (refang (defang v) = v ↔ Restorable v)) ∧
    (∀ v w, refang v = v → refang w = w → Restorable v → Restorable w → defang v = defang w →
      v = w) ∧
    ∀ v, refang v = v → Restorable v →
      ∀ p, classifyIndicator U (defang v) = .ok p ↔ classifyIndicator U v = .ok p := by
  refine ⟨fun v h => refang_defang_iff h, fun v w hv hw hrv hrw heq => ?_, fun v hv hr p => ?_⟩
  · rw [← (refang_defang_iff hv).mpr hrv, heq, (refang_defang_iff hw).mpr hrw]
  · rw [classifyIndicator_eq_ok_iff, classifyIndicator_eq_ok_iff, (refang_defang_iff hv).mpr hr, hv]

/-- A URL with a port, a path and an address in it. -/
theorem defang_reversible_url :
    refang (defang "https://a.com:80/x?m=eve@b.org".toList) =
      "https://a.com:80/x?m=eve@b.org".toList :=
  ((defang_reversible (U := .ascii)).1 _ (by decide)).mpr (by decide)

/-- The `S` of a scheme in mixed case comes back in lower case. -/
theorem mixed_case_scheme_differs :
    ¬ ∀ v : PyStr, (∀ c ∈ v, c.toNat < 128) → refang v = v → refang (defang v) = v := by
  intro h
  have hback := h "httpS://example.com/".toList (by simp) (by decide)
  have hother : refang (defang "httpS://example.com/".toList) = "https://example.com/".toList := by
    decide
  exact absurd (hother.symm.trans hback) (by decide)

end Indicators

end ThreatIntel
