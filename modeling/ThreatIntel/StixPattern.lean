import ThreatIntel.Extract
import ThreatIntel.Stix

/-!
# The literal in a STIX pattern

What the export writes between the apostrophes is what the extractor's
regular expression finds there, for every value (`groups_comparison`), and
two values are never written alike (`pattern_unbreakable`). The extractor
then puts back the apostrophes but not the backslashes: the value comes back
with every backslash doubled (`unescape_escape`).
-/

namespace ThreatIntel

namespace Stix

open Extract PyStr

/-! ## Escaping, character by character -/

def escapeOne (c : Char) : PyStr :=
  if c = '\\' then ['\\', '\\'] else if c = apostrophe then ['\\', apostrophe] else [c]

/-- Every backslash twice. -/
def doubled (value : PyStr) : PyStr := PyStr.replace ['\\'] ['\\', '\\'] value

theorem doubled_eq (value : PyStr) :
    doubled value = value.flatMap fun c => if c = '\\' then ['\\', '\\'] else [c] := by
  rw [doubled, PyStr.replace, Rewrite.replace_singleton]
  refine List.flatMap_congr fun c _ => ?_
  simp [sameChar, eq_comm]

theorem doubled_cons (c : Char) (value : PyStr) :
    doubled (c :: value) = (if c = '\\' then ['\\', '\\'] else [c]) ++ doubled value := by
  simp only [doubled_eq, List.flatMap_cons]

theorem doubled_of_notMem {value : PyStr} (h : '\\' ∉ value) : doubled value = value := by
  induction value with
  | nil => rfl
  | cons c value ih =>
      have hc : c ≠ '\\' := fun heq => h (heq ▸ List.mem_cons_self)
      rw [doubled_cons, if_neg hc, ih fun hmem => h (List.mem_cons_of_mem _ hmem)]
      rfl

theorem mem_doubled {value : PyStr} {c : Char} : c ∈ doubled value ↔ c ∈ value := by
  rw [doubled_eq, List.mem_flatMap]
  constructor
  · rintro ⟨d, hd, hc⟩
    split at hc
    · next heq => simpa [heq] using (show c = '\\' by simpa using hc) ▸ heq ▸ hd
    · rwa [List.mem_singleton.mp hc]
  · exact fun hc => ⟨c, hc, by split <;> simp_all⟩

theorem escape_eq (value : PyStr) : escape value = value.flatMap escapeOne := by
  rw [escape, PyStr.replace, PyStr.replace, Rewrite.replace_singleton, Rewrite.replace_singleton,
    List.flatMap_assoc]
  refine List.flatMap_congr fun c _ => ?_
  by_cases hback : c = '\\'
  · subst hback
    rfl
  · by_cases hapos : c = apostrophe
    · subst hapos
      rfl
    · simp [escapeOne, sameChar, hback, hapos, Ne.symm hback, Ne.symm hapos]

theorem escape_cons (c : Char) (value : PyStr) :
    escape (c :: value) = escapeOne c ++ escape value := by
  simp only [escape_eq, List.flatMap_cons]

/-! ## Putting the apostrophes back -/

theorem head?_escape_ne (value : PyStr) : (escape value).head? ≠ some apostrophe := by
  cases value with
  | nil => simp [escape_eq]
  | cons c value =>
      rw [escape_cons, escapeOne]
      split
      · exact fun h => absurd (Option.some.inj h) (by decide)
      · split
        · exact fun h => absurd (Option.some.inj h) (by decide)
        · next h => simpa using h

/-- A backslash is kept unless an apostrophe follows. -/
theorem unescape_backslash {s : PyStr} (h : s.head? ≠ some apostrophe) :
    unescape ('\\' :: s) = '\\' :: unescape s := by
  cases s with
  | nil => rfl
  | cons c s =>
      have hc : sameChar apostrophe c = false := by
        simpa [sameChar, eq_comm] using h
      simp [unescape, PyStr.replace, Rewrite.replace, Rewrite.replaceFrom, Rewrite.startsWith, hc]

theorem unescape_apostrophe (s : PyStr) :
    unescape ('\\' :: apostrophe :: s) = apostrophe :: unescape s := by
  simp [unescape, PyStr.replace, Rewrite.replace, Rewrite.replaceFrom, Rewrite.startsWith, sameChar]

theorem unescape_cons {c : Char} (h : c ≠ '\\') (s : PyStr) :
    unescape (c :: s) = c :: unescape s := by
  simp [unescape, PyStr.replace, Rewrite.replace, Rewrite.replaceFrom, Rewrite.startsWith, sameChar,
    Ne.symm h]

/-- **The backslashes stay doubled.** -/
theorem unescape_escape (value : PyStr) : unescape (escape value) = doubled value := by
  induction value with
  | nil => rfl
  | cons c value ih =>
      rw [escape_cons, doubled_cons, escapeOne]
      by_cases hback : c = '\\'
      · rw [if_pos hback, if_pos hback]
        have hhead : ('\\' :: escape value).head? ≠ some apostrophe := by
          simp [apostrophe]
        show unescape ('\\' :: '\\' :: escape value) = _
        rw [unescape_backslash hhead, unescape_backslash (head?_escape_ne value), ih]
        rfl
      · rw [if_neg hback, if_neg hback]
        by_cases hapos : c = apostrophe
        · rw [if_pos hapos, hapos]
          show unescape ('\\' :: apostrophe :: escape value) = _
          rw [unescape_apostrophe, ih]
          rfl
        · rw [if_neg hapos]
          show unescape (c :: escape value) = _
          rw [unescape_cons hback, ih]
          rfl

/-! ## Finding the literal -/

/-- One round of the group: a character, or a backslash and a character. -/
def literalStep : Regex Char :=
  .alt (.cls fun c => c ≠ apostrophe && c ≠ '\\') (.seq (.lit '\\') (.cls (· ≠ '\n')))

theorem ends_literalStep_escapeOne (before : PyStr) (c : Char) (s : PyStr) :
    literalStep.ends ⟨before, escapeOne c ++ s⟩ = [⟨(escapeOne c).reverse ++ before, s⟩] := by
  unfold escapeOne
  by_cases hback : c = '\\'
  · simp [hback, literalStep, Regex.ends, Regex.lit]
  · by_cases hapos : c = apostrophe
    · have hne : apostrophe ≠ '\\' := by decide
      have hnl : apostrophe ≠ '\n' := by decide
      simp [hapos, hne, hnl, literalStep, Regex.ends, Regex.lit]
    · simp [hback, hapos, literalStep, Regex.ends, Regex.lit]

theorem ends_literalStep_apostrophe (before s : PyStr) :
    literalStep.ends ⟨before, apostrophe :: s⟩ = [] := by
  have hne : apostrophe ≠ '\\' := by decide
  simp [literalStep, Regex.ends, Regex.lit, hne]

/-- The group is tried first with the whole literal. -/
theorem upTo_literal (value : PyStr) (before s : PyStr) {n : Nat}
    (hn : (escape value).length ≤ n) :
    ∃ l, Regex.upTo literalStep.ends n ⟨before, escape value ++ apostrophe :: s⟩ =
      ⟨(escape value).reverse ++ before, apostrophe :: s⟩ :: l := by
  induction value generalizing before n with
  | nil => exact ⟨[], Regex.upTo_stuck (ends_literalStep_apostrophe before s) n⟩
  | cons c value ih =>
      rw [escape_cons, List.length_append] at hn
      have hone : 0 < (escapeOne c).length := by
        unfold escapeOne
        split
        · decide
        · split
          · decide
          · exact Nat.one_pos
      obtain ⟨m, rfl⟩ : ∃ m, n = m + 1 := ⟨n - 1, by omega⟩
      obtain ⟨l, hl⟩ := ih ((escapeOne c).reverse ++ before) (n := m) (by omega)
      refine ⟨l ++ [⟨before, escapeOne c ++ (escape value ++ apostrophe :: s)⟩], ?_⟩
      rw [escape_cons, List.append_assoc,
        Regex.upTo_single (ends_literalStep_escapeOne before c _), hl]
      simp

theorem ends_patternPre (before s : PyStr) :
    patternPre.ends ⟨before, '=' :: ' ' :: apostrophe :: s⟩ =
      [⟨apostrophe :: ' ' :: '=' :: before, s⟩] := by
  have hspace : (Regex.cls isSpace).ends ⟨'=' :: before, ' ' :: apostrophe :: s⟩ =
      [⟨' ' :: '=' :: before, apostrophe :: s⟩] := by
    simp [Regex.ends, show isSpace ' ' = true by decide]
  have hstuck : (Regex.cls isSpace).ends ⟨' ' :: '=' :: before, apostrophe :: s⟩ = [] := by
    simp [Regex.ends, show isSpace apostrophe = false by decide]
  have hstar : (Regex.star (.cls isSpace)).ends ⟨'=' :: before, ' ' :: apostrophe :: s⟩ =
      [⟨' ' :: '=' :: before, apostrophe :: s⟩, ⟨'=' :: before, ' ' :: apostrophe :: s⟩] := by
    rw [Regex.ends_star]
    show Regex.upTo _ (s.length + 1 + 1) _ = _
    rw [Regex.upTo_single hspace, Regex.upTo_stuck hstuck]
    rfl
  have hne : ' ' ≠ apostrophe := by decide
  have heq : (Regex.lit '=').ends ⟨before, '=' :: ' ' :: apostrophe :: s⟩ =
      [⟨'=' :: before, ' ' :: apostrophe :: s⟩] := by simp [Regex.lit, Regex.ends]
  show (((Regex.lit '=').ends _).flatMap fun c => ((Regex.star (.cls isSpace)).ends c).flatMap
    (Regex.lit apostrophe).ends) = _
  rw [heq, List.flatMap_singleton, hstar]
  simp [Regex.lit, Regex.ends, hne]

theorem ends_patternPre_ne {c : Char} (h : c ≠ '=') (before after : PyStr) :
    patternPre.ends ⟨before, c :: after⟩ = [] := by
  simp [patternPre, Regex.seqs, Regex.ends, Regex.lit, h]

/-- The match at the equals sign: the literal, and the characters around it. -/
theorem groupMatch?_literal (value before : PyStr) :
    Regex.groupMatch? patternPre patternBody patternPost before
        ('=' :: ' ' :: apostrophe :: (escape value ++ [apostrophe, ']'])) =
      some (escape value, (' ' :: apostrophe :: (escape value ++ [apostrophe])).length + 1) := by
  obtain ⟨l, hl⟩ := upTo_literal value (apostrophe :: ' ' :: '=' :: before) [']']
    (n := (escape value ++ [apostrophe, ']']).length) (by simp)
  have hbody : patternBody.ends ⟨apostrophe :: ' ' :: '=' :: before,
      escape value ++ [apostrophe, ']']⟩ = _ := (Regex.ends_star literalStep _).trans hl
  have hpost : patternPost.ends ⟨(escape value).reverse ++ apostrophe :: ' ' :: '=' :: before,
      [apostrophe, ']']⟩ = [⟨apostrophe :: ((escape value).reverse ++
        apostrophe :: ' ' :: '=' :: before), [']']⟩] := by
    simp [patternPost, Regex.lit, Regex.ends]
  rw [Regex.groupMatch?_of_ends (ends_patternPre before _) hbody hpost]
  simp

/-- There is no match in a text without an equals sign. -/
theorem groupsFrom_of_notMem {w : PyStr} (h : '=' ∉ w) (before s : PyStr) :
    Regex.groupsFrom patternPre patternBody patternPost 0 before (w ++ s) =
      Regex.groupsFrom patternPre patternBody patternPost 0 (w.reverse ++ before) s := by
  refine Regex.groupsFrom_of_ends_nil (fun c hc b a => ends_patternPre_ne ?_ b a) before s
  rintro rfl
  exact h hc

/-- **The literal is found**, once, and nothing else is. -/
theorem groups_comparison {left : PyStr} (hleft : '=' ∉ left) (value : PyStr) :
    Regex.groups patternPre patternBody patternPost (comparison left (escape value)) =
      [escape value] := by
  have htext : comparison left (escape value) = '[' :: (left ++ [' ']) ++
      '=' :: ' ' :: apostrophe :: (escape value ++ [apostrophe, ']']) := by
    simp [comparison]
  have hrest : ' ' :: apostrophe :: (escape value ++ [apostrophe, ']']) =
      ' ' :: apostrophe :: (escape value ++ [apostrophe]) ++ [']'] := by
    simp
  have hend := fun before => groupsFrom_of_notMem (w := [']']) (by decide) before []
  rw [List.append_nil] at hend
  rw [Regex.groups, htext, groupsFrom_of_notMem (by simp [hleft]), Regex.groupsFrom,
    groupMatch?_literal]
  dsimp only
  rw [hrest, Regex.groupsFrom_skip, hend]
  rfl

/-! ## Different values, different patterns

No escaped character is the beginning of another, so the escaped value can
be read in one way only; what stands around it depends on the type alone. -/

theorem escapeOne_ne_nil (c : Char) : escapeOne c ≠ [] := by
  unfold escapeOne
  split
  · simp
  · split <;> simp

/-- The first escaped character is determined by the text. -/
theorem escapeOne_append_inj {c d : Char} {s t : PyStr}
    (h : escapeOne c ++ s = escapeOne d ++ t) : c = d ∧ s = t := by
  have hne : '\\' ≠ apostrophe := by decide
  unfold escapeOne at h
  by_cases hc : c = '\\' <;> by_cases hd : d = '\\' <;>
    by_cases hc' : c = apostrophe <;> by_cases hd' : d = apostrophe <;>
    simp_all [eq_comm]

theorem escape_injective : Function.Injective escape := by
  intro value other h
  induction value generalizing other with
  | nil =>
      cases other with
      | nil => rfl
      | cons d other =>
          rw [escape_cons] at h
          exact absurd (List.append_eq_nil_iff.mp h.symm).1 (escapeOne_ne_nil d)
  | cons c value ih =>
      cases other with
      | nil =>
          rw [escape_cons] at h
          exact absurd (List.append_eq_nil_iff.mp h).1 (escapeOne_ne_nil c)
      | cons d other =>
          rw [escape_cons, escape_cons] at h
          obtain ⟨rfl, hrest⟩ := escapeOne_append_inj h
          rw [ih hrest]

theorem comparison_injective (left : PyStr) : Function.Injective (comparison left) := by
  intro literal other h
  simpa [comparison] using h

/-- A type has no pattern for any value, or the same comparison for all. -/
theorem stixPattern_cases (t : IOCType) :
    (∀ value, stixPattern t value = none) ∨
      ∃ left, '=' ∉ left ∧ ∀ value, stixPattern t value = some (comparison left (escape value)) := by
  cases t with
  | cve | mitreTechnique | yara | sigma => exact .inl fun _ => rfl
  | _ => exact .inr ⟨_, by decide, fun _ => rfl⟩

/-- A pattern compares something with the escaped value. -/
theorem stixPattern_eq_some {t : IOCType} {value pattern : PyStr}
    (h : stixPattern t value = some pattern) :
    ∃ left, '=' ∉ left ∧ pattern = comparison left (escape value) := by
  rcases stixPattern_cases t with hnone | ⟨left, hleft, hsome⟩
  · exact absurd ((hnone value).symm.trans h) (by simp)
  · exact ⟨left, hleft, Option.some.inj (h.symm.trans (hsome value))⟩

theorem stixPattern_inj {t : IOCType} {value other pattern : PyStr}
    (h : stixPattern t value = some pattern) (h' : stixPattern t other = some pattern) :
    value = other := by
  rcases stixPattern_cases t with hnone | ⟨left, -, hsome⟩
  · exact absurd ((hnone value).symm.trans h) (by simp)
  · rw [hsome] at h h'
    exact escape_injective (comparison_injective left (Option.some.inj (h.trans h'.symm)))

/-! ## The id of an object -/

/-- The `id` member. -/
def sdoId (members : Members) : Option Json := members.lookup "id".toList

theorem sdoId_header (E : Exporter) (type name createdByRef : PyStr) (ioc : Ioc) (rest : Members) :
    sdoId (header E type name createdByRef ioc ++ rest) =
      some (.str (deterministicId E type name)) := rfl

theorem deterministicId_inj {E : Exporter} (huuid : Function.Injective E.uuid5)
    {type name other : PyStr} (h : deterministicId E type name = deterministicId E type other) :
    name = other := by
  have hid := huuid (List.append_cancel_left h)
  simpa using List.append_cancel_left hid

/-- An object with a pattern takes its id from it. -/
theorem sdoId_of_stixPattern (E : Exporter) (createdByRef : PyStr) {ioc : Ioc} {t : IOCType}
    (htype : ioc.type = t.value) {pattern : PyStr} (h : stixPattern t ioc.value = some pattern) :
    (sdoFor E createdByRef ioc).bind sdoId =
      some (.str (deterministicId E "indicator".toList pattern)) := by
  have htype' : IOCType.ofValue? ioc.type = some t := by
    rw [htype, IOCType.ofValue?_value]
  have hsdo : sdoFor E createdByRef ioc = some (indicator E createdByRef pattern ioc) := by
    cases t with
    | cve | mitreTechnique | yara | sigma => cases h
    | _ =>
        rw [sdoFor, htype']
        simp only [h, Option.map_some]
  rw [hsdo]
  exact sdoId_header E _ pattern createdByRef ioc _

/-- **A pattern cannot be broken out of.** Whatever the value holds, its
literal is found once and whole; and two values of one type share neither a
pattern nor, where the UUIDs differ, an id. -/
theorem pattern_unbreakable {t : IOCType} {value pattern : PyStr}
    (h : stixPattern t value = some pattern) :
    Regex.groups patternPre patternBody patternPost pattern = [escape value] ∧
      (∀ other, stixPattern t other = some pattern → value = other) ∧
      ∀ (E : Exporter) (createdByRef : PyStr) (a b : Ioc), Function.Injective E.uuid5 →
        a.type = t.value → b.type = t.value → a.value = value →
        (sdoFor E createdByRef a).bind sdoId = (sdoFor E createdByRef b).bind sdoId →
        a.value = b.value := by
  obtain ⟨left, hleft, heq⟩ := stixPattern_eq_some h
  refine ⟨by rw [heq, groups_comparison hleft], fun other => stixPattern_inj h, ?_⟩
  rintro E createdByRef a b huuid ha hb rfl hid
  obtain ⟨other, hother⟩ : ∃ other, stixPattern t b.value = some other := by
    rcases stixPattern_cases t with hnone | ⟨left, -, hsome⟩
    · exact absurd ((hnone _).symm.trans h) (by simp)
    · exact ⟨_, hsome _⟩
  rw [sdoId_of_stixPattern E createdByRef ha h, sdoId_of_stixPattern E createdByRef hb hother] at hid
  have hpattern : pattern = other :=
    deterministicId_inj huuid (Json.str.inj (Option.some.inj hid))
  exact stixPattern_inj h (hpattern ▸ hother)

/-- Apostrophes, backslashes, equals signs and brackets, and a newline. -/
theorem brokenValue_kept :
    Regex.groups patternPre patternBody patternPost
        (comparison "file:hashes.'MD5'".toList (escape "a\\' = 'b'] OR ['\n".toList)) =
      [escape "a\\' = 'b'] OR ['\n".toList] :=
  (@pattern_unbreakable .md5 "a\\' = 'b'] OR ['\n".toList _ (by decide)).1

end Stix

end ThreatIntel
