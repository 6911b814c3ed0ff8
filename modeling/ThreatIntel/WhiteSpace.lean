import ThreatIntel.ExtractSpec
import ThreatIntel.RegexFence
import ThreatIntel.RewriteBlocks
import ThreatIntel.Spans

/-!
# White space in a document

No pattern reads white space, none looks past it, and what a match is
replaced by is white space again. So the candidates of a document are those
of the stretches between its white space, whatever the other stretches are
(`mem_candidates_append`). Refanging does not go beyond a line either: no
token has a newline in it.
-/

namespace ThreatIntel

open PyStr

/-- What the patterns rely on about `\w`: `[a-z]` in any case and `\d` are
word characters, and white space is not. -/
structure Unicode.Words (U : Unicode) : Prop where
  letter : ∀ c, ignoreCase isAsciiLower c = true → isWord U c = true
  decimal : ∀ c, isDecimal c = true → isWord U c = true
  space : ∀ c, isSpace c = true → isWord U c = false

/-- The database for texts in ASCII and the few other letters and digits
that the patterns know. -/
def Unicode.basic : Unicode where
  isAlnum c := isDecimal c || ignoreCase isAsciiLower c
  isPrintable _ := false
  nfkc := id

def Interpreter.basic : Interpreter := { Interpreter.ascii with unicode := .basic }

namespace Extract

open Regex (Piece Local)

/-! ## Classes -/

/-- A test that fails on the white space characters, checked one by one. -/
theorem eq_false_of_isSpace {p : Char → Bool}
    (h : (spaces.map Char.ofNat).all (!p ·) = true) {c : Char} (hc : isSpace c = true) :
    p c = false := by
  have hcode : c.toNat ∈ spaces := by simpa [isSpace] using hc
  have hmem : c ∈ spaces.map Char.ofNat := List.mem_map.mpr ⟨c.toNat, hcode, c.ofNat_toNat⟩
  simpa using List.all_eq_true.mp h c hmem

theorem words_basic : Unicode.basic.Words := by
  have hascii : ∀ n < 128, isDecimal (Char.ofNat n) = true ∨
      ignoreCase isAsciiLower (Char.ofNat n) = true → isWord .basic (Char.ofNat n) = true := by
    decide +kernel
  have hword : ∀ c, isDecimal c = true ∨ ignoreCase isAsciiLower c = true →
      isWord .basic c = true := by
    intro c h
    by_cases hc : c.toNat < 128
    · have hcode := hascii c.toNat hc
      rw [c.ofNat_toNat] at hcode
      exact hcode h
    · rw [isWord, if_neg hc]
      simpa [Unicode.basic] using h
  exact ⟨fun c h => hword c (.inr h), fun c h => hword c (.inl h),
    fun c h => eq_false_of_isSpace (by decide +kernel) h⟩

section Local

variable {U : Unicode} {sep : Char → Prop}

/-- `\b` beside a character that is not a word character is `\b` at an end
of the text. -/
theorem local_wordBoundary (hword : ∀ s, sep s → isWord U s = false) :
    (wordBoundary U).Local sep := by
  have hedge : ∀ l B : PyStr, Regex.Fenced sep B →
      (l ++ B).head?.any (isWord U) = l.head?.any (isWord U) := by
    intro l B hB
    cases l with
    | cons c l => rfl
    | nil =>
        cases B with
        | nil => rfl
        | cons s B => simp [hword s (hB s rfl)]
  intro before after B A hB hA
  simp only [hedge before B hB, hedge after A hA]

theorem guarded_re (hword : ∀ s, sep s → isWord U s = false) (pattern : Pattern) :
    (pattern.re U).Guarded sep := by
  have hb : (wordBoundary U).Guarded sep := local_wordBoundary hword
  have hrun : ∀ lo hi p, (Regex.rep lo hi (.cls p)).Guarded sep := fun _ _ _ =>
    ⟨trivial, fun _ _ _ => trivial⟩
  cases pattern with
  | url =>
      exact ⟨hb, ⟨⟨⟨trivial, trivial, trivial, trivial⟩, trivial, nofun⟩, trivial, trivial, trivial⟩,
        ⟨trivial, trivial, trivial⟩, hrun _ _ _⟩
  | email => exact ⟨hb, hrun _ _ _, trivial, hrun _ _ _, trivial, hrun _ _ _, hb⟩
  | hash =>
      have hhash : ∀ n, (hashRunRe U n).Guarded sep := fun n => ⟨hb, hrun _ _ _, hb⟩
      exact ⟨hhash 64, hhash 40, hhash 32⟩
  | cve =>
      exact ⟨hb, ⟨trivial, trivial, trivial, trivial⟩, hrun _ _ _, trivial, hrun _ _ _, hb⟩
  | technique => exact ⟨hb, trivial, hrun _ _ _, ⟨⟨trivial, hrun _ _ _⟩, nofun⟩, hb⟩
  | ipv6 => exact ⟨hb, ⟨⟨hrun _ _ _, trivial⟩, nofun⟩, hrun _ _ _, hb⟩
  | ipv4 => exact ⟨hb, ⟨⟨hrun _ _ _, trivial⟩, nofun⟩, hrun _ _ _, hb⟩
  | domain =>
      exact ⟨hb, ⟨⟨⟨trivial, ⟨hrun _ _ _, trivial⟩, nofun⟩, trivial⟩,
        fun _ => .inl (.inl fun _ _ => trivial)⟩, hrun _ _ _, hb⟩

/-- The patterns read no white space, and look no further than to it. -/
theorem local_re (hU : U.Words) (pattern : Pattern) :
    (pattern.re U).Local (isSpace · = true) := by
  refine Regex.local_of_guarded (guarded_re hU.space pattern) fun s hs => ?_
  refine eq_false_of_isSpace ?_ hs
  cases pattern <;> rfl

/-! ## Matches -/

theorem blanked_append (ps qs : List (Piece Char)) :
    blanked (ps ++ qs) = blanked ps ++ blanked qs := by
  induction ps with
  | nil => rfl
  | cons piece ps ih => cases piece <;> simp [blanked, ih]

/-- **White space separates**: the matches in a document are the matches
before it and the matches behind it. -/
theorem mem_matched_append (hU : U.Words) {s : Char} (hs : isSpace s = true)
    (patterns : List Pattern) (v w : PyStr) {m : Pattern × PyStr} :
    m ∈ matched U patterns (v ++ s :: w) ↔ m ∈ matched U patterns v ∨ m ∈ matched U patterns w := by
  induction patterns generalizing v w with
  | nil => simp [matched]
  | cons pattern patterns ih =>
      have hpieces := Regex.pieces_append_separator (local_re hU pattern) hs v w
      simp only [matched, hpieces, blanked_append, blanked, List.filterMap_append,
        List.filterMap_cons, Piece.text?, List.map_append, List.mem_append, ih]
      tauto

theorem matched_nil (patterns : List Pattern) : matched U patterns [] = [] := by
  induction patterns with
  | nil => rfl
  | cons pattern patterns ih => exact ih

theorem mem_matched_cons (hU : U.Words) {s : Char} (hs : isSpace s = true)
    (patterns : List Pattern) (w : PyStr) {m : Pattern × PyStr} :
    m ∈ matched U patterns (s :: w) ↔ m ∈ matched U patterns w := by
  have h := mem_matched_append hU hs patterns [] w (m := m)
  simpa [matched_nil] using h

/-- There is nothing in the white space around a text. -/
theorem mem_matched_strip (hU : U.Words) (patterns : List Pattern) (w : PyStr)
    {m : Pattern × PyStr} : m ∈ matched U patterns w.strip ↔ m ∈ matched U patterns w := by
  have hleft : ∀ l w : PyStr, (∀ c ∈ l, isSpace c = true) →
      (m ∈ matched U patterns (l ++ w) ↔ m ∈ matched U patterns w) := by
    intro l w hl
    induction l with
    | nil => rfl
    | cons s l ih =>
        rw [List.cons_append, mem_matched_cons hU (hl s List.mem_cons_self)]
        exact ih fun c hc => hl c (List.mem_cons_of_mem s hc)
  have hright : ∀ r w : PyStr, (∀ c ∈ r, isSpace c = true) →
      (m ∈ matched U patterns (w ++ r) ↔ m ∈ matched U patterns w) := by
    intro r w hr
    cases r with
    | nil => rw [List.append_nil]
    | cons s r =>
        have hnone := hleft r [] fun c hc => hr c (List.mem_cons_of_mem s hc)
        rw [List.append_nil, matched_nil] at hnone
        rw [mem_matched_append hU (hr s List.mem_cons_self), hnone]
        simp
  have hdrop : ∀ l : PyStr, ∀ c ∈ l.takeWhile isSpace, isSpace c = true := fun l c hc =>
    List.mem_takeWhile_imp hc
  have hbefore := hleft (w.takeWhile isSpace) (w.dropWhile isSpace) (hdrop w)
  have hbehind := hright ((w.dropWhile isSpace).rtakeWhile isSpace) w.strip fun c hc =>
    List.mem_rtakeWhile_imp hc
  rw [List.takeWhile_append_dropWhile] at hbefore
  rw [strip, List.rdropWhile_append_rtakeWhile, ← strip] at hbehind
  exact hbehind.symm.trans hbefore.symm

theorem join_cons_cons (sep : Char) (l l' : PyStr) (ls : List PyStr) :
    join sep (l :: l' :: ls) = l ++ sep :: join sep (l' :: ls) := by
  simp [join, List.intercalate_cons_cons]

/-- Nothing is found but in the lines. -/
theorem mem_matched_join (hU : U.Words) (patterns : List Pattern) (ls : List PyStr)
    {m : Pattern × PyStr} :
    m ∈ matched U patterns (join '\n' ls) ↔ ∃ l ∈ ls, m ∈ matched U patterns l := by
  induction ls with
  | nil => simp [join, List.intercalate, matched_nil]
  | cons l ls ih =>
      cases ls with
      | nil => simp [join, List.intercalate]
      | cons l' ls =>
          rw [join_cons_cons, mem_matched_append hU (by decide), ih]
          simp

end Local

/-! ## Lines and refanging -/

section Lines

open Indicators

/-- No token has a newline in it. -/
theorem foldl_rewrite_append {trs : List (PyStr × PyStr)} (htrs : trs ⊆ refangReplacements)
    (v w : PyStr) :
    trs.foldl rewrite (v ++ '\n' :: w) = trs.foldl rewrite v ++ '\n' :: trs.foldl rewrite w := by
  have htable : ∀ tr ∈ refangReplacements, tr.1 ≠ [] ∧ tr.1.all (!tokenSim tr.1 · '\n') = true := by
    decide
  induction trs generalizing v w with
  | nil => rfl
  | cons tr trs ih =>
      obtain ⟨hne, hsep⟩ := htable tr (htrs List.mem_cons_self)
      have hsep' : ∀ p ∈ tr.1, tokenSim tr.1 p '\n' = false := by simpa using hsep
      rw [List.foldl_cons, rewrite_eq, Rewrite.replace_append_separator hne hsep',
        ih fun t ht => htrs (List.mem_cons_of_mem tr ht), ← rewrite_eq, ← rewrite_eq]
      rfl

theorem foldl_rewrite_join (ls : List PyStr) :
    refangReplacements.foldl rewrite (join '\n' ls) =
      join '\n' (ls.map (refangReplacements.foldl rewrite)) := by
  induction ls with
  | nil => decide
  | cons l ls ih =>
      cases ls with
      | nil => simp [join, List.intercalate]
      | cons l' ls =>
          rw [join_cons_cons, foldl_rewrite_append (List.Subset.refl _), ih]
          exact (join_cons_cons _ _ _ _).symm

/-- The first line comes first. -/
theorem exists_join_eq (sep : Char) (l : PyStr) (ls : List PyStr) :
    ∃ r, join sep (l :: ls) = l ++ r := by
  cases ls with
  | nil => exact ⟨[], by simp [join, List.intercalate]⟩
  | cons l' ls => exact ⟨_, join_cons_cons sep l l' ls⟩

/-- Lines without white space, none of them empty. -/
def Solid (ls : List PyStr) : Prop := ∀ l ∈ ls, l ≠ [] ∧ ∀ c ∈ l, isSpace c = false

theorem Solid.last {ls : List PyStr} (h : Solid ls) {c : Char}
    (hc : (join '\n' ls).getLast? = some c) : isSpace c = false := by
  induction ls with
  | nil => simp [join, List.intercalate] at hc
  | cons l ls ih =>
      cases ls with
      | nil =>
          have hjoin : join '\n' [l] = l := by simp [join, List.intercalate]
          rw [hjoin] at hc
          exact (h l List.mem_cons_self).2 c (List.mem_of_getLast? hc)
      | cons l' ls =>
          have hrest : Solid (l' :: ls) := fun k hk => h k (List.mem_cons_of_mem l hk)
          have hne : join '\n' (l' :: ls) ≠ [] := by
            obtain ⟨r, hr⟩ := exists_join_eq '\n' l' ls
            rw [hr]
            exact List.append_ne_nil_of_left_ne_nil (hrest l' List.mem_cons_self).1 r
          rw [join_cons_cons, List.append_cons, List.getLast?_append_of_ne_nil _ hne] at hc
          exact ih hrest hc

theorem Solid.strip_join {ls : List PyStr} (h : Solid ls) : (join '\n' ls).strip = join '\n' ls := by
  refine strip_eq_self_iff.mpr ⟨fun c hc => ?_, fun c => h.last⟩
  cases ls with
  | nil => simp [join, List.intercalate] at hc
  | cons l ls =>
      obtain ⟨hne, hspace⟩ := h l List.mem_cons_self
      obtain ⟨r, hr⟩ := exists_join_eq '\n' l ls
      rw [hr, List.head?_append_of_ne_nil _ hne] at hc
      exact hspace c (List.mem_of_head? hc)

/-- **The matches in a document of lines** are those in the lines. -/
theorem mem_matched_lines {U : Unicode} (hU : U.Words) (patterns : List Pattern) {ls : List PyStr}
    (hls : Solid ls) {m : Pattern × PyStr} :
    m ∈ matched U patterns (refang (join '\n' ls)) ↔
      ∃ l ∈ ls, m ∈ matched U patterns (refang l) := by
  have hline : ∀ l ∈ ls, (m ∈ matched U patterns (refang l) ↔
      m ∈ matched U patterns (refangReplacements.foldl rewrite l)) := by
    intro l hl
    rw [refang, strip_eq_self (hls l hl).2, mem_matched_strip hU]
  rw [refang, hls.strip_join, mem_matched_strip hU, foldl_rewrite_join, mem_matched_join hU]
  constructor
  · rintro ⟨k, hk, hm⟩
    obtain ⟨l, hl, rfl⟩ := List.mem_map.mp hk
    exact ⟨l, hl, (hline l hl).mpr hm⟩
  · rintro ⟨l, hl, hm⟩
    exact ⟨_, List.mem_map_of_mem hl, (hline l hl).mp hm⟩

end Lines

end Extract

end ThreatIntel
