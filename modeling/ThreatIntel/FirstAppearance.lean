import ThreatIntel.Earliest
import ThreatIntel.ExtractSpec
import ThreatIntel.SameIndicator
import ThreatIntel.Spans

/-!
# The order of the indicators

`extract_from_text` promises the order of first appearance. It scans
pattern by pattern, so what an earlier pattern finds comes before what a
later one does, wherever the two stand in the document; within one
pattern, the order is that of the document (`sightings_scan`). `sightings`
has the pattern and the place of every accepted match, `inOrder` the order
that is promised, and `first_appearance_iff` says which matches break it.
-/

namespace ThreatIntel

namespace Extract

open Earliest Harvest Indicators
open Regex (Piece)

/-! ## Accepted matches and their places -/

/-- The matches of the patterns on a marked text, with the pattern of each. -/
def placed (U : Unicode) : List Pattern → List Mark → List (Pattern × List Mark)
  | [], _ => []
  | pattern :: patterns, marked =>
      let pieces := ((pattern.re U).comap Mark.char).pieces marked
      (pieces.filterMap Piece.text?).map (pattern, ·) ++ placed U patterns (blankedMarks pieces)

theorem placed_map_snd (U : Unicode) (patterns : List Pattern) (marked : List Mark) :
    (placed U patterns marked).map Prod.snd = matchedMarks U patterns marked := by
  induction patterns generalizing marked with
  | nil => rfl
  | cons pattern patterns ih =>
      rw [placed, matchedMarks, List.map_append, ih, List.map_map]
      congr 1
      exact List.map_id _

theorem placed_map_chars (U : Unicode) (patterns : List Pattern) (marked : List Mark) :
    (placed U patterns marked).map (Prod.map id (List.map Mark.char)) =
      matched U patterns (marked.map Mark.char) := by
  induction patterns generalizing marked with
  | nil => rfl
  | cons pattern patterns ih =>
      simp only [placed, matched, List.map_append, ih, List.map_map, Regex.pieces_comap,
        text?_map, blanked_map]
      rfl

/-- The turn of a pattern. -/
def Pattern.rank (pattern : Pattern) : Nat := patterns.idxOf pattern

/-- The indicator a match is, if its candidate is accepted, with the turn of
its pattern and the place at which it starts. -/
def sightingOf (U : Unicode) (m : Pattern × List Mark) : Option (Sighting ParsedIndicator) :=
  (candidateOf (m.1, m.2.map Mark.char)).bind fun value =>
    (classifyIndicator U value).toOption.map fun item =>
      { rank := m.1.rank, place := (spanOf m.2).1, item }

/-- The accepted matches of a document, in the order in which the scan comes
upon them. -/
def sightings (U : Unicode) (text : PyStr) : List (Sighting ParsedIndicator) :=
  (placed U patterns (marks text)).filterMap (sightingOf U)

section Sightings

variable {U : Unicode} {text : PyStr}

theorem of_sightingOf {m : Pattern × List Mark} {e : Sighting ParsedIndicator}
    (h : sightingOf U m = some e) : e.rank = m.1.rank ∧ e.place = (spanOf m.2).1 := by
  simp only [sightingOf, Option.bind_eq_some_iff, Option.map_eq_some_iff] at h
  obtain ⟨value, -, p, -, rfl⟩ := h
  exact ⟨rfl, rfl⟩

theorem hits_candidates (U : Unicode) (text : PyStr) :
    hits (classifyIndicator U) (candidates U patterns text) =
      (sightings U text).map Sighting.item := by
  have hmatched := placed_map_chars U patterns (marks text)
  rw [map_char_marks] at hmatched
  rw [hits, candidates_eq, ← hmatched, List.filterMap_map, List.filterMap_filterMap, sightings,
    List.map_filterMap]
  refine List.filterMap_congr fun m _ => ?_
  obtain ⟨pattern, w⟩ := m
  simp only [Function.comp_apply, Prod.map_apply, id_eq, sightingOf]
  cases candidateOf (pattern, w.map Mark.char) with
  | none => rfl
  | some value =>
      rw [Option.bind_some, Option.bind_some, Option.map_map]
      generalize (classifyIndicator U value).toOption = judged
      cases judged <;> rfl

/-! ## The order of the scan -/

theorem mem_patterns_of_placed {patterns : List Pattern} {marked : List Mark}
    {m : Pattern × List Mark} (h : m ∈ placed U patterns marked) : m.1 ∈ patterns := by
  induction patterns generalizing marked with
  | nil => exact absurd h List.not_mem_nil
  | cons pattern patterns ih =>
      rcases List.mem_append.mp h with h | h
      · obtain ⟨w, -, rfl⟩ := List.mem_map.mp h
        exact List.mem_cons_self
      · exact List.mem_cons_of_mem _ (ih h)

theorem mem_matchedMarks_of_placed {patterns : List Pattern} {marked : List Mark}
    {m : Pattern × List Mark} (h : m ∈ placed U patterns marked) :
    m.2 ∈ matchedMarks U patterns marked := by
  rw [← placed_map_snd]
  exact List.mem_map_of_mem h

/-- A match starts at a place of its own. -/
theorem start_mem_places {patterns : List Pattern} {marked w : List Mark}
    (h : Faithful text marked) (hw : w ∈ matchedMarks U patterns marked) :
    (spanOf w).1 ∈ places w := by
  obtain ⟨hne, hsome, hfaithful⟩ := matchedMarks_spec h hw
  have hspan := spanOf_spec hne hsome hfaithful
  have hpos : 0 < w.length := List.length_pos_of_ne_nil hne
  rw [hspan.2.2.2, List.mem_range'_1]
  omega

/-- What a scan finds stands in its text in this order. -/
theorem places_found_sublist (pieces : List (Piece Mark)) :
    ((pieces.filterMap Piece.text?).flatMap places).Sublist
      (places (pieces.flatMap Piece.span)) := by
  induction pieces with
  | nil => exact .refl _
  | cons piece pieces ih =>
      rw [List.flatMap_cons, places, List.filterMap_append]
      cases piece with
      | found w => exact ih.append_left (places w)
      | kept m => exact ih.trans (List.sublist_append_right _ _)

/-- And so does what it leaves. -/
theorem places_blankedMarks_sublist (pieces : List (Piece Mark)) :
    (places (blankedMarks pieces)).Sublist (places (pieces.flatMap Piece.span)) := by
  induction pieces with
  | nil => exact .refl _
  | cons piece pieces ih =>
      rw [List.flatMap_cons, places, places, List.filterMap_append]
      cases piece with
      | found w => exact ih.trans (List.sublist_append_right _ _)
      | kept m =>
          have hcons : blankedMarks (.kept m :: pieces) = [m] ++ blankedMarks pieces := rfl
          rw [hcons, List.filterMap_append]
          exact ih.append_left (places [m])

/-- The matches come pattern by pattern, and those of a pattern in the order
of the document. -/
theorem placed_scan {patterns : List Pattern} {marked : List Mark}
    (hpatterns : patterns.Pairwise fun a b => a.rank < b.rank) (h : Faithful text marked)
    (hsorted : (places marked).Pairwise (· < ·)) :
    (placed U patterns marked).Pairwise fun m m' =>
      m.1.rank < m'.1.rank ∨ m.1.rank = m'.1.rank ∧ (spanOf m.2).1 < (spanOf m'.2).1 := by
  induction patterns generalizing marked with
  | nil => exact List.Pairwise.nil
  | cons pattern patterns ih =>
      obtain ⟨hfirst, hrest⟩ := List.pairwise_cons.mp hpatterns
      have hstart : ∀ w ∈ (((pattern.re U).comap Mark.char).pieces marked).filterMap Piece.text?,
          (spanOf w).1 ∈ places w := by
        intro w hw
        have hmem : w ∈ matchedMarks U (pattern :: patterns) marked := List.mem_append_left _ hw
        exact start_mem_places h hmem
      rw [placed, List.pairwise_append, List.pairwise_map]
      rw [← Regex.span_pieces ((pattern.re U).comap Mark.char) marked] at h hsorted
      refine ⟨?_, ?_, ?_⟩
      · have hfound := hsorted.sublist (places_found_sublist _)
        rw [List.pairwise_flatMap] at hfound
        refine hfound.2.imp_of_mem fun hw hw' hlt => .inr ⟨rfl, ?_⟩
        exact hlt _ (hstart _ hw) _ (hstart _ hw')
      · exact ih hrest h.blankedMarks (hsorted.sublist (places_blankedMarks_sublist _))
      · intro m hm m' hm'
        obtain ⟨w, -, rfl⟩ := List.mem_map.mp hm
        exact .inl (hfirst _ (mem_patterns_of_placed hm'))

/-- **The scan** comes upon the accepted matches of an earlier pattern before
those of a later one, and upon those of one pattern from place to place. -/
theorem sightings_scan (U : Unicode) (text : PyStr) :
    (sightings U text).Pairwise Sighting.Ahead := by
  have hsorted : (places (marks text)).Pairwise (· < ·) := by
    rw [places_marks]
    exact List.pairwise_lt_range
  rw [sightings, List.pairwise_filterMap]
  refine (placed_scan (by decide) (faithful_marks text) hsorted).imp fun h e he e' he' => ?_
  obtain ⟨hrank, hplace⟩ := of_sightingOf he
  obtain ⟨hrank', hplace'⟩ := of_sightingOf he'
  rwa [Sighting.Ahead, hrank, hrank', hplace, hplace']

/-- Only one match starts at a place. -/
theorem nodup_starts (U : Unicode) (text : PyStr) :
    ((sightings U text).map Sighting.place).Nodup := by
  have hdisjoint := (List.nodup_flatMap.mp (nodup_places_matchedMarks U patterns text)).2
  rw [← placed_map_snd, List.pairwise_map] at hdisjoint
  rw [List.nodup_iff_pairwise_ne, List.pairwise_map, sightings, List.pairwise_filterMap]
  refine hdisjoint.imp_of_mem fun {m m'} hm hm' hd e he e' he' heq => ?_
  have hleft := start_mem_places (faithful_marks text) (mem_matchedMarks_of_placed hm)
  have hright := start_mem_places (faithful_marks text) (mem_matchedMarks_of_placed hm')
  rw [← (of_sightingOf he).2, heq, (of_sightingOf he').2] at hleft
  exact hd hleft hright

/-- What is discovered has been recognised. -/
theorem recognised_of_discovered {p : ParsedIndicator}
    (h : p ∈ discovered (sightings U text)) :
    ∃ v, PyStr.strip v = v ∧ Recognised U v p := by
  obtain ⟨e, he, rfl⟩ := mem_discovered.mp h
  obtain ⟨m, -, hm⟩ := List.mem_filterMap.mp he
  simp only [sightingOf, Option.bind_eq_some_iff, Option.map_eq_some_iff] at hm
  obtain ⟨value, -, q, hq, rfl⟩ := hm
  cases hclassify : classifyIndicator U value with
  | error e => simp [hclassify, Except.toOption] at hq
  | ok q' =>
      obtain rfl : q' = q := by simpa [hclassify, Except.toOption] using hq
      exact ⟨refang value, strip_refang value, (classifyIndicator_eq_ok_iff.mp hclassify).2⟩

theorem value_injOn {p q : ParsedIndicator} (hp : p ∈ discovered (sightings U text))
    (hq : q ∈ discovered (sightings U text)) (h : p.value = q.value) : p = q := by
  obtain ⟨v, hv, hrec⟩ := recognised_of_discovered hp
  obtain ⟨w, hw, hrec'⟩ := recognised_of_discovered hq
  exact hrec.eq_of_value hv hw hrec' h

end Sightings

/-- What the extraction returns if it returns: the first that the scan comes
upon, and one at least. -/
theorem extractFromText_eq {I : Interpreter} {text : PyStr} {limit : Nat} {found : List PyStr}
    (h : extractFromText I text limit = .ok found) :
    found = ((discovered (sightings I.unicode (refang text))).take (max limit 1)).map
      ParsedIndicator.value := by
  rw [extractFromText, collectText_eq, harvested] at h
  by_cases hclear : Clear (classifyIndicator I.unicode) isUnknownIndicator (max limit 1) []
      (candidates I.unicode patterns (refang text))
  · rw [harvest_of_clear (by omega) hclear, hits_candidates] at h
    exact (Except.ok.inj h).symm
  · obtain ⟨a, -, e, -, -, hrun⟩ := harvest_of_not_clear (by omega) hclear
    rw [hrun] at h
    cases h

/-- **The order of first appearance** is kept, and the limit leaves the
indicators that appear first, exactly if every indicator that is overtaken,
by a match of a later pattern that stands in front of all of its own, has as
many ahead of it as the limit allows; with a limit of zero, if nothing is
accepted at all. -/
theorem first_appearance_iff {I : Interpreter} {text : PyStr} {limit : Nat} {found : List PyStr}
    (h : extractFromText I text limit = .ok found) :
    found = ((inOrder (sightings I.unicode (refang text))).take limit).map ParsedIndicator.value ↔
      KeepsOrder (sightings I.unicode (refang text)) limit ∧
        (limit = 0 → sightings I.unicode (refang text) = []) := by
  have hfound := extractFromText_eq h
  have hscan := sightings_scan I.unicode (refang text)
  have hplaces := nodup_starts I.unicode (refang text)
  have hvalue : ∀ p ∈ discovered (sightings I.unicode (refang text)),
      ∀ q ∈ discovered (sightings I.unicode (refang text)), p.value = q.value → p = q :=
    fun p hp q hq => value_injOn hp hq
  generalize sightings I.unicode (refang text) = ss at *
  by_cases hzero : limit = 0
  · subst hzero
    have hkeeps : KeepsOrder ss 0 := fun _ _ _ _ _ => Nat.zero_le _
    rw [hfound, ← discovered_eq_nil_iff]
    cases discovered ss <;> simp [hkeeps]
  · have hmax : max limit 1 = limit := by omega
    rw [hfound, hmax, ← take_discovered_eq_iff hscan hplaces]
    simp only [hzero, false_implies, and_true]
    refine ⟨fun heq => eq_of_map_eq (fun p hp q hq => ?_) heq, fun heq => by rw [heq]⟩
    exact hvalue p (List.mem_of_mem_take hp) q
      ((inOrder_perm ss).mem_iff.mp (List.mem_of_mem_take hq))

/-! ## Instances -/

/-- An address and a domain behind it. -/
theorem first_appearance_sample :
    extractFromText .ascii "1.2.3.4 a.bc".toList 2 =
      .ok (((inOrder (sightings .ascii "1.2.3.4 a.bc".toList)).take 2).map
        ParsedIndicator.value) := by
  have hrun : extractFromText .ascii "1.2.3.4 a.bc".toList 2 =
      .ok ["1.2.3.4".toList, "a.bc".toList] := by
    decide +kernel
  have hrefang : refang "1.2.3.4 a.bc".toList = "1.2.3.4 a.bc".toList := by decide
  have hkept := (first_appearance_iff hrun).mpr (by rw [hrefang]; decide +kernel)
  rw [hrun, hkept, hrefang]
  rfl

/-- A domain and an address behind it: the address comes first, and with a
limit of one it is all that is returned. -/
theorem later_pattern_comes_later :
    ¬ ∀ (text : PyStr) (limit : Nat) (found : List PyStr),
      extractFromText .ascii text limit = .ok found →
      found = ((inOrder (sightings .ascii (refang text))).take limit).map
        ParsedIndicator.value := by
  intro h
  have hrun : extractFromText .ascii "a.bc 1.2.3.4".toList 1 = .ok ["1.2.3.4".toList] := by
    decide +kernel
  have hseen : sightings .ascii (refang "a.bc 1.2.3.4".toList) =
      [⟨6, 5, ⟨.ipv4, "1.2.3.4".toList⟩⟩, ⟨7, 0, ⟨.domain, "a.bc".toList⟩⟩] := by
    decide +kernel
  have horder : ((inOrder (sightings .ascii (refang "a.bc 1.2.3.4".toList))).take 1).map
      ParsedIndicator.value = ["a.bc".toList] := by
    rw [hseen]
    simp [inOrder, discovered, distinct, firstAt, List.mergeSort]
  have heq := (h _ _ _ hrun).trans horder
  exact absurd heq (by decide)

end Extract

end ThreatIntel
