import ThreatIntel.Rewrite

/-!
# Replacement in a text made of blocks

A text is often put together from blocks, and a pass is meant to change
each block on its own. It does, if no occurrence runs out of the block in
which it begins (`Contained`): `replace_flatMap`. For blocks that are known this is a
finite check against the text replaced (`closedIn`); where what follows
matters, `startsWith_flatMap_of` reads an occurrence off another
rendering of the same blocks.
-/

namespace ThreatIntel

namespace Rewrite

variable {α β : Type*} {sim : α → α → Bool} {old new : List α}

/-! ## Two texts one after the other -/

/-- An occurrence that begins in the first text ends in it. -/
def Contained (sim : α → α → Bool) (old w rest : List α) : Prop :=
  ∀ u, u <:+ w → u ≠ [] → startsWith sim old (u ++ rest) = true → startsWith sim old u = true

theorem replaceFrom_append (hold : old ≠ []) {w rest : List α} {k : Nat}
    (hw : Contained sim old w rest) (hk : k ≤ w.length) :
    replaceFrom sim old new k (w ++ rest) =
      replaceFrom sim old new k w ++ replaceFrom sim old new 0 rest := by
  induction w generalizing k with
  | nil =>
      obtain rfl : k = 0 := by simpa using hk
      rfl
  | cons c w ih =>
      have hw' : Contained sim old w rest := fun u hu => hw u (hu.trans (List.suffix_cons c w))
      have hlen : 0 < old.length := List.length_pos_iff.mpr hold
      cases k with
      | succ k => exact ih hw' (by simpa using hk)
      | zero =>
          by_cases hstart : startsWith sim old (c :: w) = true
          · have hrest : startsWith sim old (c :: (w ++ rest)) = true := startsWith_append rest hstart
            have hle := length_le_of_startsWith hstart
            rw [List.length_cons] at hle
            rw [List.cons_append, replaceFrom, if_pos hrest, ih hw' (by omega), replaceFrom,
              if_pos hstart, List.append_assoc]
          · have hrest : ¬ startsWith sim old (c :: (w ++ rest)) = true := fun h =>
              hstart (hw (c :: w) (List.suffix_refl _) (by simp) h)
            rw [List.cons_append, replaceFrom, if_neg hrest, ih hw' (Nat.zero_le _), replaceFrom,
              if_neg hstart, List.cons_append]

theorem replace_append (hold : old ≠ []) {w rest : List α} (hw : Contained sim old w rest) :
    replace sim old new (w ++ rest) = replace sim old new w ++ replace sim old new rest :=
  replaceFrom_append hold hw (Nat.zero_le _)

/-- A pass over blocks is a pass over each of them. -/
theorem replace_flatMap (hold : old ≠ []) {r : β → List α} {l : List β}
    (h : ∀ a m, a :: m <:+ l → Contained sim old (r a) (m.flatMap r)) :
    replace sim old new (l.flatMap r) = l.flatMap fun a => replace sim old new (r a) := by
  induction l with
  | nil => rfl
  | cons a l ih =>
      have hrest := ih fun b m hm => h b m (hm.trans (List.suffix_cons a l))
      rw [List.flatMap_cons, replace_append hold (h a l (List.suffix_refl _)), hrest,
        List.flatMap_cons]

/-! ## When a block contains its occurrences -/

/-- At each place of the block the text replaced stands in full, or differs
from the block before the block ends. -/
def closedIn (sim : α → α → Bool) (old w : List α) : Bool :=
  w.tails.all fun u => u.isEmpty || startsWith sim old u || clash sim old u

theorem contained_of_closedIn {w : List α} (h : closedIn sim old w = true) (rest : List α) :
    Contained sim old w rest := by
  intro u hu hne hstart
  simp only [closedIn, List.all_eq_true, List.mem_tails, Bool.or_eq_true, List.isEmpty_iff] at h
  rcases h u hu with (hnil | hin) | hclash
  · exact absurd hnil hne
  · exact hin
  · rw [startsWith_append_of_clash rest hclash] at hstart
    cases hstart

/-- Nothing begins at a single character. -/
theorem contained_singleton {c : α} {rest : List α}
    (h : startsWith sim old (c :: rest) = false) : Contained sim old [c] rest := by
  intro u hu hne hstart
  rcases List.suffix_cons_iff.mp hu with rfl | hu
  · rw [List.singleton_append, h] at hstart
    cases hstart
  · exact absurd (List.suffix_nil.mp hu) hne

theorem replace_singleton_of_not_startsWith {c : α} {rest : List α}
    (h : startsWith sim old (c :: rest) = false) : replace sim old new [c] = [c] := by
  have hself : startsWith sim old [c] = false := by
    refine Bool.eq_false_iff.mpr fun hstart => ?_
    exact Bool.false_ne_true (h.symm.trans (startsWith_append rest hstart))
  simp [replace, replaceFrom, hself]

/-! ## Separators -/

/-- No occurrence runs across a character that is not in the text replaced. -/
theorem startsWith_append_separator {s : α} (hsep : ∀ p ∈ old, sim p s = false) (v w : List α) :
    startsWith sim old (v ++ s :: w) = startsWith sim old v := by
  induction v generalizing old with
  | nil =>
      cases old with
      | nil => rfl
      | cons p old => simp [startsWith, hsep p List.mem_cons_self]
  | cons c v ih =>
      cases old with
      | nil => rfl
      | cons p old =>
          rw [List.cons_append, startsWith, startsWith,
            ih fun q hq => hsep q (List.mem_cons_of_mem p hq)]

theorem replace_append_separator (hold : old ≠ []) {s : α} (hsep : ∀ p ∈ old, sim p s = false)
    (v w : List α) :
    replace sim old new (v ++ s :: w) = replace sim old new v ++ s :: replace sim old new w := by
  have hcontained : Contained sim old v (s :: w) := fun u _ _ hstart => by
    rwa [startsWith_append_separator hsep] at hstart
  have hnone : startsWith sim old (s :: w) = false := by
    obtain ⟨p, old, rfl⟩ := List.exists_cons_of_ne_nil hold
    simp [startsWith, hsep p List.mem_cons_self]
  have hcons : replace sim old new (s :: w) = s :: replace sim old new w := by
    simp [replace, replaceFrom, hnone]
  rw [replace_append hold hcontained, hcons]

/-- A character that no occurrence has, or that is written in the place of
each, stays in the text. -/
theorem mem_replace_of_mem {s : List α} (hold : old ≠ []) {c : α} (h : c ∈ s)
    (hc : (∀ p ∈ old, sim p c = false) ∨ c ∈ new) : c ∈ replace sim old new s := by
  rcases hc with hsep | hnew
  · obtain ⟨v, w, rfl⟩ := List.append_of_mem h
    rw [replace_append_separator hold hsep]
    exact List.mem_append_right _ List.mem_cons_self
  · induction s with
    | nil => exact absurd h List.not_mem_nil
    | cons d s ih =>
        rw [replace, replaceFrom]
        split
        · exact List.mem_append_left _ hnew
        · rcases List.mem_cons.mp h with rfl | h
          · exact List.mem_cons_self
          · exact List.mem_cons_of_mem d (ih h)

/-! ## Occurrences across blocks -/

theorem startsWith_append_eq (pat w rest : List α) :
    startsWith sim pat (w ++ rest) =
      (startsWith sim (pat.take w.length) w && startsWith sim (pat.drop w.length) rest) := by
  induction w generalizing pat with
  | nil => simp
  | cons c w ih =>
      cases pat with
      | nil => simp
      | cons p pat => simp [startsWith, ih, Bool.and_assoc]

/-- Two renderings of a list of blocks: a pattern that begins the first one
begins the second one as well, if the blocks on which they differ begin, in the
first, with a character that is not in the pattern. -/
theorem startsWith_flatMap_of {r r' : β → List α} {l : List β} {pat : List α}
    (h : ∀ a ∈ l, r a = r' a ∨ ∃ n u, r a = n :: u ∧ ∀ p ∈ pat, sim p n = false)
    (hstart : startsWith sim pat (l.flatMap r) = true) :
    startsWith sim pat (l.flatMap r') = true := by
  induction l generalizing pat with
  | nil => exact hstart
  | cons a l ih =>
      rw [List.flatMap_cons] at hstart ⊢
      rcases h a List.mem_cons_self with hsame | ⟨n, u, hn, hfree⟩
      · rw [hsame, startsWith_append_eq, Bool.and_eq_true] at hstart
        rw [startsWith_append_eq, Bool.and_eq_true]
        refine ⟨hstart.1, ih (fun b hb => ?_) hstart.2⟩
        refine (h b (List.mem_cons_of_mem a hb)).imp_right ?_
        rintro ⟨n, u, hn, hfree⟩
        exact ⟨n, u, hn, fun p hp => hfree p (List.mem_of_mem_drop hp)⟩
      · cases pat with
        | nil => simp
        | cons p pat =>
            have hp := hfree p List.mem_cons_self
            simp [hn, startsWith, hp] at hstart

/-- The block begins with a character that is not in the pattern. -/
def shields (sim : α → α → Bool) (pat : List α) : List α → Bool
  | [] => false
  | n :: _ => pat.all fun p => !sim p n

theorem exists_of_shields {pat w : List α} (h : shields sim pat w = true) :
    ∃ n u, w = n :: u ∧ ∀ p ∈ pat, sim p n = false := by
  cases w with
  | nil => simp [shields] at h
  | cons n u => exact ⟨n, u, rfl, by simpa [shields] using h⟩

/-! ## Several passes -/

/-- A pass: what is replaced, up to which relation, and by what. -/
structure Pass (α : Type*) where
  sim : α → α → Bool
  old : List α
  new : List α

def Pass.apply (p : Pass α) (s : List α) : List α := replace p.sim p.old p.new s

def runPasses (ps : List (Pass α)) (s : List α) : List α := ps.foldl (fun s p => p.apply s) s

@[simp] theorem runPasses_nil (s : List α) : runPasses [] s = s := rfl

@[simp] theorem runPasses_cons (p : Pass α) (ps : List (Pass α)) (s : List α) :
    runPasses (p :: ps) s = runPasses ps (p.apply s) := rfl

theorem not_startsWith_char {p : Pass α} {asIs r : β → List α} {m : List β} {c : α}
    (hblocks : ∀ b ∈ m, r b = asIs b ∨ shields p.sim p.old.tail (r b) = true)
    (h : startsWith p.sim p.old (c :: m.flatMap asIs) = false) :
    startsWith p.sim p.old (c :: m.flatMap r) = false := by
  refine Bool.eq_false_iff.mpr fun hstart => Bool.eq_false_iff.mp h ?_
  obtain ⟨sim, old, new⟩ := p
  cases old with
  | nil => rfl
  | cons q old =>
      simp only [startsWith, Bool.and_eq_true] at hstart ⊢
      exact ⟨hstart.1, startsWith_flatMap_of
        (fun b hb => (hblocks b hb).imp_right exists_of_shields) hstart.2⟩

/-- No pass changes a character at which nothing begins. -/
theorem runPasses_char {ps : List (Pass α)} {c : α} {rest : List α}
    (h : ∀ p ∈ ps, startsWith p.sim p.old (c :: rest) = false) : runPasses ps [c] = [c] := by
  induction ps with
  | nil => rfl
  | cons p ps ih =>
      have hpass : p.apply [c] = [c] :=
        replace_singleton_of_not_startsWith (h p List.mem_cons_self)
      rw [runPasses_cons, hpass]
      exact ih fun q hq => h q (List.mem_cons_of_mem p hq)

section Settles

variable [DecidableEq α]

/-- Through all the passes the block contains its occurrences, and it does not
help an occurrence that begins before it: it is written as in the text
without passes, or begins with a character that stands inside no text
replaced. -/
def settles (asIs : List α) : List (Pass α) → List α → Bool
  | [], _ => true
  | p :: ps, w =>
      closedIn p.sim p.old w && (w = asIs || shields p.sim p.old.tail w) &&
        settles asIs ps (p.apply w)

/-- The block is a character at which no text replaced begins, or one that
settles. -/
def Steady (ps : List (Pass α)) (asIs r : β → List α) (a : β) (m : List β) : Prop :=
  (∃ c, r a = [c] ∧ asIs a = [c] ∧
      ∀ p ∈ ps, startsWith p.sim p.old (c :: m.flatMap asIs) = false) ∨
    settles (asIs a) ps (r a) = true

/-- **Passes over steady blocks** are passes over each of them. -/
theorem runPasses_flatMap {ps : List (Pass α)} (hold : ∀ p ∈ ps, p.old ≠ [])
    {asIs r : β → List α} {l : List β} (h : ∀ a m, a :: m <:+ l → Steady ps asIs r a m) :
    runPasses ps (l.flatMap r) = l.flatMap fun a => runPasses ps (r a) := by
  induction ps generalizing r with
  | nil => rfl
  | cons p ps ih =>
      have hblocks : ∀ a m, a :: m <:+ l →
          r a = asIs a ∨ shields p.sim p.old.tail (r a) = true := by
        intro a m ham
        rcases h a m ham with ⟨c, hc, has, -⟩ | hset
        · exact .inl (hc.trans has.symm)
        · simp only [settles, Bool.and_eq_true, Bool.or_eq_true, decide_eq_true_eq] at hset
          exact hset.1.2
      have hinner : ∀ a m, a :: m <:+ l → ∀ b ∈ m,
          r b = asIs b ∨ shields p.sim p.old.tail (r b) = true := by
        intro a m ham b hb
        obtain ⟨m₁, m₂, rfl⟩ := List.append_of_mem hb
        exact hblocks b m₂ ((List.suffix_append (a :: m₁) (b :: m₂)).trans ham)
      have hpass : p.apply (l.flatMap r) = l.flatMap fun a => p.apply (r a) := by
        refine replace_flatMap (hold p List.mem_cons_self) fun a m ham => ?_
        rcases h a m ham with ⟨c, hc, -, hnone⟩ | hset
        · rw [hc]
          exact contained_singleton
            (not_startsWith_char (hinner a m ham) (hnone p List.mem_cons_self))
        · simp only [settles, Bool.and_eq_true] at hset
          exact contained_of_closedIn hset.1.1 _
      rw [runPasses_cons, hpass]
      refine ih (fun q hq => hold q (List.mem_cons_of_mem p hq)) fun a m ham => ?_
      rcases h a m ham with ⟨c, hc, has, hnone⟩ | hset
      · refine .inl ⟨c, ?_, has, fun q hq => hnone q (List.mem_cons_of_mem p hq)⟩
        show p.apply (r a) = [c]
        rw [hc]
        exact replace_singleton_of_not_startsWith (hnone p List.mem_cons_self)
      · simp only [settles, Bool.and_eq_true] at hset
        exact .inr hset.2

end Settles

end Rewrite

end ThreatIntel
