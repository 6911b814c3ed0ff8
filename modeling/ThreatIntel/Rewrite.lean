import Mathlib.Data.List.Infix

/-!
# Single-pass replacement

`str.replace` and `re.sub` of a fixed text: a scan from the left that
replaces every occurrence it meets and goes on behind it, so that a
replacement is never read again. Occurrences are up to a relation `sim`
between a character of the pattern and one of the text (equality, or
equality up to case).

The results say when a pass changes nothing, that it does not lengthen
the text, and when the result is free of a pattern: `occurs_replace` asks
only for a finite check of the two texts against each other.
-/

namespace ThreatIntel

namespace Rewrite

variable {α : Type*} (sim : α → α → Bool)

/-- The text begins with the pattern. -/
def startsWith : List α → List α → Bool
  | [], _ => true
  | _ :: _, [] => false
  | p :: pat, c :: s => sim p c && startsWith pat s

/-- The pattern occurs somewhere in the text. -/
def occurs (pat : List α) : List α → Bool
  | [] => startsWith sim pat []
  | c :: s => startsWith sim pat (c :: s) || occurs pat s

/-- The scan, with the number of characters still to be skipped: those of
the occurrence just replaced. -/
def replaceFrom (old new : List α) : Nat → List α → List α
  | _, [] => []
  | k + 1, _ :: s => replaceFrom old new k s
  | 0, c :: s =>
      if startsWith sim old (c :: s) then new ++ replaceFrom old new (old.length - 1) s
      else c :: replaceFrom old new 0 s

def replace (old new s : List α) : List α := replaceFrom sim old new 0 s

/-! ## Occurrences -/

variable {sim}

@[simp] theorem startsWith_nil (s : List α) : startsWith sim [] s = true := by
  cases s <;> rfl

theorem length_le_of_startsWith {pat s : List α} (h : startsWith sim pat s = true) :
    pat.length ≤ s.length := by
  induction pat generalizing s with
  | nil => simp
  | cons p pat ih =>
      cases s with
      | nil => simp [startsWith] at h
      | cons c s =>
          simp only [startsWith, Bool.and_eq_true] at h
          simpa using ih h.2

theorem occurs_of_startsWith {pat s : List α} (h : startsWith sim pat s = true) :
    occurs sim pat s = true := by
  cases s with
  | nil => exact h
  | cons c s => simp [occurs, h]

theorem occurs_cons_of_occurs {pat s : List α} (c : α) (h : occurs sim pat s = true) :
    occurs sim pat (c :: s) = true := by
  simp [occurs, h]

theorem startsWith_append {pat s : List α} (t : List α) (h : startsWith sim pat s = true) :
    startsWith sim pat (s ++ t) = true := by
  induction pat generalizing s with
  | nil => simp
  | cons p pat ih =>
      cases s with
      | nil => simp [startsWith] at h
      | cons c s =>
          simp only [startsWith, Bool.and_eq_true] at h
          simpa [startsWith, h.1] using ih h.2

theorem occurs_append_left {pat s : List α} (t : List α) (h : occurs sim pat s = true) :
    occurs sim pat (t ++ s) = true := by
  induction t with
  | nil => exact h
  | cons c t ih => exact occurs_cons_of_occurs c ih

theorem occurs_append_right {pat s : List α} (t : List α) (h : occurs sim pat s = true) :
    occurs sim pat (s ++ t) = true := by
  induction s with
  | nil => exact occurs_of_startsWith (startsWith_append t h)
  | cons c s ih =>
      simp only [occurs, Bool.or_eq_true] at h
      rcases h with h | h
      · exact occurs_of_startsWith (startsWith_append t h)
      · exact occurs_cons_of_occurs c (ih h)

/-- An occurrence begins in the first text or is one in the second. -/
theorem occurs_append_cases {pat s t : List α} (h : occurs sim pat (s ++ t) = true) :
    (∃ u, u <:+ s ∧ u ≠ [] ∧ startsWith sim pat (u ++ t) = true) ∨ occurs sim pat t = true := by
  induction s with
  | nil => exact .inr h
  | cons c s ih =>
      simp only [List.cons_append, occurs, Bool.or_eq_true] at h
      rcases h with h | h
      · exact .inl ⟨c :: s, List.suffix_refl _, by simp, h⟩
      · refine (ih h).imp_left ?_
        rintro ⟨u, hu, hne, hstart⟩
        exact ⟨u, hu.trans (List.suffix_cons c s), hne, hstart⟩

theorem occurs_of_isInfix {pat s t : List α} (hst : s <:+: t) (h : occurs sim pat s = true) :
    occurs sim pat t = true := by
  obtain ⟨a, b, rfl⟩ := hst
  exact occurs_append_right b (occurs_append_left a h)

/-- Where a pattern stands, what it begins with stands. -/
theorem startsWith_of_prefix {pat rest s : List α} (h : startsWith sim (pat ++ rest) s = true) :
    startsWith sim pat s = true := by
  induction pat generalizing s with
  | nil => simp
  | cons p pat ih =>
      cases s with
      | nil => simp [startsWith] at h
      | cons c s =>
          simp only [List.cons_append, startsWith, Bool.and_eq_true] at h ⊢
          exact ⟨h.1, ih h.2⟩

theorem occurs_of_prefix {pat rest s : List α} (h : occurs sim (pat ++ rest) s = true) :
    occurs sim pat s = true := by
  induction s with
  | nil => exact startsWith_of_prefix h
  | cons c s ih =>
      simp only [occurs, Bool.or_eq_true] at h ⊢
      exact h.imp startsWith_of_prefix ih

/-- Every character of a pattern that occurs is matched somewhere. -/
theorem exists_of_startsWith {pat s : List α} (h : startsWith sim pat s = true) {p : α}
    (hp : p ∈ pat) : ∃ c ∈ s, sim p c = true := by
  induction pat generalizing s with
  | nil => exact absurd hp List.not_mem_nil
  | cons q pat ih =>
      cases s with
      | nil => simp [startsWith] at h
      | cons c s =>
          simp only [startsWith, Bool.and_eq_true] at h
          rcases List.mem_cons.mp hp with rfl | hp
          · exact ⟨c, List.mem_cons_self, h.1⟩
          · obtain ⟨d, hd, hsim⟩ := ih h.2 hp
            exact ⟨d, List.mem_cons_of_mem _ hd, hsim⟩

theorem exists_of_occurs {pat s : List α} (h : occurs sim pat s = true) {p : α}
    (hp : p ∈ pat) : ∃ c ∈ s, sim p c = true := by
  induction s with
  | nil => exact exists_of_startsWith h hp
  | cons c s ih =>
      simp only [occurs, Bool.or_eq_true] at h
      rcases h with h | h
      · exact exists_of_startsWith h hp
      · obtain ⟨d, hd, hsim⟩ := ih h
        exact ⟨d, List.mem_cons_of_mem _ hd, hsim⟩

/-- A change of characters that the relation does not see moves no
occurrence. -/
theorem startsWith_map {f : α → α} (hf : ∀ p c, sim p (f c) = sim p c) (pat s : List α) :
    startsWith sim pat (s.map f) = startsWith sim pat s := by
  induction pat generalizing s with
  | nil => simp
  | cons p pat ih =>
      cases s with
      | nil => rfl
      | cons c s => simp [startsWith, hf, ih]

theorem occurs_map {f : α → α} (hf : ∀ p c, sim p (f c) = sim p c) (pat s : List α) :
    occurs sim pat (s.map f) = occurs sim pat s := by
  induction s with
  | nil => rfl
  | cons c s ih =>
      have hhead := startsWith_map hf pat (c :: s)
      simp only [List.map_cons] at hhead ⊢
      simp [occurs, hhead, ih]

/-! ## What a pass leaves alone -/

theorem replace_of_not_occurs {old s : List α} (new : List α) (h : occurs sim old s = false) :
    replace sim old new s = s := by
  induction s with
  | nil => rfl
  | cons c s ih =>
      simp only [occurs, Bool.or_eq_false_iff] at h
      have ih' : replaceFrom sim old new 0 s = s := ih h.2
      simp [replace, replaceFrom, h.1, ih']

/-- A single character is replaced wherever it stands. -/
theorem replace_singleton (a : α) (new s : List α) :
    replace sim [a] new s = s.flatMap fun c => if sim a c then new else [c] := by
  induction s with
  | nil => rfl
  | cons c s ih =>
      simp only [replace] at ih
      by_cases h : sim a c = true <;> simp [replace, replaceFrom, startsWith, h, ih]

theorem mem_replaceFrom {old new : List α} {k : Nat} {s : List α} {c : α}
    (h : c ∈ replaceFrom sim old new k s) : c ∈ s ∨ c ∈ new := by
  induction s generalizing k with
  | nil => simp [replaceFrom] at h
  | cons d s ih =>
      cases k with
      | succ k =>
          rcases ih (k := k) h with h | h
          · exact .inl (List.mem_cons_of_mem _ h)
          · exact .inr h
      | zero =>
          rw [replaceFrom] at h
          split at h
          · rcases List.mem_append.mp h with h | h
            · exact .inr h
            · rcases ih h with h | h
              · exact .inl (List.mem_cons_of_mem _ h)
              · exact .inr h
          · rcases List.mem_cons.mp h with rfl | h
            · exact .inl List.mem_cons_self
            · rcases ih h with h | h
              · exact .inl (List.mem_cons_of_mem _ h)
              · exact .inr h

theorem mem_replace {old new s : List α} {c : α} (h : c ∈ replace sim old new s) :
    c ∈ s ∨ c ∈ new :=
  mem_replaceFrom h

/-! ## Lengths -/

theorem length_replaceFrom_le {old new : List α} (hlen : new.length ≤ old.length) (k : Nat)
    (s : List α) : (replaceFrom sim old new k s).length ≤ s.length - k := by
  induction s generalizing k with
  | nil => simp [replaceFrom]
  | cons c s ih =>
      cases k with
      | succ k => simpa [replaceFrom] using ih k
      | zero =>
          rw [replaceFrom]
          split
          · next h =>
              have hold := length_le_of_startsWith h
              have hrest := ih (old.length - 1)
              simp only [List.length_append, List.length_cons] at *
              omega
          · have hrest := ih 0
            simp only [List.length_cons] at *
            omega

theorem length_replace_le {old new : List α} (hlen : new.length ≤ old.length) (s : List α) :
    (replace sim old new s).length ≤ s.length :=
  length_replaceFrom_le hlen 0 s

/-- A shorter text in the place of an occurrence shows in the length. -/
theorem length_replace_lt {old new s : List α} (hlen : new.length < old.length)
    (h : occurs sim old s = true) : (replace sim old new s).length < s.length := by
  induction s with
  | nil =>
      have hold := length_le_of_startsWith h
      simp only [List.length_nil] at hold
      omega
  | cons c s ih =>
      rw [replace, replaceFrom]
      split
      · next hstart =>
          have hold := length_le_of_startsWith hstart
          have hrest : (replaceFrom sim old new (old.length - 1) s).length ≤ _ :=
            length_replaceFrom_le (Nat.le_of_lt hlen) _ s
          simp only [List.length_append, List.length_cons] at *
          omega
      · next hstart =>
          have hocc : occurs sim old s = true := by simpa [occurs, hstart] using h
          have hrest := ih hocc
          rw [replace] at hrest
          simp only [List.length_cons]
          omega

/-! ## What a pass removes -/

variable {sim' : α → α → Bool}

/-- The two texts differ where both have a character. -/
def clash (sim : α → α → Bool) : List α → List α → Bool
  | p :: pat, c :: s => !sim p c || clash sim pat s
  | _, _ => false

theorem startsWith_append_of_clash {pat new : List α} (t : List α)
    (h : clash sim pat new = true) : startsWith sim pat (new ++ t) = false := by
  induction pat generalizing new with
  | nil => simp [clash] at h
  | cons p pat ih =>
      cases new with
      | nil => simp [clash] at h
      | cons c new =>
          simp only [clash, Bool.or_eq_true, Bool.not_eq_true'] at h
          rcases h with h | h
          · simp [startsWith, h]
          · simp [startsWith, ih h]

/-- No occurrence of the pattern can begin in the replacement text, nor
run into it from the left. -/
def separates (sim : α → α → Bool) (pat : List α) : List α → Bool
  | [] => false
  | c :: new =>
      ((c :: new).tails.all fun t => t.isEmpty || clash sim pat t) &&
        pat.tail.all fun p => !sim p c

/-- A pattern whose characters the replacement does not begin with is
read off the result only where it stood before. -/
theorem startsWith_of_replace {pat old new : List α} {n : α}
    (hhead : ∀ p ∈ pat, sim p n = false) {s : List α}
    (h : startsWith sim pat (replaceFrom sim' old (n :: new) 0 s) = true) :
    startsWith sim pat s = true := by
  induction s generalizing pat with
  | nil => exact h
  | cons c s ih =>
      cases pat with
      | nil => rfl
      | cons p pat =>
          rw [replaceFrom] at h
          split at h
          · have hn := hhead p List.mem_cons_self
            simp [startsWith, hn] at h
          · simp only [startsWith, Bool.and_eq_true] at h ⊢
            exact ⟨h.1, ih (fun q hq => hhead q (List.mem_cons_of_mem _ hq)) h.2⟩

theorem occurs_append_of_clash {pat new t : List α}
    (hclash : ∀ u, u <:+ new → u ≠ [] → clash sim pat u = true)
    (h : occurs sim pat (new ++ t) = true) : occurs sim pat t = true := by
  induction new with
  | nil => exact h
  | cons c new ih =>
      have hhead := startsWith_append_of_clash t (hclash (c :: new) (List.suffix_refl _) (by simp))
      rw [List.cons_append] at hhead h
      simp only [occurs, hhead, Bool.false_or] at h
      exact ih (fun u hu => hclash u (hu.trans (List.suffix_cons c new))) h

theorem occurs_replaceFrom {pat old new : List α} (hpat : pat ≠ [])
    (hsep : separates sim pat new = true) {s : List α}
    (hs : ∀ t, t <:+ s → startsWith sim pat t = true → startsWith sim' old t = true) (k : Nat) :
    occurs sim pat (replaceFrom sim' old new k s) = false := by
  cases new with
  | nil => simp [separates] at hsep
  | cons n new =>
  obtain ⟨hclash, hhead⟩ : (∀ u, u <:+ n :: new → u ≠ [] → clash sim pat u = true) ∧
      ∀ p ∈ pat.tail, sim p n = false := by
    simp only [separates, Bool.and_eq_true, List.all_eq_true, List.mem_tails, Bool.or_eq_true,
      List.isEmpty_iff, Bool.not_eq_true'] at hsep
    exact ⟨fun u hu hne => (hsep.1 u hu).resolve_left hne, hsep.2⟩
  have hnil : occurs sim pat [] = false := by
    obtain ⟨p, pat, rfl⟩ := List.exists_cons_of_ne_nil hpat
    rfl
  induction s generalizing k with
  | nil => simpa [replaceFrom] using hnil
  | cons c s ih =>
      have ih' := ih fun t ht => hs t (ht.trans (List.suffix_cons c s))
      cases k with
      | succ k => exact ih' k
      | zero =>
          rw [replaceFrom]
          split
          · refine Bool.eq_false_iff.mpr fun h => ?_
            exact Bool.false_ne_true ((ih' _).symm.trans (occurs_append_of_clash hclash h))
          · next hold =>
              refine Bool.eq_false_iff.mpr fun h => ?_
              simp only [occurs, ih' 0, Bool.or_false] at h
              -- an occurrence at the kept character was there before the pass
              have hbefore : startsWith sim pat (c :: s) = true := by
                obtain ⟨p, pat, rfl⟩ := List.exists_cons_of_ne_nil hpat
                simp only [startsWith, Bool.and_eq_true] at h ⊢
                exact ⟨h.1, startsWith_of_replace hhead h.2⟩
              exact hold (hs _ (List.suffix_refl _) hbefore)

theorem startsWith_of_suffix {pat s t : List α} (h : t <:+ s)
    (hs : startsWith sim pat t = true) : occurs sim pat s = true :=
  occurs_of_isInfix h.isInfix (occurs_of_startsWith hs)

/-- The replaced text itself is gone after the pass. -/
theorem occurs_replace_self {old new : List α} (hold : old ≠ [])
    (hsep : separates sim old new = true) (s : List α) :
    occurs sim old (replace sim old new s) = false :=
  occurs_replaceFrom hold hsep (fun _ _ h => h) 0

/-- A pattern that the text is free of does not come back. -/
theorem occurs_replace {pat old new s : List α} (hpat : pat ≠ [])
    (hsep : separates sim pat new = true) (h : occurs sim pat s = false) :
    occurs sim pat (replace sim' old new s) = false := by
  refine occurs_replaceFrom hpat hsep (fun t ht hstart => ?_) 0
  exact absurd (startsWith_of_suffix ht hstart) (by simp [h])

end Rewrite

end ThreatIntel
