import Mathlib.Data.List.Basic

/-!
# Harvesting

A loop that offers one item after the other to a partial judgement. An
item that fails in an expected way is passed over, any other failure ends
the loop; each result is kept once, in the order of first appearance, until
there is no room for more. What the loop returns is a prefix of the
distinct results (`harvest_of_clear`), and whether it fails depends on
nothing but what stands before the first item that does.
-/

namespace ThreatIntel

namespace Harvest

variable {α κ ε : Type}

/-! ## First occurrences -/

section Distinct

variable [DecidableEq κ]

/-- The first occurrences in a list, less what has been seen. -/
def distinct (seen : List κ) : List κ → List κ
  | [] => []
  | k :: ks => if k ∈ seen then distinct seen ks else k :: distinct (k :: seen) ks

theorem distinct_cons_of_mem {seen : List κ} {k : κ} (h : k ∈ seen) (ks : List κ) :
    distinct seen (k :: ks) = distinct seen ks := by
  rw [distinct, if_pos h]

theorem distinct_cons_of_notMem {seen : List κ} {k : κ} (h : k ∉ seen) (ks : List κ) :
    distinct seen (k :: ks) = k :: distinct (k :: seen) ks := by
  rw [distinct, if_neg h]

theorem mem_distinct {seen ks : List κ} {k : κ} :
    k ∈ distinct seen ks ↔ k ∈ ks ∧ k ∉ seen := by
  induction ks generalizing seen with
  | nil => simp [distinct]
  | cons l ks ih =>
      by_cases hl : l ∈ seen
      · rw [distinct_cons_of_mem hl, ih]
        refine ⟨fun h => ⟨List.mem_cons_of_mem _ h.1, h.2⟩, fun h => ⟨?_, h.2⟩⟩
        exact (List.mem_cons.mp h.1).resolve_left fun heq => h.2 (heq ▸ hl)
      · rw [distinct_cons_of_notMem hl, List.mem_cons, ih]
        by_cases hk : k = l
        · simp [hk, hl]
        · simp [hk]

theorem distinct_sublist (seen ks : List κ) : (distinct seen ks).Sublist ks := by
  induction ks generalizing seen with
  | nil => exact List.Sublist.refl []
  | cons l ks ih =>
      by_cases hl : l ∈ seen
      · rw [distinct_cons_of_mem hl]
        exact (ih seen).cons l
      · rw [distinct_cons_of_notMem hl]
        exact (ih _).cons_cons l

theorem length_distinct_le (seen ks : List κ) : (distinct seen ks).length ≤ ks.length :=
  (distinct_sublist seen ks).length_le

theorem distinct_eq_self_of_length {seen ks : List κ}
    (h : ks.length ≤ (distinct seen ks).length) : distinct seen ks = ks := by
  induction ks generalizing seen with
  | nil => rfl
  | cons l ks ih =>
      by_cases hl : l ∈ seen
      · rw [distinct_cons_of_mem hl, List.length_cons] at h
        have := length_distinct_le seen ks
        omega
      · rw [distinct_cons_of_notMem hl, List.length_cons, List.length_cons] at h
        rw [distinct_cons_of_notMem hl, ih (by omega)]

theorem distinct_map {ν : Type} [DecidableEq ν] {f : κ → ν} (hf : Function.Injective f)
    (seen ks : List κ) : distinct (seen.map f) (ks.map f) = (distinct seen ks).map f := by
  induction ks generalizing seen with
  | nil => rfl
  | cons l ks ih =>
      have hmem : f l ∈ seen.map f ↔ l ∈ seen := List.mem_map_of_injective hf
      by_cases hl : l ∈ seen
      · rw [List.map_cons, distinct_cons_of_mem (hmem.mpr hl), distinct_cons_of_mem hl, ih]
      · rw [List.map_cons, distinct_cons_of_notMem (mt hmem.mp hl), distinct_cons_of_notMem hl,
          List.map_cons, ← ih (l :: seen), List.map_cons]

/-- Repetitions may be dropped before a partial map as well: what they map
to is a repetition. -/
theorem distinct_filterMap_distinct {ν : Type} [DecidableEq ν] {f : κ → Option ν} {seen : List κ}
    {seen' : List ν} (h : ∀ k ∈ seen, ∀ q, f k = some q → q ∈ seen') (ks : List κ) :
    distinct seen' ((distinct seen ks).filterMap f) = distinct seen' (ks.filterMap f) := by
  induction ks generalizing seen seen' with
  | nil => rfl
  | cons l ks ih =>
      by_cases hl : l ∈ seen
      · rw [distinct_cons_of_mem hl, ih h]
        cases hf : f l with
        | none => rw [List.filterMap_cons_none hf]
        | some q => rw [List.filterMap_cons_some hf, distinct_cons_of_mem (h l hl q hf)]
      · rw [distinct_cons_of_notMem hl]
        cases hf : f l with
        | none =>
            rw [List.filterMap_cons_none hf, List.filterMap_cons_none hf]
            exact ih (List.forall_mem_cons.mpr ⟨fun q hq => by simp [hf] at hq, h⟩)
        | some q =>
            rw [List.filterMap_cons_some hf, List.filterMap_cons_some hf]
            by_cases hq : q ∈ seen'
            · rw [distinct_cons_of_mem hq, distinct_cons_of_mem hq]
              refine ih (List.forall_mem_cons.mpr ⟨fun r hr => ?_, h⟩)
              obtain rfl := Option.some.inj (hf.symm.trans hr)
              exact hq
            · rw [distinct_cons_of_notMem hq, distinct_cons_of_notMem hq]
              congr 1
              refine ih (List.forall_mem_cons.mpr ⟨fun r hr => ?_, fun k hk r hr => ?_⟩)
              · obtain rfl := Option.some.inj (hf.symm.trans hr)
                exact List.mem_cons_self
              · exact List.mem_cons_of_mem _ (h k hk r hr)

omit [DecidableEq κ] in
/-- A partial map after which the list reads the same is defined on all of
it, and no element reads differently. -/
theorem exists_of_filterMap_eq {ν μ : Type} {f : κ → Option ν} {v : ν → μ} {v' : κ → μ}
    {ks : List κ} (h : (ks.filterMap f).map v = ks.map v') :
    ∀ k ∈ ks, ∃ q, f k = some q ∧ v q = v' k := by
  induction ks with
  | nil => exact fun k hk => nomatch hk
  | cons l ks ih =>
      cases hf : f l with
      | none =>
          have hlen := congrArg List.length h
          rw [List.filterMap_cons_none hf, List.length_map, List.length_map, List.length_cons] at hlen
          have := List.length_filterMap_le f ks
          omega
      | some q =>
          rw [List.filterMap_cons_some hf, List.map_cons, List.map_cons, List.cons.injEq] at h
          exact List.forall_mem_cons.mpr ⟨⟨q, hf, h.1⟩, ih h.2⟩

/-- If the first distinct results of a partial map read like the distinct
elements themselves, every element has a result that reads like it. -/
theorem exists_of_distinct_eq {ν μ : Type} [DecidableEq ν] {f : κ → Option ν} {v : ν → μ}
    {v' : κ → μ} {n : Nat} {ks : List κ}
    (h : ((distinct [] (ks.filterMap f)).take n).map v = (distinct [] ks).map v') :
    ∀ k ∈ ks, ∃ q, f k = some q ∧ v q = v' k := by
  have hnil : ∀ k ∈ ([] : List κ), ∀ q, f k = some q → q ∈ ([] : List ν) :=
    fun k hk => nomatch hk
  rw [← distinct_filterMap_distinct hnil] at h
  have hlen := congrArg List.length h
  rw [List.length_map, List.length_map, List.length_take] at hlen
  have hle := length_distinct_le [] ((distinct [] ks).filterMap f)
  have hle' := List.length_filterMap_le f (distinct [] ks)
  -- nothing is lost on the way: not by the limit, nor by repetition, nor by the map
  rw [List.take_of_length_le (by omega), distinct_eq_self_of_length (by omega)] at h
  intro k hk
  exact exists_of_filterMap_eq h k (mem_distinct.mpr ⟨hk, List.not_mem_nil⟩)

end Distinct

/-! ## The loop -/

section Loop

variable (judge : α → Except ε κ) (skip : ε → Bool)

/-- The loop with room for `room` more results. -/
def harvest [DecidableEq κ] : Nat → List κ → List α → Except ε (List κ)
  | _, _, [] => pure []
  | room, seen, a :: as =>
      match judge a with
      | .error e => if skip e then harvest room seen as else throw e
      | .ok k =>
          if k ∈ seen then harvest room seen as
          else if room ≤ 1 then pure [k]
          else do
            let ks ← harvest (room - 1) (k :: seen) as
            return k :: ks

/-- What the items are judged to be. -/
def hits (as : List α) : List κ := as.filterMap fun a => (judge a).toOption

/-- The item ends the loop. -/
def Fails (a : α) : Prop := ∃ e, judge a = .error e ∧ skip e = false

/-- An item that fails is not reached: the room is filled before. -/
def Clear [DecidableEq κ] (room : Nat) (seen : List κ) (as : List α) : Prop :=
  ∀ pre a post, as = pre ++ a :: post → Fails judge skip a →
    room ≤ (distinct seen (hits judge pre)).length

variable {judge skip}

theorem hits_cons_ok {a : α} {k : κ} (h : judge a = .ok k) (as : List α) :
    hits judge (a :: as) = k :: hits judge as := by
  simp [hits, h, Except.toOption]

theorem hits_cons_error {a : α} {e : ε} (h : judge a = .error e) (as : List α) :
    hits judge (a :: as) = hits judge as := by
  simp [hits, h, Except.toOption]

/-! ### What the first item does to clearness -/

theorem not_fails_of_ok {a : α} {k : κ} (h : judge a = .ok k) : ¬ Fails judge skip a := by
  rintro ⟨e, he, -⟩
  exact nomatch h.symm.trans he

theorem not_fails_of_skip {a : α} {e : ε} (h : judge a = .error e) (hs : skip e = true) :
    ¬ Fails judge skip a := by
  rintro ⟨e', he, hs'⟩
  obtain rfl : e = e' := Except.error.inj (h.symm.trans he)
  exact Bool.false_ne_true (hs'.symm.trans hs)

variable [DecidableEq κ]

theorem not_clear_of_fails {room : Nat} (hroom : 0 < room) {seen : List κ} {a : α}
    (h : Fails judge skip a) (as : List α) : ¬ Clear judge skip room seen (a :: as) := by
  intro hclear
  have := hclear [] a as rfl h
  simp only [hits, List.filterMap_nil, distinct, List.length_nil] at this
  omega

/-- Behind an item that does not fail, clearness is a matter of the rest. -/
theorem clear_cons_iff {room : Nat} {seen : List κ} {a : α} (h : ¬ Fails judge skip a)
    (as : List α) :
    Clear judge skip room seen (a :: as) ↔ ∀ pre b post, as = pre ++ b :: post →
      Fails judge skip b → room ≤ (distinct seen (hits judge (a :: pre))).length := by
  constructor
  · intro hclear pre b post has hb
    exact hclear (a :: pre) b post (by rw [has, List.cons_append]) hb
  · intro hrest pre b post has hb
    rcases pre with _ | ⟨a', pre⟩
    · obtain ⟨rfl, -⟩ : a = b ∧ as = post := by simpa using has
      exact absurd hb h
    · obtain ⟨rfl, htail⟩ : a = a' ∧ as = pre ++ b :: post := by simpa using has
      exact hrest pre b post htail hb

theorem clear_cons_skip {room : Nat} {seen : List κ} {a : α} {e : ε} (h : judge a = .error e)
    (hs : skip e = true) (as : List α) :
    Clear judge skip room seen (a :: as) ↔ Clear judge skip room seen as := by
  rw [clear_cons_iff (not_fails_of_skip h hs)]
  simp only [hits_cons_error h, Clear]

theorem clear_cons_seen {room : Nat} {seen : List κ} {a : α} {k : κ} (h : judge a = .ok k)
    (hk : k ∈ seen) (as : List α) :
    Clear judge skip room seen (a :: as) ↔ Clear judge skip room seen as := by
  rw [clear_cons_iff (not_fails_of_ok h)]
  simp only [hits_cons_ok h, distinct_cons_of_mem hk, Clear]

theorem clear_cons_new {room : Nat} {seen : List κ} {a : α} {k : κ} (h : judge a = .ok k)
    (hk : k ∉ seen) (as : List α) :
    Clear judge skip room seen (a :: as) ↔ Clear judge skip (room - 1) (k :: seen) as := by
  rw [clear_cons_iff (not_fails_of_ok h)]
  simp only [hits_cons_ok h, distinct_cons_of_notMem hk, Clear, List.length_cons,
    Nat.sub_le_iff_le_add]

/-- With less room the loop ends no later. -/
theorem Clear.mono {room room' : Nat} {seen : List κ} {as : List α}
    (h : Clear judge skip room seen as) (hroom : room' ≤ room) : Clear judge skip room' seen as :=
  fun pre a post has hfails => Nat.le_trans hroom (h pre a post has hfails)

/-! ### What the loop returns -/

/-- **The loop returns the first distinct results**, as many as there is
room for, if no failing item is reached. -/
theorem harvest_of_clear {room : Nat} (hroom : 0 < room) {seen : List κ} {as : List α}
    (h : Clear judge skip room seen as) :
    harvest judge skip room seen as = .ok ((distinct seen (hits judge as)).take room) := by
  induction as generalizing room seen with
  | nil => simp [harvest, hits, distinct, pure, Except.pure]
  | cons a as ih =>
      unfold harvest
      cases ha : judge a with
      | error e =>
          by_cases hs : skip e = true
          · simp only [hs, if_true]
            rw [ih hroom ((clear_cons_skip ha hs as).mp h), hits_cons_error ha]
          · exact absurd h (not_clear_of_fails hroom ⟨e, ha, by simpa using hs⟩ as)
      | ok k =>
          rw [hits_cons_ok ha]
          by_cases hk : k ∈ seen
          · simp only [hk, if_true]
            rw [ih hroom ((clear_cons_seen ha hk as).mp h), distinct_cons_of_mem hk]
          · simp only [hk, if_false]
            rw [distinct_cons_of_notMem hk]
            by_cases hone : room ≤ 1
            · obtain rfl : room = 1 := by omega
              simp [pure, Except.pure]
            · rw [if_neg hone, ih (by omega) ((clear_cons_new ha hk as).mp h)]
              obtain ⟨n, rfl⟩ : ∃ n, room = n + 1 := ⟨room - 1, by omega⟩
              simp [bind, Except.bind, pure, Except.pure]

/-- Otherwise it fails, as one of the items does. -/
theorem harvest_of_not_clear {room : Nat} (hroom : 0 < room) {seen : List κ} {as : List α}
    (h : ¬ Clear judge skip room seen as) :
    ∃ a ∈ as, ∃ e, judge a = .error e ∧ skip e = false ∧
      harvest judge skip room seen as = .error e := by
  induction as generalizing room seen with
  | nil => exact absurd (fun pre a post has => by simp at has) h
  | cons a as ih =>
      unfold harvest
      cases ha : judge a with
      | error e =>
          by_cases hs : skip e = true
          · obtain ⟨b, hb, e', he, hs', hrun⟩ := ih hroom (mt (clear_cons_skip ha hs as).mpr h)
            exact ⟨b, List.mem_cons_of_mem _ hb, e', he, hs', by simpa [hs] using hrun⟩
          · exact ⟨a, List.mem_cons_self, e, ha, by simpa using hs, by simp [hs]; rfl⟩
      | ok k =>
          by_cases hk : k ∈ seen
          · obtain ⟨b, hb, e', he, hs', hrun⟩ := ih hroom (mt (clear_cons_seen ha hk as).mpr h)
            exact ⟨b, List.mem_cons_of_mem _ hb, e', he, hs', by simpa [hk] using hrun⟩
          · have hrest := mt (clear_cons_new ha hk as).mpr h
            by_cases hone : room ≤ 1
            · -- no room is left after this result
              refine absurd (fun pre b post _ _ => ?_) hrest
              omega
            · obtain ⟨b, hb, e', he, hs', hrun⟩ := ih (by omega) hrest
              refine ⟨b, List.mem_cons_of_mem _ hb, e', he, hs', ?_⟩
              simp [hk, hone, hrun, bind, Except.bind]

end Loop

end Harvest

end ThreatIntel
