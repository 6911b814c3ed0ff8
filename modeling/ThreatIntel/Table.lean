import Mathlib.Data.List.Basic
import Mathlib.Data.List.Nodup

/-!
# Tables with a primary key

A database table as the list of its rows in insertion order, with a
column (or a combination of columns) that no two rows share. The
constraint is a field: an insertion that would break it is not an
insertion, and a caller that wants the database's error asks `hasKey`
first.
-/

namespace ThreatIntel

variable {ρ κ : Type*}

structure Table (ρ : Type*) (key : ρ → κ) where
  rows : List ρ
  nodupKeys : (rows.map key).Nodup

namespace Table

variable {key : ρ → κ}

def empty : Table ρ key := ⟨[], List.nodup_nil⟩

/-- `UPDATE .. SET .. WHERE cond`, for an assignment that does not touch
the key. -/
def update (t : Table ρ key) (cond : ρ → Bool) (f : ρ → ρ) (hf : ∀ r, key (f r) = key r) :
    Table ρ key where
  rows := t.rows.map fun r => if cond r then f r else r
  nodupKeys := by
    have hkeys : (t.rows.map fun r => if cond r then f r else r).map key = t.rows.map key := by
      rw [List.map_map]
      refine List.map_congr_left fun r _ => ?_
      by_cases h : cond r <;> simp [h, hf]
    rw [hkeys]
    exact t.nodupKeys

variable [DecidableEq κ]

/-- The row with the given key. -/
def get? (t : Table ρ key) (k : κ) : Option ρ := t.rows.find? fun r => key r = k

def hasKey (t : Table ρ key) (k : κ) : Bool := (t.get? k).isSome

/-- A change to the row with the given key. -/
def modify (t : Table ρ key) (k : κ) (f : ρ → ρ) (hf : ∀ r, key (f r) = key r) : Table ρ key :=
  t.update (fun r => key r = k) f hf

theorem get?_eq_some_iff (t : Table ρ key) (k : κ) (r : ρ) :
    t.get? k = some r ↔ r ∈ t.rows ∧ key r = k := by
  constructor
  · intro h
    exact ⟨List.mem_of_find?_eq_some h, by simpa using List.find?_some h⟩
  · rintro ⟨hmem, rfl⟩
    cases h : t.get? (key r) with
    | none =>
        have hne := List.find?_eq_none.mp h r hmem
        simp at hne
    | some r' =>
        have hkey : key r' = key r := by simpa using List.find?_some h
        have hmem' : r' ∈ t.rows := List.mem_of_find?_eq_some h
        rw [List.inj_on_of_nodup_map t.nodupKeys hmem' hmem hkey]

theorem get?_eq_none_iff (t : Table ρ key) (k : κ) :
    t.get? k = none ↔ ∀ r ∈ t.rows, key r ≠ k := by
  simp [get?, List.find?_eq_none]

theorem key_of_get? {t : Table ρ key} {k : κ} {r : ρ} (h : t.get? k = some r) : key r = k :=
  ((t.get?_eq_some_iff k r).mp h).2

theorem mem_of_get? {t : Table ρ key} {k : κ} {r : ρ} (h : t.get? k = some r) : r ∈ t.rows :=
  ((t.get?_eq_some_iff k r).mp h).1

theorem hasKey_eq_false_iff (t : Table ρ key) (k : κ) :
    t.hasKey k = false ↔ ∀ r ∈ t.rows, key r ≠ k := by
  rw [hasKey, ← get?_eq_none_iff]
  cases t.get? k <;> simp

theorem hasKey_iff (t : Table ρ key) (k : κ) : t.hasKey k = true ↔ ∃ r ∈ t.rows, key r = k := by
  rw [← Bool.not_eq_false, hasKey_eq_false_iff]
  simp

/-- `INSERT`: no row if the key is taken. -/
def insert (t : Table ρ key) (r : ρ) : Table ρ key :=
  if h : t.hasKey (key r) = false then
    { rows := t.rows ++ [r]
      nodupKeys := by
        rw [List.map_append, List.nodup_append]
        refine ⟨t.nodupKeys, by simp, ?_⟩
        intro k hk k' hk' heq
        obtain ⟨r', hr', rfl⟩ := List.mem_map.mp hk
        have hk'' : k' = key r := by simpa using hk'
        exact (t.hasKey_eq_false_iff _).mp h r' hr' (heq.trans hk'') }
  else t

theorem rows_insert {t : Table ρ key} {r : ρ} (h : t.hasKey (key r) = false) :
    (t.insert r).rows = t.rows ++ [r] := by
  simp [insert, h]

theorem get?_insert {t : Table ρ key} {r : ρ} (h : t.hasKey (key r) = false) (k : κ) :
    (t.insert r).get? k = if key r = k then some r else t.get? k := by
  have hrows := rows_insert h
  split
  · next hk => exact ((t.insert r).get?_eq_some_iff k r).mpr ⟨by simp [hrows], hk⟩
  · next hk => simp [get?, hrows, List.find?_append, hk]

theorem get?_modify_self (t : Table ρ key) (k : κ) (f : ρ → ρ) (hf : ∀ r, key (f r) = key r) :
    (t.modify k f hf).get? k = (t.get? k).map f := by
  cases h : t.get? k with
  | none =>
      rw [Option.map_none, get?_eq_none_iff]
      intro r hr
      obtain ⟨r', hr', rfl⟩ := List.mem_map.mp hr
      have hne : key r' ≠ k := (t.get?_eq_none_iff k).mp h r' hr'
      simp [hne]
  | some r =>
      obtain ⟨hmem, hkey⟩ := (t.get?_eq_some_iff k r).mp h
      rw [Option.map_some, get?_eq_some_iff]
      exact ⟨List.mem_map.mpr ⟨r, hmem, by simp [hkey]⟩, by rw [hf, hkey]⟩

theorem get?_modify_ne (t : Table ρ key) {k k' : κ} (f : ρ → ρ) (hf : ∀ r, key (f r) = key r)
    (h : k' ≠ k) : (t.modify k f hf).get? k' = t.get? k' := by
  have hrow : ∀ r : ρ, key (if key r = k then f r else r) = key r := by
    intro r
    split
    · exact hf r
    · rfl
  ext r
  rw [get?_eq_some_iff, get?_eq_some_iff]
  simp only [modify, update, List.mem_map, decide_eq_true_eq]
  constructor
  · rintro ⟨⟨r', hr', rfl⟩, hkey⟩
    rw [hrow] at hkey
    have hne : key r' ≠ k := fun heq => h (hkey.symm.trans heq)
    simpa [hne] using ⟨hr', hkey⟩
  · rintro ⟨hr, hkey⟩
    have hne : key r ≠ k := fun heq => h (hkey.symm.trans heq)
    exact ⟨⟨r, hr, by simp [hne]⟩, hkey⟩

theorem mem_rows_modify (t : Table ρ key) (k : κ) (f : ρ → ρ) (hf : ∀ r, key (f r) = key r)
    (r : ρ) :
    r ∈ (t.modify k f hf).rows ↔ ∃ r₀ ∈ t.rows, r = if key r₀ = k then f r₀ else r₀ := by
  simp [modify, update, eq_comm]

/-- A change of the row with the given key, seen through a view of the rows
that shows their keys. -/
theorem map_rows_modify {γ : Type*} {p : ρ → γ} {g : γ → γ} {t : Table ρ key} {k : κ} {f : ρ → ρ}
    {hf : ∀ r, key (f r) = key r} (keyOf : γ → κ) (hkey : ∀ r, keyOf (p r) = key r)
    (hp : ∀ r, p (f r) = g (p r)) :
    (t.modify k f hf).rows.map p = (t.rows.map p).map fun x => if keyOf x = k then g x else x := by
  rw [modify, update, List.map_map, List.map_map]
  refine List.map_congr_left fun r _ => ?_
  simp only [Function.comp_apply, decide_eq_true_eq, hkey]
  split
  · exact hp r
  · rfl

/-- What is in a list after such a change was in it before, or is the changed
row. -/
theorem mem_of_mem_map_ite {γ : Type*} {keyOf : γ → κ} {k : κ} {g : γ → γ} {xs : List γ} {x : γ}
    (h : x ∈ xs.map fun x => if keyOf x = k then g x else x) :
    x ∈ xs ∨ ∃ x₀ ∈ xs, keyOf x₀ = k ∧ g x₀ = x := by
  obtain ⟨x₀, hx₀, rfl⟩ := List.mem_map.mp h
  by_cases hk : keyOf x₀ = k
  · exact .inr ⟨x₀, hx₀, hk, (if_pos hk).symm⟩
  · rw [if_neg hk]
    exact .inl hx₀

/-- A change that leaves the row as it was leaves the table as it was. -/
theorem modify_eq_self {t : Table ρ key} {k : κ} {f : ρ → ρ} (hf : ∀ r, key (f r) = key r)
    {r : ρ} (hr : t.get? k = some r) (h : f r = r) : t.modify k f hf = t := by
  have hrows : t.rows.map (fun r' => if key r' = k then f r' else r') = t.rows := by
    conv_rhs => rw [← List.map_id t.rows]
    refine List.map_congr_left fun r' hr' => ?_
    split
    · next hk =>
        have heq : r' = r :=
          Option.some.inj (((t.get?_eq_some_iff k r').mpr ⟨hr', hk⟩).symm.trans hr)
        rw [heq, h, id_eq]
    · rfl
  obtain ⟨rows, hnodup⟩ := t
  simp only [modify, update, decide_eq_true_eq]
  congr

/-! ## Which keys are there -/

theorem hasKey_of_get? {t : Table ρ key} {k : κ} {r : ρ} (h : t.get? k = some r) :
    t.hasKey k = true := by
  rw [hasKey, h]
  rfl

@[simp] theorem hasKey_modify (t : Table ρ key) (k k' : κ) (f : ρ → ρ)
    (hf : ∀ r, key (f r) = key r) : (t.modify k f hf).hasKey k' = t.hasKey k' := by
  by_cases h : k' = k
  · subst h
    simp [hasKey, get?_modify_self]
  · simp [hasKey, get?_modify_ne _ _ _ h]

theorem hasKey_insert_iff {t : Table ρ key} {r : ρ} {k : κ} :
    (t.insert r).hasKey k = true ↔ t.hasKey k = true ∨ key r = k := by
  by_cases hr : t.hasKey (key r) = false
  · rw [hasKey, get?_insert hr]
    split
    · next hk => simp [hk]
    · next hk => simp [hasKey, hk]
  · have hself : t.hasKey (key r) = true := by simpa using hr
    rw [insert, dif_neg hr]
    refine ⟨.inl, ?_⟩
    rintro (h | rfl)
    · exact h
    · exact hself

theorem hasKey_insert_of_hasKey {t : Table ρ key} {r : ρ} {k : κ} (h : t.hasKey k = true) :
    (t.insert r).hasKey k = true :=
  hasKey_insert_iff.mpr (.inl h)

end Table

end ThreatIntel
