import Mathlib.Data.List.Basic
import Mathlib.Data.List.Nodup

/-!
# Insertion-ordered dictionaries

A Python `dict`: items in the order their keys were first set, every key
once. Setting a key that is present changes its item in place. That no
key occurs twice is a field, so it never has to be carried alongside.
-/

namespace ThreatIntel

structure Dict (α β : Type*) where
  items : List (α × β)
  nodupKeys : (items.map Prod.fst).Nodup

namespace Dict

variable {α β : Type*}

def keys (d : Dict α β) : List α := d.items.map Prod.fst

def empty : Dict α β := ⟨[], List.nodup_nil⟩

/-- Keep the items that satisfy `p`, as a comprehension with `del` does. -/
def filter (d : Dict α β) (p : α → β → Bool) : Dict α β where
  items := d.items.filter fun kv => p kv.1 kv.2
  nodupKeys := d.nodupKeys.sublist (List.filter_sublist.map _)

variable [DecidableEq α]

def get? (d : Dict α β) (k : α) : Option β := d.items.lookup k

/-- The items after `d[k] = v`. -/
def setItems (k : α) (v : β) : List (α × β) → List (α × β)
  | [] => [(k, v)]
  | (k', v') :: items => if k' = k then (k, v) :: items else (k', v') :: setItems k v items

theorem mem_keys_setItems {k k' : α} {v : β} {items : List (α × β)} :
    k' ∈ (setItems k v items).map Prod.fst ↔ k' = k ∨ k' ∈ items.map Prod.fst := by
  induction items with
  | nil => simp [setItems]
  | cons kv items ih =>
      obtain ⟨k₀, v₀⟩ := kv
      by_cases h : k₀ = k
      · simp [setItems, h]
      · rw [setItems, if_neg h, List.map_cons, List.mem_cons, ih, List.map_cons, List.mem_cons]
        exact or_left_comm

theorem nodup_setItems {k : α} {v : β} {items : List (α × β)}
    (h : (items.map Prod.fst).Nodup) : ((setItems k v items).map Prod.fst).Nodup := by
  induction items with
  | nil => simp [setItems]
  | cons kv items ih =>
      obtain ⟨k₀, v₀⟩ := kv
      obtain ⟨hnot, hrest⟩ := List.nodup_cons.mp h
      by_cases hk : k₀ = k
      · subst hk
        simpa [setItems] using ⟨by simpa using hnot, hrest⟩
      · rw [setItems, if_neg hk, List.map_cons, List.nodup_cons, mem_keys_setItems]
        refine ⟨?_, ih hrest⟩
        rintro (rfl | hmem)
        · exact hk rfl
        · exact hnot hmem

def set (d : Dict α β) (k : α) (v : β) : Dict α β := ⟨setItems k v d.items, nodup_setItems d.nodupKeys⟩

def erase (d : Dict α β) (k : α) : Dict α β := d.filter fun k' _ => k' ≠ k

/-! ## What `get?` sees -/

@[simp] theorem get?_empty (k : α) : (empty : Dict α β).get? k = none := rfl

theorem lookup_setItems_self (k : α) (v : β) (items : List (α × β)) :
    (setItems k v items).lookup k = some v := by
  induction items with
  | nil => simp [setItems]
  | cons kv items ih =>
      obtain ⟨k₀, v₀⟩ := kv
      by_cases h : k₀ = k
      · simp [setItems, h]
      · have hne : (k == k₀) = false := by simp [Ne.symm h]
        simpa [setItems, h, List.lookup_cons, hne] using ih

theorem lookup_setItems_ne {k k' : α} (v : β) (h : k' ≠ k) (items : List (α × β)) :
    (setItems k v items).lookup k' = items.lookup k' := by
  have hne : (k' == k) = false := by simp [h]
  induction items with
  | nil => simp [setItems, List.lookup_cons, hne]
  | cons kv items ih =>
      obtain ⟨k₀, v₀⟩ := kv
      by_cases hk : k₀ = k
      · subst hk
        simp [setItems, List.lookup_cons, hne]
      · rw [setItems, if_neg hk, List.lookup_cons, List.lookup_cons, ih]

@[simp] theorem get?_set_self (d : Dict α β) (k : α) (v : β) : (d.set k v).get? k = some v :=
  lookup_setItems_self k v d.items

theorem get?_set_ne (d : Dict α β) {k k' : α} (v : β) (h : k' ≠ k) :
    (d.set k v).get? k' = d.get? k' :=
  lookup_setItems_ne v h d.items

theorem get?_eq_some_iff (d : Dict α β) (k : α) (v : β) :
    d.get? k = some v ↔ (k, v) ∈ d.items := by
  obtain ⟨items, hnodup⟩ := d
  simp only [get?]
  induction items with
  | nil => simp
  | cons kv items ih =>
      obtain ⟨k₀, v₀⟩ := kv
      obtain ⟨hnot, hrest⟩ := List.nodup_cons.mp hnodup
      rw [List.lookup_cons, List.mem_cons, Prod.mk.injEq]
      by_cases h : k = k₀
      · subst h
        have hmem : (k, v) ∉ items := fun hm => hnot (List.mem_map.mpr ⟨(k, v), hm, rfl⟩)
        simp [hmem, eq_comm]
      · have hne : (k == k₀) = false := by simp [h]
        simp [hne, h, ih hrest]

/-- Filtering hides exactly the values that fail the test: a key occurs
once, so nothing is uncovered. -/
theorem get?_filter (d : Dict α β) (p : α → β → Bool) (k : α) :
    (d.filter p).get? k = (d.get? k).filter (p k) := by
  ext v
  rw [Option.filter_eq_some_iff, get?_eq_some_iff, get?_eq_some_iff]
  simp [filter]

@[simp] theorem get?_erase_self (d : Dict α β) (k : α) : (d.erase k).get? k = none := by
  simp [erase, get?_filter]

theorem get?_erase_ne (d : Dict α β) {k k' : α} (h : k' ≠ k) :
    (d.erase k).get? k' = d.get? k' := by
  rw [erase, get?_filter]
  cases d.get? k' <;> simp [Option.filter, h]

end Dict

end ThreatIntel
