import Mathlib.Data.List.Nodup
import ThreatIntel.Harvest

/-!
# Earliest first

Items that are seen at places, some of them more than once, by a scan that
goes rank by rank and within a rank from place to place. Sorting the
distinct items by the first place of each gives the order in which they
appear. The order of discovery begins with the same items, in the same
order, exactly if no sighting of a later rank overtakes one of these
(`take_discovered_eq_iff`); within a rank nothing is overtaken.
-/

namespace ThreatIntel

namespace Earliest

open Harvest (distinct mem_distinct)

/-- An item at a place, and the rank of the scan that sees it there. -/
structure Sighting (κ : Type) where
  rank : Nat
  place : Nat
  item : κ
  deriving DecidableEq, Repr

/-- The scan comes to the one before the other: rank by rank, and from place
to place. -/
def Sighting.Ahead {κ : Type} (a b : Sighting κ) : Prop :=
  a.rank < b.rank ∨ a.rank = b.rank ∧ a.place < b.place

instance {κ : Type} (a b : Sighting κ) : Decidable (a.Ahead b) :=
  inferInstanceAs (Decidable (_ ∨ _))

theorem Sighting.Ahead.asymm {κ : Type} {a b : Sighting κ} (h : a.Ahead b) : ¬ b.Ahead a := by
  simp only [Sighting.Ahead] at h ⊢
  omega

variable {κ : Type} [DecidableEq κ]

/-- The first of the places at which an item is seen. -/
def firstAt (ss : List (Sighting κ)) (k : κ) : Nat :=
  ((ss.filter fun e => e.item = k).map Sighting.place).min?.getD 0

/-- The distinct items in the order of discovery. -/
def discovered (ss : List (Sighting κ)) : List κ := distinct [] (ss.map Sighting.item)

/-- The distinct items in the order of their first places. -/
def inOrder (ss : List (Sighting κ)) : List κ :=
  (discovered ss).mergeSort fun k l => firstAt ss k ≤ firstAt ss l

/-- The distinct items that the scan comes to before a sighting. -/
def ahead (ss : List (Sighting κ)) (m : Sighting κ) : List κ :=
  distinct [] ((ss.filter fun e => e.Ahead m).map Sighting.item)

/-- A sighting of a later rank, of an item that has not been seen ahead of
`m`, stands in front of every sighting of the item of `m`. -/
def Overtakes (ss : List (Sighting κ)) (m' m : Sighting κ) : Prop :=
  m.rank < m'.rank ∧ (∀ e ∈ ss, e.item = m'.item → ¬ e.Ahead m) ∧
    ∀ e ∈ ss, e.item = m.item → m'.place < e.place

instance (ss : List (Sighting κ)) (m' m : Sighting κ) : Decidable (Overtakes ss m' m) :=
  inferInstanceAs (Decidable (_ ∧ _ ∧ _))

/-- What is overtaken has `n` items ahead of it. -/
def KeepsOrder (ss : List (Sighting κ)) (n : Nat) : Prop :=
  ∀ m ∈ ss, ∀ m' ∈ ss, Overtakes ss m' m → n ≤ (ahead ss m).length

instance (ss : List (Sighting κ)) (n : Nat) : Decidable (KeepsOrder ss n) :=
  inferInstanceAs (Decidable (∀ m ∈ ss, ∀ m' ∈ ss, Overtakes ss m' m → n ≤ (ahead ss m).length))

variable {ss : List (Sighting κ)}

theorem mem_discovered {k : κ} : k ∈ discovered ss ↔ ∃ e ∈ ss, e.item = k := by
  simp [discovered, mem_distinct]

theorem discovered_eq_nil_iff : discovered ss = [] ↔ ss = [] := by
  refine ⟨fun hnil => ?_, fun hnil => by simp [hnil, discovered, distinct]⟩
  refine List.eq_nil_iff_forall_not_mem.mpr fun e he => ?_
  exact List.eq_nil_iff_forall_not_mem.mp hnil e.item (mem_discovered.mpr ⟨e, he, rfl⟩)

theorem mem_ahead {m : Sighting κ} {k : κ} :
    k ∈ ahead ss m ↔ ∃ e ∈ ss, e.Ahead m ∧ e.item = k := by
  simp [ahead, mem_distinct, and_assoc]

theorem nodup_distinct (seen ks : List κ) : (distinct seen ks).Nodup := by
  induction ks generalizing seen with
  | nil => exact List.nodup_nil
  | cons k ks ih =>
      rw [distinct]
      split
      · exact ih seen
      · refine List.nodup_cons.mpr ⟨fun hmem => ?_, ih _⟩
        exact (mem_distinct.mp hmem).2 List.mem_cons_self

theorem nodup_discovered (ss : List (Sighting κ)) : (discovered ss).Nodup := nodup_distinct _ _

/-! ## First places -/

/-- An item is seen at its first place. -/
theorem firstAt_mem {k : κ} (h : k ∈ discovered ss) :
    ∃ e ∈ ss, e.item = k ∧ e.place = firstAt ss k := by
  obtain ⟨e, he, rfl⟩ := mem_discovered.mp h
  have hne : (ss.filter fun e' => e'.item = e.item).map Sighting.place ≠ [] :=
    List.ne_nil_of_mem (List.mem_map_of_mem (List.mem_filter.mpr ⟨he, by simp⟩))
  obtain ⟨i, hi⟩ := Option.isSome_iff_exists.mp (List.isSome_min?_of_ne_nil hne)
  obtain ⟨e', hmem, rfl⟩ := List.mem_map.mp (List.min?_mem hi)
  obtain ⟨hmem, hitem⟩ := List.mem_filter.mp hmem
  refine ⟨e', hmem, by simpa using hitem, ?_⟩
  rw [firstAt, hi, Option.getD_some]

theorem firstAt_le {e : Sighting κ} (h : e ∈ ss) : firstAt ss e.item ≤ e.place := by
  have hplace : e.place ∈ (ss.filter fun e' => e'.item = e.item).map Sighting.place :=
    List.mem_map_of_mem (List.mem_filter.mpr ⟨h, by simp⟩)
  obtain ⟨i, hi⟩ := Option.isSome_iff_exists.mp
    (List.isSome_min?_of_ne_nil (List.ne_nil_of_mem hplace))
  rw [firstAt, hi, Option.getD_some]
  exact (List.min?_eq_some_iff.mp hi).2 _ hplace

/-- Two items have not the same first place: at a place there is one. -/
theorem firstAt_injOn (hplaces : (ss.map Sighting.place).Nodup) {k l : κ} (hk : k ∈ discovered ss)
    (hl : l ∈ discovered ss) (h : firstAt ss k = firstAt ss l) : k = l := by
  obtain ⟨e, he, rfl, hplace⟩ := firstAt_mem hk
  obtain ⟨e', he', rfl, hplace'⟩ := firstAt_mem hl
  rw [List.inj_on_of_nodup_map hplaces he he' (by rw [hplace, hplace', h])]

theorem inOrder_perm (ss : List (Sighting κ)) : (inOrder ss).Perm (discovered ss) :=
  List.mergeSort_perm _ _

theorem pairwise_le_mergeSort (ss : List (Sighting κ)) (l : List κ) :
    (l.mergeSort fun k l => firstAt ss k ≤ firstAt ss l).Pairwise
      fun k l => firstAt ss k ≤ firstAt ss l := by
  have h := @List.pairwise_mergeSort _ (fun k l => decide (firstAt ss k ≤ firstAt ss l))
    (fun a b c => by simpa using Nat.le_trans) (fun a b => by simpa using Nat.le_total _ _) l
  simpa using h

theorem pairwise_inOrder (hplaces : (ss.map Sighting.place).Nodup) :
    (inOrder ss).Pairwise fun k l => firstAt ss k < firstAt ss l := by
  have hnodup : (inOrder ss).Nodup := (inOrder_perm ss).nodup_iff.mpr (nodup_discovered ss)
  refine ((pairwise_le_mergeSort ss (discovered ss)).and hnodup).imp_of_mem
    fun {k l} hk hl h => Nat.lt_of_le_of_ne h.1 fun heq => h.2 ?_
  exact firstAt_injOn hplaces ((inOrder_perm ss).mem_iff.mp hk)
    ((inOrder_perm ss).mem_iff.mp hl) heq

/-- Each of the first `n` items that are discovered is seen before all that
are discovered after it. -/
def DiscoveredInOrder (ss : List (Sighting κ)) (n : Nat) : Prop :=
  ((discovered ss).take n).Pairwise (fun k l => firstAt ss k < firstAt ss l) ∧
    ∀ k ∈ (discovered ss).take n, ∀ l ∈ (discovered ss).drop n, firstAt ss k < firstAt ss l

/-- The first items that are discovered are the first that appear exactly if
they are discovered in order. -/
theorem take_eq_iff_discoveredInOrder (hplaces : (ss.map Sighting.place).Nodup) (n : Nat) :
    (discovered ss).take n = (inOrder ss).take n ↔ DiscoveredInOrder ss n := by
  have hsorted := pairwise_inOrder hplaces
  have hnodup : (discovered ss).Nodup := nodup_discovered ss
  constructor
  · intro h
    rw [← List.take_append_drop n (inOrder ss), List.pairwise_append, ← h] at hsorted
    refine ⟨hsorted.1, fun k hk l hl => hsorted.2.2 k hk l ?_⟩
    -- what is discovered later is not among the first that occur
    have hmem : l ∈ inOrder ss := (inOrder_perm ss).mem_iff.mpr (List.mem_of_mem_drop hl)
    rw [← List.take_append_drop n (inOrder ss), List.mem_append, ← h] at hmem
    refine hmem.resolve_left fun hfirst => ?_
    rw [← List.take_append_drop n (discovered ss), List.nodup_append] at hnodup
    exact hnodup.2.2 l hfirst l hl rfl
  · rintro ⟨hfirst, hrest⟩
    -- the first as they are discovered, and the rest sorted
    have hperm : ((discovered ss).take n ++ ((discovered ss).drop n).mergeSort
        fun k l => firstAt ss k ≤ firstAt ss l).Perm (inOrder ss) := by
      refine List.Perm.trans ?_ (inOrder_perm ss).symm
      have happend := (List.mergeSort_perm ((discovered ss).drop n)
        fun k l => firstAt ss k ≤ firstAt ss l).append_left ((discovered ss).take n)
      rwa [List.take_append_drop] at happend
    have hpairwise : ((discovered ss).take n ++ ((discovered ss).drop n).mergeSort
        fun k l => firstAt ss k ≤ firstAt ss l).Pairwise
          fun k l => firstAt ss k ≤ firstAt ss l := by
      refine List.pairwise_append.mpr ⟨hfirst.imp Nat.le_of_lt, pairwise_le_mergeSort ss _, ?_⟩
      intro k hk l hl
      exact Nat.le_of_lt (hrest k hk l (List.mem_mergeSort.mp hl))
    have heq := hperm.eq_of_pairwise (fun k l hk hl hkl hlk => ?_) hpairwise
      (hsorted.imp Nat.le_of_lt)
    · rw [← heq]
      by_cases hn : n ≤ (discovered ss).length
      · rw [List.take_append_of_le_length (by simp [hn]), List.take_take, Nat.min_self]
      · have hdrop : (discovered ss).drop n = [] := List.drop_eq_nil_of_le (by omega)
        rw [hdrop, List.mergeSort_nil, List.append_nil, List.take_take, Nat.min_self]
    · exact firstAt_injOn hplaces ((hperm.trans (inOrder_perm ss)).mem_iff.mp hk)
        ((inOrder_perm ss).mem_iff.mp hl) (Nat.le_antisymm hkl hlk)

/-! ## Discovery by ranks -/

/-- What is distinct in the first part of a list comes first. -/
theorem distinct_append (seen xs ys : List κ) :
    ∃ seen', (∀ k, k ∈ seen' ↔ k ∈ seen ∨ k ∈ xs) ∧
      distinct seen (xs ++ ys) = distinct seen xs ++ distinct seen' ys := by
  induction xs generalizing seen with
  | nil => exact ⟨seen, by simp, rfl⟩
  | cons x xs ih =>
      by_cases hx : x ∈ seen
      · obtain ⟨seen', hseen, heq⟩ := ih seen
        refine ⟨seen', fun k => ?_, ?_⟩
        · rw [hseen, List.mem_cons]
          refine ⟨fun h => h.imp id .inr, fun h => ?_⟩
          rcases h with h | rfl | h
          · exact .inl h
          · exact .inl hx
          · exact .inr h
        · rw [List.cons_append, Harvest.distinct_cons_of_mem hx,
            Harvest.distinct_cons_of_mem hx, heq]
      · obtain ⟨seen', hseen, heq⟩ := ih (x :: seen)
        refine ⟨seen', fun k => ?_, ?_⟩
        · rw [hseen, List.mem_cons, List.mem_cons, or_assoc, or_left_comm]
        · rw [List.cons_append, Harvest.distinct_cons_of_notMem hx,
            Harvest.distinct_cons_of_notMem hx, heq, List.cons_append]

/-- Discovery begins with what is ahead of a sighting, and goes on with the
sighting's item unless that is among them. -/
theorem discovered_eq_ahead (hscan : ss.Pairwise Sighting.Ahead) {m : Sighting κ} (hm : m ∈ ss) :
    ∃ rest, discovered ss = ahead ss m ++ rest ∧
      (m.item ∈ ahead ss m ∨ ∃ rest', rest = m.item :: rest') := by
  obtain ⟨before, after, rfl⟩ := List.append_of_mem hm
  obtain ⟨-, hafter, hcross⟩ := List.pairwise_append.mp hscan
  have hbefore : (before ++ m :: after).filter (fun e => e.Ahead m) = before := by
    rw [List.filter_append, List.filter_eq_self.mpr, List.filter_eq_nil_iff.mpr, List.append_nil]
    · intro e he
      rcases List.mem_cons.mp he with rfl | he
      · simp [Sighting.Ahead]
      · simpa using ((List.pairwise_cons.mp hafter).1 e he).asymm
    · exact fun e he => decide_eq_true (hcross e he m List.mem_cons_self)
  obtain ⟨seen, hseen, heq⟩ := distinct_append [] (before.map Sighting.item)
    ((m :: after).map Sighting.item)
  rw [← List.map_append] at heq
  rw [ahead, hbefore]
  refine ⟨_, heq, ?_⟩
  rw [List.map_cons]
  by_cases hseenBefore : m.item ∈ seen
  · exact .inl (mem_distinct.mpr ⟨by simpa using (hseen _).mp hseenBefore, List.not_mem_nil⟩)
  · exact .inr ⟨_, Harvest.distinct_cons_of_notMem hseenBefore _⟩

/-- The first sighting of an item. -/
theorem exists_first {k : κ} (hscan : ss.Pairwise Sighting.Ahead) (h : k ∈ discovered ss) :
    ∃ m ∈ ss, m.item = k ∧ k ∉ ahead ss m := by
  obtain ⟨e, he, hitem⟩ := mem_discovered.mp h
  obtain ⟨m, hm⟩ := Option.isSome_iff_exists.mp
    (List.find?_isSome (p := fun e : Sighting κ => e.item = k) |>.mpr ⟨e, he, by simpa using hitem⟩)
  obtain ⟨hmk, before, after, rfl, hbefore⟩ := List.find?_eq_some_iff_append.mp hm
  refine ⟨m, by simp, by simpa using hmk, fun hk => ?_⟩
  obtain ⟨e', he', hahead, hk'⟩ := mem_ahead.mp hk
  rcases List.mem_append.mp he' with hmem | hmem
  · simpa [hk'] using hbefore e' hmem
  · rcases List.mem_cons.mp hmem with rfl | hmem
    · exact hahead.asymm hahead
    · exact ((List.pairwise_cons.mp (List.pairwise_append.mp hscan).2.1).1 e' hmem).asymm hahead

omit [DecidableEq κ] in
/-- The elements of the first part of a list stand in a relation to all
behind them. -/
theorem pairwise_take_iff {R : κ → κ → Prop} (ks : List κ) (n : Nat) :
    ((ks.take n).Pairwise R ∧ ∀ k ∈ ks.take n, ∀ l ∈ ks.drop n, R k l) ↔
      ∀ xs k ys, ks = xs ++ k :: ys → xs.length < n → ∀ l ∈ ys, R k l := by
  induction ks generalizing n with
  | nil => simp
  | cons a ks ih =>
      cases n with
      | zero => simp
      | succ n =>
          have hsplit : (∀ xs k ys, a :: ks = xs ++ k :: ys → xs.length < n + 1 → ∀ l ∈ ys, R k l) ↔
              (∀ l ∈ ks, R a l) ∧
                ∀ xs k ys, ks = xs ++ k :: ys → xs.length < n → ∀ l ∈ ys, R k l := by
            constructor
            · intro h
              refine ⟨h [] a ks rfl (Nat.succ_pos n), fun xs k ys hks hlen => ?_⟩
              exact h (a :: xs) k ys (by rw [hks, List.cons_append]) (by simpa using hlen)
            · rintro ⟨hhead, hrest⟩ xs k ys hks hlen
              cases xs with
              | nil =>
                  obtain ⟨rfl, rfl⟩ := List.cons.inj hks
                  exact hhead
              | cons x xs =>
                  exact hrest xs k ys (List.cons.inj hks).2 (by simpa using hlen)
          rw [hsplit, ← ih n, List.take_succ_cons, List.drop_succ_cons, List.pairwise_cons]
          have hall : (∀ l ∈ ks, R a l) ↔ (∀ l ∈ ks.take n, R a l) ∧ ∀ l ∈ ks.drop n, R a l := by
            rw [← List.forall_mem_append, List.take_append_drop]
          rw [hall, List.forall_mem_cons]
          tauto

/-- What is discovered before an item is what is ahead of a sighting of it. -/
theorem exists_of_discovered_eq (hscan : ss.Pairwise Sighting.Ahead) {xs ys : List κ} {k : κ}
    (hsplit : discovered ss = xs ++ k :: ys) : ∃ m ∈ ss, m.item = k ∧ ahead ss m = xs := by
  have hnodup := nodup_discovered ss
  obtain ⟨m, hm, rfl, hnew⟩ := exists_first hscan (k := k) (by simp [hsplit])
  obtain ⟨rest, hrest, hitem⟩ := discovered_eq_ahead hscan hm
  obtain ⟨rest', rfl⟩ := hitem.resolve_left hnew
  rw [hsplit, List.nodup_append] at hnodup
  have hnotin : m.item ∉ xs := fun hmem => hnodup.2.2 _ hmem _ List.mem_cons_self rfl
  have hidx := congrArg (List.idxOf m.item) (hrest.symm.trans hsplit)
  rw [List.idxOf_append_of_notMem hnew, List.idxOf_append_of_notMem hnotin,
    List.idxOf_cons_self, List.idxOf_cons_self] at hidx
  exact ⟨m, hm, rfl, (List.append_inj (hrest.symm.trans hsplit) (by simpa using hidx)).1⟩

/-- An item that has not been seen ahead of a sighting is discovered behind
the sighting's own. -/
theorem exists_split_of_fresh (hscan : ss.Pairwise Sighting.Ahead) {m m' : Sighting κ}
    (hm : m ∈ ss) (hm' : m' ∈ ss) (hfresh : ∀ e ∈ ss, e.item = m'.item → ¬ e.Ahead m)
    (hne : m'.item ≠ m.item) :
    ∃ xs ys, discovered ss = xs ++ m.item :: ys ∧ xs.length ≤ (ahead ss m).length ∧
      m'.item ∈ ys := by
  obtain ⟨rest, hsplit, hitem⟩ := discovered_eq_ahead hscan hm
  have hlater : m'.item ∈ rest := by
    have hmem := mem_discovered.mpr ⟨m', hm', rfl⟩
    rw [hsplit, List.mem_append] at hmem
    refine hmem.resolve_left fun hahead => ?_
    obtain ⟨e, he, hahead, heq⟩ := mem_ahead.mp hahead
    exact hfresh e he heq hahead
  rcases hitem with hmem | ⟨rest', rfl⟩
  · obtain ⟨xs, ys, hxs⟩ := List.append_of_mem hmem
    refine ⟨xs, ys ++ rest, by rw [hsplit, hxs]; simp, ?_, List.mem_append_right _ hlater⟩
    rw [hxs, List.length_append]
    omega
  · exact ⟨_, rest', hsplit, Nat.le_refl _, (List.mem_cons.mp hlater).resolve_left hne⟩

theorem keepsOrder_of_discoveredInOrder (hscan : ss.Pairwise Sighting.Ahead) {n : Nat}
    (h : DiscoveredInOrder ss n) : KeepsOrder ss n := by
  rintro m hm m' hm' ⟨-, hfresh, hfront⟩
  by_contra hfew
  have hne : m'.item ≠ m.item := fun heq => Nat.lt_irrefl _ (hfront m' hm' heq)
  obtain ⟨xs, ys, hsplit, hlen, hlater⟩ := exists_split_of_fresh hscan hm hm' hfresh hne
  -- the item of `m` is discovered among the first, and before that of `m'`
  have hlt := (pairwise_take_iff _ n).mp h xs m.item ys hsplit (by omega) _ hlater
  obtain ⟨e, he, heq, hplace⟩ := firstAt_mem (mem_discovered.mpr ⟨m, hm, rfl⟩)
  have hfirst := hfront e he heq
  have hsecond := firstAt_le hm'
  omega

theorem discoveredInOrder_of_keepsOrder (hscan : ss.Pairwise Sighting.Ahead)
    (hplaces : (ss.map Sighting.place).Nodup) {n : Nat} (h : KeepsOrder ss n) :
    DiscoveredInOrder ss n := by
  refine (pairwise_take_iff _ n).mpr fun xs k ys hsplit hlen l hl => ?_
  obtain ⟨m, hm, rfl, rfl⟩ := exists_of_discovered_eq hscan hsplit
  have hnodup := nodup_discovered ss
  rw [hsplit, List.nodup_append, List.nodup_cons] at hnodup
  have hk : m.item ∈ discovered ss := mem_discovered.mpr ⟨m, hm, rfl⟩
  have hlmem : l ∈ discovered ss := by simp [hsplit, hl]
  by_contra hge
  obtain ⟨m', hm', rfl, hplace⟩ := firstAt_mem hlmem
  have hne : m'.item ≠ m.item := fun heq => hnodup.2.1.1 (heq ▸ hl)
  have hlt : firstAt ss m'.item < firstAt ss m.item :=
    Nat.lt_of_le_of_ne (Nat.le_of_not_lt hge) fun heq => hne (firstAt_injOn hplaces hlmem hk heq)
  have hfresh : ∀ e ∈ ss, e.item = m'.item → ¬ e.Ahead m := fun e he heq hahead =>
    hnodup.2.2 _ (mem_ahead.mpr ⟨e, he, hahead, heq⟩) _ (List.mem_cons_of_mem _ hl) rfl
  have hfront : ∀ e ∈ ss, e.item = m.item → m'.place < e.place := by
    intro e he heq
    have hfirst := firstAt_le he
    rw [heq] at hfirst
    omega
  -- one of the two comes first, and within a rank it would be `m'`
  have hlater : m.rank < m'.rank := by
    have hcases := hfresh m' hm' rfl
    have hplace' := hfront m hm rfl
    simp only [Sighting.Ahead] at hcases
    omega
  have hmany := h m hm m' hm' ⟨hlater, hfresh, hfront⟩
  omega

/-- Discovery goes wrong only where a sighting is overtaken. -/
theorem discoveredInOrder_iff (hscan : ss.Pairwise Sighting.Ahead)
    (hplaces : (ss.map Sighting.place).Nodup) (n : Nat) :
    DiscoveredInOrder ss n ↔ KeepsOrder ss n :=
  ⟨keepsOrder_of_discoveredInOrder hscan, discoveredInOrder_of_keepsOrder hscan hplaces⟩

/-- **The first items that are discovered** by a scan are the first that
appear, in their order, exactly if each of them that a sighting of a later
rank overtakes has as many ahead of it. -/
theorem take_discovered_eq_iff (hscan : ss.Pairwise Sighting.Ahead)
    (hplaces : (ss.map Sighting.place).Nodup) (n : Nat) :
    (discovered ss).take n = (inOrder ss).take n ↔ KeepsOrder ss n :=
  (take_eq_iff_discoveredInOrder hplaces n).trans (discoveredInOrder_iff hscan hplaces n)

end Earliest

end ThreatIntel
