import Mathlib.Data.List.Nodup
import Mathlib.Data.List.Perm.Basic
import Mathlib.Order.Lattice

/-!
# Pages of a sorted list

Rows are asked for page by page, in the order of a key, and every page is
cut out of an arrangement of its own: where keys are equal, nothing says
which row comes first, and two queries need not agree on it. The keys that
the pages show are those of the rows all the same. The rows themselves are
complete, and none of them shows twice, if and only if no two rows with the
same key lie on either side of a page boundary.
-/

namespace ThreatIntel

namespace Paging

variable {α κ : Type*}

/-- The rows in the order of their keys. -/
structure Arrangement [LE κ] (key : α → κ) (rows : List α) where
  list : List α
  perm : list.Perm rows
  sorted : list.Pairwise fun a b => key a ≤ key b

/-- `LIMIT size OFFSET k * size`. -/
def page (size k : Nat) (l : List α) : List α := (l.drop (k * size)).take size

/-- The first `n` pages, the k-th one as `f k` arranges the rows. -/
def pages (size n : Nat) (f : Nat → List α) : List α :=
  (List.range n).flatMap fun k => page size k (f k)

/-! ## Pages of one list -/

theorem take_page (size k : Nat) (l : List α) :
    l.take ((k + 1) * size) = l.take (k * size) ++ page size k l := by
  rw [Nat.succ_mul, List.take_add, page]

theorem pages_const (size n : Nat) (l : List α) : pages size n (fun _ => l) = l.take (n * size) := by
  induction n with
  | zero => simp [pages]
  | succ n ih =>
      rw [take_page, ← ih, pages, pages, List.range_succ, List.flatMap_append]
      simp

theorem map_page {β : Type*} (g : α → β) (size k : Nat) (l : List α) :
    (page size k l).map g = page size k (l.map g) := by
  simp only [page, List.map_take, List.map_drop]

theorem map_pages {β : Type*} (g : α → β) (size n : Nat) (f : Nat → List α) :
    (pages size n f).map g = pages size n fun k => (f k).map g := by
  simp only [pages, List.map_flatMap, map_page]

theorem getElem?_page {size k i : Nat} {l : List α} (h : i < size) :
    (page size k l)[i]? = l[k * size + i]? := by
  rw [page, List.getElem?_take, if_pos h, List.getElem?_drop]

/-! ## Pages of several arrangements -/

variable [LinearOrder κ] {key : α → κ} {rows : List α}

namespace Arrangement

/-- One that can be computed. -/
def sort (key : α → κ) (rows : List α) : Arrangement key rows where
  list := rows.mergeSort fun a b => decide (key a ≤ key b)
  perm := List.mergeSort_perm rows _
  sorted := by
    have htrans (a b c : α) : decide (key a ≤ key b) → decide (key b ≤ key c) →
        decide (key a ≤ key c) := by
      simpa using le_trans
    have htotal (a b : α) : (decide (key a ≤ key b) || decide (key b ≤ key a)) = true := by
      simpa using le_total (key a) (key b)
    exact (List.pairwise_mergeSort htrans htotal rows).imp fun hle => of_decide_eq_true hle

theorem length_list (A : Arrangement key rows) : A.list.length = rows.length := A.perm.length_eq

/-- Every arrangement shows the same keys. -/
theorem map_key (A B : Arrangement key rows) : A.list.map key = B.list.map key :=
  ((A.perm.trans B.perm.symm).map key).eq_of_pairwise (fun _ _ _ _ => le_antisymm)
    (List.pairwise_map.mpr A.sorted) (List.pairwise_map.mpr B.sorted)

end Arrangement

/-- **The keys are right**: page by page, they are those of the rows, in
order. -/
theorem keys_pages (A : Nat → Arrangement key rows) (B : Arrangement key rows) {size n : Nat}
    (hn : rows.length ≤ n * size) : (pages size n fun k => (A k).list).map key = B.list.map key := by
  have hsame : (fun k => (A k).list.map key) = fun _ => B.list.map key :=
    funext fun k => (A k).map_key B
  rw [map_pages, hsame, pages_const, List.take_of_length_le]
  rwa [List.length_map, B.length_list]

/-- A key occurs on both sides of a position. -/
def TieAt (keys : List κ) (p : Nat) : Prop := ∃ k ∈ keys.take p, k ∈ keys.drop p

instance (keys : List κ) (p : Nat) : Decidable (TieAt keys p) :=
  inferInstanceAs (Decidable (∃ k ∈ keys.take p, k ∈ keys.drop p))

/-- Where no key occurs on both sides of a position, the keys say which rows
come before it. -/
theorem take_eq_filter (A : Arrangement key rows) {p : Nat} (h : ¬ TieAt (A.list.map key) p) :
    A.list.take p = A.list.filter fun a => key a ∈ (A.list.map key).take p := by
  conv_rhs => rw [← List.take_append_drop p A.list]
  rw [List.filter_append, ← List.map_take]
  have hbefore : (A.list.take p).filter (fun a => key a ∈ (A.list.take p).map key) = A.list.take p := by
    rw [List.filter_eq_self]
    exact fun a ha => decide_eq_true (List.mem_map_of_mem ha)
  have hbehind : (A.list.drop p).filter (fun a => key a ∈ (A.list.take p).map key) = [] := by
    rw [List.filter_eq_nil_iff]
    intro a ha hmem
    refine h ⟨key a, by rw [← List.map_take]; exact of_decide_eq_true hmem, ?_⟩
    rw [← List.map_drop]
    exact List.mem_map_of_mem ha
  rw [List.take_append_drop, hbefore, hbehind, List.append_nil]

theorem take_perm (A B : Arrangement key rows) {p : Nat} (h : ¬ TieAt (B.list.map key) p) :
    (A.list.take p).Perm (B.list.take p) := by
  have hA : ¬ TieAt (A.list.map key) p := by rwa [A.map_key B]
  rw [take_eq_filter A hA, take_eq_filter B h, A.map_key B]
  exact (A.perm.trans B.perm.symm).filter _

/-- Between two boundaries without a tie every arrangement shows the same
rows. -/
theorem page_perm (A B : Arrangement key rows) {size k : Nat}
    (h : ¬ TieAt (B.list.map key) (k * size)) (h' : ¬ TieAt (B.list.map key) ((k + 1) * size)) :
    (page size k A.list).Perm (page size k B.list) := by
  have hnext := take_perm A B h'
  rw [take_page, take_page] at hnext
  have hself : (B.list.take (k * size) ++ page size k A.list).Perm
      (A.list.take (k * size) ++ page size k A.list) := (take_perm A B h).symm.append_right _
  exact (List.perm_append_left_iff _).mp (hself.trans hnext)

/-! ## A row that shows twice -/

/-- Two neighbours with the same key, in the other order. -/
def Arrangement.swap {before behind : List α} {a b : α} (h : key a = key b)
    (A : Arrangement key rows) (hA : A.list = before ++ a :: b :: behind) : Arrangement key rows where
  list := before ++ b :: a :: behind
  perm := by
    refine List.Perm.trans ?_ (hA ▸ A.perm)
    exact (List.Perm.swap a b behind).append_left before
  sorted := by
    have hsorted := A.sorted
    rw [hA, List.pairwise_append] at hsorted
    obtain ⟨hbefore, hrest, hacross⟩ := hsorted
    obtain ⟨ha, hrest⟩ := List.pairwise_cons.mp hrest
    obtain ⟨hb, hbehind⟩ := List.pairwise_cons.mp hrest
    rw [List.pairwise_append]
    refine ⟨hbefore, ?_, ?_⟩
    · refine List.pairwise_cons.mpr ⟨?_, List.pairwise_cons.mpr ⟨fun c hc => ?_, hbehind⟩⟩
      · intro c hc
        rcases List.mem_cons.mp hc with rfl | hc
        · exact le_of_eq h.symm
        · exact hb c hc
      · exact ha c (List.mem_cons_of_mem b hc)
    · intro c hc d hd
      refine hacross c hc d ?_
      simp only [List.mem_cons] at hd ⊢
      tauto

/-- A tie at a position is one between two neighbours. -/
theorem exists_neighbours (A : Arrangement key rows) {p : Nat} (h : TieAt (A.list.map key) p) :
    ∃ before a b behind, A.list = before ++ a :: b :: behind ∧ before.length + 1 = p ∧
      key a = key b := by
  obtain ⟨k, htake, hdrop⟩ := h
  rw [← List.map_take] at htake
  rw [← List.map_drop] at hdrop
  obtain ⟨c, hc, rfl⟩ := List.mem_map.mp htake
  obtain ⟨d, hd, heq⟩ := List.mem_map.mp hdrop
  obtain ⟨before, a, hsplit⟩ := (List.eq_nil_or_concat (A.list.take p)).resolve_left
    (List.ne_nil_of_mem hc)
  obtain ⟨b, behind, hrest⟩ := List.exists_cons_of_ne_nil (List.ne_nil_of_mem hd)
  rw [List.concat_eq_append] at hsplit
  have hlist : A.list = before ++ a :: b :: behind := by
    rw [← List.take_append_drop p A.list, hsplit, hrest, List.append_assoc, List.singleton_append]
  refine ⟨before, a, b, behind, hlist, ?_, ?_⟩
  · have hlen := congrArg List.length hsplit
    have hpos : 0 < (A.list.drop p).length := List.length_pos_of_mem hd
    simp only [List.length_take, List.length_append, List.length_singleton, List.length_drop] at hlen hpos
    omega
  · -- the key in question lies between those of the neighbours
    have hsorted := A.sorted
    rw [hlist, List.pairwise_append, List.pairwise_cons] at hsorted
    obtain ⟨-, ⟨ha, hrest'⟩, hacross⟩ := hsorted
    have hca : key c ≤ key a := by
      rw [hsplit, List.mem_append, List.mem_singleton] at hc
      rcases hc with hc | rfl
      · exact hacross c hc a List.mem_cons_self
      · exact le_rfl
    have hbd : key b ≤ key d := by
      rw [hrest] at hd
      rcases List.mem_cons.mp hd with rfl | hd
      · exact le_rfl
      · exact (List.pairwise_cons.mp hrest').1 d hd
    exact le_antisymm (ha b List.mem_cons_self) (le_trans hbd (heq ▸ hca))

/-- If there is a tie at a boundary, the pages on its two sides can show the
same row. -/
theorem exists_twice (B : Arrangement key rows) {size k : Nat} (hsize : 0 < size)
    (h : TieAt (B.list.map key) ((k + 1) * size)) :
    ∃ C : Arrangement key rows, ∃ a, a ∈ page size k B.list ∧ a ∈ page size (k + 1) C.list := by
  obtain ⟨before, a, b, behind, hlist, hlen, hkey⟩ := exists_neighbours B h
  rw [Nat.succ_mul] at hlen
  refine ⟨B.swap hkey hlist, a, ?_, ?_⟩
  · -- it comes last on the one page
    refine List.mem_of_getElem? (i := size - 1) ?_
    have hindex : k * size + (size - 1) = before.length := by omega
    rw [getElem?_page (by omega), hindex, hlist, List.getElem?_append_right (Nat.le_refl _), Nat.sub_self,
      List.getElem?_cons_zero]
  · -- and first on the other
    refine List.mem_of_getElem? (i := 0) ?_
    have hindex : (k + 1) * size + 0 = before.length + 1 := by
      rw [Nat.succ_mul]
      omega
    rw [getElem?_page hsize, hindex, Arrangement.swap,
      List.getElem?_append_right (Nat.le_succ before.length)]
    simp

/-- **The pages are complete**, whatever arrangements they are cut out of, if
and only if no boundary runs through rows with the same key. -/
theorem pages_perm_iff (B : Arrangement key rows) (hnodup : rows.Nodup) {size n : Nat} (hsize : 0 < size)
    (hn : rows.length ≤ n * size) :
    (∀ A : Nat → Arrangement key rows, (pages size n fun k => (A k).list).Perm rows) ↔
      ∀ k, ¬ TieAt (B.list.map key) (k * size) := by
  constructor
  · intro hall k htie
    cases k with
    | zero =>
        obtain ⟨_, hbefore, -⟩ := htie
        simp at hbefore
    | succ k =>
        obtain ⟨C, a, hleft, hright⟩ := exists_twice B hsize htie
        have hk : k + 1 < n := by
          obtain ⟨_, -, hbehind⟩ := htie
          have hpos := List.length_pos_of_mem hbehind
          rw [List.length_drop, List.length_map, B.length_list] at hpos
          exact Nat.lt_of_mul_lt_mul_right (a := size) (by omega)
        -- the k-th page and the next one, arranged so that they share a row
        have hperm := hall fun j => if j = k + 1 then C else B
        have hdisjoint := (List.nodup_flatMap.mp (hperm.nodup_iff.mpr hnodup)).2
        have hpair := List.pairwise_iff_getElem.mp hdisjoint k (k + 1) (by simp; omega) (by simpa)
          (Nat.lt_succ_self k)
        simp only [List.getElem_range, Function.onFun, if_true] at hpair
        rw [if_neg (Nat.ne_of_lt (Nat.lt_succ_self k))] at hpair
        exact hpair hleft hright
  · intro hnone A
    have hpages : (pages size n fun k => (A k).list).Perm (pages size n fun _ => B.list) :=
      List.Perm.flatMap_left _ fun k _ => page_perm (A k) B (hnone k) (hnone (k + 1))
    rw [pages_const, List.take_of_length_le (by rwa [B.length_list])] at hpages
    exact hpages.trans B.perm

end Paging

end ThreatIntel
