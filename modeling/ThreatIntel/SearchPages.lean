import Mathlib.Algebra.BigOperators.Group.List.Lemmas
import Mathlib.Algebra.GroupWithZero.Nat
import Mathlib.Data.Prod.Lex
import ThreatIntel.IocSearch
import ThreatIntel.Paging
import ThreatIntel.Table

/-!
# Lists of indicators

The queries of `app/repositories/ioc_repository.py` behind the search, the
exports and the dashboard. They sort by score and by the time of the last
change, so how rows that agree in both come out is up to the database, and
each query finds its own way.
-/

namespace ThreatIntel

namespace IocSearch

open Paging

/-- A row with the column that decides among equal scores. -/
structure ListedIoc extends StoredIoc where
  updatedAt : Int

abbrev IocTable := Table ListedIoc fun row => row.id

/-- `threat_score DESC, updated_at DESC`. -/
def rank (row : ListedIoc) : Lex (Intᵒᵈ × Intᵒᵈ) :=
  toLex (OrderDual.toDual row.threatScore.val, OrderDual.toDual row.updatedAt)

/-- How one query sorts what it has found. -/
abbrev Plan := ∀ found : List ListedIoc, Arrangement rank found

variable (F : sql.Folding)

/-- The rows that `_filtered` selects. -/
def selected (f : Filter) (table : IocTable) : List ListedIoc :=
  table.rows.filter fun row => filtered F f row.toStoredIoc

/-- `IOCRepository.search`. -/
def search (plan : Plan) (f : Filter) (limit offset : Nat) (table : IocTable) : List ListedIoc :=
  ((plan (selected F f table)).list.drop offset).take limit

/-- `IOCRepository.count`. -/
def count (f : Filter) (table : IocTable) : Nat := (selected F f table).length

/-- `SELECT column, count(id) .. GROUP BY column`. -/
def countBy {β : Type} [DecidableEq β] (column : ListedIoc → β) (table : IocTable) : List (β × Nat) :=
  (table.rows.map column).dedup.map fun b => (b, (table.rows.map column).count b)

def countByLevel (table : IocTable) : List (String × Nat) := countBy (·.threatLevel) table

def countByType (table : IocTable) : List (String × Nat) := countBy (·.type) table

def countBySource (table : IocTable) : List (PyStr × Nat) := countBy (·.source) table

/-- `IOCRepository.total`. -/
def total (table : IocTable) : Nat := table.rows.length

/-- `IOCService.search`: a page, and how many rows there are on all of
them. -/
def searchPage (plan : Plan) (f : Filter) (page pageSize : Nat) (table : IocTable) :
    List ListedIoc × Nat :=
  (search F plan f pageSize ((page - 1) * pageSize) table, count F f table)

/-- `IOCService.list_for_report`. -/
def listForReport (plan : Plan) (f : Filter) (limit : Nat) (table : IocTable) : List ListedIoc :=
  search F plan { f with status := none } limit 0 table

/-! ## Page by page -/

variable {F}

theorem nodup_selected (f : Filter) (table : IocTable) : (selected F f table).Nodup :=
  (List.Nodup.of_map _ table.nodupKeys).filter _

/-- The pages from the first on, each found by a query of its own. -/
def firstPages (F : sql.Folding) (plans : Nat → Plan) (f : Filter) (pageSize n : Nat)
    (table : IocTable) : List ListedIoc :=
  (List.range n).flatMap fun k => (searchPage F (plans k) f (k + 1) pageSize table).1

theorem firstPages_eq (plans : Nat → Plan) (f : Filter) (pageSize n : Nat) (table : IocTable) :
    firstPages F plans f pageSize n table =
      pages pageSize n fun k => (plans k (selected F f table)).list := rfl

open Classical in
/-- A plan that sorts these rows in this way. -/
noncomputable def planOf {found : List ListedIoc} (A : Arrangement rank found) : Plan := fun found' =>
  if h : found' = found then h ▸ A else .sort rank found'

theorem planOf_self {found : List ListedIoc} (A : Arrangement rank found) : planOf A found = A :=
  dif_pos rfl

/-- **Going through the pages** of a search, as many as the total asks for:
the scores and times come in order and complete. The rows do, however the
database sorts, if and only if no boundary between two pages runs through
rows with the same score and time. -/
theorem search_pages (F : sql.Folding) (f : Filter) (table : IocTable) {pageSize n : Nat}
    (hsize : 1 ≤ pageSize) (plan : Plan) (hn : (searchPage F plan f 1 pageSize table).2 ≤ n * pageSize) :
    (∀ plans, (firstPages F plans f pageSize n table).map rank =
        ((plan (selected F f table)).list).map rank) ∧
      ((∀ plans, (firstPages F plans f pageSize n table).Perm (selected F f table)) ↔
        ∀ k, ¬ TieAt (((plan (selected F f table)).list).map rank) (k * pageSize)) := by
  refine ⟨fun plans => keys_pages (fun k => plans k _) _ hn, ?_⟩
  rw [← pages_perm_iff _ (nodup_selected f table) hsize hn]
  constructor
  · intro hall A
    have hplans := hall fun k => planOf (A k)
    simp only [firstPages_eq, planOf_self] at hplans
    exact hplans
  · exact fun hall plans => hall fun k => plans k _

/-- A row of a feed, as good as any other of it. -/
def ListedIoc.sample (id : String) (updatedAt : Int) : ListedIoc where
  id
  type := "domain"
  value := (id ++ ".example").toList
  defangedValue := (id ++ "[.]example").toList
  source := "rss".toList
  confidence := "medium"
  severity := "medium"
  threatScore := ⟨1, IntColumn.one_fits⟩
  threatLevel := "clean"
  sightings := ⟨1, IntColumn.one_fits⟩
  tags := []
  references := []
  description := none
  firstSeen := some 0
  lastSeen := some updatedAt
  status := "active"
  updatedAt

/-- Two rows have changed at the same time. -/
def sampleRows : List ListedIoc := [.sample "a" 0, .sample "b" 0, .sample "c" 5]

theorem nodup_sampleRows : (sampleRows.map fun row => row.id).Nodup := by decide

def sampleTable : IocTable := ⟨sampleRows, nodup_sampleRows⟩

theorem search_pages_sample :
    (∀ plans, (firstPages lowering plans {} 1 3 sampleTable).map rank =
        ((Arrangement.sort rank (selected lowering {} sampleTable)).list).map rank) ∧
      ((∀ plans, (firstPages lowering plans {} 1 3 sampleTable).Perm
          (selected lowering {} sampleTable)) ↔
        ∀ k, ¬ TieAt (((Arrangement.sort rank (selected lowering {} sampleTable)).list).map rank)
          (k * 1)) :=
  search_pages lowering {} sampleTable le_rfl (fun _ => Arrangement.sort rank _) (by decide)

/-- What an export leaves out ranks behind all that it contains. -/
theorem rank_listForReport (F : sql.Folding) (plan : Plan) (f : Filter) (limit : Nat) (table : IocTable) :
    (listForReport F plan f limit table).length = min limit (count F { f with status := none } table) ∧
      ∀ row ∈ listForReport F plan f limit table, ∀ other ∈ selected F { f with status := none } table,
        other ∉ listForReport F plan f limit table → rank row ≤ rank other := by
  generalize hA : plan (selected F { f with status := none } table) = A
  have hlist : listForReport F plan f limit table = A.list.take limit := by
    rw [listForReport, search, hA, List.drop_zero]
  rw [hlist]
  refine ⟨by rw [List.length_take, A.length_list, count], fun row hrow other hother hout => ?_⟩
  have hsorted := A.sorted
  rw [← List.take_append_drop limit A.list, List.pairwise_append] at hsorted
  have hbehind : other ∈ A.list.drop limit := by
    have hmem := A.perm.mem_iff.mpr hother
    rw [← List.take_append_drop limit A.list] at hmem
    exact (List.mem_append.mp hmem).resolve_left hout
  exact hsorted.2.2 row hrow other hbehind

/-! ## The dashboard -/

section

variable {β : Type} [DecidableEq β]

/-- What a group-by says of one value, or zero. -/
def groupCount (b : β) (groups : List (β × Nat)) : Nat := (groups.lookup b).getD 0

/-- The groups cover the rows. -/
theorem sum_countBy (column : ListedIoc → β) (table : IocTable) :
    ((countBy column table).map Prod.snd).sum = total table := by
  have hsum := List.sum_map_count_dedup_eq_length (table.rows.map column)
  rw [List.length_map] at hsum
  rw [countBy, List.map_map, total, ← hsum]
  rfl

theorem lookup_map_pair (g : β → Nat) (l : List β) (b : β) :
    (l.map fun b => (b, g b)).lookup b = if b ∈ l then some (g b) else none := by
  induction l with
  | nil => rfl
  | cons c l ih =>
      rw [List.map_cons, List.lookup_cons, ih]
      by_cases hb : b = c
      · simp [hb]
      · have hne : (b == c) = false := by simp [hb]
        rw [hne]
        simp [hb]

theorem groupCount_countBy (column : ListedIoc → β) (table : IocTable) (b : β) :
    groupCount b (countBy column table) = table.rows.countP fun row => column row = b := by
  have hcount : (table.rows.map column).count b = table.rows.countP fun row => column row = b := by
    rw [List.count, List.countP_map]
    refine List.countP_congr fun row _ => ?_
    simp
  rw [groupCount, countBy, lookup_map_pair, ← hcount]
  split
  · rfl
  · next hb => exact (List.count_eq_zero.mpr (by simpa using hb)).symm

end

/-- **The dashboard and the search agree.** Each of the three breakdowns
adds up to the total, and what it says of one level, type or source is the
total of the search for it. -/
theorem dashboard_agrees (F : sql.Folding) (plan : Plan) (page pageSize : Nat) (table : IocTable) :
    (((countByLevel table).map Prod.snd).sum = total table ∧
      ((countByType table).map Prod.snd).sum = total table ∧
      ((countBySource table).map Prod.snd).sum = total table) ∧
    (∀ level, level ≠ "" → groupCount level (countByLevel table) =
      (searchPage F plan { threatLevel := some level } page pageSize table).2) ∧
    (∀ iocType, iocType ≠ "" → groupCount iocType (countByType table) =
      (searchPage F plan { iocType := some iocType } page pageSize table).2) ∧
    ∀ source, source ≠ [] → groupCount source (countBySource table) =
      (searchPage F plan { source := some source } page pageSize table).2 := by
  refine ⟨⟨sum_countBy _ _, sum_countBy _ _, sum_countBy _ _⟩, ?_, ?_, ?_⟩
  · intro level hlevel
    rw [countByLevel, groupCount_countBy, searchPage, count, selected, ← List.countP_eq_length_filter]
    refine List.countP_congr fun row _ => ?_
    simp [filtered, wanted, hlevel]
  · intro iocType htype
    rw [countByType, groupCount_countBy, searchPage, count, selected, ← List.countP_eq_length_filter]
    refine List.countP_congr fun row _ => ?_
    simp [filtered, wanted, htype]
  · intro source hsource
    rw [countBySource, groupCount_countBy, searchPage, count, selected, ← List.countP_eq_length_filter]
    refine List.countP_congr fun row _ => ?_
    simp [filtered, wanted, hsource]

end IocSearch

end ThreatIntel
