import Mathlib.Data.List.Perm.Basic
import ThreatIntel.Dict
import ThreatIntel.Enrichment
import ThreatIntel.Table

/-!
# The graph around a reference

The neighbours of a reference are asked of a graph that holds only the
edges that touch it. What they are is said without a graph: one entry for
every edge that starts there, and one for every edge that ends there
(`neighbors_new`), so that an edge from a reference to itself counts
twice. No other edge is looked at, and the two graphs answer alike.
-/

namespace ThreatIntel

/-- The attributes of an edge of a graph. -/
structure EdgeData where
  relationship : Option String := none
  confidence : Option ℚ := none
  source : Option PyStr := none
  deriving DecidableEq, Repr

/-- `datadict.update(attr)`. -/
def EdgeData.update (data attr : EdgeData) : EdgeData where
  relationship := attr.relationship <|> data.relationship
  confidence := attr.confidence <|> data.confidence
  source := attr.source <|> data.source

/-- The source, the target and the key of an edge. -/
abbrev EdgeKey := PyStr × PyStr × String

/-- `networkx.MultiDiGraph`: an edge for each source, target and key, whose
attributes are updated when it is added again. The edges at a node are
listed in no particular order. -/
structure MultiDiGraph where
  Graph : Type
  empty : Graph
  addEdge : Graph → PyStr → PyStr → String → EdgeData → Graph
  hasNode : Graph → PyStr → Bool
  edge? : Graph → EdgeKey → Option EdgeData
  outEdges : Graph → PyStr → List (PyStr × PyStr × EdgeData)
  inEdges : Graph → PyStr → List (PyStr × PyStr × EdgeData)
  hasNode_empty : ∀ n, hasNode empty n = false
  hasNode_addEdge : ∀ g u v key data n,
    hasNode (addEdge g u v key data) n = (decide (n = u ∨ n = v) || hasNode g n)
  edge?_empty : ∀ k, edge? empty k = none
  edge?_addEdge : ∀ g u v key data k, edge? (addEdge g u v key data) k =
    if k = (u, v, key) then some (((edge? g k).getD {}).update data) else edge? g k
  outEdges_perm : ∀ g n, hasNode g n = true → ∀ edges : List (EdgeKey × EdgeData), edges.Nodup →
    (∀ k data, (k, data) ∈ edges ↔ k.1 = n ∧ edge? g k = some data) →
      (outEdges g n).Perm (edges.map fun e => (e.1.1, e.1.2.1, e.2))
  inEdges_perm : ∀ g n, hasNode g n = true → ∀ edges : List (EdgeKey × EdgeData), edges.Nodup →
    (∀ k data, (k, data) ∈ edges ↔ k.2.1 = n ∧ edge? g k = some data) →
      (inEdges g n).Perm (edges.map fun e => (e.1.1, e.1.2.1, e.2))

namespace MultiDiGraph

/-- Edges at a node are listed in any order that lists each of them once. -/
theorem perm_listed {listed edges : List (EdgeKey × EdgeData)} (hlisted : listed.Nodup)
    (hedges : edges.Nodup) (h : ∀ k data, (k, data) ∈ edges ↔ (k, data) ∈ listed) :
    (listed.map fun e => (e.1.1, e.1.2.1, e.2)).Perm
      (edges.map fun e => (e.1.1, e.1.2.1, e.2)) :=
  ((List.perm_ext_iff_of_nodup hlisted hedges).mpr fun e => (h e.1 e.2).symm).map _

/-- One dictionary of all edges. -/
def keyed : MultiDiGraph where
  Graph := Dict EdgeKey EdgeData
  empty := .empty
  addEdge g u v key data := g.set (u, v, key) (((g.get? (u, v, key)).getD {}).update data)
  hasNode g n := g.keys.any fun k => n = k.1 ∨ n = k.2.1
  edge? g k := g.get? k
  outEdges g n := (g.items.filter fun e => e.1.1 = n).map fun e => (e.1.1, e.1.2.1, e.2)
  inEdges g n := (g.items.filter fun e => e.1.2.1 = n).map fun e => (e.1.1, e.1.2.1, e.2)
  hasNode_empty _ := rfl
  hasNode_addEdge g u v key data n := by
    rw [Bool.eq_iff_iff]
    simp only [List.any_eq_true, Bool.or_eq_true, decide_eq_true_eq, Dict.keys, Dict.set,
      Dict.mem_keys_setItems, or_and_right, exists_or, exists_eq_left]
  edge?_empty := Dict.get?_empty
  edge?_addEdge g u v key data k := by
    split
    · next hk => rw [hk, Dict.get?_set_self]
    · next hk => exact Dict.get?_set_ne g _ hk
  outEdges_perm g n _ edges hedges h :=
    perm_listed ((g.nodupKeys.of_map _).filter _) hedges fun k data => by
      simp [h k data, Dict.get?_eq_some_iff, and_comm]
  inEdges_perm g n _ edges hedges h :=
    perm_listed ((g.nodupKeys.of_map _).filter _) hedges fun k data => by
      simp [h k data, Dict.get?_eq_some_iff, and_comm]

end MultiDiGraph

/-! ## The threat graph -/

structure Edge where
  sourceRef : PyStr
  targetRef : PyStr
  relationship : String := "related-to"
  confidence : ℚ := 1 / 2
  source : PyStr := "manual".toList
  deriving DecidableEq, Repr

def Edge.triple (e : Edge) : EdgeKey := (e.sourceRef, e.targetRef, e.relationship)

/-- The attributes that `add_edge` gives it. -/
def Edge.data (e : Edge) : EdgeData where
  relationship := some e.relationship
  confidence := some e.confidence
  source := some e.source

/-- `_edge_meta`. -/
structure EdgeMeta where
  relationship : String
  confidence : ℚ
  source : PyStr
  deriving DecidableEq, Repr

def edgeMeta (data : EdgeData) : EdgeMeta where
  relationship := data.relationship.getD "related-to"
  confidence := data.confidence.getD (1 / 2)
  source := data.source.getD "manual".toList

structure Neighbor extends EdgeMeta where
  ref : PyStr
  direction : String
  deriving DecidableEq, Repr

namespace ThreatGraph

variable (nx : MultiDiGraph)

def addEdge (g : nx.Graph) (edge : Edge) : nx.Graph :=
  nx.addEdge g edge.sourceRef edge.targetRef edge.relationship edge.data

/-- `ThreatGraph(edges)`. -/
def new (edges : List Edge) : nx.Graph := edges.foldl (addEdge nx) nx.empty

def neighbors (g : nx.Graph) (ref : PyStr) : List Neighbor :=
  if nx.hasNode g ref then
    (nx.outEdges g ref).map (fun (_, dst, data) =>
      { edgeMeta data with ref := dst, direction := "out" }) ++
    (nx.inEdges g ref).map (fun (src, _, data) =>
      { edgeMeta data with ref := src, direction := "in" })
  else []

end ThreatGraph

/-! ## The queries -/

def CorrelationEdge.edge (e : CorrelationEdge) : Edge where
  sourceRef := e.sourceRef
  targetRef := e.targetRef
  relationship := e.relationship
  confidence := e.confidence
  source := e.source

/-- The order in which a `SELECT` without `ORDER BY` lists its rows. -/
structure RowOrder where
  order : List CorrelationEdge → List CorrelationEdge
  perm : ∀ rows, (order rows).Perm rows

namespace CorrelationRepository

def allEdges (db : RowOrder) (edges : Table CorrelationEdge CorrelationEdge.triple) : List Edge :=
  (db.order edges.rows).map CorrelationEdge.edge

def edgesTouching (db : RowOrder) (edges : Table CorrelationEdge CorrelationEdge.triple)
    (ref : PyStr) : List Edge :=
  (db.order (edges.rows.filter fun e => e.sourceRef = ref ∨ e.targetRef = ref)).map
    CorrelationEdge.edge

end CorrelationRepository

namespace CorrelationService

variable (nx : MultiDiGraph) (db : RowOrder)

/-- `_graph`. -/
def graph (edges : Table CorrelationEdge CorrelationEdge.triple) : nx.Graph :=
  ThreatGraph.new nx (CorrelationRepository.allEdges db edges)

def neighbors (edges : Table CorrelationEdge CorrelationEdge.triple) (ref : PyStr) :
    List Neighbor :=
  ThreatGraph.neighbors nx
    (ThreatGraph.new nx (CorrelationRepository.edgesTouching db edges ref)) ref

end CorrelationService

/-! ## What a graph answers -/

namespace ThreatGraph

variable {nx : MultiDiGraph} {es es' : List Edge}

/-- Every attribute is written, so that nothing is left of an edge with the
same triple. -/
theorem edge?_addEdge (g : nx.Graph) (e : Edge) (k : EdgeKey) :
    nx.edge? (addEdge nx g e) k = if k = e.triple then some e.data else nx.edge? g k :=
  nx.edge?_addEdge g e.sourceRef e.targetRef e.relationship e.data k

theorem new_concat (es : List Edge) (e : Edge) : new nx (es ++ [e]) = addEdge nx (new nx es) e := by
  simp [new]

theorem hasNode_new (es : List Edge) (n : PyStr) :
    nx.hasNode (new nx es) n = true ↔ ∃ e ∈ es, e.sourceRef = n ∨ e.targetRef = n := by
  induction es using List.reverseRecOn with
  | nil => simp [new, nx.hasNode_empty]
  | append_singleton es e ih =>
      rw [new_concat, addEdge, nx.hasNode_addEdge, Bool.or_eq_true, decide_eq_true_eq, ih]
      simp only [List.mem_append, List.mem_singleton, or_and_right, exists_or, exists_eq_left]
      rw [or_comm, @eq_comm _ n e.sourceRef, @eq_comm _ n e.targetRef]

/-- Where no two edges have a triple in common, none is overwritten. -/
theorem edge?_new (hnodup : (es.map Edge.triple).Nodup) (k : EdgeKey) (data : EdgeData) :
    nx.edge? (new nx es) k = some data ↔ ∃ e ∈ es, e.triple = k ∧ e.data = data := by
  induction es using List.reverseRecOn with
  | nil => simp [new, nx.edge?_empty]
  | append_singleton es e ih =>
      rw [List.map_append, List.nodup_append] at hnodup
      obtain ⟨hnodup, -, hne⟩ := hnodup
      rw [new_concat, edge?_addEdge]
      by_cases hk : k = e.triple
      · have hfree : ∀ e' ∈ es, e'.triple ≠ e.triple := fun e' he' =>
          hne e'.triple (List.mem_map_of_mem he') e.triple (by simp)
        rw [if_pos hk, hk]
        constructor
        · rintro ⟨⟩
          exact ⟨e, by simp, rfl, rfl⟩
        · rintro ⟨e', he', htriple, rfl⟩
          rcases List.mem_append.mp he' with he' | he'
          · exact absurd htriple (hfree e' he')
          · rw [List.mem_singleton.mp he']
      · rw [if_neg hk, ih hnodup]
        constructor
        · rintro ⟨e', he', hrest⟩
          exact ⟨e', List.mem_append_left _ he', hrest⟩
        · rintro ⟨e', he', rfl, rfl⟩
          rcases List.mem_append.mp he' with he' | he'
          · exact ⟨e', he', rfl, rfl⟩
          · exact absurd (congrArg Edge.triple (List.mem_singleton.mp he')) hk

/-- The edges that meet a condition on their triples, with their keys. -/
theorem nodup_keyed (hnodup : (es.map Edge.triple).Nodup) (p : Edge → Bool) :
    ((es.filter p).map fun e => (e.triple, e.data)).Nodup := by
  refine List.Nodup.of_map Prod.fst ?_
  rw [List.map_map]
  exact hnodup.sublist (List.filter_sublist.map _)

/-- The edges that are read back under the keys that meet a condition. -/
theorem mem_keyed (hnodup : (es.map Edge.triple).Nodup) (p : EdgeKey → Prop) [DecidablePred p]
    (k : EdgeKey) (data : EdgeData) :
    (k, data) ∈ (es.filter fun e => p e.triple).map (fun e => (e.triple, e.data)) ↔
      p k ∧ nx.edge? (new nx es) k = some data := by
  rw [edge?_new hnodup]
  simp only [List.mem_map, List.mem_filter, decide_eq_true_eq, Prod.mk.injEq]
  constructor
  · rintro ⟨e, ⟨he, hp⟩, rfl, rfl⟩
    exact ⟨hp, e, he, rfl, rfl⟩
  · rintro ⟨hp, e, he, rfl, rfl⟩
    exact ⟨e, ⟨he, hp⟩, rfl, rfl⟩

theorem outEdges_new (hnodup : (es.map Edge.triple).Nodup) {n : PyStr}
    (hn : nx.hasNode (new nx es) n = true) :
    (nx.outEdges (new nx es) n).Perm
      ((es.filter fun e => e.sourceRef = n).map fun e => (e.sourceRef, e.targetRef, e.data)) := by
  have hperm := nx.outEdges_perm (new nx es) n hn _
    (nodup_keyed hnodup fun e => e.sourceRef = n) (mem_keyed hnodup (·.1 = n))
  rwa [List.map_map] at hperm

theorem inEdges_new (hnodup : (es.map Edge.triple).Nodup) {n : PyStr}
    (hn : nx.hasNode (new nx es) n = true) :
    (nx.inEdges (new nx es) n).Perm
      ((es.filter fun e => e.targetRef = n).map fun e => (e.sourceRef, e.targetRef, e.data)) := by
  have hperm := nx.inEdges_perm (new nx es) n hn _
    (nodup_keyed hnodup fun e => e.targetRef = n) (mem_keyed hnodup (·.2.1 = n))
  rwa [List.map_map] at hperm

/-- The entry of an edge at the one end. -/
def outEntry (e : Edge) : Neighbor :=
  { edgeMeta e.data with ref := e.targetRef, direction := "out" }

/-- The entry of an edge at the other. -/
def inEntry (e : Edge) : Neighbor :=
  { edgeMeta e.data with ref := e.sourceRef, direction := "in" }

/-- The entries of the edges at a reference, without a graph. -/
def entries (es : List Edge) (ref : PyStr) : List Neighbor :=
  (es.filter fun e => e.sourceRef = ref).map outEntry ++
    (es.filter fun e => e.targetRef = ref).map inEntry

theorem neighbors_new (hnodup : (es.map Edge.triple).Nodup) (ref : PyStr) :
    (neighbors nx (new nx es) ref).Perm (entries es ref) := by
  rw [neighbors]
  split
  · next hnode =>
      refine List.Perm.append ?_ ?_
      · refine ((outEdges_new hnodup hnode).map _).trans ?_
        rw [List.map_map]
        exact .refl _
      · refine ((inEdges_new hnodup hnode).map _).trans ?_
        rw [List.map_map]
        exact .refl _
  · next hnode =>
      -- no edge is at a reference that is not a node
      have hnone : ∀ e ∈ es, e.sourceRef ≠ ref ∧ e.targetRef ≠ ref := by
        intro e he
        constructor
        · exact fun h => hnode ((hasNode_new es ref).mpr ⟨e, he, .inl h⟩)
        · exact fun h => hnode ((hasNode_new es ref).mpr ⟨e, he, .inr h⟩)
      have hout : (es.filter fun e => e.sourceRef = ref) = [] :=
        List.filter_eq_nil_iff.mpr fun e he => by simp [(hnone e he).1]
      have hin : (es.filter fun e => e.targetRef = ref) = [] :=
        List.filter_eq_nil_iff.mpr fun e he => by simp [(hnone e he).2]
      simp [entries, hout, hin]

theorem entries_perm (h : es.Perm es') (ref : PyStr) : (entries es ref).Perm (entries es' ref) :=
  ((h.filter _).map _).append ((h.filter _).map _)

/-- The entries are those of the edges that touch the reference. -/
theorem entries_filter (es : List Edge) (ref : PyStr) :
    entries (es.filter fun e => e.sourceRef = ref ∨ e.targetRef = ref) ref = entries es ref := by
  have hout : ((es.filter fun e => e.sourceRef = ref ∨ e.targetRef = ref).filter
      fun e => e.sourceRef = ref) = es.filter fun e => e.sourceRef = ref := by
    rw [List.filter_filter]
    refine List.filter_congr fun e _ => ?_
    by_cases h : e.sourceRef = ref <;> simp [h]
  have hin : ((es.filter fun e => e.sourceRef = ref ∨ e.targetRef = ref).filter
      fun e => e.targetRef = ref) = es.filter fun e => e.targetRef = ref := by
    rw [List.filter_filter]
    refine List.filter_congr fun e _ => ?_
    by_cases h : e.targetRef = ref <;> simp [h]
  rw [entries, hout, hin, entries]

end ThreatGraph

namespace CorrelationService

open CorrelationRepository

/-- No two rows have a triple in common, in whatever order they are listed. -/
theorem nodup_allEdges (db : RowOrder) (edges : Table CorrelationEdge CorrelationEdge.triple) :
    ((allEdges db edges).map Edge.triple).Nodup := by
  rw [allEdges, List.map_map]
  exact ((db.perm edges.rows).map _).nodup_iff.mpr edges.nodupKeys

/-- The edges that are asked for are those of all that touch the reference. -/
theorem edgesTouching_perm (db : RowOrder) (edges : Table CorrelationEdge CorrelationEdge.triple)
    (ref : PyStr) :
    (edgesTouching db edges ref).Perm
      ((allEdges db edges).filter fun e => e.sourceRef = ref ∨ e.targetRef = ref) := by
  rw [edgesTouching, allEdges, List.filter_map]
  exact ((db.perm _).trans ((db.perm edges.rows).symm.filter _)).map _

/-- **The graph around a reference answers like the whole graph.** For every
table of edges and every reference, the neighbours in the graph of the
edges that touch the reference are those in the graph of all edges, each
as often. -/
theorem neighbors_perm (nx : MultiDiGraph) (db : RowOrder)
    (edges : Table CorrelationEdge CorrelationEdge.triple) (ref : PyStr) :
    (neighbors nx db edges ref).Perm (ThreatGraph.neighbors nx (graph nx db edges) ref) := by
  have htouching := edgesTouching_perm db edges ref
  have hnodup : ((edgesTouching db edges ref).map Edge.triple).Nodup :=
    (htouching.map _).nodup_iff.mpr
      ((nodup_allEdges db edges).sublist (List.filter_sublist.map _))
  calc
    (neighbors nx db edges ref).Perm (ThreatGraph.entries (edgesTouching db edges ref) ref) :=
      ThreatGraph.neighbors_new hnodup ref
    _ |>.Perm (ThreatGraph.entries ((allEdges db edges).filter fun e =>
        e.sourceRef = ref ∨ e.targetRef = ref) ref) := ThreatGraph.entries_perm htouching ref
    _ |>.Perm (ThreatGraph.entries (allEdges db edges) ref) := by
      rw [ThreatGraph.entries_filter]
    _ |>.Perm (ThreatGraph.neighbors nx (graph nx db edges) ref) :=
      (ThreatGraph.neighbors_new (nodup_allEdges db edges) ref).symm

/-- A loop, two edges between the same ends, and an edge elsewhere. -/
example :
    ((neighbors .keyed ⟨id, fun _ => .refl _⟩
      { rows :=
          [⟨['a'], ['a'], "uses", 1, []⟩, ⟨['a'], ['b'], "uses", 1, []⟩,
            ⟨['a'], ['b'], "drops", 1, []⟩, ⟨['b'], ['c'], "uses", 1, []⟩]
        nodupKeys := by decide }
      ['a']).map fun n => (n.ref, n.direction, n.relationship)) =
      [(['a'], "out", "uses"), (['b'], "out", "uses"), (['b'], "out", "drops"),
        (['a'], "in", "uses")] := by
  decide +kernel

end CorrelationService

end ThreatIntel
