import Mathlib.Data.Finset.Basic
import ThreatIntel.EdgeProvenance
import ThreatIntel.PartialGraph
import ThreatIntel.Walks

/-!
# Pivots and attack chains

What is around a reference, up to a number of hops in either direction, and
the shortest way along the edges from one reference to another. Both are
asked of the graph of the whole table, and what they answer is said of the
rows alone (`pivot_spec`, `attackChain_spec`).
-/

namespace ThreatIntel

open Walks

/-! ## Searching a graph -/

namespace MultiDiGraph

variable (nx : MultiDiGraph)

/-- There is an edge from the one to the other. -/
def Points (g : nx.Graph) (u v : PyStr) : Prop := ∃ key, (nx.edge? g (u, v, key)).isSome = true

/-- There is an edge between them, as `to_undirected` sees it. -/
def Linked (g : nx.Graph) (u v : PyStr) : Prop := nx.Points g u v ∨ nx.Points g v u

end MultiDiGraph

/-- What `networkx` finds in a graph: its nodes and edges, the part of it
that some nodes induce, the distances from a node up to a cutoff, whatever
the direction of the edges, and a shortest path along them. -/
structure GraphSearch (nx : MultiDiGraph) where
  nodes : nx.Graph → List PyStr
  edges : nx.Graph → List (PyStr × PyStr × EdgeData)
  subgraph : nx.Graph → Finset PyStr → nx.Graph
  undirectedLengths : nx.Graph → PyStr → Nat → List (PyStr × Nat)
  shortestPath : nx.Graph → PyStr → PyStr → Option (List PyStr)
  nodup_nodes : ∀ g, (nodes g).Nodup
  mem_nodes : ∀ g n, n ∈ nodes g ↔ nx.hasNode g n = true
  edges_perm : ∀ g, ∀ listed : List (EdgeKey × EdgeData), listed.Nodup →
    (∀ k data, (k, data) ∈ listed ↔ nx.edge? g k = some data) →
      (edges g).Perm (listed.map fun e => (e.1.1, e.1.2.1, e.2))
  hasNode_subgraph : ∀ g refs n, nx.hasNode (subgraph g refs) n = (nx.hasNode g n && decide (n ∈ refs))
  edge?_subgraph : ∀ g refs k,
    nx.edge? (subgraph g refs) k = if k.1 ∈ refs ∧ k.2.1 ∈ refs then nx.edge? g k else none
  mem_undirectedLengths : ∀ g ref cutoff n d, nx.hasNode g ref = true →
    ((n, d) ∈ undirectedLengths g ref cutoff ↔ d ≤ cutoff ∧ Hops (nx.Linked g) d ref n ∧
      ∀ m, Hops (nx.Linked g) m ref n → d ≤ m)
  shortestPath_some : ∀ g s t l, nx.hasNode g s = true → shortestPath g s t = some l →
    Shortest (nx.Points g) s t l
  shortestPath_none : ∀ g s t, nx.hasNode g s = true → shortestPath g s t = none →
    ∀ n, ¬ Hops (nx.Points g) n s t

/-! ## A graph that is searched -/

/-- A list of nodes, and one dictionary of the edges between them. -/
structure NodedGraph where
  nodes : List PyStr
  edges : Dict EdgeKey EdgeData
  nodup : nodes.Nodup
  ends : ∀ k ∈ edges.keys, k.1 ∈ nodes ∧ k.2.1 ∈ nodes

namespace NodedGraph

def empty : NodedGraph := ⟨[], .empty, List.nodup_nil, List.forall_mem_nil _⟩

def addNode (nodes : List PyStr) (n : PyStr) : List PyStr :=
  if nodes.contains n then nodes else nodes ++ [n]

theorem mem_addNode {nodes : List PyStr} {m n : PyStr} : m ∈ addNode nodes n ↔ m = n ∨ m ∈ nodes := by
  rw [addNode]
  split
  · next hn =>
      constructor
      · exact .inr
      · rintro (rfl | h)
        · exact List.contains_iff_mem.mp hn
        · exact h
  · rw [List.mem_append, List.mem_singleton, or_comm]

theorem nodup_addNode {nodes : List PyStr} (h : nodes.Nodup) (n : PyStr) : (addNode nodes n).Nodup := by
  rw [addNode]
  split
  · exact h
  · next hn =>
      have hnew : n ∉ nodes := mt List.contains_iff_mem.mpr hn
      exact h.append (List.nodup_singleton n) (List.disjoint_singleton.mpr hnew)

def addEdge (g : NodedGraph) (u v : PyStr) (key : String) (data : EdgeData) : NodedGraph where
  nodes := addNode (addNode g.nodes u) v
  edges := g.edges.set (u, v, key) (((g.edges.get? (u, v, key)).getD {}).update data)
  nodup := nodup_addNode (nodup_addNode g.nodup u) v
  ends := by
    intro k hk
    rw [Dict.keys, Dict.set, Dict.mem_keys_setItems] at hk
    simp only [mem_addNode]
    rcases hk with rfl | hk
    · simp
    · obtain ⟨hu, hv⟩ := g.ends k hk
      exact ⟨.inr (.inr hu), .inr (.inr hv)⟩

def subgraph (g : NodedGraph) (refs : Finset PyStr) : NodedGraph where
  nodes := g.nodes.filter (· ∈ refs)
  edges := g.edges.filter fun k _ => decide (k.1 ∈ refs) && decide (k.2.1 ∈ refs)
  nodup := g.nodup.filter _
  ends := by
    intro k hk
    obtain ⟨e, he, rfl⟩ := List.mem_map.mp hk
    obtain ⟨he, hrefs⟩ := List.mem_filter.mp he
    obtain ⟨hu, hv⟩ := g.ends e.1 (List.mem_map_of_mem he)
    simp only [Bool.and_eq_true, decide_eq_true_eq] at hrefs
    simp [hu, hv, hrefs]

/-- Where the edges at a node lead, and where they come from. -/
def successors (g : NodedGraph) (n : PyStr) : List PyStr :=
  (g.edges.keys.filter fun k => k.1 = n).map fun k => k.2.1

def predecessors (g : NodedGraph) (n : PyStr) : List PyStr :=
  (g.edges.keys.filter fun k => k.2.1 = n).map fun k => k.1

def neighbours (g : NodedGraph) (n : PyStr) : List PyStr := g.successors n ++ g.predecessors n

theorem get?_empty : ∀ k, empty.edges.get? k = none := Dict.get?_empty

def graph : MultiDiGraph where
  Graph := NodedGraph
  empty := empty
  addEdge := addEdge
  hasNode g n := g.nodes.contains n
  edge? g k := g.edges.get? k
  outEdges g n := (g.edges.items.filter fun e => e.1.1 = n).map fun e => (e.1.1, e.1.2.1, e.2)
  inEdges g n := (g.edges.items.filter fun e => e.1.2.1 = n).map fun e => (e.1.1, e.1.2.1, e.2)
  hasNode_empty _ := rfl
  hasNode_addEdge g u v key data n := by
    rw [Bool.eq_iff_iff]
    simp only [addEdge, List.contains_iff_mem, mem_addNode, Bool.or_eq_true, decide_eq_true_eq]
    rw [← or_assoc, or_comm (a := n = v)]
  edge?_empty := get?_empty
  edge?_addEdge g := MultiDiGraph.keyed.edge?_addEdge g.edges
  outEdges_perm g n _ edges hedges h :=
    MultiDiGraph.perm_listed ((g.edges.nodupKeys.of_map _).filter _) hedges fun k data => by
      simp [h k data, Dict.get?_eq_some_iff, and_comm]
  inEdges_perm g n _ edges hedges h :=
    MultiDiGraph.perm_listed ((g.edges.nodupKeys.of_map _).filter _) hedges fun k data => by
      simp [h k data, Dict.get?_eq_some_iff, and_comm]

theorem mem_keys {g : NodedGraph} {k : EdgeKey} : k ∈ g.edges.keys ↔ (g.edges.get? k).isSome = true := by
  rw [Option.isSome_iff_exists, Dict.keys, List.mem_map]
  simp [Dict.get?_eq_some_iff]

theorem mem_successors (g : NodedGraph) : (fun u v => v ∈ g.successors u) = graph.Points g := by
  funext u v
  refine propext (Iff.trans ?_ (exists_congr fun key => mem_keys (k := (u, v, key))))
  simp only [successors, List.mem_map, List.mem_filter, decide_eq_true_eq, Prod.exists]
  constructor
  · rintro ⟨_, _, key, ⟨hkey, rfl⟩, rfl⟩
    exact ⟨key, hkey⟩
  · rintro ⟨key, hkey⟩
    exact ⟨u, v, key, ⟨hkey, rfl⟩, rfl⟩

theorem mem_neighbours (g : NodedGraph) : (fun u v => v ∈ g.neighbours u) = graph.Linked g := by
  funext u v
  have hsuccessors := congrFun (congrFun (mem_successors g) u) v
  have hpredecessors : (v ∈ g.predecessors u) = graph.Points g v u := by
    rw [← congrFun (congrFun (mem_successors g) v) u]
    simp [successors, predecessors, and_comm]
  simp only [neighbours, List.mem_append, MultiDiGraph.Linked, ← hsuccessors, ← hpredecessors]

theorem neighbours_subset (g : NodedGraph) (u v : PyStr) (h : v ∈ g.neighbours u) : v ∈ g.nodes := by
  simp only [neighbours, successors, predecessors, List.mem_append, List.mem_map, List.mem_filter] at h
  rcases h with ⟨k, ⟨hk, -⟩, rfl⟩ | ⟨k, ⟨hk, -⟩, rfl⟩
  · exact (g.ends k hk).2
  · exact (g.ends k hk).1

/-- The distances from a node. -/
def lengths (g : NodedGraph) (ref : PyStr) (cutoff : Nat) : List (PyStr × Nat) :=
  g.nodes.filterMap fun n => (distance? g.neighbours cutoff ref n).map fun d => (n, d)

theorem mem_lengths (g : NodedGraph) {ref : PyStr} (href : ref ∈ g.nodes) (cutoff : Nat) (n : PyStr)
    (d : Nat) :
    (n, d) ∈ g.lengths ref cutoff ↔ d ≤ cutoff ∧ Hops (graph.Linked g) d ref n ∧
      ∀ m, Hops (graph.Linked g) m ref n → d ≤ m := by
  rw [← mem_neighbours]
  simp only [lengths, List.mem_filterMap, Option.map_eq_some_iff, Prod.mk.injEq,
    distance?_eq_some_iff]
  constructor
  · rintro ⟨_, -, _, h, rfl, rfl⟩
    exact h
  · rintro ⟨hd, hops, hmin⟩
    refine ⟨n, ?_, d, ⟨hd, hops, hmin⟩, rfl, rfl⟩
    cases d with
    | zero => exact hops_zero.mp hops ▸ href
    | succ d =>
        obtain ⟨b, -, last⟩ := hops_succ_iff.mp hops
        exact neighbours_subset g b n last

def search : GraphSearch graph where
  nodes := nodes
  edges g := g.edges.items.map fun e => (e.1.1, e.1.2.1, e.2)
  subgraph := subgraph
  undirectedLengths := lengths
  shortestPath g s t := shortest? g.successors g.nodes.length s t
  nodup_nodes := nodup
  mem_nodes g n := List.contains_iff_mem.symm
  edges_perm g listed hlisted h :=
    MultiDiGraph.perm_listed (g.edges.nodupKeys.of_map _) hlisted fun k data => by
      rw [h k data]
      exact (Dict.get?_eq_some_iff _ _ _)
  hasNode_subgraph g refs n := by
    rw [Bool.eq_iff_iff]
    simp [graph, subgraph]
  edge?_subgraph g refs k := by
    show (g.edges.filter _).get? k = _
    rw [Dict.get?_filter]
    by_cases hk : k.1 ∈ refs ∧ k.2.1 ∈ refs
    · rw [if_pos hk]
      cases hget : g.edges.get? k <;> simp [graph, Option.filter, hk, hget]
    · rw [if_neg hk, Option.filter_eq_none_iff]
      exact fun _ _ => by simpa using hk
  mem_undirectedLengths g ref cutoff n d href :=
    mem_lengths g (List.contains_iff_mem.mp href) cutoff n d
  shortestPath_some g s t l _ h := mem_successors g ▸ shortest_of_shortest? h
  shortestPath_none g s t hs h := mem_successors g ▸ shortest?_eq_none
    (List.contains_iff_mem.mp hs)
    (fun u v hv => neighbours_subset g u v (List.mem_append_left _ hv)) h

end NodedGraph

/-! ## The threat graph -/

/-- `parse_ref`. -/
def parseRef (ref : PyStr) : PyStr × PyStr := cutAt ':' ref

structure NodeEntry where
  id : PyStr
  type : PyStr
  deriving DecidableEq, Repr

structure EdgeEntry where
  source : PyStr
  target : PyStr
  relationship : String
  confidence : ℚ
  deriving DecidableEq, Repr

/-- `{"nodes": .., "edges": ..}`. -/
structure Exported where
  nodes : List NodeEntry
  edges : List EdgeEntry
  deriving DecidableEq, Repr

def Exported.ids (x : Exported) : List PyStr := x.nodes.map NodeEntry.id

namespace ThreatGraph

variable {nx : MultiDiGraph} (search : GraphSearch nx)

def relatedWithin (g : nx.Graph) (ref : PyStr) (depth : Nat) : Finset PyStr :=
  if nx.hasNode g ref then
    (((search.undirectedLengths g ref depth).map Prod.fst).filter (· ≠ ref)).toFinset
  else ∅

/-- `NetworkXNoPath` is answered with no chain. -/
def attackChain (g : nx.Graph) (sourceRef targetRef : PyStr) : List PyStr :=
  if !nx.hasNode g sourceRef || !nx.hasNode g targetRef then []
  else (search.shortestPath g sourceRef targetRef).getD []

def subgraphRefs (g : nx.Graph) (ref : PyStr) (depth : Nat) : Finset PyStr :=
  insert ref (relatedWithin search g ref depth)

def edgeEntry : PyStr × PyStr × EdgeData → EdgeEntry
  | (u, v, data) =>
      { source := u, target := v, relationship := data.relationship.getD "related-to",
        confidence := data.confidence.getD (1 / 2) }

/-- `export`. -/
def exportGraph (g : nx.Graph) (ref : Option PyStr) (depth : Nat) : Exported :=
  let g := match ref with
    | some ref => search.subgraph g (subgraphRefs search g ref depth)
    | none => g
  { nodes := (search.nodes g).map fun n => ⟨n, (parseRef n).1⟩
    edges := (search.edges g).map edgeEntry }

end ThreatGraph

namespace CorrelationService

variable {nx : MultiDiGraph} (search : GraphSearch nx) (db : RowOrder)

def pivot (edges : Table CorrelationEdge CorrelationEdge.triple) (iocType : IOCType) (value : PyStr)
    (depth : Nat) : Exported :=
  ThreatGraph.exportGraph search (graph nx db edges) (some (makeRef iocType.value value)) depth

def attackChain (edges : Table CorrelationEdge CorrelationEdge.triple)
    (sourceRef targetRef : PyStr) : List PyStr :=
  ThreatGraph.attackChain search (graph nx db edges) sourceRef targetRef

def fullGraph (edges : Table CorrelationEdge CorrelationEdge.triple) : Exported :=
  ThreatGraph.exportGraph search (graph nx db edges) none 2

end CorrelationService

/-! ## What the rows say -/

/-- There is a row from the one to the other. -/
def Leads (rows : List CorrelationEdge) (u v : PyStr) : Prop :=
  ∃ e ∈ rows, e.sourceRef = u ∧ e.targetRef = v

/-- There is a row between them. -/
def Adjacent (rows : List CorrelationEdge) (u v : PyStr) : Prop := Leads rows u v ∨ Leads rows v u

/-- Some row has the reference at one of its ends. -/
def Known (rows : List CorrelationEdge) (ref : PyStr) : Prop :=
  ∃ e ∈ rows, e.sourceRef = ref ∨ e.targetRef = ref

theorem known_iff {rows : List CorrelationEdge} {ref : PyStr} :
    Known rows ref ↔ ∃ other, Adjacent rows ref other := by
  constructor
  · rintro ⟨e, he, rfl | rfl⟩
    · exact ⟨e.targetRef, .inl ⟨e, he, rfl, rfl⟩⟩
    · exact ⟨e.sourceRef, .inr ⟨e, he, rfl, rfl⟩⟩
  · rintro ⟨other, ⟨e, he, hsource, -⟩ | ⟨e, he, -, htarget⟩⟩
    · exact ⟨e, he, .inl hsource⟩
    · exact ⟨e, he, .inr htarget⟩

theorem Adjacent.symm {rows : List CorrelationEdge} {u v : PyStr} (h : Adjacent rows u v) :
    Adjacent rows v u := Or.symm h

/-- What a known reference reaches is known. -/
theorem Known.of_hops {rows : List CorrelationEdge} {u v : PyStr} {n : Nat} (hu : Known rows u)
    (h : Hops (Adjacent rows) n u v) : Known rows v := by
  cases n with
  | zero => exact hops_zero.mp h ▸ hu
  | succ n =>
      obtain ⟨b, -, last⟩ := hops_succ_iff.mp h
      exact known_iff.mpr ⟨b, last.symm⟩

namespace CorrelationService

open CorrelationRepository

section

variable {nx : MultiDiGraph} {search : GraphSearch nx} {db : RowOrder}
  {edges : Table CorrelationEdge CorrelationEdge.triple} {ref : PyStr} {depth : Nat}

/-! ## The graph of the table -/

theorem mem_allEdges {edge : Edge} :
    edge ∈ allEdges db edges ↔ ∃ e ∈ edges.rows, e.edge = edge := by
  simp only [allEdges, List.mem_map, (db.perm edges.rows).mem_iff]

theorem hasNode_graph (n : PyStr) : nx.hasNode (graph nx db edges) n = true ↔ Known edges.rows n := by
  rw [graph, ThreatGraph.hasNode_new]
  constructor
  · rintro ⟨edge, hedge, hend⟩
    obtain ⟨e, he, rfl⟩ := mem_allEdges.mp hedge
    exact ⟨e, he, hend⟩
  · rintro ⟨e, he, hend⟩
    exact ⟨e.edge, mem_allEdges.mpr ⟨e, he, rfl⟩, hend⟩

theorem points_graph : nx.Points (graph nx db edges) = Leads edges.rows := by
  funext u v
  refine propext ⟨?_, ?_⟩
  · rintro ⟨key, hkey⟩
    obtain ⟨data, hdata⟩ := Option.isSome_iff_exists.mp hkey
    obtain ⟨edge, hedge, htriple, -⟩ :=
      (ThreatGraph.edge?_new (nodup_allEdges db edges) _ data).mp hdata
    obtain ⟨e, he, rfl⟩ := mem_allEdges.mp hedge
    obtain ⟨hsource, hrest⟩ := Prod.mk.inj htriple
    exact ⟨e, he, hsource, (Prod.mk.inj hrest).1⟩
  · rintro ⟨e, he, rfl, rfl⟩
    have hdata : nx.edge? (graph nx db edges) e.triple = some e.edge.data :=
      (ThreatGraph.edge?_new (nodup_allEdges db edges) _ _).mpr
        ⟨e.edge, mem_allEdges.mpr ⟨e, he, rfl⟩, rfl, rfl⟩
    exact ⟨e.relationship, Option.isSome_iff_exists.mpr ⟨_, hdata⟩⟩

theorem linked_graph : nx.Linked (graph nx db edges) = Adjacent edges.rows := by
  funext u v
  rw [MultiDiGraph.Linked, points_graph, Adjacent]

/-! ## Pivots -/

theorem mem_relatedWithin {n : PyStr} :
    n ∈ ThreatGraph.relatedWithin search (graph nx db edges) ref depth ↔
      Known edges.rows ref ∧ n ≠ ref ∧ Within (Adjacent edges.rows) depth ref n := by
  classical
  rw [ThreatGraph.relatedWithin]
  split
  · next hnode =>
      have hknown := (hasNode_graph ref).mp hnode
      simp only [List.mem_toFinset, List.mem_filter, List.mem_map, Prod.exists, exists_and_right,
        exists_eq_right, decide_eq_true_eq, search.mem_undirectedLengths _ _ _ _ _ hnode, linked_graph]
      constructor
      · rintro ⟨⟨d, hd, hops, -⟩, hne⟩
        exact ⟨hknown, hne, d, hd, hops⟩
      · rintro ⟨-, hne, d, hd, hops⟩
        have hexists : ∃ d, Hops (Adjacent edges.rows) d ref n := ⟨d, hops⟩
        exact ⟨⟨Nat.find hexists, (Nat.find_min' hexists hops).trans hd, Nat.find_spec hexists,
          fun m hm => Nat.find_min' hexists hm⟩, hne⟩
  · next hnode =>
      have hunknown : ¬ Known edges.rows ref := fun h => hnode ((hasNode_graph ref).mpr h)
      simp [hunknown]

theorem mem_subgraphRefs {n : PyStr} :
    n ∈ ThreatGraph.subgraphRefs search (graph nx db edges) ref depth ↔
      n = ref ∨ Known edges.rows ref ∧ Within (Adjacent edges.rows) depth ref n := by
  rw [ThreatGraph.subgraphRefs, Finset.mem_insert, mem_relatedWithin]
  by_cases h : n = ref <;> simp [h]

variable {iocType : IOCType} {value : PyStr}

theorem ids_pivot : (pivot search db edges iocType value depth).ids = search.nodes
    (search.subgraph (graph nx db edges) (ThreatGraph.subgraphRefs search (graph nx db edges)
      (makeRef iocType.value value) depth)) := by
  rw [pivot, ThreatGraph.exportGraph, Exported.ids, List.map_map]
  exact List.map_id _

theorem mem_pivot {n : PyStr} :
    n ∈ (pivot search db edges iocType value depth).ids ↔
      Known edges.rows (makeRef iocType.value value) ∧
        Within (Adjacent edges.rows) depth (makeRef iocType.value value) n := by
  rw [ids_pivot, search.mem_nodes, search.hasNode_subgraph, Bool.and_eq_true, decide_eq_true_eq,
    hasNode_graph, mem_subgraphRefs]
  constructor
  · rintro ⟨hknown, rfl | hwithin⟩
    · exact ⟨hknown, within_self _ _⟩
    · exact hwithin
  · rintro ⟨hknown, d, hd, hops⟩
    exact ⟨hknown.of_hops hops, .inr ⟨hknown, d, hd, hops⟩⟩

/-- What is exported of a row. -/
def entryOf (e : CorrelationEdge) : EdgeEntry where
  source := e.sourceRef
  target := e.targetRef
  relationship := e.relationship
  confidence := e.confidence

/-- The edges among some of the references. -/
theorem edges_subgraph (refs : Finset PyStr) :
    ((search.edges (search.subgraph (graph nx db edges) refs)).map ThreatGraph.edgeEntry).Perm
      ((edges.rows.filter fun e => e.sourceRef ∈ refs ∧ e.targetRef ∈ refs).map entryOf) := by
  have hnodup := nodup_allEdges db edges
  have hlisted := search.edges_perm (search.subgraph (graph nx db edges) refs) _
    (ThreatGraph.nodup_keyed hnodup fun e => e.triple.1 ∈ refs ∧ e.triple.2.1 ∈ refs) fun k data => by
      rw [search.edge?_subgraph, graph]
      refine (@ThreatGraph.mem_keyed nx _ hnodup (fun k => k.1 ∈ refs ∧ k.2.1 ∈ refs) _ k data).trans ?_
      by_cases hk : k.1 ∈ refs ∧ k.2.1 ∈ refs <;> simp [hk]
  refine (hlisted.map ThreatGraph.edgeEntry).trans ?_
  rw [List.map_map, List.map_map, allEdges, List.filter_map, List.map_map]
  exact ((db.perm edges.rows).filter _).map _

/-- The rows between two references that a pivot shows, each once. -/
theorem edges_pivot :
    (pivot search db edges iocType value depth).edges.Perm
      ((edges.rows.filter fun e =>
        e.sourceRef ∈ (pivot search db edges iocType value depth).ids ∧
          e.targetRef ∈ (pivot search db edges iocType value depth).ids).map entryOf) := by
  have hend : ∀ e ∈ edges.rows, ∀ n, e.sourceRef = n ∨ e.targetRef = n →
      (n ∈ ThreatGraph.subgraphRefs search (graph nx db edges) (makeRef iocType.value value) depth ↔
        n ∈ (pivot search db edges iocType value depth).ids) := by
    intro e he n hn
    rw [mem_subgraphRefs, mem_pivot]
    constructor
    · rintro (rfl | h)
      · exact ⟨⟨e, he, hn⟩, within_self _ _⟩
      · exact h
    · exact .inr
  refine (edges_subgraph _).trans (.of_eq (congrArg _ (List.filter_congr fun e he => ?_)))
  exact decide_eq_decide.mpr (and_congr (hend e he _ (.inl rfl)) (hend e he _ (.inr rfl)))

theorem mem_edges_pivot {entry : EdgeEntry} :
    entry ∈ (pivot search db edges iocType value depth).edges ↔
      ∃ e ∈ edges.rows, e.sourceRef ∈ (pivot search db edges iocType value depth).ids ∧
        e.targetRef ∈ (pivot search db edges iocType value depth).ids ∧ entryOf e = entry := by
  rw [edges_pivot.mem_iff, List.mem_map]
  simp only [List.mem_filter, decide_eq_true_eq, and_assoc]

/-- **What a pivot shows.** The references that some row has and that at
most so many rows connect with the one pivoted on, each once, and of the
rows all those between two of them, each once. -/
theorem pivot_spec :
    (pivot search db edges iocType value depth).ids.Nodup ∧
      (∀ n, n ∈ (pivot search db edges iocType value depth).ids ↔
        Known edges.rows (makeRef iocType.value value) ∧
          Within (Adjacent edges.rows) depth (makeRef iocType.value value) n) ∧
      (∀ node ∈ (pivot search db edges iocType value depth).nodes,
        node.id = makeRef iocType.value value → node.type = iocType.value.toList) ∧
      (pivot search db edges iocType value depth).edges.Perm
        ((edges.rows.filter fun e =>
          e.sourceRef ∈ (pivot search db edges iocType value depth).ids ∧
            e.targetRef ∈ (pivot search db edges iocType value depth).ids).map entryOf) := by
  have hcolon : ':' ∉ iocType.value.toList := by cases iocType <;> decide
  refine ⟨ids_pivot ▸ search.nodup_nodes _, fun n => mem_pivot, ?_, edges_pivot⟩
  intro node hnode hid
  obtain ⟨n, -, rfl⟩ := List.mem_map.mp hnode
  simp only at hid ⊢
  have hplain : ∀ c ∈ iocType.value.toList, decide (c ≠ ':') = true := fun c hc =>
    decide_eq_true fun h => hcolon (h ▸ hc)
  rw [hid, parseRef, cutAt, makeRef, List.takeWhile_append_of_pos hplain]
  simp

/-! ## Hop by hop -/

theorem mem_neighbors {m n : PyStr} :
    (∃ entry ∈ neighbors nx db edges m, entry.ref = n) ↔ Adjacent edges.rows m n := by
  simp only [((neighbors_perm nx db edges m).trans (ThreatGraph.neighbors_new
    (nodup_allEdges db edges) m)).mem_iff, ThreatGraph.entries, List.mem_append, List.mem_map,
    List.mem_filter, mem_allEdges, decide_eq_true_eq]
  constructor
  · rintro ⟨_, ⟨edge, ⟨⟨e, he, rfl⟩, hend⟩, rfl⟩ | ⟨edge, ⟨⟨e, he, rfl⟩, hend⟩, rfl⟩, rfl⟩
    · exact .inl ⟨e, he, hend, rfl⟩
    · exact .inr ⟨e, he, rfl, hend⟩
  · rintro (⟨e, he, hsource, htarget⟩ | ⟨e, he, hsource, htarget⟩)
    · exact ⟨_, .inl ⟨e.edge, ⟨⟨e, he, rfl⟩, hsource⟩, rfl⟩, htarget⟩
    · exact ⟨_, .inr ⟨e.edge, ⟨⟨e, he, rfl⟩, htarget⟩, rfl⟩, hsource⟩

/-- **A deeper pivot is a pivot hop by hop.** One hop more shows what was
shown, and the neighbours of it, as the other request lists them from the
edges that touch a single reference. -/
theorem pivot_succ (n : PyStr) :
    n ∈ (pivot search db edges iocType value (depth + 1)).ids ↔
      n ∈ (pivot search db edges iocType value depth).ids ∨
        ∃ m ∈ (pivot search db edges iocType value depth).ids,
          ∃ entry ∈ neighbors nx db edges m, entry.ref = n := by
  simp only [mem_pivot, mem_neighbors, within_succ_iff]
  constructor
  · rintro ⟨hknown, h | ⟨m, hm, last⟩⟩
    · exact .inl ⟨hknown, h⟩
    · exact .inr ⟨m, ⟨hknown, hm⟩, last⟩
  · rintro (⟨hknown, h⟩ | ⟨m, ⟨hknown, hm⟩, last⟩)
    · exact ⟨hknown, .inl h⟩
    · exact ⟨hknown, .inr ⟨m, hm, last⟩⟩

/-! ## Attack chains -/

/-- **What an attack chain is**: a shortest route along the rows, which
visits no reference twice, or nothing where there is no route. -/
theorem attackChain_spec (s t : PyStr) :
    (attackChain search db edges s t = [] ↔
      ¬ (Known edges.rows s ∧ ∃ n, Hops (Leads edges.rows) n s t)) ∧
    (attackChain search db edges s t ≠ [] →
      Shortest (Leads edges.rows) s t (attackChain search db edges s t) ∧
        (attackChain search db edges s t).Nodup) := by
  by_cases hknown : Known edges.rows s ∧ Known edges.rows t
  · have hs : nx.hasNode (graph nx db edges) s = true := (hasNode_graph s).mpr hknown.1
    have ht : nx.hasNode (graph nx db edges) t = true := (hasNode_graph t).mpr hknown.2
    rw [attackChain, ThreatGraph.attackChain, hs, ht]
    simp only [Bool.not_true, Bool.or_self, Bool.false_eq_true, if_false]
    cases hpath : search.shortestPath (graph nx db edges) s t with
    | none =>
        have hnone := search.shortestPath_none _ _ _ hs hpath
        rw [points_graph] at hnone
        exact ⟨iff_of_true rfl fun ⟨_, n, hn⟩ => hnone n hn, fun hne => absurd rfl hne⟩
    | some l =>
        have hshortest := search.shortestPath_some _ _ _ _ hs hpath
        rw [points_graph] at hshortest
        obtain ⟨x, l, rfl⟩ : ∃ x l', l = x :: l' := by
          cases l with
          | nil => cases hshortest.start
          | cons x l => exact ⟨x, l, rfl⟩
        refine ⟨iff_of_false (List.cons_ne_nil _ _) (not_not_intro ?_),
          fun _ => ⟨hshortest, hshortest.nodup⟩⟩
        exact ⟨hknown.1, _, hshortest.hops⟩
  · have hnil : attackChain search db edges s t = [] := by
      rw [attackChain, ThreatGraph.attackChain, if_pos]
      by_contra hnode
      simp only [Bool.or_eq_true, Bool.not_eq_true', not_or, Bool.not_eq_false, hasNode_graph] at hnode
      exact hknown hnode
    refine ⟨iff_of_true hnil ?_, fun hne => absurd hnil hne⟩
    rintro ⟨hs, n, hn⟩
    exact hknown ⟨hs, hs.of_hops (hn.mono fun _ _ => .inl)⟩

/-- From a URL to its host and on, with an edge back and one elsewhere. -/
example :
    let edges : Table CorrelationEdge CorrelationEdge.triple :=
      { rows :=
          [⟨"url:u".toList, "domain:d".toList, "uses", 1, []⟩,
            ⟨"domain:d".toList, "ipv4:i".toList, "resolves-to", 1, []⟩,
            ⟨"ipv4:i".toList, "url:u".toList, "drops", 1, []⟩,
            ⟨"cve:a".toList, "cve:b".toList, "uses", 1, []⟩]
        nodupKeys := by decide }
    let db : RowOrder := ⟨id, fun _ => .refl _⟩
    attackChain NodedGraph.search db edges "url:u".toList "ipv4:i".toList =
        ["url:u".toList, "domain:d".toList, "ipv4:i".toList] ∧
      ((pivot NodedGraph.search db edges .url ['u'] 1).edges.map EdgeEntry.relationship) =
        ["uses", "resolves-to", "drops"] := by
  decide +kernel

/-! ## Over a run -/

theorem leads_iff {u v : PyStr} :
    Leads edges.rows u v ↔ ∃ key, edges.hasKey (u, v, key) = true := by
  simp only [Table.hasKey_iff]
  constructor
  · rintro ⟨e, he, rfl, rfl⟩
    exact ⟨e.relationship, e, he, rfl⟩
  · rintro ⟨key, e, he, htriple⟩
    obtain ⟨hsource, hrest⟩ := Prod.mk.inj htriple
    exact ⟨e, he, hsource, (Prod.mk.inj hrest).1⟩

/-- A call of `upsert_edge` takes no edge away. -/
theorem hasKey_link {triple : PyStr × PyStr × String} (e : CorrelationEdge)
    (h : edges.hasKey triple = true) : (link edges e).hasKey triple = true := by
  rw [Table.hasKey, get?_link]
  split
  · rfl
  · exact h

theorem hasKey_foldl_link_of_hasKey {triple : PyStr × PyStr × String} (calls : List CorrelationEdge)
    (h : edges.hasKey triple = true) : (calls.foldl link edges).hasKey triple = true := by
  induction calls generalizing edges with
  | nil => exact h
  | cons e calls ih => exact ih (hasKey_link e h)

section Kept

variable {edges' : Table CorrelationEdge CorrelationEdge.triple}
variable (hkept : ∀ triple, edges.hasKey triple = true → edges'.hasKey triple = true)

include hkept

theorem leads_of_kept {u v : PyStr} (h : Leads edges.rows u v) : Leads edges'.rows u v := by
  obtain ⟨key, hkey⟩ := leads_iff.mp h
  exact leads_iff.mpr ⟨key, hkept _ hkey⟩

theorem adjacent_of_kept {u v : PyStr} (h : Adjacent edges.rows u v) : Adjacent edges'.rows u v :=
  h.imp (leads_of_kept hkept) (leads_of_kept hkept)

theorem known_of_kept {u : PyStr} (h : Known edges.rows u) : Known edges'.rows u := by
  obtain ⟨other, hother⟩ := known_iff.mp h
  exact known_iff.mpr ⟨other, adjacent_of_kept hkept hother⟩

/-- A pivot still shows the references. -/
theorem ids_of_kept {n : PyStr} (h : n ∈ (pivot search db edges iocType value depth).ids) :
    n ∈ (pivot search db edges' iocType value depth).ids := by
  obtain ⟨href, hwithin⟩ := mem_pivot.mp h
  refine mem_pivot.mpr ⟨known_of_kept hkept href, ?_⟩
  exact hwithin.mono (fun _ _ => adjacent_of_kept hkept) (Nat.le_refl depth)

/-- It still shows the rows, with what the table has of them now. -/
theorem edges_of_kept {entry : EdgeEntry}
    (h : entry ∈ (pivot search db edges iocType value depth).edges) :
    ∃ entry' ∈ (pivot search db edges' iocType value depth).edges,
      entry'.source = entry.source ∧ entry'.target = entry.target ∧
        entry'.relationship = entry.relationship := by
  obtain ⟨e, he, hsource, htarget, rfl⟩ := mem_edges_pivot.mp h
  obtain ⟨e', he', htriple⟩ := (Table.hasKey_iff _ _).mp
    (hkept e.triple ((Table.hasKey_iff _ _).mpr ⟨e, he, rfl⟩))
  simp only [CorrelationEdge.triple, Prod.mk.injEq] at htriple
  obtain ⟨hsource', htarget', hrelationship⟩ := htriple
  refine ⟨entryOf e', mem_edges_pivot.mpr ⟨e', he', ?_, ?_, rfl⟩, hsource', htarget', hrelationship⟩
  · exact hsource'.symm ▸ ids_of_kept hkept hsource
  · exact htarget'.symm ▸ ids_of_kept hkept htarget

/-- An attack chain is still a route, and the shortest one is no longer. -/
theorem attackChain_of_kept {s t : PyStr} (hne : attackChain search db edges s t ≠ []) :
    attackChain search db edges' s t ≠ [] ∧
      (attackChain search db edges' s t).length ≤ (attackChain search db edges s t).length := by
  have hleads : ∀ u v, Leads edges.rows u v → Leads edges'.rows u v := fun _ _ =>
    leads_of_kept hkept
  obtain ⟨hempty, hchain⟩ := @attackChain_spec nx search db edges s t
  obtain ⟨hempty', hchain'⟩ := @attackChain_spec nx search db edges' s t
  obtain ⟨hs, n, hn⟩ := not_not.mp fun h => hne (hempty.mpr h)
  have hne' : attackChain search db edges' s t ≠ [] := fun h =>
    hempty'.mp h ⟨known_of_kept hkept hs, n, hn.mono hleads⟩
  refine ⟨hne', ?_⟩
  obtain ⟨hshortest, -⟩ := hchain hne
  obtain ⟨x, l, hl⟩ := List.exists_cons_of_ne_nil hne
  rw [hl] at hshortest ⊢
  exact (hchain' hne').1.least _ (hshortest.hops.mono hleads)

end Kept

/-- **What has been found is not lost.** Whatever analysts relate and
indicators bring with them afterwards, a pivot still shows the references
and the rows that it has shown, the rows with the confidence they have by
then, and where there was an attack chain there is one that is no longer. -/
theorem graph_grows (S : IOCService) (w : IntelWorld) (requests : List EdgeRequest) :
    let edges := w.db.edges
    let edges' := (Runs.run S.relate w requests).db.edges
    (∀ n ∈ (pivot search db edges iocType value depth).ids,
        n ∈ (pivot search db edges' iocType value depth).ids) ∧
      (∀ entry ∈ (pivot search db edges iocType value depth).edges,
        ∃ entry' ∈ (pivot search db edges' iocType value depth).edges,
          entry'.source = entry.source ∧ entry'.target = entry.target ∧
            entry'.relationship = entry.relationship) ∧
      ∀ s t, attackChain search db edges s t ≠ [] →
        attackChain search db edges' s t ≠ [] ∧
          (attackChain search db edges' s t).length ≤ (attackChain search db edges s t).length := by
  intro edges edges'
  have hkept : ∀ triple, edges.hasKey triple = true → edges'.hasKey triple = true := by
    intro triple h
    show (Runs.run S.relate w requests).db.edges.hasKey triple = true
    rw [IOCService.edges_run]
    exact hasKey_foldl_link_of_hasKey _ h
  exact ⟨fun _ => ids_of_kept hkept, fun _ => edges_of_kept hkept,
    fun _ _ => attackChain_of_kept hkept⟩

end

end CorrelationService

end ThreatIntel
