import ThreatIntel.IngestBatch

/-!
# Where an edge comes from

An analyst relates two entities, and so does every upsert of an indicator.
Both go through `upsert_edge`, which writes the confidence and the source
of an edge that is new, but of one that is there only the confidence: an
edge has the source of the first call and the confidence of the last
(`get?_run`). Nobody may ever have supplied the two together; the theorem
says when somebody has.
-/

namespace ThreatIntel

structure RelationshipCreate where
  sourceRef : PyStr
  targetRef : PyStr
  relationship : String := "related-to"
  confidence : ℚ := 1 / 2
  deriving DecidableEq, Repr

/-- What it asks `upsert_edge` for. -/
def RelationshipCreate.edge (payload : RelationshipCreate) : CorrelationEdge where
  sourceRef := payload.sourceRef
  targetRef := payload.targetRef
  relationship := payload.relationship
  confidence := payload.confidence
  source := "manual".toList

/-- `add_relationship`. -/
def CorrelationService.addRelationship (payload : RelationshipCreate) (userId : Option String) :
    IntelRoutine Unit := do
  CorrelationRepository.upsertEdge payload.edge
  AuditRepository.recordIngest "correlation.add" userId
    [("src", .str (String.ofList payload.sourceRef)),
      ("dst", .str (String.ofList payload.targetRef)), ("rel", .str payload.relationship)]

/-! ## One call -/

namespace CorrelationRepository

/-- The table after a call. -/
def link (edges : Table CorrelationEdge CorrelationEdge.triple) (e : CorrelationEdge) :
    Table CorrelationEdge CorrelationEdge.triple :=
  match edges.get? e.triple with
  | none => edges.insert e
  | some _ => edges.modify e.triple (fun r => { r with confidence := e.confidence }) e.triple_overwrite

theorem run_upsertEdge_eq (e : CorrelationEdge) (w : IntelWorld) :
    (upsertEdge e).run w = (.ok (), { w with db := { w.db with edges := link w.db.edges e } }) := by
  simp only [upsertEdge, link, Routine.run_bind_gets]
  cases w.db.edges.get? e.triple <;> rfl

theorem get?_link (edges : Table CorrelationEdge CorrelationEdge.triple) (e : CorrelationEdge)
    (triple : PyStr × PyStr × String) :
    (link edges e).get? triple =
      if e.triple = triple then
        some (((edges.get? triple).map fun r => { r with confidence := e.confidence }).getD e)
      else edges.get? triple := by
  rw [link]
  cases hget : edges.get? e.triple with
  | none =>
      have hfree : edges.hasKey e.triple = false := by rw [Table.hasKey, hget]; rfl
      rw [Table.get?_insert hfree]
      by_cases htriple : e.triple = triple
      · rw [if_pos htriple, if_pos htriple, ← htriple, hget]
        rfl
      · rw [if_neg htriple, if_neg htriple]
  | some r =>
      by_cases htriple : e.triple = triple
      · rw [if_pos htriple, ← htriple]
        refine (Table.get?_modify_self edges e.triple _ _).trans ?_
        rw [hget]
        rfl
      · rw [if_neg htriple]
        exact Table.get?_modify_ne edges _ _ (Ne.symm htriple)

/-! ## Any number of calls -/

/-- The first of the calls for a triple. -/
def firstFor (calls : List CorrelationEdge) (triple : PyStr × PyStr × String) :
    Option CorrelationEdge :=
  calls.find? fun call => call.triple = triple

/-- The last of the calls for a triple. -/
def lastFor (calls : List CorrelationEdge) (triple : PyStr × PyStr × String) :
    Option CorrelationEdge :=
  firstFor calls.reverse triple

theorem isSome_lastFor (calls : List CorrelationEdge) (triple : PyStr × PyStr × String) :
    (lastFor calls triple).isSome = (firstFor calls triple).isSome := by
  rw [Bool.eq_iff_iff]
  simp [lastFor, firstFor, List.find?_isSome]

/-- The edge of a triple is that of the first call, with the confidence of
the last. -/
theorem get?_foldl_link (calls : List CorrelationEdge) (triple : PyStr × PyStr × String) :
    (calls.foldl link .empty).get? triple = (firstFor calls triple).bind fun first =>
      (lastFor calls triple).map fun last => { first with confidence := last.confidence } := by
  induction calls using List.reverseRecOn with
  | nil => rfl
  | append_singleton calls e ih =>
      rw [List.foldl_append, List.foldl_cons, List.foldl_nil, get?_link, ih]
      have hsame := isSome_lastFor calls triple
      have hfirst : firstFor (calls ++ [e]) triple =
          (firstFor calls triple).or (if e.triple = triple then some e else none) := by
        simp [firstFor, List.find?_append, List.find?_singleton]
      have hlast : lastFor (calls ++ [e]) triple =
          if e.triple = triple then some e else lastFor calls triple := by
        simp only [lastFor, firstFor, List.reverse_append, List.reverse_cons, List.reverse_nil,
          List.nil_append, List.singleton_append, List.find?_cons]
        by_cases htriple : e.triple = triple <;> simp [htriple]
      rw [hfirst, hlast]
      by_cases htriple : e.triple = triple
      · cases hf : firstFor calls triple with
        | none => simp [htriple]
        | some first =>
            obtain ⟨last, hl⟩ := Option.isSome_iff_exists.mp (hsame.trans (by rw [hf]; rfl))
            simp [htriple, hl]
      · simp [htriple]

/-- The edges of the routine are linked one after the other. -/
theorem edges_upsertEdges {c : Conditions} {n : Nat} {es : List CorrelationEdge} {u : Unit}
    {w w' : IntelWorld} (h : (IOCService.upsertEdges c n es).run w = (.ok u, w')) :
    w'.db.edges = es.foldl link w.db.edges := by
  induction es generalizing n w with
  | nil =>
      cases h
      rfl
  | cons e es ih =>
      obtain ⟨u₁, w₁, hfirst, h₁⟩ := Routine.run_bind_eq_ok.mp h
      obtain ⟨-, rfl⟩ := Conditions.run_pass_eq_ok.mp hfirst
      rw [Routine.run_bind_ok (run_upsertEdge_eq e w₁)] at h₁
      rw [ih h₁, List.foldl_cons]

end CorrelationRepository

/-! ## Both kinds of callers -/

/-- What leads to calls of `upsert_edge`, in a unit of work that may end in
an error: an analyst, or the correlation of an indicator that is upserted. -/
inductive EdgeRequest where
  | add (payload : RelationshipCreate) (userId : Option String) (commit : Option Exn)
  | correlate (parsed : ParsedIndicator) (enrichment : Enrichment) (source : PyStr)
      (c : Conditions) (commit : Option Exn)

namespace IOCService

open CorrelationRepository

variable {S : IOCService}

def relate (S : IOCService) (w : IntelWorld) : EdgeRequest → IntelWorld
  | .add payload userId commit =>
      ((unitOfWork commit (CorrelationService.addRelationship payload userId)).run w).2
  | .correlate parsed enrichment source c commit =>
      ((unitOfWork commit (S.autoCorrelate c parsed enrichment source)).run w).2

/-- The calls of a request, if its unit of work is committed. -/
def callsOf (S : IOCService) : EdgeRequest → List CorrelationEdge
  | .add payload _ none => [payload.edge]
  | .correlate parsed enrichment source c none =>
      match relationships S.interpreter.unicode S.lower parsed enrichment source with
      | .ok es => if c.FailsIn (edgeSites 0 es) then [] else es
      | .error _ => []
  | _ => []

theorem edges_relate (w : IntelWorld) (request : EdgeRequest) :
    (S.relate w request).db.edges = (S.callsOf request).foldl link w.db.edges := by
  cases request with
  | add payload userId commit =>
      have hrun : (CorrelationService.addRelationship payload userId).run w =
          (.ok (), _) := Routine.run_bind_ok (run_upsertEdge_eq payload.edge w) _
      rw [relate, unitOfWork_ok hrun]
      cases commit <;> rfl
  | correlate parsed enrichment source c commit =>
      cases hes : relationships S.interpreter.unicode S.lower parsed enrichment source with
      | error e =>
          have hrun : (S.autoCorrelate c parsed enrichment source).run w = (.error e, w) :=
            Routine.run_bind_error (by rw [Routine.run_ofExcept, hes]) _
          rw [relate, unitOfWork_error hrun]
          cases commit <;> simp [callsOf, hes, IntelWorld.rollback]
      | ok es =>
          have hedges : (S.autoCorrelate c parsed enrichment source).run w =
              (upsertEdges c 0 es).run w :=
            Routine.run_bind_ok (by rw [Routine.run_ofExcept, hes]) _
          rw [relate, unitOfWork_congr hedges]
          by_cases hfails : c.FailsIn (edgeSites 0 es)
          · have hnot : ¬ (upsertEdges c 0 es).Succeeds w := by
              rintro ⟨u, w', hok⟩
              exact (upsertEdges_ok hok).1 hfails
            obtain ⟨e, hrun⟩ := Routine.exists_error_of_not_succeeds hnot
            rw [unitOfWork_error hrun]
            cases commit <;> simp [callsOf, hes, hfails, IntelWorld.rollback]
          · obtain ⟨u, w', hrun⟩ := upsertEdges_succeeds hfails w
            rw [unitOfWork_ok hrun]
            cases commit with
            | none => simpa [callsOf, hes, hfails, settle] using edges_upsertEdges hrun
            | some e => simp [callsOf, settle, IntelWorld.rollback]

/-- The table after a run. -/
theorem edges_run (requests : List EdgeRequest) (w : IntelWorld) :
    (Runs.run S.relate w requests).db.edges =
      (requests.flatMap S.callsOf).foldl link w.db.edges := by
  induction requests generalizing w with
  | nil => rfl
  | cons request requests ih =>
      rw [Runs.run_cons, ih, edges_relate, List.flatMap_cons, List.foldl_append]

/-! ## Honesty -/

/-- Every triple that a call was for has one edge, and what an edge says
has been supplied by one call. -/
structure Honest (calls : List CorrelationEdge)
    (edges : Table CorrelationEdge CorrelationEdge.triple) : Prop where
  one : ∀ triple, (edges.rows.map CorrelationEdge.triple).count triple =
    if ∃ call ∈ calls, call.triple = triple then 1 else 0
  together : ∀ edge ∈ edges.rows, ∃ call ∈ calls,
    call.triple = edge.triple ∧ (call.confidence, call.source) = (edge.confidence, edge.source)

/-- The source of the first call for a triple has been supplied with the
confidence of the last. -/
def SuppliedTogether (calls : List CorrelationEdge) : Prop :=
  ∀ triple first last, firstFor calls triple = some first → lastFor calls triple = some last →
    ∃ call ∈ calls, call.triple = triple ∧
      (call.confidence, call.source) = (last.confidence, first.source)

theorem hasKey_foldl_link (calls : List CorrelationEdge) (triple : PyStr × PyStr × String) :
    (calls.foldl link .empty).hasKey triple = true ↔ ∃ call ∈ calls, call.triple = triple := by
  have hsame := isSome_lastFor calls triple
  have hfirst : (firstFor calls triple).isSome = true ↔ ∃ call ∈ calls, call.triple = triple := by
    simp [firstFor, List.find?_isSome]
  rw [Table.hasKey, get?_foldl_link, ← hfirst]
  cases hf : firstFor calls triple with
  | none => simp
  | some first =>
      obtain ⟨last, hl⟩ := Option.isSome_iff_exists.mp (hsame.trans (by rw [hf]; rfl))
      simp [hl]

theorem honest_foldl_link_iff (calls : List CorrelationEdge) :
    Honest calls (calls.foldl link .empty) ↔ SuppliedTogether calls := by
  constructor
  · intro h triple first last hfirst hlast
    have hget := get?_foldl_link calls triple
    rw [hfirst, hlast, Option.bind_some, Option.map_some] at hget
    obtain ⟨call, hcall, htriple, hpair⟩ := h.together _ (Table.mem_of_get? hget)
    exact ⟨call, hcall, htriple.trans (Table.key_of_get? hget), hpair⟩
  · intro h
    refine ⟨fun triple => ?_, fun edge hedge => ?_⟩
    · have hkey := hasKey_foldl_link calls triple
      have hmem : (calls.foldl link .empty).hasKey triple = true ↔
          triple ∈ (calls.foldl link .empty).rows.map CorrelationEdge.triple := by
        simp [Table.hasKey_iff]
      rw [(calls.foldl link .empty).nodupKeys.count]
      simp only [← hmem, hkey]
    · have hget := (Table.get?_eq_some_iff _ _ _).mpr ⟨hedge, rfl⟩
      rw [get?_foldl_link] at hget
      obtain ⟨first, hfirst, hget⟩ := Option.bind_eq_some_iff.mp hget
      obtain ⟨last, hlast, rfl⟩ := Option.map_eq_some_iff.mp hget
      exact h _ first last hfirst hlast

/-- **When edges are honest.** For every sequence of calls that analysts
and automatic correlations make: there is one edge for each triple, and
every edge has a confidence and a source that one call has supplied
together, if and only if for every triple one call has supplied the source
of the first call and the confidence of the last. -/
theorem edges_honest_iff (S : IOCService) (rules : Table AlertRule AlertRule.id)
    (requests : List EdgeRequest) :
    Honest (requests.flatMap S.callsOf)
        (Runs.run S.relate { db := .withRules rules } requests).db.edges ↔
      SuppliedTogether (requests.flatMap S.callsOf) := by
  rw [edges_run]
  exact honest_foldl_link_iff _

/-- A feed has a URL, and so an edge to its host. -/
def feedEdge : CorrelationEdge where
  sourceRef := "url:http://evil.com/".toList
  targetRef := "domain-name:evil.com".toList
  relationship := "communicates-with"
  confidence := 9 / 10
  source := "urlhaus".toList

/-- An analyst who doubts it. -/
def doubt : RelationshipCreate where
  sourceRef := feedEdge.sourceRef
  targetRef := feedEdge.targetRef
  relationship := feedEdge.relationship
  confidence := 3 / 10

def doubtedEdge : List EdgeRequest :=
  [.correlate ⟨.url, "http://evil.com/".toList⟩ {} "urlhaus".toList { now := 0 } none,
    .add doubt none none]

/-- The feed is said to have the doubts. -/
theorem edge_misattributed :
    ¬ ∀ (S : IOCService) (rules : Table AlertRule AlertRule.id) (requests : List EdgeRequest),
      Honest (requests.flatMap S.callsOf)
        (Runs.run S.relate { db := .withRules rules } requests).db.edges := by
  intro h
  have hhonest := h { IntelEnv.sample with alerts := none } .empty doubtedEdge
  have hcalls : doubtedEdge.flatMap (callsOf { IntelEnv.sample with alerts := none }) =
      [feedEdge, doubt.edge] := by decide +kernel
  have hrows : (Runs.run (relate { IntelEnv.sample with alerts := none })
      { db := .withRules .empty } doubtedEdge).db.edges.rows =
        [{ feedEdge with confidence := 3 / 10 }] := by decide +kernel
  obtain ⟨call, hcall, -, hpair⟩ := hhonest.together { feedEdge with confidence := 3 / 10 }
    (by rw [hrows]; exact List.mem_singleton_self _)
  rw [hcalls] at hcall
  have hnone : ∀ call ∈ [feedEdge, doubt.edge],
      (call.confidence, call.source) ≠ (3 / 10, "urlhaus".toList) := by decide +kernel
  exact hnone call hcall hpair

end IOCService

end ThreatIntel
