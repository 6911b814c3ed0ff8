import ThreatIntel.IngestSpec

/-!
# The rules, and the whole upsert

Once an indicator is stored, each active rule that matches it raises an
alert, and each alert is published before the next rule is looked at. So
which upserts complete is a function of the database before and of what
the upsert is given, and one that fails may have published some of its
alerts.
-/

namespace ThreatIntel

/-! ## The rules -/

/-- What identifies an alert and says where it comes from. -/
def Alert.origin (a : Alert) : String × String × String := (a.id, a.ruleId, a.iocId)

/-- The alert whose row or whose delivery fails. -/
def Conditions.failingAlert (c : Conditions) : Option Nat :=
  c.fault.bind fun fault =>
    match fault.site with
    | .alert n => some n
    | .deliver n => some n
    | _ => none

theorem Conditions.failsIn_alert_iff {c : Conditions} {n : Nat} :
    c.FailsIn [.alert n] ∨ c.FailsIn [.deliver n] ↔ c.failingAlert = some n := by
  simp only [failsIn_iff, failingAlert]
  cases c.fault with
  | none => simp
  | some fault =>
      obtain ⟨site, exn⟩ := fault
      cases site <;> simp

theorem Conditions.failingAlert_of_failsIn_rules {c : Conditions} (h : c.FailsIn [.rules]) :
    c.failingAlert = none := by
  obtain ⟨⟨site, exn⟩, hfault, hsite⟩ := h
  obtain rfl : site = .rules := by simpa using hsite
  rw [failingAlert, Option.mem_def.mp hfault]
  rfl

namespace AlertService

variable {s : AlertService} {env : IntelEnv} {c : Conditions} {ioc : Ioc} {w w' : IntelWorld}

/-- The rules that fire at a score. -/
def firing (rules : List AlertRule) (threatScore : Int) : List AlertRule :=
  rules.filter fun rule => ruleMatches rule threatScore

/-- Each of the rules has raised its alert, and each alert has been
published. -/
structure Raised (ioc : Ioc) (fired : List AlertRule) (w w' : IntelWorld) (created : List Alert) :
    Prop where
  origins : created.map (fun a => (a.ruleId, a.iocId)) = fired.map fun rule => (rule.id, ioc.id)
  alerts : w'.db.alerts.map Alert.origin = w.db.alerts.map Alert.origin ++ created.map Alert.origin
  published : w'.published.map (·.id) = w.published.map (·.id) ++ created.map (·.id)
  db : w'.db = { w.db with alerts := w'.db.alerts }
  issued : w.issued ≤ w'.issued

theorem evaluateRules_skip {n : Nat} {rule : AlertRule} (rules : List AlertRule)
    (hmatch : ruleMatches rule ioc.threatScore.val = false) :
    evaluateRules s env c ioc n (rule :: rules) = evaluateRules s env c ioc n rules := by
  rw [evaluateRules, if_pos hmatch]

variable (s env) in
/-- One alert, written, delivered and published. -/
theorem run_evaluateRules_fire {n : Nat} {rule : AlertRule} (rules : List AlertRule)
    (hmatch : ruleMatches rule ioc.threatScore.val = true) (h : c.failingAlert ≠ some n)
    (w : IntelWorld) :
    ∃ w₁ alert, Raised ioc [rule] w w₁ [alert] ∧
      (evaluateRules s env c ioc n (rule :: rules)).run w =
        (evaluateRules s env c ioc (n + 1) rules >>= fun created => pure (alert :: created)).run w₁ := by
  obtain ⟨halert, hdeliver⟩ := not_or.mp (mt Conditions.failsIn_alert_iff.mp h)
  rw [evaluateRules, if_neg (by simp [hmatch])]
  simp only [uuid4, Routine.run_bind_modifyGet]
  rw [Routine.run_bind_ok (Conditions.run_pass halert _)]
  simp only [add, Routine.run_bind_update]
  rw [Routine.run_bind_ok (Conditions.run_pass hdeliver _)]
  simp only [setDelivered, publish, Routine.run_bind_update]
  refine ⟨_, _, ⟨?_, ?_, ?_, ?_, ?_⟩, rfl⟩
  · rfl
  · have horigin : ∀ a : Alert, (if a.id = env.uuid4 w.issued then
        { a with delivered := s.deliver rule (c.posted n) } else a).origin = a.origin := by
      intro a
      split <;> rfl
    simp only [List.map_map, List.map_append, List.map_cons, List.map_nil]
    refine congrArg₂ (· ++ ·) (List.map_congr_left fun a _ => horigin a) ?_
    exact congrArg (fun origin => [origin]) (horigin _)
  · simp [eventFor, alertFor]
  · rfl
  · exact Nat.le_succ _

variable (s env) in
theorem run_evaluateRules_fail {n : Nat} {rule : AlertRule} (rules : List AlertRule)
    (hmatch : ruleMatches rule ioc.threatScore.val = true) (h : c.failingAlert = some n)
    (w : IntelWorld) :
    ∃ e w', (evaluateRules s env c ioc n (rule :: rules)).run w = (.error e, w') ∧
      w'.published = w.published := by
  rw [evaluateRules, if_neg (by simp [hmatch])]
  simp only [uuid4, Routine.run_bind_modifyGet]
  by_cases halert : c.FailsIn [.alert n]
  · obtain ⟨e, he⟩ := Conditions.run_pass_failsIn halert
      { w with issued := w.issued + 1 }
    exact ⟨e, _, Routine.run_bind_error he _, rfl⟩
  · have hdeliver := (Conditions.failsIn_alert_iff.mpr h).resolve_left halert
    rw [Routine.run_bind_ok (Conditions.run_pass halert _)]
    simp only [add, Routine.run_bind_update]
    obtain ⟨e, he⟩ := Conditions.run_pass_failsIn hdeliver
      { w with
        db := { w.db with alerts := w.db.alerts ++ [alertFor rule ioc (env.uuid4 w.issued)] }
        issued := w.issued + 1 }
    exact ⟨e, _, Routine.run_bind_error he _, rfl⟩

theorem Raised.append {fired fired' : List AlertRule} {w₁ : IntelWorld} {created created' : List Alert}
    (h : Raised ioc fired w w₁ created) (h' : Raised ioc fired' w₁ w' created') :
    Raised ioc (fired ++ fired') w w' (created ++ created') where
  origins := by rw [List.map_append, List.map_append, h.origins, h'.origins]
  alerts := by rw [h'.alerts, h.alerts, List.map_append, List.append_assoc]
  published := by rw [h'.published, h.published, List.map_append, List.append_assoc]
  db := by rw [h'.db, h.db]
  issued := h.issued.trans h'.issued

/-- No identifier is given back. -/
theorem keeps_issued (n : Nat) (k : Nat) (rules : List AlertRule) :
    Routine.Keeps (fun w => n ≤ w.issued) (evaluateRules s env c ioc k rules) := by
  induction rules generalizing k with
  | nil => exact Routine.keeps_pure _ _
  | cons rule rules ih =>
      rw [evaluateRules]
      split
      · exact ih k
      · refine (Routine.keeps_modifyGet fun _ h => Nat.le_succ_of_le h).bind fun id => ?_
        refine (Conditions.keeps_pass _ c _).bind fun _ => ?_
        refine Routine.Keeps.bind (x := add _) (Routine.keeps_update fun _ h => h) fun _ => ?_
        refine (Conditions.keeps_pass _ c _).bind fun _ => ?_
        refine Routine.Keeps.bind (x := setDelivered _ _) (Routine.keeps_update fun _ h => h)
          fun _ => ?_
        refine Routine.Keeps.bind (x := publish _) (Routine.keeps_update fun _ h => h) fun _ => ?_
        exact (ih (k + 1)).bind fun created => Routine.keeps_pure _ _

/-- Evaluating the rules writes alerts and nothing else. -/
theorem keeps_alerts_only (w₁ : IntelWorld) (k : Nat) (rules : List AlertRule) :
    Routine.Keeps (fun w => w.db = { w₁.db with alerts := w.db.alerts } ∧ w₁.issued ≤ w.issued)
      (evaluateRules s env c ioc k rules) := by
  induction rules generalizing k with
  | nil => exact Routine.keeps_pure _ _
  | cons rule rules ih =>
      rw [evaluateRules]
      split
      · exact ih k
      · refine (Routine.keeps_modifyGet fun _ h => ⟨h.1, Nat.le_succ_of_le h.2⟩).bind fun id => ?_
        refine (Conditions.keeps_pass _ c _).bind fun _ => ?_
        refine Routine.Keeps.bind (x := add _) (Routine.keeps_update fun w h => ⟨?_, h.2⟩) fun _ => ?_
        · dsimp only
          rw [h.1]
        refine (Conditions.keeps_pass _ c _).bind fun _ => ?_
        refine Routine.Keeps.bind (x := setDelivered _ _)
          (Routine.keeps_update fun w h => ⟨?_, h.2⟩) fun _ => ?_
        · dsimp only
          rw [h.1]
        refine Routine.Keeps.bind (x := publish _) (Routine.keeps_update fun _ h => h) fun _ => ?_
        exact (ih (k + 1)).bind fun created => Routine.keeps_pure _ _

theorem Raised.length_eq {fired : List AlertRule} {created : List Alert}
    (h : Raised ioc fired w w' created) : created.length = fired.length := by
  simpa using congrArg List.length h.origins

theorem Raised.nil (ioc : Ioc) (w : IntelWorld) : Raised ioc [] w w [] :=
  ⟨rfl, by simp, by simp, rfl, le_rfl⟩

theorem firing_cons_skip {rule : AlertRule} {rules : List AlertRule} {threatScore : Int}
    (h : ruleMatches rule threatScore = false) :
    firing (rule :: rules) threatScore = firing rules threatScore := by
  simp [firing, h]

theorem firing_cons_fire {rule : AlertRule} {rules : List AlertRule} {threatScore : Int}
    (h : ruleMatches rule threatScore = true) :
    firing (rule :: rules) threatScore = rule :: firing rules threatScore := by
  simp [firing, h]

variable (s env) in
/-- Unless an alert that is raised fails, every rule that fires raises
one. -/
theorem evaluateRules_ok {n : Nat} {rules : List AlertRule}
    (h : ∀ k ∈ c.failingAlert, n ≤ k → n + (firing rules ioc.threatScore.val).length ≤ k)
    (w : IntelWorld) :
    ∃ created w', (evaluateRules s env c ioc n rules).run w = (.ok created, w') ∧
      Raised ioc (firing rules ioc.threatScore.val) w w' created := by
  induction rules generalizing n w with
  | nil => exact ⟨[], w, rfl, .nil ioc w⟩
  | cons rule rules ih =>
      cases hmatch : ruleMatches rule ioc.threatScore.val with
      | false =>
          rw [evaluateRules_skip rules hmatch, firing_cons_skip hmatch]
          exact ih (by rwa [firing_cons_skip hmatch] at h) w
      | true =>
          simp only [firing_cons_fire hmatch, List.length_cons] at h ⊢
          have hne : c.failingAlert ≠ some n := by
            intro heq
            have hle := h n heq le_rfl
            omega
          obtain ⟨w₁, alert, hraised, hrun⟩ :=
            run_evaluateRules_fire s env rules hmatch hne w
          have hrest : ∀ k ∈ c.failingAlert, n + 1 ≤ k →
              n + 1 + (firing rules ioc.threatScore.val).length ≤ k := by
            intro k hk hle
            have hle' := h k hk (by omega)
            omega
          obtain ⟨created, w₂, hrun', hraised'⟩ := ih hrest w₁
          refine ⟨alert :: created, w₂, ?_, hraised.append hraised'⟩
          rw [hrun, Routine.run_bind_ok hrun', Routine.run_pure]

variable (s env) in
/-- If the k-th alert fails, those before it have been published. -/
theorem evaluateRules_error {n k : Nat} {rules : List AlertRule} (hk : c.failingAlert = some k)
    (hn : n ≤ k) (hlt : k < n + (firing rules ioc.threatScore.val).length) (w : IntelWorld) :
    ∃ e w', (evaluateRules s env c ioc n rules).run w = (.error e, w') ∧
      ∃ sent : List String, w'.published.map (·.id) = w.published.map (·.id) ++ sent ∧
        sent.length = k - n := by
  induction rules generalizing n w with
  | nil => simp [firing] at hlt; omega
  | cons rule rules ih =>
      cases hmatch : ruleMatches rule ioc.threatScore.val with
      | false =>
          rw [evaluateRules_skip rules hmatch]
          exact ih hn (by rwa [firing_cons_skip hmatch] at hlt) w
      | true =>
          simp only [firing_cons_fire hmatch, List.length_cons] at hlt
          rcases hn.eq_or_lt with rfl | hlt'
          · obtain ⟨e, w', hrun, hpublished⟩ :=
              run_evaluateRules_fail s env rules hmatch hk w
            exact ⟨e, w', hrun, [], by simp [hpublished], by simp⟩
          · have hne : c.failingAlert ≠ some n := by
              rw [hk]
              intro heq
              have := Option.some.inj heq
              omega
            obtain ⟨w₁, alert, hraised, hrun⟩ :=
              run_evaluateRules_fire s env rules hmatch hne w
            obtain ⟨e, w', hrun', sent, hsent, hlen⟩ := ih (n := n + 1) (by omega) (by omega) w₁
            refine ⟨e, w', by rw [hrun, Routine.run_bind_error hrun'], alert.id :: sent, ?_, ?_⟩
            · rw [hsent, hraised.published]
              simp
            · rw [List.length_cons, hlen]
              omega

end AlertService

namespace IOCService

variable {S : IOCService} {s : AlertService} {call : UpsertCall} {c : Conditions}
  {fired : List AlertRule} {ioc : Ioc} {w w' : IntelWorld}

/-! ## The whole upsert -/

/-- Storing an indicator does not touch the rules. -/
theorem Persisted.activeRules {parsed : ParsedIndicator} (h : Persisted S call c w parsed ioc w') :
    AlertService.activeRules w'.db = AlertService.activeRules w.db := by
  rw [AlertService.activeRules, h.alertRules, AlertService.activeRules]

/-- The rules that fire for an upsert, if it comes to them: a function of
the database before it and of what it is given. -/
def firingRules (S : IOCService) (db : IntelDb) (call : UpsertCall) (c : Conditions) :
    Option (List AlertRule) :=
  match Indicators.classifyIndicator S.interpreter.unicode call.rawValue with
  | .error _ => none
  | .ok parsed =>
      match S.edgesOf call c parsed with
      | .error _ => none
      | .ok es =>
          if ¬ c.FailsIn (persistSites call es) ∧ Fits (sightingsOf (knownIoc db parsed)) ∧
              Fits (S.scoreOf db call c parsed).score then
            some (AlertService.firing (AlertService.activeRules db)
              (S.scoreOf db call c parsed).score)
          else none

/-- An upsert whose rules are known and whose fault, if any, is at none of
the places it goes through. -/
def Completes (S : IOCService) (db : IntelDb) (call : UpsertCall) (c : Conditions) : Prop :=
  ∃ fired, S.firingRules db call c = some fired ∧ ¬ c.FailsIn [.rules] ∧
    ∀ k ∈ c.failingAlert, fired.length ≤ k

theorem firingRules_eq_some_iff {db : IntelDb} :
    S.firingRules db call c = some fired ↔
      ∃ parsed es,
        Indicators.classifyIndicator S.interpreter.unicode call.rawValue = .ok parsed ∧
        S.edgesOf call c parsed = .ok es ∧
        (¬ c.FailsIn (persistSites call es) ∧ Fits (sightingsOf (knownIoc db parsed)) ∧
          Fits (S.scoreOf db call c parsed).score) ∧
        fired = AlertService.firing (AlertService.activeRules db)
          (S.scoreOf db call c parsed).score := by
  unfold firingRules
  cases hclass : Indicators.classifyIndicator S.interpreter.unicode call.rawValue with
  | error e => simp
  | ok parsed =>
      cases hes : S.edgesOf call c parsed with
      | error e => simp [hes]
      | ok es =>
          simp only [Except.ok.injEq, ↓existsAndEq, hes, true_and]
          split
          · next h => simp only [h, Option.some.injEq, eq_comm, true_and, not_false_eq_true, and_self]
          · next h => simp only [h, false_and, reduceCtorEq]

theorem Stored.score {score : ScoreResult} {known : Option Ioc} {parsed : ParsedIndicator}
    (h : Stored S call c parsed score w known ioc w') : ioc.threatScore.val = score.score := by
  cases h with
  | created hsightings hscore hioc hnew => rw [hioc, ← hscore, newIoc]
  | updated hsightings hscore => exact hscore

theorem persist_ok_score (h : (S.persist call c).run w = (.ok ioc, w')) :
    ∃ parsed, Persisted S call c w parsed ioc w' ∧
      S.firingRules w.db call c =
        some (AlertService.firing (AlertService.activeRules w.db) ioc.threatScore.val) := by
  obtain ⟨parsed, es, hes, hsites, hp, -⟩ := persist_ok h
  obtain ⟨w₁, hstored, -⟩ := hp.stored
  exact ⟨parsed, hp, firingRules_eq_some_iff.mpr
    ⟨parsed, es, hp.classified, hes, ⟨hsites, hstored.fits⟩, by rw [hstored.score]⟩⟩

theorem persist_succeeds_iff_firingRules :
    (S.persist call c).Succeeds w ↔ ∃ fired, S.firingRules w.db call c = some fired := by
  simp only [persist_succeeds_iff, firingRules_eq_some_iff]
  constructor
  · rintro ⟨parsed, es, hclass, hes, h⟩
    exact ⟨_, parsed, es, hclass, hes, h, rfl⟩
  · rintro ⟨fired, parsed, es, hclass, hes, h, -⟩
    exact ⟨parsed, es, hclass, hes, h⟩

theorem upsert_persist_error {e : Exn} (h : (S.persist call c).run w = (.error e, w')) :
    (S.upsert call c).run w = (.error e, w') := by
  rw [upsert]
  exact Routine.run_bind_error h _

/-- A service without alerts stores and is done. -/
theorem run_upsert_quiet (halerts : S.alerts = none) (call : UpsertCall) (c : Conditions)
    (w : IntelWorld) : (S.upsert call c).run w = (S.persist call c).run w := by
  rw [upsert, halerts, Routine.run_bind]
  rcases (S.persist call c).run w with ⟨e | ioc, w'⟩ <;> rfl

/-- An upsert that completes has stored the indicator, and then raised an
alert for each rule that fires. -/
theorem upsert_completes (halerts : S.alerts = some s) (h : S.Completes w.db call c) :
    ∃ fired parsed ioc w₁ created w₂, (S.upsert call c).run w = (.ok ioc, w₂) ∧
      S.firingRules w.db call c = some fired ∧
      fired = AlertService.firing (AlertService.activeRules w.db) ioc.threatScore.val ∧
      Persisted S call c w parsed ioc w₁ ∧ AlertService.Raised ioc fired w₁ w₂ created := by
  obtain ⟨fired, hfired, hrules, hfail⟩ := h
  obtain ⟨ioc, w₁, hpersist⟩ := persist_succeeds_iff_firingRules.mpr ⟨fired, hfired⟩
  obtain ⟨parsed, hp, hfired'⟩ := persist_ok_score hpersist
  obtain rfl := Option.some.inj (hfired.symm.trans hfired')
  obtain ⟨created, w₂, hrun, hraised⟩ :=
    AlertService.evaluateRules_ok s S.toIntelEnv
      (fun k hk (_ : 0 ≤ k) => by simpa using hfail k hk) w₁
  refine ⟨_, parsed, ioc, w₁, created, w₂, ?_, hfired, rfl, hp, hraised⟩
  rw [upsert, Routine.run_bind_ok hpersist, halerts]
  have hevaluate : (s.evaluateIoc S.toIntelEnv c ioc).run w₁ = (.ok created, w₂) := by
    rw [AlertService.evaluateIoc, Routine.run_bind_ok (Conditions.run_pass hrules w₁)]
    simp only [Routine.run_bind_gets, hp.activeRules]
    exact hrun
  simp only [Routine.run_bind_ok hevaluate, Routine.run_pure]

/-- The number of alerts an upsert has published when it fails. -/
def sentBefore (S : IOCService) (db : IntelDb) (call : UpsertCall) (c : Conditions) : Nat :=
  match S.firingRules db call c with
  | none => 0
  | some _ => c.failingAlert.getD 0

/-- An upsert that does not complete fails, after it has published some of
its alerts. -/
theorem upsert_fails (halerts : S.alerts = some s) (h : ¬ S.Completes w.db call c) :
    ∃ e w' sent, (S.upsert call c).run w = (.error e, w') ∧
      w'.published.map (·.id) = w.published.map (·.id) ++ sent ∧
      sent.length = S.sentBefore w.db call c := by
  by_cases hreach : (S.persist call c).Succeeds w
  · obtain ⟨ioc, w₁, hpersist⟩ := hreach
    obtain ⟨parsed, hp, hfired⟩ := persist_ok_score hpersist
    rw [upsert, Routine.run_bind_ok hpersist, halerts, sentBefore, hfired]
    simp only [AlertService.evaluateIoc]
    by_cases hrules : c.FailsIn [.rules]
    · obtain ⟨e, he⟩ := Conditions.run_pass_failsIn hrules w₁
      refine ⟨e, w₁, [], Routine.run_bind_error (Routine.run_bind_error he _) _, ?_, ?_⟩
      · rw [hp.published, List.append_nil]
      · simp [Conditions.failingAlert_of_failsIn_rules hrules]
    · obtain ⟨k, hk, hlt⟩ : ∃ k, c.failingAlert = some k ∧
          k < (AlertService.firing (AlertService.activeRules w.db) ioc.threatScore.val).length := by
        by_contra hnone
        refine h ⟨_, hfired, hrules, fun k hk => ?_⟩
        exact not_lt.mp fun hlt => hnone ⟨k, hk, hlt⟩
      obtain ⟨e, w₂, hrun, sent, hsent, hlen⟩ :=
        AlertService.evaluateRules_error s S.toIntelEnv hk (Nat.zero_le k)
          (by simpa using hlt) w₁
      refine ⟨e, w₂, sent, ?_, by rw [hsent, hp.published], by simpa [hk] using hlen⟩
      rw [Routine.run_bind_assoc, Routine.run_bind_ok (Conditions.run_pass hrules w₁)]
      simp only [Routine.run_bind_assoc, Routine.run_bind_gets, hp.activeRules]
      exact Routine.run_bind_error hrun _
  · obtain ⟨e, hrun⟩ := Routine.exists_error_of_not_succeeds hreach
    have hnone : S.firingRules w.db call c = none :=
      Option.eq_none_iff_forall_not_mem.mpr fun fired hfired =>
        hreach (persist_succeeds_iff_firingRules.mpr ⟨fired, hfired⟩)
    have hquiet : ((S.persist call c).run w).2.published = w.published :=
      (silent_persist w.published 0 w ⟨rfl, Nat.zero_le _⟩).1
    refine ⟨e, _, [], upsert_persist_error hrun, ?_, by simp [sentBefore, hnone]⟩
    rw [List.append_nil]
    exact congrArg _ hquiet

theorem issued_le_upsert (call : UpsertCall) (c : Conditions) (w : IntelWorld) :
    w.issued ≤ ((S.upsert call c).run w).2.issued := by
  have hkeeps : Routine.Keeps (fun w' => w.issued ≤ w'.issued) (S.upsert call c) := by
    rw [upsert]
    have hpersist : Routine.Keeps (fun w' => w.issued ≤ w'.issued) (S.persist call c) :=
      fun w' h => (silent_persist w'.published w.issued w' ⟨rfl, h⟩).2
    refine hpersist.bind fun ioc => ?_
    cases S.alerts with
    | none => exact Routine.keeps_pure _ _
    | some s =>
        refine Routine.Keeps.bind ?_ fun _ => Routine.keeps_pure _ _
        refine (Conditions.keeps_pass _ c _).bind fun _ => ?_
        exact (Routine.keeps_gets _ _).bind fun rules => AlertService.keeps_issued _ _ rules
  exact hkeeps w le_rfl

/-- An upsert that goes through completes. -/
theorem completes_of_upsert_ok (halerts : S.alerts = some s)
    (h : (S.upsert call c).run w = (.ok ioc, w')) : S.Completes w.db call c := by
  by_contra hnot
  obtain ⟨e, w₁, sent, hrun, -⟩ := upsert_fails halerts hnot
  rw [h] at hrun
  cases hrun

/-- It has stored the indicator, and raised an alert for each rule that
fires. -/
theorem raised_of_upsert_ok (halerts : S.alerts = some s)
    (h : (S.upsert call c).run w = (.ok ioc, w')) :
    ∃ fired parsed w₁ created, S.firingRules w.db call c = some fired ∧
      fired = AlertService.firing (AlertService.activeRules w.db) ioc.threatScore.val ∧
      Persisted S call c w parsed ioc w₁ ∧ AlertService.Raised ioc fired w₁ w' created := by
  obtain ⟨fired, parsed, ioc', w₁, created, w₂, hrun, hfired, hfiring, hp, hraised⟩ :=
    upsert_completes halerts (completes_of_upsert_ok halerts h)
  rw [h] at hrun
  cases hrun
  exact ⟨fired, parsed, w₁, created, hfired, hfiring, hp, hraised⟩

/-- An upsert that goes through has stored its indicator, and the rules have
not touched it. -/
theorem upsert_ok (h : (S.upsert call c).run w = (.ok ioc, w')) :
    ∃ parsed w₁, Persisted S call c w parsed ioc w₁ ∧ w'.db.iocs = w₁.db.iocs := by
  cases halerts : S.alerts with
  | none =>
      rw [run_upsert_quiet halerts] at h
      obtain ⟨parsed, hp, -⟩ := persist_ok_score h
      exact ⟨parsed, w', hp, rfl⟩
  | some s =>
      obtain ⟨fired, parsed, w₁, created, -, -, hp, hraised⟩ := raised_of_upsert_ok halerts h
      exact ⟨parsed, w₁, hp, by rw [hraised.db]⟩

/-- What an upsert that goes through has done before the rules, which write
nothing but alerts. -/
theorem persist_of_upsert_ok (h : (S.upsert call c).run w = (.ok ioc, w')) :
    ∃ w₁, (S.persist call c).run w = (.ok ioc, w₁) ∧
      w'.db = { w₁.db with alerts := w'.db.alerts } ∧ w₁.issued ≤ w'.issued := by
  rw [upsert] at h
  obtain ⟨ioc', w₁, hpersist, h₁⟩ := Routine.run_bind_eq_ok.mp h
  cases halerts : S.alerts with
  | none =>
      rw [halerts] at h₁
      cases h₁
      exact ⟨w', hpersist, rfl, le_rfl⟩
  | some s =>
      rw [halerts] at h₁
      obtain ⟨created, w₂, hevaluate, h₂⟩ := Routine.run_bind_eq_ok.mp h₁
      cases h₂
      refine ⟨w₁, hpersist, ?_⟩
      have hkeeps : Routine.Keeps
          (fun w => w.db = { w₁.db with alerts := w.db.alerts } ∧ w₁.issued ≤ w.issued)
          (s.evaluateIoc S.toIntelEnv c ioc) := by
        refine (Conditions.keeps_pass _ c _).bind fun _ => ?_
        exact (Routine.keeps_gets _ _).bind fun rules => AlertService.keeps_alerts_only w₁ 0 rules
      have hkept := hkeeps w₁ ⟨rfl, le_rfl⟩
      rwa [hevaluate] at hkept

/-! ## The rows of an upsert -/

variable {parsed : ParsedIndicator} {score : ScoreResult}

/-- The two ways storing an indicator changes the table. -/
theorem Stored.rows (h : Stored S call c parsed score w (knownIoc w.db parsed) ioc w') :
    (knownIoc w.db parsed = none ∧ ioc.id = S.uuid4 w.issued ∧ ioc.sightings.val = 1 ∧
      w'.db.iocs.rows = w.db.iocs.rows ++ [ioc] ∧ w'.issued = w.issued + 1) ∨
    ∃ row ∈ w.db.iocs.rows, knownIoc w.db parsed = some row ∧ ioc.id = row.id ∧
      ioc.sightings.val = row.sightings.val + 1 ∧
      (w'.db.iocs.rows = w.db.iocs.rows.map fun r => if r.key = row.key then ioc else r) ∧
      w'.issued = w.issued := by
  generalize hknown : knownIoc w.db parsed = known at h
  cases h with
  | created hsightings hscore hioc hnew =>
      refine .inl ⟨rfl, by rw [hioc, newIoc], by rw [hioc, ← hsightings, newIoc], ?_, rfl⟩
      exact Table.rows_insert hnew
  | @updated sightings threatScore row hsightings hscore =>
      have hrow : row ∈ w.db.iocs.rows := Table.mem_of_get? hknown
      refine .inr ⟨row, hrow, rfl, rfl, hsightings, ?_, rfl⟩
      refine List.map_congr_left fun r hr => ?_
      by_cases heq : r.key = row.key
      · simp [List.inj_on_of_nodup_map w.db.iocs.nodupKeys hr hrow heq]
      · simp [heq]

/-- Identifiers have been drawn, and no two indicators share one. -/
structure Identified (S : IOCService) (w : IntelWorld) : Prop where
  ids : (w.db.iocs.rows.map (·.id)).Nodup
  drawn : ∀ ioc ∈ w.db.iocs.rows, ∃ n < w.issued, ioc.id = S.uuid4 n

/-- An identifier that is drawn next is new. -/
theorem Identified.fresh (hi : S.Identified w) : ∀ r ∈ w.db.iocs.rows, r.id ≠ S.uuid4 w.issued := by
  intro r hr heq
  obtain ⟨n, hn, hid⟩ := hi.drawn r hr
  have hsame := S.uuid4_injective (hid.symm.trans heq)
  omega

theorem Identified.eq_of_id (hi : S.Identified w) {r row : Ioc} (hr : r ∈ w.db.iocs.rows)
    (hrow : row ∈ w.db.iocs.rows) (hid : r.id = row.id) : r = row :=
  List.inj_on_of_nodup_map hi.ids hr hrow hid

theorem Identified.congr (hi : S.Identified w) (hrows : w'.db.iocs.rows = w.db.iocs.rows)
    (hissued : w.issued ≤ w'.issued) : S.Identified w' where
  ids := hrows ▸ hi.ids
  drawn := by
    rw [hrows]
    intro ioc hioc
    obtain ⟨n, hn, hid⟩ := hi.drawn ioc hioc
    exact ⟨n, hn.trans_le hissued, hid⟩

/-- A row that is created has an identifier of its own. -/
theorem Identified.created (hi : S.Identified w) (hid : ioc.id = S.uuid4 w.issued)
    (hrows : w'.db.iocs.rows = w.db.iocs.rows ++ [ioc]) (hissued : w.issued + 1 ≤ w'.issued) :
    S.Identified w' ∧
      ∀ r ∈ w'.db.iocs.rows, r = ioc ∨ (r ∈ w.db.iocs.rows ∧ r.id ≠ ioc.id) := by
  have hfresh : ∀ r ∈ w.db.iocs.rows, r.id ≠ ioc.id := fun r hr => hid ▸ hi.fresh r hr
  have hcases : ∀ r ∈ w'.db.iocs.rows, r = ioc ∨ (r ∈ w.db.iocs.rows ∧ r.id ≠ ioc.id) := by
    intro r hr
    rw [hrows, List.mem_append, List.mem_singleton] at hr
    rcases hr with hold | rfl
    · exact .inr ⟨hold, hfresh r hold⟩
    · exact .inl rfl
  refine ⟨⟨?_, fun r hr => ?_⟩, hcases⟩
  · rw [hrows, List.map_append, List.nodup_append]
    refine ⟨hi.ids, by simp, ?_⟩
    intro a ha b hb
    obtain ⟨r, hr, rfl⟩ := List.mem_map.mp ha
    rw [List.map_singleton, List.mem_singleton] at hb
    exact hb ▸ hfresh r hr
  · rcases hcases r hr with rfl | ⟨hold, -⟩
    · exact ⟨w.issued, by omega, hid⟩
    · obtain ⟨n, hn, hrid⟩ := hi.drawn r hold
      exact ⟨n, by omega, hrid⟩

/-- A row that is brought up to date keeps its identifier. -/
theorem Identified.updated (hi : S.Identified w) {row : Ioc} (hrow : row ∈ w.db.iocs.rows)
    (hid : ioc.id = row.id)
    (hrows : w'.db.iocs.rows = w.db.iocs.rows.map fun r => if r.key = row.key then ioc else r)
    (hissued : w.issued ≤ w'.issued) :
    S.Identified w' ∧
      ∀ r ∈ w'.db.iocs.rows, r = ioc ∨ (r ∈ w.db.iocs.rows ∧ r.id ≠ ioc.id) := by
  have hsame : ∀ r ∈ w.db.iocs.rows, r.key = row.key → r = row := fun r hr heq =>
    List.inj_on_of_nodup_map w.db.iocs.nodupKeys hr hrow heq
  have hids : w'.db.iocs.rows.map (·.id) = w.db.iocs.rows.map (·.id) := by
    rw [hrows, List.map_map]
    refine List.map_congr_left fun r hr => ?_
    by_cases heq : r.key = row.key
    · simp [hid, hsame r hr heq]
    · simp [heq]
  have hcases : ∀ r ∈ w'.db.iocs.rows, r = ioc ∨ (r ∈ w.db.iocs.rows ∧ r.id ≠ ioc.id) := by
    intro r hr
    rw [hrows] at hr
    obtain ⟨r₀, hr₀, rfl⟩ := List.mem_map.mp hr
    by_cases heq : r₀.key = row.key
    · exact .inl (by simp [heq])
    · rw [if_neg heq]
      refine .inr ⟨hr₀, fun hsameId => heq ?_⟩
      rw [hi.eq_of_id hr₀ hrow (hsameId.trans hid)]
  refine ⟨⟨hids ▸ hi.ids, fun r hr => ?_⟩, hcases⟩
  rcases hcases r hr with rfl | ⟨hold, -⟩
  · obtain ⟨n, hn, hrowid⟩ := hi.drawn row hrow
    exact ⟨n, by omega, hid.trans hrowid⟩
  · obtain ⟨n, hn, hrid⟩ := hi.drawn r hold
    exact ⟨n, by omega, hrid⟩

/-- Storing an indicator keeps identifiers apart, and every other row has
another one. -/
theorem Identified.stored (hi : S.Identified w)
    (h : Stored S call c parsed score w (knownIoc w.db parsed) ioc w') :
    S.Identified w' ∧
      ∀ r ∈ w'.db.iocs.rows, r = ioc ∨ (r ∈ w.db.iocs.rows ∧ r.id ≠ ioc.id) := by
  rcases h.rows with ⟨-, hid, -, hrows, hissued⟩ | ⟨row, hrow, -, hid, -, hrows, hissued⟩
  · exact hi.created hid hrows hissued.ge
  · exact hi.updated hrow hid hrows hissued.ge

end IOCService

end ThreatIntel
