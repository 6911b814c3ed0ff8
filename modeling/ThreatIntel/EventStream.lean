import Mathlib.Data.List.ReduceOption
import ThreatIntel.Dict
import ThreatIntel.EventQueues
import ThreatIntel.Frames
import ThreatIntel.JsonRoundTrip

/-!
# From the bus to the dashboard

`EventBus.stream` writes the events that its queue hands out as
Server-Sent Events, and the dashboard reads them: it splits what arrives at
empty lines and renders the alerts among the frames. What it renders are
the alerts of the subscriber's queue, each once and in order, however the
network cuts the text up (`dashboard_renders`).
-/

namespace ThreatIntel

namespace Json

mutual

/-- `json.dumps(value)`: on one line. -/
def line : Json → PyStr
  | null => "null".toList
  | bool b => if b then "true".toList else "false".toList
  | int n => intText n
  | float literal => literal
  | str s => quote s
  | arr [] => "[]".toList
  | arr (v :: vs) => '[' :: line v ++ lineElements vs ++ [']']
  | obj [] => ['\x7b', '\x7d']
  | obj ((k, v) :: kvs) => '\x7b' :: quote k ++ ": ".toList ++ line v ++ lineMembers kvs ++ ['\x7d']

/-- The elements after the first. -/
def lineElements : List Json → PyStr
  | [] => []
  | v :: vs => ", ".toList ++ line v ++ lineElements vs

/-- The members after the first. -/
def lineMembers : List (PyStr × Json) → PyStr
  | [] => []
  | (k, v) :: kvs => ", ".toList ++ quote k ++ ": ".toList ++ line v ++ lineMembers kvs

end

end Json

/-! ## The server's end -/

namespace Event

/-- `{**self.data, "at": self.created_at.isoformat()}`. -/
def payload (isoformat : Int → PyStr) (event : Event) : Json :=
  .obj (Dict.setItems "at".toList (.str (isoformat event.createdAt)) event.data)

/-- `to_sse`. -/
def toSse (isoformat : Int → PyStr) (event : Event) : PyStr :=
  "event: ".toList ++ event.type.toList ++ "\ndata: ".toList ++ (event.payload isoformat).line ++
    "\n\n".toList

end Event

/-- What `stream` yields, given how its waits for the queue end: with an
event, or with a `TimeoutError`. -/
def stream (isoformat : Int → PyStr) (waits : List (Option Event)) : List PyStr :=
  ": connected\n\n".toList :: waits.map fun wait =>
    match wait with
    | some event => event.toSse isoformat
    | none => ": heartbeat\n\n".toList

/-! ## The dashboard's end -/

namespace Dashboard

variable {α : Type}

/-- What is done with a frame; `parse` is `JSON.parse`. -/
def renderFrame (parse : PyStr → α) (frame : PyStr) : Option α :=
  if "event: alert".toList.isPrefixOf frame then
    ((frame.splitOn '\n').find? fun line => "data: ".toList.isPrefixOf line).map fun line =>
      parse (line.drop 6)
  else none

/-- The loop of `startAlertStream`: what is rendered of the texts that
`reader.read()` hands out. -/
def alertStream (parse : PyStr → α) : PyStr → List PyStr → List α
  | _, [] => []
  | buffer, value :: values =>
      let frames := Frames.split '\n' (buffer ++ value)
      frames.dropLast.filterMap (renderFrame parse) ++ alertStream parse (frames.getLastD []) values

theorem alertStream_eq (parse : PyStr → α) (buffer : PyStr) (values : List PyStr) :
    alertStream parse buffer values =
      (Frames.received '\n' buffer values).filterMap (renderFrame parse) := by
  induction values generalizing buffer with
  | nil => rfl
  | cons value values ih =>
      rw [alertStream, Frames.received, List.filterMap_append, ← ih]
      rfl

end Dashboard

/-! ## One line -/

namespace Json

theorem newline_notMem_hexPad (width n : Nat) : '\n' ∉ PyStr.hexPad width n := by
  have hdigit : ∀ d < 16, PyStr.hexChar d ≠ '\n' := by decide
  induction width generalizing n with
  | zero => exact List.not_mem_nil
  | succ width ih =>
      rw [PyStr.hexPad, List.mem_append, List.mem_singleton]
      rintro (h | h)
      · exact ih _ h
      · exact hdigit (n % 16) (Nat.mod_lt n (by decide)) h.symm

theorem newline_notMem_escapeChar (c : Char) : '\n' ∉ escapeChar c := by
  unfold escapeChar
  split
  · next h => rcases h with rfl | rfl <;> decide
  split
  · decide
  split
  · decide
  split
  · decide
  split
  · decide
  split
  · decide
  split
  · next hline _ _ _ _ _ => exact fun hmem => hline (List.mem_singleton.mp hmem).symm
  split
  · simp [newline_notMem_hexPad]
  · simp [newline_notMem_hexPad]

theorem newline_notMem_quote (s : PyStr) : '\n' ∉ quote s := by
  simp [quote, newline_notMem_escapeChar]

theorem newline_notMem_intText (n : Int) : '\n' ∉ intText n := by
  have hdigits : ∀ m, '\n' ∉ Nat.toDigits 10 m := fun m hmem =>
    absurd (isDigit_of_mem hmem) (by decide)
  rw [intText]
  split
  · simp [hdigits]
  · exact hdigits _

theorem newline_notMem_lineElements {vs : List Json} (h : ∀ v ∈ vs, '\n' ∉ v.line) :
    '\n' ∉ lineElements vs := by
  induction vs with
  | nil => exact List.not_mem_nil
  | cons v vs ih =>
      obtain ⟨hv, hvs⟩ := List.forall_mem_cons.mp h
      simp [lineElements, hv, ih hvs]

theorem newline_notMem_lineMembers {kvs : List (PyStr × Json)} (h : ∀ kv ∈ kvs, '\n' ∉ kv.2.line) :
    '\n' ∉ lineMembers kvs := by
  induction kvs with
  | nil => exact List.not_mem_nil
  | cons kv kvs ih =>
      obtain ⟨k, v⟩ := kv
      obtain ⟨hv, hkvs⟩ := List.forall_mem_cons.mp h
      simp [lineMembers, newline_notMem_quote, hv, ih hkvs]

/-- Whatever the texts in it, the value is written on one line. -/
theorem newline_notMem_line {depth : Nat} {v : Json} (h : Fits depth v) : '\n' ∉ v.line := by
  induction depth generalizing v with
  | zero =>
      cases v with
      | null => decide
      | bool b => cases b <;> decide
      | int n => exact newline_notMem_intText n
      | str s => exact newline_notMem_quote s
      | float literal => exact h.elim
      | arr items => exact h.elim
      | obj members => exact h.elim
  | succ depth ih =>
      cases v with
      | null => decide
      | bool b => cases b <;> decide
      | int n => exact newline_notMem_intText n
      | str s => exact newline_notMem_quote s
      | float literal => exact h.elim
      | arr items =>
          cases items with
          | nil => decide
          | cons v vs =>
              obtain ⟨hv, hvs⟩ := List.forall_mem_cons.mp h
              simp [line, ih hv, newline_notMem_lineElements fun x hx => ih (hvs x hx)]
      | obj members =>
          cases members with
          | nil => decide
          | cons kv kvs =>
              obtain ⟨k, v⟩ := kv
              obtain ⟨hv, hkvs⟩ := List.forall_mem_cons.mp h
              simp [line, newline_notMem_quote, ih hv,
                newline_notMem_lineMembers fun x hx => ih (hkvs x hx)]

end Json

/-! ## Frames -/

/-- The event, of a type the dashboard shows and without floats. -/
structure Event.Alert (event : Event) : Prop where
  type : event.type = "alert"
  plain : ∃ depth, Json.Fits (depth + 1) (.obj event.data)

section

variable {isoformat : Int → PyStr} {event : Event}

theorem Event.Alert.fits (h : event.Alert) : ∃ depth, Json.Fits depth (event.payload isoformat) := by
  obtain ⟨depth, hplain⟩ := h.plain
  refine ⟨depth + 1, ?_⟩
  have hset : ∀ members : List (PyStr × Json), (∀ kv ∈ members, Json.Fits depth kv.2) →
      ∀ k v, Json.Fits depth v → ∀ kv ∈ Dict.setItems k v members, Json.Fits depth kv.2 := by
    intro members hmembers k v hv
    induction members with
    | nil => exact List.forall_mem_singleton.mpr hv
    | cons kv members ih =>
        obtain ⟨k', v'⟩ := kv
        obtain ⟨hfirst, hrest⟩ := List.forall_mem_cons.mp hmembers
        rw [Dict.setItems]
        split
        · exact List.forall_mem_cons.mpr ⟨hv, hrest⟩
        · exact List.forall_mem_cons.mpr ⟨hfirst, ih hrest⟩
  exact hset _ hplain _ _ (by cases depth <;> trivial)

/-- The frame of an alert, without the empty line behind it. -/
def Event.frame (isoformat : Int → PyStr) (event : Event) : PyStr :=
  "event: alert".toList ++ '\n' :: ("data: ".toList ++ (event.payload isoformat).line)

theorem frame_text (payload : PyStr) :
    "event: ".toList ++ "alert".toList ++ "\ndata: ".toList ++ payload ++ "\n\n".toList =
      "event: alert".toList ++ '\n' :: ("data: ".toList ++ payload) ++ ['\n', '\n'] := by
  have hhead : "event: ".toList ++ "alert".toList = "event: alert".toList := by decide
  have hdata : "\ndata: ".toList = '\n' :: "data: ".toList := by decide
  have hend : "\n\n".toList = ['\n', '\n'] := by decide
  rw [hhead, hdata, hend, List.append_assoc, List.append_assoc, List.append_assoc, List.cons_append,
    List.cons_append, List.append_assoc]

theorem Event.Alert.toSse_eq (h : event.Alert) :
    event.toSse isoformat = event.frame isoformat ++ ['\n', '\n'] := by
  obtain ⟨object, type, data, createdAt⟩ := event
  obtain rfl : type = "alert" := h.type
  exact frame_text _

theorem Event.Alert.body (h : event.Alert) : Frames.Body '\n' (event.frame isoformat) := by
  obtain ⟨depth, hfits⟩ : ∃ depth, Json.Fits depth (event.payload isoformat) := h.fits
  have hline := Json.newline_notMem_line hfits
  exact Frames.body_of_lines (by decide) (by simp [hline]) (by simp)

/-- The alert is read from its frame, as it was written. -/
theorem Event.Alert.renderFrame {α : Type} (h : event.Alert) (parse : PyStr → α) :
    Dashboard.renderFrame parse (event.frame isoformat) =
      some (parse (event.payload isoformat).line) := by
  obtain ⟨depth, hfits⟩ : ∃ depth, Json.Fits depth (event.payload isoformat) := h.fits
  have hline := Json.newline_notMem_line hfits
  have hsplit : (event.frame isoformat).splitOn '\n' =
      ["event: alert".toList, "data: ".toList ++ (event.payload isoformat).line] := by
    have hlines : ∀ l ∈ ["event: alert".toList, "data: ".toList ++ (event.payload isoformat).line],
        '\n' ∉ l := by
      simp [hline]
    have hsplit := List.splitOn_intercalate _ hlines (List.cons_ne_nil _ _)
    rwa [List.intercalate_cons_cons, List.intercalate_singleton, List.append_assoc,
      List.singleton_append] at hsplit
  have hopening : List.isPrefixOf "event: alert".toList (event.frame isoformat) = true :=
    List.isPrefixOf_iff_prefix.mpr (List.prefix_append _ _)
  have hdata : List.isPrefixOf "data: ".toList
      ("data: ".toList ++ (event.payload isoformat).line) = true :=
    List.isPrefixOf_iff_prefix.mpr (List.prefix_append _ _)
  have hevent : List.isPrefixOf "data: ".toList "event: alert".toList = false := by decide
  have hdrop : ("data: ".toList ++ (event.payload isoformat).line).drop 6 =
      (event.payload isoformat).line := List.drop_left' (by decide)
  simp only [Dashboard.renderFrame, hopening, if_true, hsplit, List.find?_cons, hevent, hdata,
    Option.map_some, hdrop]

/-! ## The whole stream -/

/-- What is sent after a wait, without the empty line behind it. -/
def frameOf (isoformat : Int → PyStr) : Option Event → PyStr
  | some event => event.frame isoformat
  | none => ": heartbeat".toList

def bodies (isoformat : Int → PyStr) (waits : List (Option Event)) : List PyStr :=
  ": connected".toList :: waits.map (frameOf isoformat)

variable {waits : List (Option Event)}

theorem stream_eq (h : ∀ event ∈ waits.reduceOption, event.Alert) :
    (stream isoformat waits).flatten = Frames.sent '\n' (bodies isoformat waits) := by
  have hconnected : ": connected\n\n".toList = ": connected".toList ++ ['\n', '\n'] := by decide
  have hheartbeat : ": heartbeat\n\n".toList = ": heartbeat".toList ++ ['\n', '\n'] := by decide
  rw [stream, bodies, Frames.sent, List.flatMap_cons, List.flatten_cons, hconnected, ← Frames.sent]
  refine congrArg _ ?_
  induction waits with
  | nil => rfl
  | cons wait waits ih =>
      rw [List.map_cons, List.map_cons, List.flatten_cons, Frames.sent, List.flatMap_cons,
        ← Frames.sent]
      cases wait with
      | none =>
          rw [ih h]
          exact congrArg (· ++ _) hheartbeat
      | some event =>
          rw [List.reduceOption_cons_of_some] at h
          obtain ⟨hevent, hrest⟩ := List.forall_mem_cons.mp h
          rw [ih hrest]
          exact congrArg (· ++ _) hevent.toSse_eq

theorem body_bodies (h : ∀ event ∈ waits.reduceOption, event.Alert) :
    ∀ body ∈ bodies isoformat waits, Frames.Body '\n' body := by
  refine List.forall_mem_cons.mpr ⟨Frames.body_of_line (by decide), List.forall_mem_map.mpr ?_⟩
  intro wait hwait
  cases wait with
  | none =>
      have hline : '\n' ∉ ": heartbeat".toList := by decide
      exact Frames.body_of_line hline
  | some event => exact (h event (List.reduceOption_mem_iff.mpr hwait)).body

theorem rendered_bodies {α : Type} (h : ∀ event ∈ waits.reduceOption, event.Alert)
    (parse : PyStr → α) :
    (bodies isoformat waits).filterMap (Dashboard.renderFrame parse) =
      waits.reduceOption.map fun event => parse (event.payload isoformat).line := by
  have hconnected : Dashboard.renderFrame parse ": connected".toList = none := rfl
  have hheartbeat : Dashboard.renderFrame parse (frameOf isoformat none) = none := rfl
  rw [bodies, List.filterMap_cons_none hconnected]
  induction waits with
  | nil => rfl
  | cons wait waits ih =>
      rw [List.map_cons]
      cases wait with
      | none =>
          rw [List.filterMap_cons_none hheartbeat, List.reduceOption_cons_of_none]
          exact ih h
      | some event =>
          rw [List.reduceOption_cons_of_some] at h ⊢
          obtain ⟨hevent, hrest⟩ := List.forall_mem_cons.mp h
          have hframe : Dashboard.renderFrame parse (frameOf isoformat (some event)) = some _ :=
            hevent.renderFrame parse
          rw [List.filterMap_cons_some hframe, ih hrest, List.map_cons]

end

/-! ## Runs -/

/-- What the alert service publishes. -/
def BusAction.Alerts : BusAction → Prop
  | .publish type data _ => type = "alert" ∧ ∃ depth, Json.Fits (depth + 1) (.obj data)
  | _ => True

namespace Streams

theorem published_of_heard {k : Nat} {log : List BusEntry} {event : Event} (h : event ∈ heard k log) :
    BusEntry.published event ∈ log := by
  induction log with
  | nil => cases h
  | cons entry log ih =>
      cases entry with
      | published e =>
          rw [heard] at h
          split at h
          · rcases List.mem_append.mp h with h | h
            · exact List.mem_cons_of_mem _ (ih h)
            · exact List.mem_singleton.mp h ▸ List.mem_cons_self
          · exact List.mem_cons_of_mem _ (ih h)
      | subscribed j => exact List.mem_cons_of_mem _ (ih h)
      | unsubscribed j => exact List.mem_cons_of_mem _ (ih h)
      | got j e => exact List.mem_cons_of_mem _ (ih h)

theorem alert_of_published {N : Int} {actions : List BusAction} (h : ∀ action ∈ actions, action.Alerts)
    {event : Event} (hevent : BusEntry.published event ∈ (Runs.run step (new N) actions).log) :
    event.Alert := by
  have hrun : ∀ s : Streams, (∀ e, BusEntry.published e ∈ s.log → e.Alert) →
      ∀ e, BusEntry.published e ∈ (Runs.run step s actions).log → e.Alert := by
    clear hevent
    induction actions with
    | nil => exact fun s hs => hs
    | cons action actions ih =>
        obtain ⟨haction, hrest⟩ := List.forall_mem_cons.mp h
        intro s hs
        refine ih hrest _ fun e he => ?_
        cases action with
        | publish type data createdAt =>
            rcases List.mem_cons.mp he with he | he
            · obtain rfl := BusEntry.published.inj he
              exact ⟨haction.1, haction.2⟩
            · exact hs e he
        | subscribe => exact hs e ((List.mem_cons.mp he).resolve_left (by simp))
        | unsubscribe queue =>
            rw [step, unsubscribe] at he
            split at he
            · exact hs e ((List.mem_cons.mp he).resolve_left (by simp))
            · exact hs e he
        | get queue =>
            rw [step, get] at he
            split at he
            · exact hs e ((List.mem_cons.mp he).resolve_left (by simp))
            · exact hs e he
  exact hrun _ (fun e he => absurd he List.not_mem_nil) event hevent

/-- **What the dashboard renders.** Whatever is published, whoever comes and
goes, whenever a heartbeat is sent, and wherever the network cuts the text
up: the dashboard renders the alerts its queue has handed out, each as its
payload was written, in order and none twice; what has been rendered before
all has arrived is the beginning of it. -/
theorem dashboard_renders {N : Int} (hN : 1 ≤ N) {actions : List BusAction}
    (hactions : ∀ action ∈ actions, action.Alerts) (k : Nat) {waits : List (Option Event)}
    (hwaits : waits.reduceOption = consumed k (Runs.run step (new N) actions).log)
    (isoformat : Int → PyStr) {α : Type} (parse : PyStr → α) {values : List PyStr}
    (hvalues : values.flatten <+: (stream isoformat waits).flatten) :
    let log := (Runs.run step (new N) actions).log
    let shown := (consumed k log).map fun event => parse (event.payload isoformat).line
    Dashboard.alertStream parse [] values <+: shown ∧
      (values.flatten = (stream isoformat waits).flatten →
        Dashboard.alertStream parse [] values = shown) ∧
      (consumed k log).Sublist (heard k log) ∧ (consumed k log).Nodup := by
  intro log shown
  have hkeeps := (keeps_run hN actions).queues k
  have hsub : (consumed k log).Sublist (heard k log) :=
    (List.sublist_append_left _ _).trans hkeeps.subsequence
  have halerts : ∀ event ∈ waits.reduceOption, event.Alert := fun event hevent =>
    alert_of_published hactions (published_of_heard (hsub.subset (hwaits ▸ hevent)))
  rw [stream_eq halerts] at hvalues ⊢
  obtain ⟨hstart, hall⟩ := Frames.received_sent (body_bodies halerts) hvalues
  have hshown : (bodies isoformat waits).filterMap (Dashboard.renderFrame parse) = shown := by
    rw [rendered_bodies halerts, hwaits]
  rw [Dashboard.alertStream_eq]
  refine ⟨hshown ▸ hstart.filterMap _, fun h => ?_, hsub, hkeeps.distinct.sublist hsub⟩
  rw [hall h, hshown]

/-- An alert with an empty line in its title. -/
def sampleEvent : Event := ⟨0, "alert", [("title".toList, .str "one\n\ntwo".toList)], 5⟩

def sampleText : PyStr := (stream (fun _ => []) [none, some sampleEvent]).flatten

theorem consumed_sample :
    consumed 0 (Runs.run step (new 2) [.subscribe, .publish "alert" sampleEvent.data 5, .get 0]).log =
      [sampleEvent] := by
  have hoffer : offer { maxsize := 2, items := [] } sampleEvent =
      { maxsize := 2, items := [sampleEvent] } := offer_of_not_full rfl sampleEvent
  have hevent : ∀ s : Streams, s.published = 0 → s.eventOf "alert" sampleEvent.data 5 = sampleEvent :=
    fun s hs => by rw [eventOf, hs]; rfl
  simp [step, new, subscribe, publish, offerAll, get, hevent, hoffer, Queue.getNowait, consumed]

/-- It is rendered from two chunks, the first of which ends between two line
feeds. -/
theorem dashboard_renders_cut :
    Dashboard.alertStream id [] [sampleText.take 12, sampleText.drop 12] =
      [(sampleEvent.payload fun _ => []).line] := by
  have hactions : ∀ action ∈ [BusAction.subscribe, .publish "alert" sampleEvent.data 5, .get 0],
      action.Alerts :=
    List.forall_mem_cons.mpr ⟨trivial, List.forall_mem_cons.mpr
      ⟨⟨rfl, 0, List.forall_mem_singleton.mpr trivial⟩, List.forall_mem_singleton.mpr trivial⟩⟩
  have hwaits : [none, some sampleEvent].reduceOption = _ := consumed_sample.symm
  have hvalues : [sampleText.take 12, sampleText.drop 12].flatten =
      (stream (fun _ => []) [none, some sampleEvent]).flatten := by simp [sampleText]
  have hopening : [sampleText.take 12, sampleText.drop 12].flatten <+:
      (stream (fun _ => []) [none, some sampleEvent]).flatten := ⟨[], by rw [hvalues, List.append_nil]⟩
  have hrun := dashboard_renders (N := 2) (by decide) hactions 0 hwaits (fun _ => []) id hopening
  have hshown := hrun.2.1 hvalues
  rw [consumed_sample] at hshown
  exact hshown

end Streams

end ThreatIntel
