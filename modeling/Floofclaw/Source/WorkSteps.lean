import Floofclaw.Source.Outbox
import Floofclaw.Source.WorkLedger
import Floofclaw.Lib.Keyed

/-!
# The steps of the work ledger

Model of `apply_to_store` of `work_state.c` on every event it takes, with the
live path `rt_work_state_apply_event` and the rebuild from the run logs. The
reducer works in place: what it has written before it refuses an event stays in
the store it was given. The live path then drops that store, the rebuild goes on
with it. The directory scan and the texts of narration are left out: the rebuild
is given the runs it found.
-/

set_option autoImplicit false

namespace Floofclaw.Source.WorkSteps
open Floofclaw.Lib Floofclaw.Source.Json Floofclaw.Source.TaskState Floofclaw.Source.TaskEvents
open Floofclaw.Source.WorkLedger
open Floofclaw.Source.Outbox (completeLines jsonRefValueCompactDup)

def rtWorkSemanticStepLimit : Nat := 8
def rtWorkRepairAttemptLimit : Nat := 8
def workDetailMax : Nat := 1024

/-- What the ledger reads beside its own records. -/
structure World where
  outbox : LedgerEnv
  rows : List TaskItem

/-- An event as it reaches the ledger: with the context of its run. -/
structure LedgerEvent where
  runContext : Bytes
  type : Bytes
  payloadJson : Bytes
  eventId : Bytes
  deriving DecidableEq

/-- The identity a payload gives to a step. -/
structure StepFields where
  taskId : Bytes
  workRev : Int
  requestId : Bytes
  action : Bytes
  triggerEventId : Bytes
  contextId : Bytes

def stepFields (runContext : Bytes) (payload : JsonRef) : StepFields :=
  let named := stringField payload (lit "context_id") rtMed []
  { taskId := stringField payload (lit "task_id") rtSmall []
    workRev := (jsonRefObjectGetLong payload (lit "work_rev") 0).1
    requestId := stringField payload (lit "request_id") rtSmall []
    action := stringField payload (lit "action") rtSmall []
    triggerEventId := stringField payload (lit "trigger_event_id") rtSmall []
    contextId := if named = [] then clip rtMed runContext else named }

def rtWorkStateIsEventType (type : Bytes) : Bool :=
  [lit "task_created", lit "task_updated", lit "action_request", lit "action_started", lit "action_succeeded",
    lit "action_failed", lit "action_rejected", lit "operation_started", lit "operation_result", lit "work_completed",
    lit "work_blocked"].contains type

def isTaskEvent (type : Bytes) : Bool := type = lit "task_created" || type = lit "task_updated"

def isStep (taskId : Bytes) (workRev : Int) (requestId : Bytes) (s : WorkStep) : Bool :=
  s.workRev = workRev && s.taskId = taskId && s.requestId = requestId

def isRevision (taskId : Bytes) (workRev : Int) (r : WorkRevision) : Bool := r.workRev = workRev && r.taskId = taskId

/-! ## Details -/

def truncatedDetail : Bytes := lit "\x7b\"truncated\":true,\"source\":\"event_log\"\x7d"

/-- A value compacted into a detail; a long one is left to the log. -/
def detailOf (v : JsonRef) : Bytes :=
  match jsonRefValueCompactDup v with
  | none => []
  | some compact => if compact.length ≥ workDetailMax then truncatedDetail else compact

/-- `value_detail`. -/
def valueDetail (payload : JsonRef) (key : Bytes) : Bytes :=
  match jsonRefObjectGet payload key with
  | none => []
  | some v => detailOf v

/-- `payload_detail`. -/
def payloadDetail (payloadJson : Bytes) : Bytes :=
  match jsonRefFromText payloadJson with
  | none => []
  | some v => detailOf v

/-! ## Selections -/

/-- The step of the revision that ended with the event. -/
def isResult (taskId : Bytes) (workRev : Int) (resultEventId : Bytes) (s : WorkStep) : Bool :=
  s.workRev = workRev && s.taskId = taskId && s.resultEventId = resultEventId

def stepResultIndex (store : WorkStore) (taskId : Bytes) (workRev : Int) (resultEventId : Bytes) : Option WorkStep :=
  store.items.find? (isResult taskId workRev resultEventId)

/-- The failed step a selection sets out to repair: the one whose result it answers. -/
def repairSource (store : WorkStore) (f : StepFields) : Option WorkStep :=
  (stepResultIndex store f.taskId f.workRev f.triggerEventId).filter fun s =>
    s.resultKind = lit "action_failed" || s.resultKind = lit "action_rejected"

/-- The revision a selection is made on. A missing one is made. -/
def revisionFor (w : World) (store : WorkStore) (f : StepFields) : Option (WorkStore × WorkRevision) :=
  match revisionIndex store f.taskId f.workRev with
  | some r => if r.contextId = f.contextId then some (store, r) else none
  | none =>
    let revision := rootRevision f.contextId f.taskId f.workRev
    (addRevision w.rows store revision).map fun store => (store, revision)

def countRepair (r : WorkRevision) : WorkRevision := { r with repairAttempts := r.repairAttempts + 1 }

def repairSelected (s : WorkStep) : WorkStep := { s with repairState := lit "repair_selected" }

/-- The attempt is counted and its source is marked. -/
def markRepair (store : WorkStore) (f : StepFields) : WorkStore :=
  { revisions := modifyFirst (isRevision f.taskId f.workRev) countRepair store.revisions
    items := modifyFirst (isResult f.taskId f.workRev f.triggerEventId) repairSelected store.items }

def selectedStep (f : StepFields) (args eventId : Bytes) (repairs : Bool) : WorkStep :=
  { contextId := f.contextId, taskId := f.taskId, workRev := f.workRev, requestId := f.requestId, action := f.action,
    triggerEventId := f.triggerEventId, selectedArgs := args, status := lit "selected",
    selectedEventId := clip rtSmall eventId, resultEventId := [], terminalEventId := [],
    repairState := if repairs then lit "repair_attempt" else lit "none" }

/-- The revision counts the selection and takes its identity. -/
def countSelection (f : StepFields) (eventId : Bytes) (r : WorkRevision) : WorkRevision :=
  { r with
    semanticSteps := r.semanticSteps + 1, requestId := f.requestId, action := f.action
    triggerEventId := f.triggerEventId, selectedEventId := clip rtSmall eventId }

/-- A selection of its own on its revision; the source of a repair is marked before the budget is looked at. -/
def freshSelection (w : World) (store : WorkStore) (f : StepFields) (args eventId : Bytes) : WorkStore × Bool :=
  match revisionFor w store f with
  | none => (store, false)
  | some (store, revision) =>
    let repairs := (repairSource store f).isSome
    if repairs && revision.repairAttempts ≥ rtWorkRepairAttemptLimit then (store, false)
    else
      let store := if repairs then markRepair store f else store
      if revision.semanticSteps ≥ rtWorkSemanticStepLimit then (store, false)
      else
        match addStep w.outbox w.rows store (selectedStep f args eventId repairs) with
        | none => (store, false)
        | some store =>
          ({ store with
              revisions := modifyFirst (isRevision f.taskId f.workRev) (countSelection f eventId) store.revisions }, true)

/-- The `action_request` branch. -/
def selectStep (w : World) (store : WorkStore) (f : StepFields) (args eventId : Bytes) : WorkStore × Bool :=
  match stepIndex store f.taskId f.workRev f.requestId with
  | some step =>
    (store, step.action = f.action && step.contextId = f.contextId && step.triggerEventId = f.triggerEventId &&
      step.selectedEventId = eventId)
  | none => freshSelection w store f args eventId

/-! ## Reports on a step -/

/-- `action_started`. -/
def noteStarted (eventId : Bytes) (s : WorkStep) : WorkStep × Bool :=
  if s.startedEventId ≠ [] && s.startedEventId ≠ eventId then (s, false)
  else
    ({ s with
        status := if s.resultEventId = [] then lit "started" else s.status
        startedEventId := clip rtSmall eventId }, true)

/-- `operation_started`. -/
def noteOperation (payload : JsonRef) (s : WorkStep) : WorkStep × Bool :=
  let handle := stringField payload (lit "handle") rtSmall []
  if s.handle ≠ [] && s.handle ≠ handle then (s, false)
  else ({ s with handle := handle, status := if s.resultEventId = [] then lit "running" else s.status }, true)

/-- `work_completed` and `work_blocked`. A step with no result takes the terminal for it. -/
def noteTerminal (type eventId : Bytes) (payload : JsonRef) (s : WorkStep) : WorkStep × Bool :=
  if s.terminalEventId ≠ [] then (s, s.terminalEventId = eventId && s.terminalKind = type)
  else
    let completed := type = lit "work_completed"
    let terminalDetail := if completed then valueDetail payload (lit "summary") else valueDetail payload (lit "blocker")
    let s := { s with
      terminalEventId := clip rtSmall eventId, terminalKind := type
      status := if completed then lit "completed" else lit "blocked", terminalDetail := terminalDetail }
    if s.resultEventId = [] then
      ({ s with resultEventId := clip rtSmall eventId, resultKind := type, detail := terminalDetail }, true)
    else (s, true)

/-- The state a failure leaves for repair. -/
def repairAfterFailure (s : WorkStep) : Bytes :=
  if s.repairState = lit "repair_attempt" then lit "repair_failed" else lit "repair_available"

/-- The result of an action or an operation. -/
def noteResult (type eventId : Bytes) (payload : JsonRef) (payloadJson : Bytes) (s : WorkStep) : WorkStep × Bool :=
  if s.resultEventId ≠ [] then (s, s.resultEventId = eventId && s.resultKind = type)
  else
    let s := { s with resultEventId := clip rtSmall eventId, resultKind := type }
    if type = lit "action_succeeded" then
      ({ s with status := lit "succeeded", detail := valueDetail payload (lit "result") }, true)
    else if type = lit "action_failed" then
      ({ s with status := lit "failed", repairState := repairAfterFailure s, detail := payloadDetail payloadJson }, true)
    else if type = lit "action_rejected" then
      ({ s with status := lit "rejected", repairState := repairAfterFailure s, detail := payloadDetail payloadJson }, true)
    else
      ({ s with
          handle := stringField payload (lit "handle") rtSmall s.handle, status := lit "finished"
          detail := valueDetail payload (lit "text") }, true)

/-- A success that its continuation reports on, or a copy that does not carry its own id: no evidence. -/
def noEvidence (type eventId : Bytes) (payload : JsonRef) : Bool :=
  let continuation := stringField payload (lit "continuation") rtSmall []
  (type = lit "action_succeeded" && (continuation = lit "managed_operation" || continuation = lit "work_terminal")) ||
    jsonRefObjectGetString payload (lit "source_event_id") rtSmall ≠ some eventId

def isTerminalType (type : Bytes) : Bool := type = lit "work_completed" || type = lit "work_blocked"

/-- A step takes the action of a report that has one, if it has none. -/
def takeAction (f : StepFields) (s : WorkStep) : WorkStep :=
  if f.action ≠ [] && s.action = [] then { s with action := f.action } else s

/-- The report is about the call the step was selected for. -/
def sameCall (f : StepFields) (s : WorkStep) : Bool :=
  !(s.selectedEventId ≠ [] && (s.contextId ≠ f.contextId || f.triggerEventId = [] || s.triggerEventId ≠ f.triggerEventId)) &&
    !(f.action ≠ [] && s.action ≠ [] && f.action ≠ s.action)

/-- What each type of report writes on its step. -/
def noteReport (type eventId : Bytes) (payload : JsonRef) (payloadJson : Bytes) (s : WorkStep) : WorkStep × Bool :=
  if type = lit "action_started" then noteStarted eventId s
  else if type = lit "operation_started" then noteOperation payload s
  else if noEvidence type eventId payload then (s, true)
  else if isTerminalType type then noteTerminal type eventId payload s
  else noteResult type eventId payload payloadJson s

/-- A report on a step the ledger has: the step is left as written, whatever the verdict. -/
def reportOn (type eventId : Bytes) (payload : JsonRef) (payloadJson : Bytes) (f : StepFields) (s : WorkStep) :
    WorkStep × Bool :=
  if sameCall f s then noteReport type eventId payload payloadJson (takeAction f s) else (s, false)

/-- The record of a result whose selection is gone. -/
def staleStep (f : StepFields) : WorkStep :=
  { contextId := f.contextId, taskId := f.taskId, workRev := f.workRev, requestId := f.requestId, action := f.action,
    triggerEventId := [], selectedArgs := [], status := lit "stale_result", selectedEventId := [], resultEventId := [],
    terminalEventId := [], repairState := lit "none" }

/-- A task with another revision than the one of the report. -/
def lateReport (w : World) (f : StepFields) : Bool :=
  (rtTaskWorkRevOf w.rows f.taskId).any fun current => current ≠ f.workRev

def isActionReport (type : Bytes) : Bool :=
  type = lit "action_started" || type = lit "action_succeeded" || type = lit "action_failed" || type = lit "action_rejected"

/-- The branches behind `action_request`. A result for an old revision is recorded when there is room. -/
def reportStep (w : World) (store : WorkStore) (type eventId : Bytes) (payload : JsonRef) (payloadJson : Bytes)
    (f : StepFields) : WorkStore × Bool :=
  match stepIndex store f.taskId f.workRev f.requestId with
  | some step =>
    let written := reportOn type eventId payload payloadJson f step
    ({ store with items := modifyFirst (isStep f.taskId f.workRev f.requestId) (fun _ => written.1) store.items }, written.2)
  | none =>
    if type = lit "operation_result" then
      if lateReport w f then
        let written := reportOn type eventId payload payloadJson f (staleStep f)
        match addStep w.outbox w.rows store written.1 with
        | none => (store, true)
        | some store => (store, written.2)
      else (store, true)
    else (store, f.triggerEventId = [] && isActionReport type)

/-! ## Revisions in place -/

/-- `controllerRevision` up to the step it carries over. -/
def childRevision (w : World) (store : WorkStore) (contextId taskId : Bytes) (workRev : Int) (payload : JsonRef) :
    Option (WorkStore × WorkStep) := do
  let l ← lineageOf payload
  guard (0 < l.parentRev ∧ workRev = l.parentRev + 1 ∧ l.requestId ≠ [] ∧ l.action = lit "work" ∧ l.triggerEventId ≠ [])
  let parent ← revisionIndex store taskId l.parentRev
  guard (parent.contextId = contextId ∧ parent.requestId = l.requestId ∧ parent.action = l.action ∧
    parent.triggerEventId = l.triggerEventId)
  let step ← stepIndex store taskId l.parentRev l.requestId
  guard (step.selectedEventId ≠ [] ∧ step.contextId = contextId ∧ step.action = l.action ∧
    step.triggerEventId = l.triggerEventId)
  let store ← addRevision w.rows store
    { contextId := contextId, taskId := taskId, workRev := workRev, parentWorkRev := l.parentRev,
      lineageRootRev := parent.lineageRootRev, semanticSteps := parent.semanticSteps, repairAttempts := parent.repairAttempts,
      requestId := l.requestId, action := l.action, triggerEventId := l.triggerEventId,
      selectedEventId := step.selectedEventId }
  return (store,
    { contextId := contextId, taskId := taskId, workRev := workRev, requestId := l.requestId, action := l.action,
      triggerEventId := l.triggerEventId, selectedArgs := step.selectedArgs, status := lit "revised",
      selectedEventId := step.selectedEventId, resultEventId := [], terminalEventId := [], repairState := step.repairState })

/-- The child stays when the step it carries finds no room. -/
def carryStep (w : World) (store : WorkStore) (child : Option (WorkStore × WorkStep)) : WorkStore × Bool :=
  match child with
  | none => (store, false)
  | some (store, carried) =>
    if (stepIndex store carried.taskId carried.workRev carried.requestId).isSome then (store, true)
    else
      match addStep w.outbox w.rows store carried with
      | none => (store, false)
      | some store => (store, true)

/-- `apply_revision_event`, with the store it leaves when it refuses. -/
def reviseInPlace (w : World) (store : WorkStore) (runContext type : Bytes) (payload : JsonRef) : WorkStore × Bool :=
  match jsonRefObjectGetString payload (lit "task_id") rtSmall with
  | none | some [] => (store, false)
  | some taskId =>
    match revisionBorne type payload with
    | none => (store, true)
    | some workRev =>
      if workRev ≤ 0 then (store, false)
      else
        let contextId := (stepFields runContext payload).contextId
        let controller := type = lit "task_updated" && stringField payload (lit "revision_origin") rtSmall [] = lit "controller"
        match revisionIndex store taskId workRev with
        | some r => (store, sameRevision r contextId controller payload)
        | none =>
          if controller then carryStep w store (childRevision w store contextId taskId workRev payload)
          else
            match addRevision w.rows store (rootRevision contextId taskId workRev) with
            | none => (store, false)
            | some store => (store, true)

/-! ## The reducer -/

/-- An action or operation event that names no step, or none of the controller. -/
def notForLedger (type : Bytes) (f : StepFields) : Bool :=
  f.taskId = [] || f.workRev ≤ 0 || f.requestId = [] ||
    ((isTerminalType type || type = lit "operation_started" || type = lit "action_request") && f.triggerEventId = [])

/-- `apply_to_store`. -/
def applyToStore (w : World) (store : WorkStore) (e : LedgerEvent) : WorkStore × Bool :=
  if !rtWorkStateIsEventType e.type || e.eventId = [] then (store, false)
  else
    match jsonRefTopObject e.payloadJson with
    | none => (store, false)
    | some payload =>
      let f := stepFields e.runContext payload
      if isTaskEvent e.type then reviseInPlace w store e.runContext e.type payload
      else if notForLedger e.type f then (store, true)
      else if e.type = lit "action_request" then selectStep w store f (valueDetail payload (lit "args")) e.eventId
      else reportStep w store e.type e.eventId payload e.payloadJson f

/-- The live path does not open the ledger for an event that is not about a step of a task. -/
def passesBy (type : Bytes) (f : StepFields) : Bool :=
  if isTaskEvent type then f.taskId = [] else f.taskId = [] || f.workRev ≤ 0 || f.requestId = []

/-- `rt_work_state_apply_event`: a refused event and a failed write leave the file as it was. -/
def rtWorkStateApplyEvent (w : World) (store : WorkStore) (e : LedgerEvent) : WorkStore × Bool :=
  if !rtWorkStateIsEventType e.type || e.eventId = [] then (store, false)
  else
    match jsonRefTopObject e.payloadJson with
    | none => (store, false)
    | some payload =>
      if passesBy e.type (stepFields e.runContext payload) then (store, true)
      else
        match applyToStore w store e with
        | (after, true) => if w.outbox.written then (after, true) else (store, false)
        | (_, false) => (store, false)

/-! ## The rebuild -/

/-- A run as the rebuild finds it: its number, the context of its run state and its log. -/
structure LoggedRun where
  number : Int
  contextId : Bytes
  log : Bytes

/-- The event of a log line, if the ledger takes it. -/
def rebuildEvent (contextId line : Bytes) : Option LedgerEvent := do
  let event ← jsonRefTopObject line
  let type ← jsonRefObjectGetString event (lit "type") rtSmall
  guard (rtWorkStateIsEventType type)
  let eventId ← jsonRefObjectGetString event (lit "event_id") rtSmall
  let payload ← jsonRefObjectGetObject event (lit "payload")
  let payloadJson ← jsonRefValueCopy rtXl payload
  return { runContext := contextId, type := type, payloadJson := payloadJson, eventId := eventId }

/-- A tail without a newline was never committed. -/
def logEvents (run : LoggedRun) : List LedgerEvent := (completeLines run.log).filterMap (rebuildEvent run.contextId)

/-- The events of the runs, from the lowest run number up. -/
def replayedEvents (runs : List LoggedRun) : List LedgerEvent :=
  (runs.mergeSort fun a b => a.number ≤ b.number).flatMap logEvents

/-- The rebuild keeps the store of an event it skips. -/
def rebuildStore (w : World) (store : WorkStore) (events : List LedgerEvent) : WorkStore :=
  events.foldl (fun store e => (applyToStore w store e).1) store

/-- `rt_work_state_rebuild_from_logs` over the runs it found. -/
def rtWorkStateRebuildFromLogs (w : World) (store : WorkStore) (runs : List LoggedRun) : WorkStore :=
  rebuildStore w store (replayedEvents runs)

end Floofclaw.Source.WorkSteps
