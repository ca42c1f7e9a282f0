import Floofclaw.Source.Claims
import Floofclaw.Source.Inbound
import Floofclaw.Source.Runner
import Floofclaw.Source.TaskState

/-!
# Runs on disk and in memory

Model of the control half of a run: `run_state.c` with its `runstate.json`,
the append path behind it, and the lifecycle events of `run.c`. What is on
disk is kept apart from the slot of the process, and the disk remembers every
state it has passed through, since that is where a crash can leave it. How the
next writes end comes in with the disk. The log is decoded, and so is a claim's
canonical result; task payloads are text. The work-step ledger is left out: it
is rebuilt from the logs before any run is recovered.
-/

set_option autoImplicit false

namespace Floofclaw.Source.Runs
open Floofclaw.Lib Floofclaw.Source.Json Floofclaw.Source.EventLog Floofclaw.Source.Actions
open Floofclaw.Source.Operations Floofclaw.Source.TaskState

/-! ## Control -/

inductive RunState
  | ready | running | waitingJobs | waitingEvent | waitingActionSlot | done | failed
  deriving DecidableEq, Repr

/-- Two waiting states share a name. -/
def rtRunStatusName : RunState → Bytes
  | .ready => lit "ready"
  | .running => lit "running"
  | .waitingJobs => lit "waiting_jobs"
  | .waitingEvent => lit "waiting_event"
  | .waitingActionSlot => lit "waiting_event"
  | .done => lit "done"
  | .failed => lit "failed"

def RunState.terminal : RunState → Bool
  | .done | .failed => true
  | _ => false

def runStates : List RunState := [.ready, .running, .waitingJobs, .waitingEvent, .waitingActionSlot, .done, .failed]

def runStateForStatus (status : Bytes) : Option RunState := runStates.find? fun s => rtRunStatusName s = status

def rtRunStatusIsTerminal (status : Bytes) : Bool := (runStateForStatus status).any RunState.terminal

/-- What recovery reads of `runstate.json`. -/
structure Control where
  status : Bytes
  profile : Bytes
  advance : Nat
  phase : Nat
  deriving DecidableEq

structure RtStep where
  id : Bytes
  type : Bytes
  target : Bytes
  gate : Bytes := []
  nonCritical : Bool := false
  deriving DecidableEq

structure RtProfile where
  name : Bytes
  steps : List RtStep
  onePass : Bool := false
  retryAttempts : Nat := 0
  deriving DecidableEq

/-! ## Disk -/

/-- The payload of a first event: the text of an envelope, or the canonical result of a claim. -/
inductive InboundPayload
  | text (payload : Bytes)
  | result (ev : OperationResult)
  deriving DecidableEq

inductive Entry
  | inbound (type source : Bytes) (payload : InboundPayload)
  | task (type payload : Bytes)
  | action (body : Actions.Body)
  | error (message : Bytes)
  | runStarted
  | runEnd (ok : Bool)
  deriving DecidableEq

inductive Line
  | event (number : Nat) (entry : Entry)
  | corrupt
  deriving DecidableEq

/-- The stores the intake of an event can reach: the rows of `tasks.json`, the operation records and the lines of
`memory.jsonl`, as type and text. -/
structure Stores where
  tasks : List TaskItem := []
  ops : OperationStore := []
  memory : List (Bytes × Bytes) := []
  deriving DecidableEq

/-- What a run has on disk, with the stores all runs share. -/
structure Durable where
  log : List Line := []
  /-- The log ends in a line without its newline. -/
  torn : Bool := false
  control : Option Control := none
  stores : Stores := {}
  /-- `trace.jsonl`: a step and its type are written there when the step is dispatched. -/
  trace : List (Bytes × Bytes) := []
  deriving DecidableEq

/-- The disk, the states it was in before, and how its next writes end. -/
structure Disk where
  now : Durable
  past : List Durable := []
  fates : List Fate := []
  deriving DecidableEq

def Disk.fate (d : Disk) : Fate := d.fates.headD .done

def Disk.wrote (d : Disk) (now : Durable) : Disk :=
  { now := now, past := d.past ++ [d.now], fates := d.fates.tail }

def Durable.addLine (w : Durable) (number : Nat) (entry : Entry) : Durable :=
  -- behind a torn line it is part of that
  { w with log := w.log ++ [if w.torn then .corrupt else .event number entry], torn := false }

/-- An append, torn on its way. -/
def Disk.append (d : Disk) (number : Nat) (entry : Entry) : Disk × Bool :=
  let torn := d.wrote { d.now with torn := true }
  let whole := { torn with now := d.now.addLine number entry, past := torn.past ++ [torn.now] }
  match d.fate with
  | .done => (whole, true)
  | .reported => (whole, false)
  | .torn => (torn, false)
  | .lost => ({ d with fates := d.fates.tail }, false)

/-- The replacement of a whole file: done, or reported as failed with the old or the new text in place. -/
def Disk.replace (d : Disk) (now : Durable) : Disk × Bool :=
  match d.fate with
  | .done => (d.wrote now, true)
  | .reported => (d.wrote now, false)
  | .torn | .lost => ({ d with fates := d.fates.tail }, false)

/-! ## Slots -/

inductive Wait
  | none
  | agent (stepId : Bytes)
  | action (requestId action : Bytes)
  | slot (requestId action : Bytes)
  deriving DecidableEq

/-- A slot of the run pool. -/
structure RtRun where
  number : Nat
  nextEvent : Nat := 1
  phase : Nat := 0
  state : RunState := .ready
  wait : Wait := .none
  runStarted : Bool := false
  terminalEmitted : Bool := false
  ledger : Ledger := {}
  contextId : Bytes := []
  eventKind : Bytes := []
  eventPayload : InboundPayload := .text []
  originChannel : Bytes := []
  inboundAffairId : Bytes := []
  createdFromType : Bytes := []
  advance : Nat := 0
  attempts : Nat := 0
  waitingJobs : List Bytes := []
  deliveredMessage : Bool := false
  workProgress : Bool := false
  memoryCompactionDue : Bool := false
  actionCliOnly : Bool := false
  deriving DecidableEq

def RtRun.runId (r : RtRun) : Bytes := lit "run_" ++ decPadded 3 r.number

def rtMaxWaitingJobs : Nat := 16
def rtMaxProfilePasses : Nat := 32

def RtRun.control (r : RtRun) (profile : RtProfile) : Control :=
  { status := rtRunStatusName r.state, profile := profile.name, advance := r.advance, phase := r.phase }

/-- `rt_run_persist_state`. -/
def rtRunPersistState (profile : RtProfile) (r : RtRun) (d : Disk) : Disk × Bool :=
  d.replace { d.now with control := some (r.control profile) }

/-- `rt_run_set_state`: the slot moves on whatever becomes of the file. -/
def rtRunSetState (profile : RtProfile) (r : RtRun) (d : Disk) (state : RunState) : RtRun × Disk :=
  let r := { r with state := state }
  (r, (rtRunPersistState profile r d).1)

def rtRunSetPhaseIndex (profile : RtProfile) (r : RtRun) (d : Disk) (phase : Nat) : RtRun × Disk :=
  let r := { r with phase := phase }
  (r, (rtRunPersistState profile r d).1)

local instance bytesLawful : LawfulBEq Bytes := inferInstance

def rtRunWaitingJobAdd (profile : RtProfile) (r : RtRun) (d : Disk) (jobId : Bytes) : RtRun × Disk :=
  if jobId = [] ∨ jobId ∈ r.waitingJobs then (r, d)
  else
    let r := if r.waitingJobs.length ≥ rtMaxWaitingJobs then r else { r with waitingJobs := r.waitingJobs ++ [jobId] }
    (r, (rtRunPersistState profile r d).1)

/-! ## Appending -/

/-- The counter moves whatever becomes of the line. -/
def appendLine (r : RtRun) (d : Disk) (entry : Entry) : RtRun × Disk × Bool :=
  let (d, ok) := d.append r.nextEvent entry
  ({ r with nextEvent := r.nextEvent + 1 }, d, ok)

/-- A store's reducer, `none` where it refuses; a failure of either kind leaves an error in the log. -/
def reduceStore (r : RtRun) (d : Disk) (stores : Option Stores) (message : Bytes) : RtRun × Disk :=
  let failed (d : Disk) : RtRun × Disk :=
    let (r, d, _) := appendLine r d (.error message)
    (r, d)
  match stores with
  | none => failed d
  | some stores =>
    match d.replace { d.now with stores := stores } with
    | (d, true) => (r, d)
    | (d, false) => failed d

/-- `rt_task_apply_event` on the rows of the store. -/
def taskApply (stores : Stores) (type payload : Bytes) : Option Stores :=
  match (jsonRefTopObject payload).bind fun ref => reduceTasks stores.tasks type ref with
  | none => none
  | some rows => if (writeStore rows).isSome then some { stores with tasks := rows } else none

/-- A text of the run's `memory.jsonl`; a message is filed under the context of its payload or of the run. -/
def memoryApply (stores : Stores) (contextId type payload : Bytes) : Option Stores :=
  match jsonRefFirstObject payload with
  | none => none
  | some root =>
    match jsonRefObjectGetString root (lit "text") rtLarge with
    | none | some [] => none
    | some text =>
      let context := stringField root (lit "context_id") rtMed (if contextId = [] then lit "chat:cli" else contextId)
      let through := stringField root (lit "through") rtSmall []
      if (mirror (rtLarge * 2) text).isNone then none
      else if (type = lit "user" ∨ type = lit "asst") ∧ (mirror (rtMed * 2) context).isNone then none
      else if type = lit "summ" ∧ (mirror rtSmall through).isNone then none
      else some { stores with memory := stores.memory ++ [(type, text)] }

/-- The members of a result payload the operation store reads. -/
def readResult (payload : Bytes) : Option OperationResult :=
  match jsonRefTopObject payload with
  | none => none
  | some root =>
    let field (key : Bytes) : Bytes := stringField root key rtSmall []
    let ref := ((jsonRefObjectGet root (lit "ref")).bind (jsonRefValueCopy rtMed)).getD []
    some
      { handle := field (lit "handle"), workerHandle := field (lit "worker_handle"), action := field (lit "action")
        requestId := field (lit "request_id"), triggerEventId := field (lit "trigger_event_id")
        taskId := field (lit "task_id"), contextId := stringField root (lit "context_id") rtMed []
        channel := field (lit "channel"), adapterId := field (lit "adapter_id")
        originEventId := field (lit "origin_event_id"), refJson := if ref = lit "null" then [] else ref
        workRev := (jsonRefObjectGetLong root (lit "work_rev") 0).1, sourceEventId := field (lit "source_event_id")
        status := field (lit "status"), text := field (lit "text") }

def InboundPayload.operationResult : InboundPayload → Option OperationResult
  | .text payload => readResult payload
  | .result ev => some ev

def operationApply (keepFinished : Nat) (stores : Stores) (payload : InboundPayload) : Option Stores :=
  match payload.operationResult with
  | none => none
  | some ev =>
    match applyResult keepFinished ev stores.ops with
    | .refused => none
    | .unchanged => some stores
    | .written ops => some { stores with ops := ops }

/-- The reducer that owns an event of the intake, with the message its failure is reported under. -/
def subsystemReducer (keepFinished : Nat) (contextId : Bytes) (stores : Stores) : Entry → Option (Bytes × Option Stores)
  | .inbound type _ payload =>
    if rtMemoryIsRecordType type then
      match payload with
      | .text text => some (lit "memory record missing text", memoryApply stores contextId type text)
      | .result _ => none
    else if rtOperationIsEventType type then
      some (lit "operation event failed reducer", operationApply keepFinished stores payload)
    else none
  | .task type payload => some (lit "task event failed reducer", taskApply stores type payload)
  | _ => none

/-- `rt_append_event`. -/
def rtAppendEvent (keepFinished : Nat) (r : RtRun) (d : Disk) (entry : Entry) : RtRun × Disk × Bool :=
  match appendLine r d entry with
  | (r, d, false) => (r, d, false)
  | (r, d, true) =>
    match subsystemReducer keepFinished r.contextId d.now.stores entry with
    | none => (r, d, true)
    | some (message, stores) =>
      let (r, d) := reduceStore r d stores message
      (r, d, true)

/-! ## Ending -/

def taskKindIsMessage (kind : Bytes) : Bool := kind = lit "input" || kind = lit "notification"

/-- The task an event of a reserved kind is bound to. -/
def boundTask (r : RtRun) : Bytes :=
  match r.eventPayload with
  | .result ev => ev.taskId
  | .text payload =>
    if Inbound.busTypeIsReserved r.eventKind then
      match jsonRefTopObject payload with
      | none => []
      | some root => stringField root (lit "task_id") rtSmall []
    else []

/-- The open message tasks a run answers for: born in it, or bound to it by its event. -/
def openMessageTasks (r : RtRun) (tasks : List TaskItem) : List Bytes :=
  (tasks.filter fun t =>
    taskKindIsMessage t.kind && t.state = lit "open" &&
      ((lit "task_" ++ r.runId ++ lit "_").isPrefixOf t.taskId ||
        (boundTask r ≠ [] && t.taskId = boundTask r && t.contextId = r.contextId))).map TaskItem.taskId

/-- `rt_task_terminalize_open_message_tasks_for_run`; its failure is ignored. -/
def terminalizeTasks (keepFinished : Nat) (type state : Bytes) : List Bytes → RtRun → Disk → RtRun × Disk
  | [], r, d => (r, d)
  | id :: ids, r, d =>
    match mirror rtMed id with
    | none => (r, d)
    | some eid =>
      match rtAppendEvent keepFinished r d
          (.task type (objText [(lit "task_id", quoted eid), (lit "state", quoted state)])) with
      | (r, d, true) => terminalizeTasks keepFinished type state ids r d
      | (r, d, false) => (r, d)

inductive Ending
  | done | failed | canceled
  deriving DecidableEq, Repr

def Ending.state : Ending → RunState
  | .done => .done
  | .failed | .canceled => .failed

def endTasks (keepFinished : Nat) (r : RtRun) (d : Disk) : Ending → RtRun × Disk
  | .done => (r, d)
  | .failed => terminalizeTasks keepFinished (lit "task_failed") (lit "failed") (openMessageTasks r d.now.stores.tasks) r d
  | .canceled =>
    terminalizeTasks keepFinished (lit "task_canceled") (lit "canceled") (openMessageTasks r d.now.stores.tasks) r d

/-- `apply_run_terminal_event`: a lifecycle event that cannot be written makes the run a failed one. -/
def applyRunTerminalEvent (keepFinished : Nat) (profile : RtProfile) (r : RtRun) (d : Disk) (ending : Ending) :
    RtRun × Disk :=
  if r.terminalEmitted then (r, d)
  else
    let (r, d) := endTasks keepFinished r d ending
    let (r, d, ok) := rtAppendEvent keepFinished r d (.runEnd (ending = .done))
    rtRunSetState profile { r with terminalEmitted := true } d (if ok then ending.state else .failed)

end Floofclaw.Source.Runs
