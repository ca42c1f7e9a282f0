import Floofclaw.Source.Inbound
import Floofclaw.Source.OperationStore
import Floofclaw.Source.TaskEvents

/-!
# The workers phase

Model of `native_agents/workers.c` and of what `operation_driver.c` does to the task
an operation is bound to. A managed call gets an operation when it is dispatched; its
terminal and the completion claims end the operation and write the attempt into the
task's `external` record, which is all the phase reads. Whether an append is durable,
and whether the buffers of a result event hold it, is input. The tasks and the
operations are the rows of their stores.
-/

set_option autoImplicit false

namespace Floofclaw.Source.Workers
open Floofclaw.Lib Floofclaw.Source.Json Floofclaw.Source.TaskState Floofclaw.Source.TaskEvents Floofclaw.Source.Operations
open Floofclaw.Source.Inbound (rtOperationResultTextMax)

def opExternalExcerptMax : Nat := 500
def opFailureTextMax : Nat := 1800

/-! ## The phase -/

structure OpenWork where
  taskId : Bytes
  work : Bytes
  doneWhen : Bytes
  workRev : Int
  external : Bytes

def isOpenWork (contextId : Bytes) (t : TaskItem) : Bool :=
  decide (t.contextId = contextId ∧ t.kind = lit "work" ∧ (t.state = lit "open" ∨ t.state = lit "working"))

/-- `rt_task_open_work_snapshot`. -/
def rtTaskOpenWorkSnapshot (rows : List TaskItem) (contextId : Bytes) : Option OpenWork :=
  if contextId = [] then none
  else (rows.find? (isOpenWork contextId)).map fun t =>
    { taskId := t.taskId, work := t.work, doneWhen := t.doneWhen, workRev := t.workRev
      external := if t.external = [] then lit "null" else t.external }

structure Attempt where
  handle : Bytes
  status : Bytes
  workRev : Int
  excerpt : Bytes

/-- The attempt an external record names. -/
def attemptOf (external : Bytes) : Option Attempt := do
  guard (external ≠ [] ∧ external ≠ lit "null")
  let ext ← (jsonRefFromText external).filter fun v => jsonRefInferType v = .object
  let handle ← jsonRefObjectGetString ext (lit "handle") rtSmall
  guard (handle ≠ [])
  return {
    handle := handle
    status := stringField ext (lit "status") rtSmall []
    workRev := (jsonRefObjectGetLong ext (lit "work_rev") 0).1
    excerpt := stringField ext (lit "result_excerpt") rtMed [] }

/-- The task text of a start, in a buffer of 8832 octets. -/
def startText (w : OpenWork) (excerpt : Bytes) : Option Bytes :=
  let base := w.work ++ lit "\n\nDone when: " ++ w.doneWhen
  let text := if excerpt = [] then base else base ++ lit "\n\nPrior attempt result:\n" ++ excerpt
  if text.length < rtLarge * 2 + rtMed + 128 then some text else none

/-- The call a start emits. -/
def startCall (handler taskId text : Bytes) : Option Bytes := do
  let etext ← mirror ((rtLarge * 2 + rtMed + 128) * 2) text
  let etask ← mirror rtMed taskId
  let call := objText [(lit "name", quoted handler), (lit "args", objText
    [(lit "task_id", quoted etask), (lit "op", quoted (lit "start")), (lit "task", quoted etext)])]
  guard (call.length < (rtLarge * 2 + rtMed + 128) * 2 + rtMed + 128)
  return call

/-- `emit_calls`, with its line break. -/
def emitCalls (cap : Nat) (body : Bytes) : Option Bytes :=
  let out := lit "\x7b\"calls\":[" ++ body ++ lit "]\x7d\n"
  if out.length < cap then some out else none

inductive Phase
  /-- The phase ends with an error code. -/
  | fails
  | idle (stdout : Bytes)
  | starts (taskId stdout : Bytes)

def phaseIdle (cap : Nat) : Phase :=
  match emitCalls cap [] with
  | none => .fails
  | some out => .idle out

/-- The recorded attempt still runs, or it ended at the current revision. -/
def blocks (attempt : Attempt) (workRev : Int) : Bool :=
  decide (attempt.status = lit "running") || decide (workRev ≤ attempt.workRev)

def phaseStart (handler : Bytes) (cap : Nat) (w : OpenWork) (excerpt : Bytes) : Phase :=
  match (startText w excerpt).bind fun text => (startCall handler w.taskId text).bind (emitCalls cap) with
  | none => .fails
  | some out => .starts w.taskId out

/-- `rt_agent_workers_run`. -/
def rtAgentWorkersRun (handler : Bytes) (cap : Nat) (rows : List TaskItem) (contextId : Bytes) : Phase :=
  if handler = [] then .fails
  else
    match rtTaskOpenWorkSnapshot rows contextId with
    | none => phaseIdle cap
    | some w =>
      match attemptOf w.external with
      | none => phaseStart handler cap w []
      | some attempt => if blocks attempt w.workRev then phaseIdle cap else phaseStart handler cap w attempt.excerpt

/-! ## The external record -/

/-- `task_external_matches_attempt`; the binding carries the row's record as it is. -/
def taskExternalMatchesAttempt (rows : List TaskItem) (contextId taskId : Bytes) (currentRev : Int) (handle : Bytes)
    (attemptRev : Int) : Bool :=
  handle ≠ [] && 0 < currentRev && 0 < attemptRev && rtTaskWorkBinding rows contextId taskId currentRev true &&
    ((taskIndexOf rows taskId).bind fun i => rows[i]?).any fun t =>
      (jsonRefFromText t.external).any fun ext =>
        jsonRefInferType ext = .object && jsonRefObjectGetString ext (lit "handle") rtSmall = some handle &&
          jsonRefObjectGetLong ext (lit "work_rev") 0 = (attemptRev, true)

def externalMembers (eh ea es ex : Bytes) (workRev : Int) : List (Bytes × Bytes) :=
  [(lit "handle", quoted eh), (lit "action", quoted ea), (lit "status", quoted es), (lit "work_rev", decInt workRev),
    (lit "result_excerpt", quoted ex)]

/-- The payload of the `task_updated` that carries an attempt. -/
def externalPayload (taskId handle action status excerpt : Bytes) (workRev : Int) : Option Bytes := do
  let etask ← mirror rtMed taskId
  let eh ← mirror rtMed handle
  let ea ← mirror rtMed action
  let es ← mirror rtMed status
  let ex ← mirror (rtMed * 2) (clip (opExternalExcerptMax + 1) excerpt)
  let payload := objText [(lit "task_id", quoted etask),
    (lit "state", objText [(lit "external", objText (externalMembers eh ea es ex workRev))])]
  guard (payload.length < rtLarge)
  return payload

/-- An operation of an older revision writes only where the record is still its own. -/
def currentOrOwn (rows : List TaskItem) (contextId taskId handle : Bytes) (workRev : Int) : Bool :=
  decide (workRev ≤ 0) ||
    (rtTaskWorkRevOf rows taskId).any fun current =>
      decide (current = workRev) || taskExternalMatchesAttempt rows contextId taskId current handle workRev

/-- `update_task_external`: the payload it appends, `none` when it returns before. -/
def updateTaskExternal (rows : List TaskItem) (contextId taskId handle action status excerpt : Bytes) (workRev : Int) :
    Option Bytes :=
  if taskId = [] || !currentOrOwn rows contextId taskId handle workRev then none
  else externalPayload taskId handle action status excerpt workRev

/-! ## Terminals -/

/-- `rt_operation_id_for_request`. -/
def rtOperationIdForRequest (requestId : Bytes) : Option Bytes :=
  if requestId = [] then none
  else
    let safe (c : Byte) : Byte :=
      if (97 ≤ c && c ≤ 122) || (65 ≤ c && c ≤ 90) || isDigit c || c == ch '_' || c == ch '-' then c else ch '_'
    some ((lit "op_" ++ requestId.map safe).take (rtSmall - 1))

/-- `result_text_excerpt`; a text that does not decode into the buffer leaves its first octets. -/
def resultTextExcerpt (result : JsonRef) : Bytes :=
  let member key := (jsonRefObjectGet result key).filter fun v => jsonRefInferType v = .string
  match (member (lit "text")).orElse fun _ => member (lit "final") with
  | none => []
  | some v => cstr ((stringCopyWrite (rtOperationResultTextMax + 1) v).1.take rtOperationResultTextMax)

/-- The message of a failure: its own, or that of its error. -/
def failureMessage (detail : JsonRef) : Bytes :=
  match jsonRefObjectGetString detail (lit "message") (opFailureTextMax + 1) with
  | some message => message
  | none =>
    let left := stringField detail (lit "message") (opFailureTextMax + 1) []
    match jsonRefObjectGetObject detail (lit "error") with
    | none => left
    | some error => stringField error (lit "message") (opFailureTextMax + 1) left

def validationText (detail : JsonRef) : Bytes :=
  match (jsonRefObjectGetArray detail (lit "errors")).filter fun errors => 0 < jsonRefArraySize errors with
  | none => []
  | some errors => (jsonRefValueCopy (opFailureTextMax + 1) errors).getD []

/-- `failure_text_excerpt`. -/
def failureTextExcerpt (action : Bytes) (rejected : Bool) (detailJson : Bytes) : Bytes :=
  let detail := jsonRefFirstObject detailJson
  let message := (detail.map failureMessage).getD []
  let validation := (detail.map validationText).getD []
  clip (opFailureTextMax + 1)
    (lit "Tool " ++ (if action = [] then lit "action" else action) ++ (if rejected then lit " was rejected: " else lit " failed: ") ++
      (if message = [] then lit "no error detail returned" else message) ++
      (if validation = [] then [] else lit " Validation errors: " ++ validation))

/-- How an action call ends, with its result or its error. -/
inductive Terminal
  | succeeded (resultJson : Bytes)
  | failed (detailJson : Bytes)
  | rejected (detailJson : Bytes)

/-- What the driver does about a terminal. -/
inductive Reaction
  | nothing
  /-- The record is closed without a result. -/
  | closes
  /-- A result in this run; a failure allocates the operation it still lacks. -/
  | ends (status text : Bytes)
  | runs (workerHandle : Bytes)
  /-- An unknown status is reported. -/
  | complains
  deriving DecidableEq

/-- A failed or rejected call. -/
def onFailure (stored : Option OperationStatus) (bound : Bool) (text : Bytes) : Reaction :=
  if stored = some .finished then .nothing
  else if bound then if stored.isSome then .closes else .nothing
  else .ends (lit "failed") text

/-- The result of a call that succeeded. -/
def onResult (stored : OperationStatus) (result : JsonRef) : Reaction :=
  match jsonRefObjectGetString result (lit "status") rtSmall with
  | none => .nothing
  | some status =>
    if status = lit "running" then
      if stored = .finished then .nothing
      else
        .runs (match jsonRefObjectGetString result (lit "handle") rtSmall with
          | some handle => handle
          | none => stringField result (lit "op_id") rtSmall (stringField result (lit "handle") rtSmall []))
    else if status = lit "finished" then
      if stored = .finished then .nothing
      else
        .ends (if jsonRefObjectGetString result (lit "state") rtSmall = some (lit "failed") then lit "failed" else lit "succeeded")
          (resultTextExcerpt result)
    else .complains

/-- `rt_operation_driver_on_terminal` for a managed action: what it does, by the status of the operation's record. -/
def rtOperationDriverOnTerminal (stored : Option OperationStatus) (action triggerEventId : Bytes) (workRev : Int) :
    Terminal → Reaction
  | .failed detail => onFailure stored (decide (triggerEventId ≠ [] ∨ 0 < workRev)) (failureTextExcerpt action false detail)
  | .rejected detail => onFailure stored (decide (triggerEventId ≠ [] ∨ 0 < workRev)) (failureTextExcerpt action true detail)
  | .succeeded resultJson =>
    match stored, jsonRefFirstObject resultJson with
    | some stored, some result => onResult stored result
    | _, _ => .nothing

/-! ## The gateway's stores under the driver -/

/-- A managed call on its way; `allocated` says that its operation is there. -/
structure ManagedCall where
  requestId : Bytes
  action : Bytes
  taskId : Bytes
  workRev : Int
  triggerEventId : Bytes
  byPhase : Bool
  allocated : Bool

/-- An operation the phase started. -/
structure Start where
  taskId : Bytes
  workRev : Int
  opId : Bytes
  deriving DecidableEq

structure State where
  rows : List TaskItem
  ops : OperationStore
  calls : List ManagedCall
  starts : List Start

def State.empty : State := { rows := [], ops := [], calls := [], starts := [] }

/-- What a step meets: the route and the deadline of an allocation, whether its event is appended, whether a result event
fits and is appended, and whether the update of the task is appended before the process dies. -/
structure Env where
  contextId : Bytes
  channel : Bytes
  adapterId : Bytes
  originEventId : Bytes
  refJson : Bytes
  deadlineMs : Int
  allocates : Bool
  concludes : Bool
  projects : Bool

structure Config where
  handler : Bytes
  stdoutCap : Nat
  keepFinished : Nat

section Driver
variable (cfg : Config)

def opIdOf (call : ManagedCall) : Bytes := (rtOperationIdForRequest call.requestId).getD []

/-- The revision an operation is recorded at. -/
def recordedRev (rows : List TaskItem) (call : ManagedCall) : Int :=
  if call.workRev ≤ 0 ∧ call.taskId ≠ [] then (rtTaskWorkRevOf rows call.taskId).getD 0 else call.workRev

def startedEvent (rows : List TaskItem) (call : ManagedCall) (env : Env) : OperationStarted :=
  { handle := opIdOf call, action := call.action, requestId := call.requestId, triggerEventId := call.triggerEventId
    taskId := call.taskId, contextId := env.contextId, channel := env.channel, adapterId := env.adapterId
    originEventId := env.originEventId, refJson := env.refJson, workRev := recordedRev rows call
    deadlineMs := env.deadlineMs }

def markAllocated (requestId : Bytes) (calls : List ManagedCall) : List ManagedCall :=
  calls.map fun c => if c.requestId = requestId then { c with allocated := true } else c

/-- `rt_operation_allocate_for_call`. -/
def allocateForCall (s : State) (call : ManagedCall) (env : Env) : State :=
  match opFind s.ops (opIdOf call) with
  | some _ => { s with calls := markAllocated call.requestId s.calls }
  | none =>
    if !env.allocates then s
    else
      match applyStarted cfg.keepFinished (startedEvent s.rows call env) s.ops with
      | .written ops =>
        { s with
          ops := ops
          calls := markAllocated call.requestId s.calls
          starts := if call.byPhase then s.starts ++ [⟨call.taskId, recordedRev s.rows call, opIdOf call⟩] else s.starts }
      | _ => s

/-- The update of the task an operation belongs to. -/
def project (s : State) (op : OperationItem) (status excerpt : Bytes) (env : Env) : State :=
  match updateTaskExternal s.rows op.contextId op.taskId op.handle op.action status excerpt op.workRev with
  | none => s
  | some payload =>
    if !env.projects then s else { s with rows := (applyTaskEvent s.rows (lit "task_updated") payload).getD s.rows }

def resultEvent (op : OperationItem) (status text : Bytes) : OperationResult :=
  { handle := op.handle, workerHandle := [], action := op.action, requestId := op.requestId
    triggerEventId := op.triggerEventId, taskId := op.taskId, contextId := op.contextId, channel := op.channel
    adapterId := op.adapterId, originEventId := op.originEventId, refJson := op.refJson, workRev := op.workRev
    sourceEventId := [], status := status, text := text }

/-- `terminalize_in_run`, and the commit of a completion claim: the result, then the task. -/
def conclude (s : State) (opId status text : Bytes) (env : Env) : State :=
  match opFind s.ops opId with
  | none => s
  | some op =>
    if op.status = .finished ∨ !env.concludes then s
    else
      match applyResult cfg.keepFinished (resultEvent op status text) s.ops with
      | .written ops => project { s with ops := ops } op (lit "finished") text env
      | _ => s

def closeWithoutResult (s : State) (opId : Bytes) : State :=
  match rtOperationCloseWithoutResult cfg.keepFinished opId s.ops with
  | .written ops => { s with ops := ops }
  | _ => s

/-- The worker handle is kept, and the task learns of the attempt. -/
def noteRunning (s : State) (opId workerHandle : Bytes) (env : Env) : State :=
  let ops := match rtOperationSetWorkerHandle opId workerHandle s.ops with
    | .written ops => ops
    | _ => s.ops
  match opFind ops opId with
  | none => { s with ops := ops }
  | some op => project { s with ops := ops } op (lit "running") [] env

def react (s : State) (call : ManagedCall) (env : Env) : Reaction → State
  | .nothing | .complains => s
  | .closes => closeWithoutResult cfg s (opIdOf call)
  | .runs workerHandle => noteRunning s (opIdOf call) workerHandle env
  | .ends status text =>
    let s := if (opFind s.ops (opIdOf call)).isNone then allocateForCall cfg s call env else s
    conclude cfg s (opIdOf call) status text env

def storedStatus (s : State) (call : ManagedCall) : Option OperationStatus := (opFind s.ops (opIdOf call)).map OperationItem.status

def reactionTo (s : State) (call : ManagedCall) (t : Terminal) : Reaction :=
  rtOperationDriverOnTerminal (storedStatus s call) call.action call.triggerEventId call.workRev t

def dropCall (s : State) (requestId : Bytes) : State :=
  { s with calls := s.calls.filter fun c => c.requestId ≠ requestId }

/-- The terminal of a call is appended, the driver reacts, and the call is over. -/
def onTerminal (s : State) (call : ManagedCall) (t : Terminal) (env : Env) : State :=
  dropCall (react cfg s call env (reactionTo s call t)) call.requestId

def ambiguousDetail : Bytes :=
  lit "\x7b\"message\":\"outside-world completion is ambiguous; the action was not replayed\"\x7d"

inductive Step
  /-- An event of the task store that does not come from the driver. -/
  | taskEvent (type payloadJson : Bytes)
  /-- The workers phase of a run; the call it emits becomes an action request. -/
  | phase (contextId requestId : Bytes)
  /-- A managed call of another agent. -/
  | request (call : ManagedCall)
  | allocate (requestId : Bytes) (env : Env)
  | terminal (requestId : Bytes) (t : Terminal) (env : Env)
  /-- The process dies between the terminal of a call and the driver's reaction. -/
  | lost (requestId : Bytes)
  /-- A run is recovered whose outside-world call was under way. -/
  | recovered (requestId : Bytes) (env : Env)
  /-- A completion or a timeout is admitted. -/
  | claim (opId status text : Bytes) (env : Env)

/-- A C string in its buffer. -/
def isTaskId (s : Bytes) : Bool := s.all (· != 0) && decide (s.length < rtSmall)

def findCall (s : State) (requestId : Bytes) : Option ManagedCall := s.calls.find? fun c => c.requestId = requestId

def addCall (s : State) (call : ManagedCall) : Option State :=
  if (findCall s call.requestId).isSome then none else some { s with calls := s.calls ++ [call] }

def step (s : State) : Step → Option State
  | .taskEvent type payloadJson => some { s with rows := (applyTaskEvent s.rows type payloadJson).getD s.rows }
  | .phase contextId requestId =>
    match rtAgentWorkersRun cfg.handler cfg.stdoutCap s.rows contextId with
    | .fails | .idle _ => some s
    | .starts taskId _ => addCall s ⟨requestId, cfg.handler, taskId, 0, [], true, false⟩
  | .request call => if !isTaskId call.taskId then none else addCall s { call with byPhase := false, allocated := false }
  | .allocate requestId env => (findCall s requestId).map fun call => allocateForCall cfg s call env
  | .terminal requestId t env => (findCall s requestId).map fun call => onTerminal cfg s call t env
  | .lost requestId => (findCall s requestId).map fun _ => dropCall s requestId
  | .recovered requestId env => (findCall s requestId).map fun call =>
    onTerminal cfg (closeWithoutResult cfg s (opIdOf call)) call (.failed ambiguousDetail) env
  | .claim opId status text env => some (conclude cfg s opId status text env)

end Driver

end Floofclaw.Source.Workers
