import Floofclaw.Source.Operations
import Floofclaw.Source.OperationEvents
import Floofclaw.Source.StoreFile

/-!
# The operation store on disk

`operation_state.c` with its file: the loader and the writer of
`operations.json`, the reducer on payload texts, and the four direct writes.
The arguments of a call are C strings. A status text other than the two the
writer prints loads as running.
-/

set_option autoImplicit false

namespace Floofclaw.Source.OperationStore
open Floofclaw.Lib Floofclaw.Source.Json Floofclaw.Source.StoreFile Floofclaw.Source.Operations
open Floofclaw.Source.OperationEvents (storedRef)

def operationDefaultKeepFinished : Int := 100

/-! ## Loading -/

def loadedStatus (item : JsonRef) : OperationStatus :=
  match jsonRefObjectGetString item (lit "status") rtSmall with
  | none => .running
  | some s => if s = lit "finished" then .finished else .running

/-- One entry of the `operations` array; `none` skips it. -/
def loadItem (item : JsonRef) : Option OperationItem :=
  if jsonRefInferType item ≠ .object then none
  else
    match jsonRefObjectGetString item (lit "handle") rtSmall with
    | none | some [] => none
    | some handle =>
      some
        { handle := handle
          workerHandle := stringField item (lit "worker_handle") rtSmall []
          action := stringField item (lit "action") rtSmall []
          requestId := stringField item (lit "request_id") rtSmall []
          triggerEventId := stringField item (lit "trigger_event_id") rtSmall []
          taskId := stringField item (lit "task_id") rtSmall []
          contextId := stringField item (lit "context_id") rtMed []
          channel := stringField item (lit "channel") rtSmall []
          adapterId := stringField item (lit "adapter_id") rtSmall []
          originEventId := stringField item (lit "origin_event_id") rtSmall []
          refJson := storedRef item
          status := loadedStatus item
          workRev := (jsonRefObjectGetLong item (lit "work_rev") 0).1
          deadlineMs := (jsonRefObjectGetLong item (lit "deadline_ms") 0).1
          completionToken := stringField item (lit "completion_token") (rtOperationTokenHex + 1) []
          claimEnvelopeId := stringField item (lit "claim_envelope_id") rtSmall [] }

/-- `load_store` on the text that was read. -/
def loadStore (text : Option Bytes) : OperationStore :=
  ((storeRows (lit "operations") text).filterMap loadItem).take operationMaxItems

/-! ## The configured cap -/

/-- `appliance.operations.keep_finished`, or its default. -/
def keepFinishedSetting (config : Option Bytes) : Int :=
  let v :=
    match config.bind fun text => (jsonRefFirstObject text).bind fun root =>
        (jsonRefObjectGetObject root (lit "appliance")).bind fun appliance =>
          jsonRefObjectGetObject appliance (lit "operations") with
    | none => operationDefaultKeepFinished
    | some ops => (jsonRefObjectGetLong ops (lit "keep_finished") operationDefaultKeepFinished).1
  if 0 < v then v else operationDefaultKeepFinished

/-- `keep_finished_cap`: the setting as a 32-bit `int`. -/
def keepFinishedCap (config : Option Bytes) : Int := (keepFinishedSetting config).bmod (2 ^ 32)

/-- The number of finished records the purge leaves: none below a negative cap. -/
def keepFinished (config : Option Bytes) : Nat := (keepFinishedCap config).toNat

/-! ## Writing -/

def statusText : OperationStatus → Bytes
  | .running => lit "running"
  | .finished => lit "finished"

/-- The members of a row, in the order of its format. -/
def rowMembers (o : OperationItem) : Option (List (Bytes × Bytes)) := do
  let eh ← mirror rtMed o.handle
  let ewh ← mirror rtMed o.workerHandle
  let ea ← mirror rtMed o.action
  let erid ← mirror rtMed o.requestId
  let etrigger ← mirror rtMed o.triggerEventId
  let et ← mirror rtMed o.taskId
  let ec ← mirror rtMed o.contextId
  let ech ← mirror rtMed o.channel
  let ead ← mirror rtMed o.adapterId
  let eorigin ← mirror rtMed o.originEventId
  let etoken ← mirror (rtOperationTokenHex * 2 + 2) o.completionToken
  let eclaim ← mirror rtMed o.claimEnvelopeId
  let es ← mirror rtMed (statusText o.status)
  return [(lit "handle", quoted eh), (lit "worker_handle", quoted ewh), (lit "action", quoted ea),
    (lit "request_id", quoted erid), (lit "trigger_event_id", quoted etrigger), (lit "task_id", quoted et),
    (lit "context_id", quoted ec), (lit "channel", quoted ech), (lit "adapter_id", quoted ead),
    (lit "origin_event_id", quoted eorigin), (lit "ref", if o.refJson = [] then lit "null" else o.refJson),
    (lit "status", quoted es), (lit "work_rev", decInt o.workRev), (lit "deadline_ms", decInt o.deadlineMs),
    (lit "completion_token", quoted etoken), (lit "claim_envelope_id", quoted eclaim)]

/-- A row in its buffer of `RT_LARGE` octets. -/
def row (first : Bool) (o : OperationItem) : Option (List Bytes) := do
  let ms ← rowMembers o
  let item := separator first ++ objText ms
  guard (item.length < rtLarge)
  return [item]

def writeStore (st : OperationStore) : Option Bytes :=
  StoreFile.writeStore (rtXl * 2) (lit "\x7b\"operations\":[") row st

/-! ## Calls -/

def rtOperationIsEventType (type : Bytes) : Bool := [lit "operation_started", lit "operation_result"].contains type

/-- The fields the reducer reads of an `operation_started` payload. -/
def startedOf (handle : Bytes) (payload : JsonRef) : OperationStarted :=
  { handle := handle
    action := stringField payload (lit "action") rtSmall []
    requestId := stringField payload (lit "request_id") rtSmall []
    triggerEventId := stringField payload (lit "trigger_event_id") rtSmall []
    taskId := stringField payload (lit "task_id") rtSmall []
    contextId := stringField payload (lit "context_id") rtMed []
    channel := stringField payload (lit "channel") rtSmall []
    adapterId := stringField payload (lit "adapter_id") rtSmall []
    originEventId := stringField payload (lit "origin_event_id") rtSmall []
    refJson := storedRef payload
    workRev := (jsonRefObjectGetLong payload (lit "work_rev") 0).1
    deadlineMs := (jsonRefObjectGetLong payload (lit "deadline_ms") 0).1 }

/-- The fields it reads of an `operation_result` payload; the result itself is not stored. -/
def resultOf (handle : Bytes) (payload : JsonRef) : OperationResult :=
  { handle := handle
    workerHandle := []
    action := stringField payload (lit "action") rtSmall []
    requestId := stringField payload (lit "request_id") rtSmall []
    triggerEventId := stringField payload (lit "trigger_event_id") rtSmall []
    taskId := stringField payload (lit "task_id") rtSmall []
    contextId := stringField payload (lit "context_id") rtMed []
    channel := stringField payload (lit "channel") rtSmall []
    adapterId := stringField payload (lit "adapter_id") rtSmall []
    originEventId := stringField payload (lit "origin_event_id") rtSmall []
    refJson := storedRef payload
    workRev := (jsonRefObjectGetLong payload (lit "work_rev") 0).1
    sourceEventId := []
    status := []
    text := [] }

/-- `rt_operation_apply_event` on the loaded store. -/
def rtOperationApplyEvent (keep : Nat) (type payloadJson : Bytes) (st : OperationStore) : Reduced :=
  if rtOperationIsEventType type then
    match (jsonRefTopObject payloadJson).bind fun payload =>
        (jsonRefObjectGetString payload (lit "handle") rtSmall).map fun handle => (payload, handle) with
    | none => .refused
    | some (payload, handle) =>
      if handle = [] then .refused
      else if type = lit "operation_started" then applyStarted keep (startedOf handle payload) st
      else applyResult keep (resultOf handle payload) st
  else .refused

/-- The mutators of the store. -/
inductive Call
  | applyEvent (type payloadJson : Bytes)
  | bindSecret (operationId token : Bytes)
  | setWorkerHandle (operationId workerHandle : Bytes)
  | bindClaimEnvelope (operationId envelopeId : Bytes)
  | closeWithoutResult (operationId : Bytes)

/-- What a call makes of the loaded store. Each direct write copies its text into the record's buffer. -/
def reduce (keep : Nat) : Call → OperationStore → Reduced
  | .applyEvent type payloadJson, st => rtOperationApplyEvent keep type payloadJson st
  | .bindSecret id token, st => rtOperationBindSecret (cstr id) (clip (rtOperationTokenHex + 1) (cstr token)) st
  | .setWorkerHandle id handle, st => rtOperationSetWorkerHandle (cstr id) (clip rtSmall (cstr handle)) st
  | .bindClaimEnvelope id envelope, st => rtOperationBindClaimEnvelope (cstr id) (clip rtSmall (cstr envelope)) st
  | .closeWithoutResult id, st => rtOperationCloseWithoutResult keep (cstr id) st

/-- A whole call: the file it leaves and whether it succeeded. -/
def call (config : Option Bytes) (io : FileIo) (c : Call) (file : Option Bytes) : Option Bytes × Bool :=
  match reduce (keepFinished config) c (loadStore (fsReadText io file)) with
  | .refused => (file, false)
  | .unchanged => (file, true)
  | .written st =>
    match writeStore st with
    | none => (file, false)
    | some text => if io.writable then (some text, true) else (file, false)

/-! ## Queries -/

/-- `rt_operation_list_deadline_due`: the running records whose deadline has passed, or that have none. -/
def rtOperationListDeadlineDue (nowMs : Int) (max : Nat) (st : OperationStore) : List Bytes :=
  ((st.filter fun o => o.status = .running ∧ ¬ (0 < o.deadlineMs ∧ nowMs < o.deadlineMs)).map (·.handle)).take max

end Floofclaw.Source.OperationStore
