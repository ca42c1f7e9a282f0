import Floofclaw.Source.Inbound

/-!
# Operation events

Model of the payloads `operation_driver.c` assembles: `operation_started` in
`rt_operation_allocate_for_call`, and the `operation_result` of
`terminalize_in_run` with the bus wake that goes to the outbox beside it. The
canonical result of a completion claim is `populateCompletionContext`. The ref
is spliced as JSON text; all other fields are escaped into mirrors first.
-/

set_option autoImplicit false

namespace Floofclaw.Source.OperationEvents
open Floofclaw.Lib Floofclaw.Source.Json Floofclaw.Source.Inbound

def busPayloadMax : Nat := 16384

/-- The fields of a run context an operation takes its route from, as intake fills them: C strings within their
buffers, and a ref that is absent or an object. -/
structure Origin where
  contextId : Bytes
  channel : Bytes
  adapterId : Bytes
  originEventId : Bytes
  refJson : Bytes
  contextOk : TextField rtMed contextId
  routeOk : ∀ s ∈ [channel, adapterId, originEventId], TextField rtSmall s
  refOk : refJson = [] ∨ CleanObject refJson
  refFits : refJson.length < rtLarge

/-- The managed call an operation is allocated for. -/
structure ManagedCall where
  opId : Bytes
  action : Bytes
  requestId : Bytes
  triggerEventId : Bytes
  taskId : Bytes
  workRev : Int
  deadlineMs : Int
  fieldsOk : ∀ s ∈ [opId, action, requestId, triggerEventId, taskId], TextField rtSmall s

/-- The record fields the correlation block is made of. -/
structure Correlation where
  taskId : Bytes
  contextId : Bytes
  channel : Bytes
  adapterId : Bytes
  originEventId : Bytes
  refJson : Bytes

def Correlation.members (op : Correlation) (etask ectx ech ead eorigin : Bytes) : List (Bytes × Bytes) :=
  [(lit "task_id", quoted etask), (lit "context_id", quoted ectx), (lit "channel", quoted ech),
    (lit "adapter_id", quoted ead), (lit "origin_event_id", quoted eorigin),
    (lit "ref", if op.refJson = [] then lit "null" else op.refJson)]

/-- `correlation_fields_from_op` into a buffer of `RT_LARGE` octets. -/
def correlationFieldsFromOp (op : Correlation) : Option (List (Bytes × Bytes)) := do
  let ectx ← mirror rtMed op.contextId
  let ech ← mirror rtMed op.channel
  let ead ← mirror rtMed op.adapterId
  let etask ← mirror rtMed op.taskId
  let eorigin ← mirror rtMed op.originEventId
  guard ((membersText (op.members etask ectx ech ead eorigin)).length < rtLarge)
  return op.members etask ectx ech ead eorigin

/-- The record the allocation fills before anything is durable. Its ref buffer is shorter than the context's. -/
def allocatedRecord (origin : Origin) (call : ManagedCall) : Correlation where
  taskId := clip rtSmall call.taskId
  contextId := clip rtMed origin.contextId
  channel := clip rtSmall origin.channel
  adapterId := clip rtSmall origin.adapterId
  originEventId := clip rtSmall origin.originEventId
  refJson := clip rtMed origin.refJson

/-- What `rt_operation_status` answers for the operation id of a call. -/
inductive Lookup
  | failed
  | found
  | absent
  deriving DecidableEq, Repr

/-- `rt_operation_allocate_for_call`: the `operation_started` payload it appends, `none` when it appends nothing. -/
def rtOperationAllocateForCall (lookup : Lookup) (origin : Origin) (call : ManagedCall) : Option Bytes :=
  if lookup = .absent then do
    let eh ← mirror rtMed call.opId
    let ea ← mirror rtMed call.action
    let erid ← mirror rtMed call.requestId
    let etrigger ← mirror rtMed call.triggerEventId
    let corr ← correlationFieldsFromOp (allocatedRecord origin call)
    let payload := objText ([(lit "handle", quoted eh), (lit "action", quoted ea), (lit "request_id", quoted erid),
      (lit "trigger_event_id", quoted etrigger)] ++ corr ++
      [(lit "work_rev", decInt call.workRev), (lit "deadline_ms", decInt call.deadlineMs)])
    guard (payload.length < rtLarge)
    return payload
  else none

/-- The ref the store takes from a payload: raw, up to 511 octets, and none for `null`. -/
def storedRef (payload : Bytes) : Bytes :=
  match (jsonRefObjectGet payload (lit "ref")).bind (jsonRefValueCopy rtMed) with
  | none => []
  | some raw => if raw = lit "null" then [] else raw

/-- What `terminalize_in_run` appends, and the wake it hands to the outbox before. -/
structure Terminalized where
  payload : Bytes
  wake : Option Bytes

def recordCorrelation (op : RtOperationSnapshot) : Correlation :=
  { taskId := op.taskId, contextId := op.contextId, channel := op.channel, adapterId := op.adapterId,
    originEventId := op.originEventId, refJson := op.refJson }

/-- The wake of a result, in a buffer of `BUS_PAYLOAD_MAX` octets. -/
def resultWake (op : RtOperationSnapshot) (eh ea erid etrigger esource estatus etext : Bytes) : Option Bytes := do
  let etask ← mirror rtMed op.taskId
  let econtext ← mirror rtMed op.contextId
  let echannel ← mirror rtMed op.channel
  let eorigin ← mirror rtMed op.originEventId
  let eadapter ← mirror rtMed op.adapterId
  let wake := objText [(lit "handle", quoted eh), (lit "action", quoted ea), (lit "request_id", quoted erid),
    (lit "trigger_event_id", quoted etrigger), (lit "task_id", quoted etask), (lit "work_rev", decInt op.workRev),
    (lit "source_event_id", quoted esource), (lit "context_id", quoted econtext), (lit "channel", quoted echannel),
    (lit "status", quoted estatus), (lit "text", quoted etext), (lit "origin_event_id", quoted eorigin),
    (lit "adapter_id", quoted eadapter),
    (lit "ref", if op.refJson ≠ [] ∧ op.refJson.length ≤ 512 then op.refJson else lit "null")]
  guard (wake.length < busPayloadMax)
  return wake

/-- `terminalize_in_run` for a record that is not finished: `none` when no operation event is appended.
`sourceEventId` is the id the event will get. -/
def terminalizeInRun (op : RtOperationSnapshot) (sourceEventId : Option Bytes) (status text : Bytes) (deliver : Bool) :
    Option Terminalized := do
  let eh ← mirror rtMed op.handle
  let ea ← mirror rtMed op.action
  let erid ← mirror rtMed op.requestId
  let etrigger ← mirror rtMed op.triggerEventId
  let estatus ← mirror rtMed status
  let etext ← mirror rtEventPayloadMax text
  let source ← sourceEventId
  let esource ← mirror rtMed source
  let corr ← correlationFieldsFromOp (recordCorrelation op)
  let payload := objText ([(lit "handle", quoted eh), (lit "action", quoted ea), (lit "request_id", quoted erid),
    (lit "trigger_event_id", quoted etrigger), (lit "work_rev", decInt op.workRev),
    (lit "source_event_id", quoted esource)] ++ corr ++ [(lit "status", quoted estatus), (lit "text", quoted etext)])
  guard (payload.length < rtEventPayloadMax)
  if deliver ∧ op.channel ≠ [] then
    let wake ← resultWake op eh ea erid etrigger esource estatus etext
    return ⟨payload, some wake⟩
  else return ⟨payload, none⟩

end Floofclaw.Source.OperationEvents
