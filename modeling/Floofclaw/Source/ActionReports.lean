import Floofclaw.Source.RunState

/-!
# Action reports

Model of the end of a runtime action: `rt_action_wrap_finished_result` of
`action_output.c`, and of `action_events.c` the payload `rt_action_emit_terminal`
assembles and hands to the append. The action is none that delivers a message.
The outbox behind a work-step wake is a parameter.
-/

set_option autoImplicit false

namespace Floofclaw.Source.ActionReports
open Floofclaw.Lib Floofclaw.Source.Json Floofclaw.Source.Inbound Floofclaw.Source.RunState

/-- `strstr`: the text before the first occurrence. -/
def before (needle : Bytes) : Bytes → Option Bytes
  | [] => if needle = [] then some [] else none
  | c :: s => if needle.isPrefixOf (c :: s) then some [] else (before needle s).map (c :: ·)

/-- The work step a call is bound to: the fields of its pending entry and of the run's origin that the
terminal and its wake copy. -/
structure Binding where
  workRev : Int
  contextId : Bytes
  triggerEventId : Bytes
  originChannel : Bytes
  originAdapterId : Bytes
  originEventId : Bytes
  originRefJson : Bytes

/-- The call a terminal ends. `sourceEventId` is the id the terminal itself will get. -/
structure Call where
  requestId : Bytes
  action : Bytes
  run : RunNumber
  taskId : Bytes
  managedOperation : Bool
  workTerminal : Bool
  binding : Option Binding
  sourceEventId : Option Bytes

def rtActionWrapFinishedResult (result requestId : Bytes) : Bytes :=
  if result.length < 2 ∨ requestId = [] then result
  else if result.head? ≠ some (ch '{') ∨ result.getLast? ≠ some (ch '}') then result
  else if (before (lit "\"status\"") result).isSome then result
  else
    match mirror rtSmall requestId with
    | none => result
    | some handle =>
      let wrapped := ch '{' :: membersText [(lit "status", quoted (lit "finished")), (lit "handle", quoted handle)] ++
        (if result.length > 2 then [ch ','] else []) ++ result.drop 1
      if wrapped.length ≥ rtXl then result else wrapped

/-- `managed_contract_disposition`. -/
def managedContractDisposition (call : Call) (ok : Bool) (result : Bytes) : Bool :=
  call.managedOperation && ok &&
    ((jsonRefTopObject result).bind fun r => jsonRefObjectGetString r (lit "status") rtSmall).any fun status =>
      status = lit "running" || status = lit "finished"

/-- How the step of a bound call goes on after its terminal; empty when the wake carries it. -/
def continuationOf (call : Call) (ok : Bool) (result : Bytes) : Bytes :=
  if ok ∧ call.workTerminal then lit "work_terminal"
  else if managedContractDisposition call ok result then lit "managed_operation"
  else []

/-- The members of a work step behind the payload's own. -/
def bindMembers (workRev : Int) (ectx etrigger esource : Bytes) : List (Bytes × Bytes) :=
  [(lit "work_rev", decInt workRev), (lit "context_id", quoted ectx), (lit "trigger_event_id", quoted etrigger),
    (lit "source_event_id", quoted esource)]

/-- They are assembled in a buffer of `RT_LARGE` octets, which cuts them without a word. -/
def bindWhole (call : Call) (b : Binding) : Option Bytes := do
  let sourceEventId ← call.sourceEventId
  let ectx ← mirror rtLarge b.contextId
  let etrigger ← mirror rtMed b.triggerEventId
  let esource ← mirror rtMed sourceEventId
  return ch ',' :: membersText (bindMembers b.workRev ectx etrigger esource)

def bindText (call : Call) (b : Binding) : Option Bytes := (bindWhole call b).map (clip rtLarge)

/-- The members of the payload in front of those of a work step. -/
def terminalMembers (call : Call) (ok : Bool) (reason result error : Bytes) : List (Bytes × Bytes) :=
  [(lit "request_id", quoted (escapeCut rtMed call.requestId)), (lit "action", quoted (escapeCut rtMed call.action)),
    (lit "run_id", quoted (runIdOf call.run)), (lit "job_id", lit "null")] ++
  (if call.taskId = [] then [] else [(lit "task_id", quoted (escapeCut rtMed call.taskId))]) ++
  (if ok then [] else [(lit "reason", quoted (escapeCut rtMed reason))]) ++
  [(lit "result", if result = [] then lit "\x7b\x7d" else result), (lit "error", if error = [] then lit "null" else error)]

def terminalPayload (call : Call) (ok : Bool) (reason result error : Bytes) : Bytes :=
  objText (terminalMembers call ok reason result error)

/-- The payload with the members of a work step in front of its closing brace. -/
def bindPayload (payload bind continuation : Bytes) : Option Bytes :=
  if payload.getLast? ≠ some (ch '}') ∨
      payload.length - 1 + bind.length + (if continuation = [] then 0 else continuation.length + 20) + 2 ≥ rtXl then none
  else
    some (payload.dropLast ++ bind ++
      (if continuation = [] then [] else ch ',' :: membersText [(lit "continuation", quoted continuation)]) ++ [ch '}'])

/-- The wake of `prepare_step_wake`; `none` when a field or the whole does not fit. -/
def wakeText (call : Call) (b : Binding) (status detail : Bytes) : Option Bytes := do
  let etask ← mirror rtMed call.taskId
  let erid ← mirror rtMed call.requestId
  let eaction ← mirror rtMed call.action
  let esource ← mirror rtMed (call.sourceEventId.getD [])
  let econtext ← mirror rtLarge b.contextId
  let eadapter ← mirror rtMed b.originAdapterId
  let eorigin ← mirror rtMed b.originEventId
  let edetail ← mirror rtLarge (detail.take 384)
  let ref := if b.originRefJson ≠ [] ∧ b.originRefJson.length ≤ 512 then b.originRefJson else lit "null"
  let wake := objText [(lit "task_id", quoted etask), (lit "context_id", quoted econtext), (lit "work_rev", decInt b.workRev),
    (lit "request_id", quoted erid), (lit "action", quoted eaction), (lit "source_event_id", quoted esource),
    (lit "status", quoted status), (lit "detail", quoted edetail), (lit "text", quoted edetail),
    (lit "origin_event_id", quoted eorigin), (lit "adapter_id", quoted eadapter), (lit "ref", ref)]
  if wake.length ≥ 4096 then none else some wake

/-- `prepare_step_wake`: there is nothing to prepare for a run without an origin. -/
def prepareStepWake (prepare : Bytes → Bool) (call : Call) (b : Binding) (status detail : Bytes) : Bool :=
  b.originChannel = [] || (wakeText call b status detail).any prepare

/-- `rt_action_emit_terminal` up to the append: the payload it appends, `none` when it fails before that. -/
def rtActionEmitTerminal (prepare : Bytes → Bool) (call : Call) (ok : Bool) (reason result error : Bytes) : Option Bytes :=
  let payload := terminalPayload call ok reason result error
  match call.binding with
  | none => if payload.length ≥ rtXl then none else some payload
  | some b =>
    match bindText call b with
    | none => none
    | some bind =>
      if payload.length ≥ rtXl then none
      else
        let continuation := continuationOf call ok result
        match bindPayload payload bind continuation with
        | none => none
        | some payload =>
          let detail := if ok then result else if error ≠ lit "null" then error else reason
          if continuation = [] ∧
              prepareStepWake prepare call b (if ok then lit "succeeded" else lit "failed") detail = false then none
          else some payload

/-- What `rt_action_runtime_complete` hands on of the two texts an intrinsic returned. -/
def reportedResult (call : Call) (ok : Bool) (result : Bytes) : Bytes :=
  if ok then if call.managedOperation then rtActionWrapFinishedResult result call.requestId else result
  else lit "\x7b\x7d"

def reportedError (ok : Bool) (error : Bytes) : Bytes := if ok then lit "null" else error

def reportedReason (ok : Bool) : Bytes := if ok then [] else lit "runtime_function_failed"

/-- The end of `rt_action_runtime_complete`. -/
def reportIntrinsic (prepare : Bytes → Bool) (call : Call) (ok : Bool) (result error : Bytes) : Option Bytes :=
  rtActionEmitTerminal prepare call ok (reportedReason ok) (reportedResult call ok result) (reportedError ok error)

end Floofclaw.Source.ActionReports
