import Floofclaw.Source.Inbound
import Floofclaw.Source.TaskState

/-!
# From an agent's calls to its events

Model of `rt_agent_normalize_output` of `agent_exec.c`: the counts that are
checked before anything is written, and the one or two passes that turn each
call into an event. A loop over `json_ref_object_iter` is a function of the
items the iterator yields before it stops. What the run knows of its tasks is
the environment of a call.
-/

set_option autoImplicit false

namespace Floofclaw.Source.AgentExec
open Floofclaw.Lib Floofclaw.Source.Json
open Floofclaw.Source.Inbound (busTypeIsReserved jsonRefStringDup)

def rtMessageTextMax : Nat := 8192

/-- `rt_log_rejected_agent_event`, or a plain `-1`. -/
inductive Refusal
  | silent
  | logged (code detail : Bytes)
  deriving DecidableEq

def invalidCall (detail : Bytes) : Refusal := .logged (lit "invalid_agent_call") (clip rtMed detail)

/-- The work task a controller is bound to, as the run offers it to be consumed. -/
structure Consequence where
  taskId : Bytes
  workRev : Int
  trigger : Bytes
  deriving DecidableEq

structure AgentEnv where
  eventKind : Bytes
  eventPayload : Bytes := []
  /-- `rt_task_reference_in_context` for the context of the run. -/
  knownTask : Bytes → Bool
  /-- `rt_task_select_new_input_for_run`. -/
  newInput : Option Bytes := none
  /-- `rt_task_select_unique_open_input`. -/
  openInput : Option Bytes := none
  /-- `rt_task_work_binding_json` finds the bound task at the bound revision. -/
  bindingLive : Bool := false
  /-- `rt_task_select_work_consequence`. -/
  consequence : Option Consequence := none
  gate : Bytes := []
  requiredCall : Bytes := []
  bindTaskOpenWork : Bool := false
  boundTaskId : Bytes := []
  boundWorkRev : Int := 0
  boundWorkRevLong : int64Min ≤ boundWorkRev ∧ boundWorkRev ≤ int64Max := by decide
  /-- The normalizer of a profile whose output has no calls. -/
  payloadOnly : Option (Bytes → Except Refusal Bytes) := none

/-- What a loop `while (json_ref_object_iter(..) == 1)` sees, from a cursor on. -/
def iterItems (keyOutLen : Nat) (obj : JsonRef) : Nat → Nat → List (Bytes × JsonRef)
  | 0, _ => []
  | n + 1, cursor =>
    match jsonRefObjectIter keyOutLen obj cursor with
    | .item key value => (key, value) :: iterItems keyOutLen obj n (cursor + 1)
    | _ => []

def objectItems (obj : JsonRef) : List (Bytes × JsonRef) := iterItems rtSmall obj obj.length 0

/-! ## Arguments -/

def runtimePayloadKey (key : Bytes) : Bool :=
  [lit "event_id", lit "run_id", lit "request_id", lit "job_id", lit "source", lit "created_by", lit "work_rev"].contains key

inductive CallArgsReject
  | notObject
  | runtimeKey (key : Bytes)
  | badTaskId
  | alloc
  deriving DecidableEq

/-- `json_ref_value_compact_dup`. -/
def jsonRefValueCompactDup (v : JsonRef) : Option Bytes := jsonCompact (v.length + 1) v

/-- The loop of `normalize_call_args_dup`: the task the arguments name, and the other members as they are appended. -/
def callArgsLoop (argsArePayload boundController : Bool) :
    Bytes → List (Bytes × JsonRef) → Except CallArgsReject (Bytes × List (Bytes × Bytes))
  | taskId, [] => .ok (taskId, [])
  | taskId, (key, value) :: items =>
    if (argsArePayload && runtimePayloadKey key) ||
        (boundController && (key = lit "work_rev" || key = lit "trigger_event_id")) then .error (.runtimeKey key)
    else if key = lit "task_id" then
      match jsonRefStringCopy rtSmall value with
      | none | some [] => .error .badTaskId
      | some id => callArgsLoop argsArePayload boundController id items
    else
      match mirror rtMed key, jsonRefValueCompactDup value with
      | some ekey, some compact =>
        (callArgsLoop argsArePayload boundController taskId items).map fun r => (r.1, (ekey, compact) :: r.2)
      | _, _ => .error .alloc

def normalizeCallArgsDup (argsArePayload boundController : Bool) (args : JsonRef) :
    Except CallArgsReject (Bytes × List (Bytes × Bytes)) :=
  if jsonRefInferType args ≠ .object then .error .notObject
  else callArgsLoop argsArePayload boundController [] (objectItems args)

def argsRefusal : CallArgsReject → Refusal
  | .runtimeKey key => invalidCall (lit "call args must not carry the runtime key \"" ++ key ++ lit "\"")
  | .badTaskId => invalidCall (lit "call args task_id must be a non-empty string")
  | .alloc => .silent
  | .notObject => invalidCall (lit "call args must be object")

/-! ## Names -/

/-- A non-empty string member. -/
def textMember (call : JsonRef) (key : Bytes) (outLen : Nat) : Option Bytes :=
  (jsonRefObjectGetString call key outLen).filter fun s => s ≠ []

/-- `agent_call_intent_name`: exactly one of `name` and `action`. -/
def agentCallIntentName (call : JsonRef) : Option Bytes :=
  if jsonRefInferType call ≠ .object then none
  else match textMember call (lit "name") rtSmall, textMember call (lit "action") rtSmall with
    | some name, none => some name
    | none, some action => some action
    | _, _ => none

/-- The name as the passes read it, the alias through a wider buffer. -/
def callName (call : JsonRef) : Except Refusal Bytes :=
  if jsonRefInferType call ≠ .object then .error (invalidCall (lit "call missing name"))
  else match textMember call (lit "name") rtSmall, textMember call (lit "action") rtMed with
    | some _, some _ => .error (invalidCall (lit "call must not contain both name and action"))
    | some name, none => .ok name
    | none, some action => .ok (clip rtSmall action)
    | none, none =>
      let name := stringField call (lit "name") rtSmall []
      if name = [] then .error (invalidCall (lit "call missing name")) else .ok name

def callKeys : List Bytes := [lit "name", lit "action", lit "args", lit "task_id"]

def sidecarName : Bytes := lit "working_memory_append"

/-- The calls whose arguments become a runtime payload. -/
def payloadCall (name : Bytes) : Bool := name = lit "task.create" || name = lit "task.update" || (lit "memory.").isPrefixOf name

/-- The actions whose task is optional. -/
def scopedAction (name : Bytes) : Bool :=
  [lit "message.send", lit "message", lit "note_add", lit "counter_bump", lit "affair_close", lit "defer"].contains name

/-! ## The task of a call -/

/-- `task_id` beside the arguments. -/
def callTaskId (call : JsonRef) : Except Refusal Bytes :=
  match jsonRefObjectGet call (lit "task_id") with
  | none => .ok []
  | some v =>
    match jsonRefStringCopy rtSmall v with
    | none | some [] => .error (invalidCall (lit "call task_id must be a non-empty string"))
    | some id => .ok id

/-- The arguments of a call, rebuilt, and the task they name. -/
def callArgs (env : AgentEnv) (name : Bytes) (call : JsonRef) : Except Refusal (Bytes × List (Bytes × Bytes)) :=
  match jsonRefObjectGet call (lit "args") with
  | none => .ok ([], [])
  | some args =>
    match normalizeCallArgsDup (payloadCall name) env.bindTaskOpenWork args with
    | .error why => .error (argsRefusal why)
    | .ok r => .ok r

/-- The task a call is about before one is inferred: the one it names, which a controller may only name as its own. -/
def namedTask (env : AgentEnv) (argsTask callTask : Bytes) : Except Refusal Bytes :=
  if callTask ≠ [] ∧ argsTask ≠ [] ∧ argsTask ≠ callTask then
    .error (invalidCall (lit "call task_id disagrees with args.task_id"))
  else
    let task := if callTask ≠ [] then callTask else argsTask
    if env.bindTaskOpenWork then
      if task ≠ [] ∧ task ≠ env.boundTaskId then
        .error (invalidCall (lit "controller task_id does not match its trusted work binding"))
      else .ok (clip rtSmall env.boundTaskId)
    else .ok task

/-- The task the event of the run carries, where the runtime owns its kind. -/
def eventTask (env : AgentEnv) : Option Bytes :=
  if busTypeIsReserved env.eventKind ∧ env.eventPayload ≠ [] then
    ((jsonRefTopObject env.eventPayload).bind fun payload => textMember payload (lit "task_id") rtSmall).filter env.knownTask
  else none

def inferMissingTaskId (env : AgentEnv) (taskId : Bytes) : Bytes :=
  if taskId ≠ [] then taskId
  else if env.boundTaskId ≠ [] ∧ env.knownTask env.boundTaskId then clip rtSmall env.boundTaskId
  else match (if env.eventKind = lit "user_message" then env.newInput else none) with
    | some id => id
    | none =>
      match eventTask env with
      | some id => id
      | none => env.openInput.getD []

/-- `json_escape` of the task, which an empty one does not need. -/
def escapedTask (taskId : Bytes) : Except Refusal Bytes :=
  if taskId = [] then .ok []
  else match mirror rtMed taskId with
    | none => .error .silent
    | some e => .ok e

def escapedName (name : Bytes) : Except Refusal Bytes :=
  match mirror rtMed name with
  | none => .error .silent
  | some e => .ok e

/-! ## Events -/

/-- The revision a bound controller's action is stamped with. -/
def workRevClause (env : AgentEnv) (trigger : Bytes) (name : Bytes) : Except Refusal Bytes :=
  if ¬ env.bindTaskOpenWork ∨ name = sidecarName then .ok []
  else if trigger = [] then .ok (clip rtMed (lit ",\"work_rev\":" ++ decInt env.boundWorkRev))
  else match mirror rtMed trigger with
    | none => .error .silent
    | some etrigger =>
      .ok (clip rtMed (lit ",\"work_rev\":" ++ decInt env.boundWorkRev ++ lit ",\"trigger_event_id\":" ++ quoted etrigger))

def actionRequest (ename : Bytes) (args : List (Bytes × Bytes)) (etask clause : Bytes) : Bytes :=
  lit "\x7b\"type\":\"action_request\",\"payload\":\x7b\"action\":" ++ quoted ename ++ lit ",\"args\":" ++ objText args ++
    (if etask = [] then [] else lit ",\"task_id\":" ++ quoted etask) ++ clause ++ lit "\x7d\x7d"

def payloadEvent (type : Bytes) (members : List (Bytes × Bytes)) : Bytes :=
  objText [(lit "type", quoted type), (lit "payload", objText members)]

/-- The length of a message the reply path does not carry. -/
def oversizedMessage (args : List (Bytes × Bytes)) : Option Nat :=
  ((jsonRefTopObject (objText args)).bind fun root =>
    ((jsonRefObjectGet root (lit "message")).filter fun v => jsonRefInferType v = .string).bind fun v =>
      (jsonRefStringDup v).map List.length).filter fun n => rtMessageTextMax < n

/-- The action a scoped call asks for. -/
def actionName (name : Bytes) : Bytes := if name = lit "message.send" then lit "message" else name

/-- The event of a call whose task and arguments are known; a note that no task can take is dropped. -/
def callEvent (env : AgentEnv) (name taskId : Bytes) (args : List (Bytes × Bytes)) (clause : Bytes) :
    Except Refusal (Option Bytes) := do
  let etask ← escapedTask taskId
  let ename ← escapedName name
  if name = lit "task.create" then
    if taskId ≠ [] then .error (invalidCall (lit "task.create must not include task_id"))
    else .ok (some (payloadEvent (lit "task_created") args))
  else if name = lit "task.update" then
    if taskId = [] ∨ !env.knownTask taskId then .error (invalidCall (lit "task.update requires existing task_id"))
    else .ok (some (payloadEvent (lit "task_updated") ((lit "task_id", quoted etask) :: args)))
  else if scopedAction name then
    match if actionName name = lit "message" then oversizedMessage args else none with
    | some bytes =>
      .error (invalidCall (lit "message is " ++ decNat bytes ++ lit " bytes; a message delivers at most " ++
        decNat rtMessageTextMax ++ lit " bytes, so shorten it"))
    | none =>
      let task := inferMissingTaskId env taskId
      let etask ← escapedTask task
      if task ≠ [] ∧ !env.knownTask task then .error (invalidCall (lit "action task_id is not valid in context"))
      else .ok (some (actionRequest (actionName name) args etask clause))
  else if name = lit "memory.recalled" then .ok (some (payloadEvent (lit "memory_recalled") args))
  else if [lit "memory.user", lit "memory.asst", lit "memory.fact", lit "memory.summ"].contains name then
    if taskId ≠ [] then .error (invalidCall (lit "memory call must not include task_id"))
    else .ok (some (payloadEvent (name.drop 7) args))
  else
    let task := inferMissingTaskId env taskId
    let etask ← escapedTask task
    if task = [] ∧ busTypeIsReserved env.eventKind then
      if name = sidecarName then .ok none
      else .error (invalidCall (lit "action call requires existing task_id"))
    else if task ≠ [] ∧ !env.knownTask task then .error (invalidCall (lit "action call requires existing task_id"))
    else .ok (some (actionRequest ename args etask clause))

/-- What one turn of a pass makes of a call with this name. -/
def emitCall (env : AgentEnv) (trigger name : Bytes) (call : JsonRef) : Except Refusal (Option Bytes) :=
  match (objectItems call).find? fun x => !callKeys.contains x.1 with
  | some x =>
    .error (invalidCall (lit "call has non-intent key \"" ++ x.1 ++ lit "\"; a call is exactly \x7bname, args\x7d"))
  | none => do
    let callTask ← callTaskId call
    let args ← callArgs env name call
    let task ← namedTask env args.1 callTask
    let clause ← workRevClause env trigger name
    if env.bindTaskOpenWork ∧ payloadCall name then
      .error (invalidCall (lit "bound controller must choose a registered action"))
    else callEvent env name task args.2 clause

def appendText (outLen : Nat) (out text : Bytes) : Except Refusal Bytes :=
  match rtAppendText outLen out text with
  | none => .error .silent
  | some out => .ok out

/-- One pass over the calls it keeps, onto the text and the number of events so far. -/
def emitPass (env : AgentEnv) (outLen : Nat) (trigger : Bytes) (keep : Bytes → Bool) :
    Bytes × Nat → List JsonRef → Except Refusal (Bytes × Nat)
  | st, [] => .ok st
  | st, call :: calls => do
    let name ← callName call
    if !keep name then emitPass env outLen trigger keep st calls
    else do
      let emitted ← emitCall env trigger name call
      match emitted with
      | none => emitPass env outLen trigger keep st calls
      | some event =>
        let item := (if 0 < st.2 then lit "," else []) ++ event
        if rtXl ≤ item.length then .error .silent
        else do
          let out ← appendText outLen st.1 item
          emitPass env outLen trigger keep (out, st.2 + 1) calls

/-! ## The whole output -/

/-- The calls of an output, and their names. -/
def callsOf (output : Bytes) : Option (List JsonRef) :=
  (jsonRefFirstObject output).bind fun root => (jsonRefObjectGetArray root (lit "calls")).map TaskState.arrayEntries

def callNames (calls : List JsonRef) : Except Refusal (List Bytes) :=
  calls.mapM fun call => match agentCallIntentName call with
    | none => .error (invalidCall (lit "call must contain exactly one of name or action"))
    | some name => .ok name

/-- The trigger of the consequence a controller consumes: the one the run offers for its binding. -/
def consequenceTrigger (env : AgentEnv) : Except Refusal Bytes :=
  if env.gate = lit "work_consequence" then
    match env.consequence.filter fun c => c.taskId = env.boundTaskId ∧ c.workRev = env.boundWorkRev with
    | some c => .ok c.trigger
    | none => .error (.logged (lit "stale_work_consequence")
        (lit "controller consequence is no longer exact or was already consumed"))
  else .ok []

/-- The checks of a controller: its binding, its consequence, its one ordinary call. The result is the trusted trigger. -/
def controllerTrigger (env : AgentEnv) (ordinaryCount : Nat) : Except Refusal Bytes :=
  if ¬ env.bindTaskOpenWork then .ok []
  else if env.boundTaskId = [] ∨ env.boundWorkRev ≤ 0 ∨ !env.bindingLive then
    .error (.logged (lit "stale_work_binding") (lit "bound work task or revision is no longer active"))
  else do
    let trigger ← consequenceTrigger env
    if ordinaryCount ≠ 1 then
      .error (.logged (lit "invalid_controller_call_count")
        (if ordinaryCount = 0 then lit "bound controller must choose exactly one ordinary call; received zero"
          else lit "bound controller must choose exactly one ordinary call; received more than one"))
    else .ok trigger

/-- The passes: a controller with a note emits the note first. -/
def emitPasses (env : AgentEnv) (outLen : Nat) (trigger : Bytes) (sidecarCount : Nat) (out : Bytes) (calls : List JsonRef) :
    Except Refusal (Bytes × Nat) :=
  if env.bindTaskOpenWork ∧ 0 < sidecarCount then do
    let st ← emitPass env outLen trigger (fun name => name = sidecarName) (out, 0) calls
    emitPass env outLen trigger (fun name => name ≠ sidecarName) st calls
  else emitPass env outLen trigger (fun _ => true) (out, 0) calls

def rtAgentNormalizeOutput (env : AgentEnv) (outLen : Nat) (output : Bytes) : Except Refusal Bytes :=
  match env.payloadOnly with
  | some normalize => normalize output
  | none =>
    match callsOf output with
    | none => .error (.logged (lit "agent_output_missing_calls") (lit "agent output did not contain a calls array"))
    | some calls => do
      let names ← callNames calls
      let sidecarCount := names.countP (· = sidecarName)
      let requiredCount := names.countP (· = env.requiredCall)
      if 1 < sidecarCount then
        .error (.logged (lit "invalid_sidecar_call_count") (lit "an agent response may append working_memory at most once"))
      else if env.requiredCall ≠ [] ∧ requiredCount ≠ 1 then
        .error (.logged (lit "invalid_required_call_count") (clip rtMed (lit "agent output must contain exactly one " ++
          env.requiredCall ++ lit " call; received " ++ decNat requiredCount)))
      else
        let trigger ← controllerTrigger env (names.length - sidecarCount)
        let out ← appendText outLen [] (lit "\x7b\"events\":[")
        let st ← emitPasses env outLen trigger sidecarCount out calls
        appendText outLen st.1 (lit "]\x7d")

end Floofclaw.Source.AgentExec
