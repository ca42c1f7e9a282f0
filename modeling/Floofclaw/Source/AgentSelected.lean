import Floofclaw.Source.AgentExec
import Floofclaw.Source.TaskProjection

/-!
# The normalizers of the speaker and of the affair agent

`rt_agent_normalize_conversational_output` and `rt_agent_normalize_affair_output`
of `agent_selected.c`, with `rt_conversational_request_task` of
`agent_model.c`, which names the request the speaker answers. The text that
grows on the heap always finds room.
-/

set_option autoImplicit false

namespace Floofclaw.Source.AgentSelected
open Floofclaw.Lib Floofclaw.Source.Json Floofclaw.Source.AgentExec
open Floofclaw.Source.Inbound (jsonRefStringDup)
open Floofclaw.Source.TaskState (arrayEntries)
open Floofclaw.Source.TaskProjection

/-! ## The open request -/

/-- What a run knows of itself and of the tasks: the store as it was read. -/
structure SpeakerRun where
  contextId : Bytes
  runId : Bytes
  tasks : Option Bytes

structure Request where
  taskId : Bytes
  kind : Bytes
  text : Bytes
  deriving DecidableEq

def taskBelongsToCurrentRun (runId : Bytes) (task : JsonRef) : Bool :=
  runId ≠ [] && ((jsonRefObjectGetString task (lit "task_id") rtSmall).filter fun id => id ≠ []).any
    (clip rtSmall (lit "task_" ++ runId ++ lit "_")).isPrefixOf

/-- One turn of a pass: an open task of that kind with a message, under the name the speaker sees. -/
def openRequest (runId kind requestKind : Bytes) (task : JsonRef) : Option Request := do
  guard (jsonRefInferType task = .object ∧ taskBelongsToCurrentRun runId task)
  let taskKind ← jsonRefObjectGetString task (lit "kind") rtSmall
  let state ← rtTaskJsonState task rtSmall
  guard (taskKind = kind ∧ state = lit "open")
  let input ← jsonRefObjectGetObject task (lit "input")
  let inputType ← jsonRefObjectGetString input (lit "type") rtSmall
  guard (inputType = lit "message")
  let taskId ← jsonRefObjectGetString task (lit "task_id") rtSmall
  let text ← jsonRefObjectGetString input (lit "text") rtLarge
  return ⟨taskId, requestKind, text⟩

/-- `rt_conversational_request_task`: first the user's messages, then the notifications. -/
def rtConversationalRequestTask (run : SpeakerRun) : Option Request :=
  (((rtTasksActiveStateJson run.contextId rtXl run.tasks).bind jsonRefFromText).bind fun root =>
    jsonRefObjectGetArray root (lit "active")).bind fun active =>
      (arrayEntries active).findSome? (openRequest run.runId (lit "input") (lit "user_message")) <|>
        (arrayEntries active).findSome? (openRequest run.runId (lit "notification") (lit "notification"))

/-! ## The speaker -/

/-- What a normalizer hands back, and what it notes in the run's log. -/
structure Normalized where
  events : Option Bytes
  note : Option Refusal := none
  deriving DecidableEq

def runtimeOwnedKeys : List Bytes :=
  [lit "task_id", lit "context_id", lit "kind", lit "state", lit "created_event_id", lit "created_ms", lit "updated_ms",
    lit "event_id", lit "run_id", lit "request_id", lit "job_id", lit "source", lit "created_by", lit "ts"]

def runtimeOwnedKey (key : Bytes) : Bool := runtimeOwnedKeys.contains key

/-- `{"events":[]}` as `snprintf` leaves it. -/
def noEvents (outLen : Nat) : Option Bytes :=
  if (lit "\x7b\"events\":[]\x7d").length ≥ outLen then none else some (lit "\x7b\"events\":[]\x7d")

/-- The arguments a member becomes. -/
def memberArgs (value : JsonRef) : Option Bytes :=
  if jsonRefInferType value = .object then jsonRefValueCompactDup value
  else (jsonRefValueCompactDup value).map fun v => lit "\x7b\"value\":" ++ v ++ lit "\x7d"

def memberRequest (key : Bytes) (value : JsonRef) : Option Bytes :=
  (mirror rtMed key).bind fun ekey => (memberArgs value).map fun args =>
    lit "\x7b\"type\":\"action_request\",\"payload\":\x7b\"action\":\"" ++ ekey ++ lit "\",\"args\":" ++ args ++ lit "\x7d\x7d"

/-- The loop over the members: one request of each that is neither the message nor the runtime's. -/
def memberRequests : List (Bytes × JsonRef) → Option (List Bytes)
  | [] => some []
  | (key, value) :: items =>
    if key = lit "message" || runtimeOwnedKey key then memberRequests items
    else (memberRequest key value).bind fun request => (memberRequests items).map fun requests => request :: requests

def messageRequest (emsg etask : Bytes) : Bytes :=
  lit "\x7b\"type\":\"action_request\",\"payload\":\x7b\"action\":\"message\",\"args\":\x7b\"message\":\"" ++ emsg ++
    lit "\"\x7d,\"task_id\":\"" ++ etask ++ lit "\"\x7d\x7d"

/-- The requests before the message, each with its comma. -/
def eventsText (requests : List Bytes) (message : Bytes) : Bytes :=
  lit "\x7b\"events\":[" ++ requests.flatMap (fun request => request ++ lit ",") ++ message ++ lit "]\x7d"

/-- A message that answers the request. -/
def answerRequest (outLen : Nat) (root : JsonRef) (request : Request) (message : Bytes) : Normalized :=
  match mirror (message.length * 6 + 1) message, mirror rtMed request.taskId with
  | some emsg, some etask =>
    ⟨((memberRequests (objectItems root)).map fun requests => eventsText requests (messageRequest emsg etask)).filter
      fun text => text.length < outLen, none⟩
  | _, _ =>
    ⟨none, some (.logged (lit "invalid_conversational_output") (lit "message must be a string for an active input task"))⟩

def rtAgentNormalizeConversationalOutput (run : SpeakerRun) (outLen : Nat) (output : Bytes) : Normalized :=
  match (jsonRefFirstObject output).bind fun root => (jsonRefObjectGet root (lit "message")).map fun v => (root, v) with
  | none =>
    ⟨none, some (.logged (lit "agent_output_missing_message") (lit "conversational output did not contain message"))⟩
  | some (root, v) =>
    if jsonRefInferType v = .null then ⟨noEvents outLen, none⟩
    else match rtConversationalRequestTask run, jsonRefStringDup v with
      | none, some _ =>
        ⟨noEvents outLen, some (.logged (lit "conversational_message_without_request")
          (lit "speaker emitted a message when request was null"))⟩
      | none, none =>
        ⟨none, some (.logged (lit "invalid_conversational_output") (lit "message must be a string or null"))⟩
      | some _, none =>
        ⟨none, some (.logged (lit "invalid_conversational_output") (lit "message must be a string for an active input task"))⟩
      | some request, some message => answerRequest outLen root request message

/-! ## The affair agent -/

def affairActions : List Bytes := [lit "create", lit "link", lit "update"]

/-- What the value of `affair` becomes. -/
def affairPatch (outLen : Nat) (affair : JsonRef) : Normalized :=
  if jsonRefInferType affair = .null then ⟨noEvents outLen, none⟩
  else match if jsonRefInferType affair = .object then textMember affair (lit "action") rtSmall else none with
    | none => ⟨none, some (.logged (lit "invalid_affair_output") (lit "affair must contain an action"))⟩
    | some action =>
      if action = lit "none" then ⟨noEvents outLen, none⟩
      else if !affairActions.contains action then
        ⟨none, some (.logged (lit "invalid_affair_output") (lit "affair action must be create, link, update, or none"))⟩
      else
        ⟨((jsonRefValueCompactDup affair).map fun payload =>
          lit "\x7b\"events\":[\x7b\"type\":\"affair_patch\",\"payload\":" ++ payload ++ lit "\x7d]\x7d").filter
          fun text => text.length < outLen, none⟩

def rtAgentNormalizeAffairOutput (outLen : Nat) (output : Bytes) : Normalized :=
  match (jsonRefFirstObject output).bind fun root => (jsonRefObjectGet root (lit "affair")).map fun v => (root, v) with
  | none => ⟨none, some (.logged (lit "agent_output_missing_affair") (lit "affair output did not contain affair"))⟩
  | some (root, affair) =>
    if (objectItems root).any fun x => x.1 ≠ lit "affair" then
      ⟨none, some (.logged (lit "invalid_affair_output") (lit "affair output had extra root key"))⟩
    else affairPatch outLen affair

end Floofclaw.Source.AgentSelected
