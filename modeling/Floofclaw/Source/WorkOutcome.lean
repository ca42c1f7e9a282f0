import Floofclaw.Source.Inbound

/-!
# The terminal of a work task

Model of `terminalize_bound_work` in `action_runtime_work.c`, the body of the
actions `work_complete` and `work_blocked`: what it reads of the run, of the
pending call, of the bound task and of the arguments; the payload of the
terminal event; and the wake it prepares with it. The ledger's evidence, the
outbox beyond its size check and the append are parameters.
-/

set_option autoImplicit false

namespace Floofclaw.Source.WorkOutcome
open Floofclaw.Lib Floofclaw.Source.Json Floofclaw.Source.Inbound

def busPayloadMax : Nat := 16384

/-- What the function reads of the run and of its pending entry. `sourceEventId` is the id the terminal will get. -/
structure BoundCall where
  eventKind : Bytes
  eventPayload : Bytes
  contextId : Bytes
  originChannel : Bytes
  originAdapterId : Bytes
  originEventId : Bytes
  originRefJson : Bytes
  taskId : Bytes
  workRev : Int
  requestId : Bytes
  action : Bytes
  triggerEventId : Bytes
  sourceEventId : Bytes
  args : Bytes
  blocked : Bool

inductive Refusal
  | staleBinding | evidenceProjection | ledgerProjection | resultInvalid | outcomeInvalid | exceedsBoundary | wakeTooLong
  | prepareFailed | appendFailed
  deriving DecidableEq, Repr

/-- The surroundings: the binding of a task at a revision, the ledger's evidence, the outbox and the log. -/
structure WorkEnv where
  bindingJson : Bytes → Bytes → Int → Option JsonRef
  evidenceRefs : Bytes → Int → Option Bytes
  prepares : Bytes → Bytes → Bool
  appends : Bytes → Bool

/-! ## Reading -/

/-- A text argument, read without a look at the verdict. -/
def argText (args key : Bytes) : Bytes :=
  match jsonRefFirstObject (if args = [] then lit "\x7b\x7d" else args) with
  | none => []
  | some root => stringField root key rtLarge []

/-- `compact_task_state_value`. -/
def compactTaskStateValue (task : JsonRef) (key fallback : Bytes) (outLen : Nat) : Option Bytes :=
  match (jsonRefObjectGetObject task (lit "state")).bind fun state => jsonRefObjectGet state key with
  | none => if fallback.length ≥ outLen then none else some fallback
  | some v => (jsonRefValueCopy rtLarge v).bind fun raw => jsonCompact outLen raw

/-- `current_work_result_text`. -/
def currentWorkResultText (call : BoundCall) : Option Bytes :=
  if call.eventKind ≠ lit "operation_result" ∧ call.eventKind ≠ lit "work_step_result" then some []
  else if call.eventPayload = [] then none
  else
    (jsonRefTopObject call.eventPayload).bind fun payload =>
      jsonRefObjectGetString payload (lit "text") (rtOperationResultTextMax + 1)

/-- The texts of an outcome as they are read. -/
structure OutcomeParts where
  affairId : Bytes
  summary : Bytes
  blocker : Bytes
  needed : Bytes
  resultText : Bytes
  artifacts : Bytes
  operation : Bytes
  evidence : Bytes
  updatedMs : Int

def evidenceOf (env : WorkEnv) (call : BoundCall) (artifacts : Bytes) : Option Bytes :=
  if call.triggerEventId ≠ [] then env.evidenceRefs call.taskId call.workRev else some artifacts

def readOutcome (env : WorkEnv) (call : BoundCall) : Except Refusal OutcomeParts :=
  match (if call.taskId = [] ∨ call.workRev ≤ 0 then none else env.bindingJson call.contextId call.taskId call.workRev).bind
      fun task => (jsonRefObjectGetObject task (lit "state")).map fun state => (task, state) with
  | none => .error .staleBinding
  | some (task, state) =>
    match compactTaskStateValue task (lit "artifacts") (lit "[]") rtLarge,
        compactTaskStateValue task (lit "external") (lit "null") rtLarge with
    | some artifacts, some operation =>
      match evidenceOf env call artifacts with
      | none => .error .ledgerProjection
      | some evidence =>
        match if call.blocked then some [] else currentWorkResultText call with
        | none => .error .resultInvalid
        | some resultText =>
          let blocker := if call.blocked then argText call.args (lit "blocker") else []
          .ok
            { affairId := stringField state (lit "affair_id") rtSmall []
              summary := if call.blocked then blocker else argText call.args (lit "summary")
              blocker := blocker
              needed := if call.blocked then argText call.args (lit "needed") else []
              resultText := resultText
              artifacts := artifacts
              operation := operation
              evidence := evidence
              updatedMs := (match jsonRefObjectGetLong state (lit "updated_ms") 0 with
                | (n, true) => n
                | (_, false) => 0) + 1 }
    | _, _ => .error .evidenceProjection

/-! ## Writing -/

/-- The escaped texts of the ids. -/
structure EscapedIds where
  etask : Bytes
  ectx : Bytes
  eaffair : Bytes
  echannel : Bytes
  eadapter : Bytes
  eorigin : Bytes
  erid : Bytes
  eaction : Bytes
  etrigger : Bytes
  esource : Bytes

def escapeIds (call : BoundCall) (parts : OutcomeParts) : Option EscapedIds := do
  let etask ← mirror rtMed call.taskId
  let ectx ← mirror rtLarge call.contextId
  let eaffair ← mirror rtMed parts.affairId
  let echannel ← mirror rtMed call.originChannel
  let eadapter ← mirror rtMed call.originAdapterId
  let eorigin ← mirror rtMed call.originEventId
  let erid ← mirror rtMed call.requestId
  let eaction ← mirror rtMed call.action
  let etrigger ← mirror rtMed call.triggerEventId
  let esource ← mirror rtMed call.sourceEventId
  return ⟨etask, ectx, eaffair, echannel, eadapter, eorigin, erid, eaction, etrigger, esource⟩

structure EscapedTexts where
  esummary : Bytes
  eblocker : Bytes
  eneeded : Bytes
  eresult : Bytes

def escapeTexts (parts : OutcomeParts) : Option EscapedTexts := do
  let esummary ← mirror rtXl parts.summary
  let eblocker ← mirror rtXl parts.blocker
  let eneeded ← mirror rtXl parts.needed
  let eresult ← mirror rtXl parts.resultText
  return ⟨esummary, eblocker, eneeded, eresult⟩

def statusText (blocked : Bool) : Bytes := if blocked then lit "blocked" else lit "completed"

def affairField (affairId eaffair : Bytes) : Bytes := if affairId = [] then lit "null" else quoted eaffair

/-- The members of the terminal event. -/
def payloadMembers (call : BoundCall) (parts : OutcomeParts) (ids : EscapedIds) (texts : EscapedTexts) : List (Bytes × Bytes) :=
  [(lit "task_id", quoted ids.etask), (lit "work_rev", decInt call.workRev), (lit "context_id", quoted ids.ectx),
    (lit "request_id", quoted ids.erid), (lit "action", quoted ids.eaction), (lit "trigger_event_id", quoted ids.etrigger),
    (lit "source_event_id", quoted ids.esource), (lit "status", quoted (statusText call.blocked)),
    (lit "affair_id", affairField parts.affairId ids.eaffair), (lit "channel", quoted ids.echannel),
    (lit "adapter_id", quoted ids.eadapter), (lit "origin_event_id", quoted ids.eorigin),
    (lit "ref", if call.originRefJson = [] then lit "null" else call.originRefJson), (lit "summary", quoted texts.esummary),
    (lit "result_text", quoted texts.eresult)] ++
  ((if call.blocked then [(lit "blocker", quoted texts.eblocker)] else []) ++
    ((if call.blocked ∧ parts.needed ≠ [] then [(lit "needed", quoted texts.eneeded)] else []) ++
      [(lit "operation_ref", parts.operation), (lit "artifacts", parts.artifacts), (lit "evidence_refs", parts.evidence),
        (lit "state", objText [(lit "status", quoted (statusText call.blocked)), (lit "updated_ms", decInt parts.updatedMs)])]))

/-- The summary of a wake is bounded, and so is what is needed. -/
def boundedText (s : Bytes) : Bytes := s.take 384

/-- The members of the `work_outcome` wake. -/
def wakeMembers (call : BoundCall) (parts : OutcomeParts) (ids : EscapedIds) (texts : EscapedTexts) (ebounded eneeded : Bytes) :
    List (Bytes × Bytes) :=
  [(lit "task_id", quoted ids.etask), (lit "work_rev", decInt call.workRev), (lit "request_id", quoted ids.erid),
    (lit "context_id", quoted ids.ectx), (lit "action", quoted ids.eaction), (lit "trigger_event_id", quoted ids.etrigger),
    (lit "source_event_id", quoted ids.esource), (lit "status", quoted (statusText call.blocked)),
    (lit "affair_id", affairField parts.affairId ids.eaffair), (lit "summary", quoted ebounded),
    (lit "text", quoted (if parts.resultText = [] then ebounded else texts.eresult))] ++
  ((if call.blocked then [(lit "blocker", quoted ebounded), (lit "needed", quoted eneeded)] else []) ++
    [(lit "origin_event_id", quoted ids.eorigin), (lit "adapter_id", quoted ids.eadapter),
      (lit "ref", if call.originRefJson ≠ [] ∧ call.originRefJson.length ≤ 512 then call.originRefJson else lit "null")])

/-- The texts of the terminal event and of its wake, or why there are none. -/
def writeOutcome (call : BoundCall) (parts : OutcomeParts) : Except Refusal (Bytes × Bytes) :=
  if parts.summary = [] ∨ (call.blocked ∧ parts.needed = []) then .error .outcomeInvalid
  else
    match escapeIds call parts, escapeTexts parts with
    | some ids, some texts =>
      let payload := objText (payloadMembers call parts ids texts)
      if payload.length ≥ rtXl then .error .exceedsBoundary
      else
        match mirror rtLarge (boundedText parts.summary), mirror rtLarge (boundedText parts.needed) with
        | some ebounded, some eneeded =>
          let wake := objText (wakeMembers call parts ids texts ebounded eneeded)
          if wake.length ≥ rtEventPayloadMax then .error .wakeTooLong else .ok (payload, wake)
        | _, _ => .error .wakeTooLong
    | _, _ => .error .outcomeInvalid

/-- The size check of `rt_publication_outbox_prepare` over the compacted texts, and what is behind it. -/
def outboxPrepares (env : WorkEnv) (payload wake : Bytes) : Bool :=
  match jsonCompact (payload.length + 1) payload, jsonCompact (wake.length + 1) wake with
  | some source, some wake => decide (wake.length < busPayloadMax) && env.prepares source wake
  | _, _ => false

/-- `terminalize_bound_work` of a request whose effect is not committed yet: the payload that was appended. -/
def terminalizeBoundWork (env : WorkEnv) (call : BoundCall) : Except Refusal Bytes :=
  match readOutcome env call with
  | .error refusal => .error refusal
  | .ok parts =>
    match writeOutcome call parts with
    | .error refusal => .error refusal
    | .ok (payload, wake) =>
      if call.originChannel ≠ [] ∧ call.triggerEventId ≠ [] ∧ !outboxPrepares env payload wake then .error .prepareFailed
      else if env.appends payload then .ok payload
      else .error .appendFailed

end Floofclaw.Source.WorkOutcome
