import Floofclaw.Source.RunSteps

/-!
# Intake and recovery of a run

Model of the run half of `ports.c` and of `restore_runstate` in `recovery.c`:
what `commit_inbound_event` writes for an envelope, kind by kind and write by
write, how a run is created around it, and how a run is put back in place from
what it left on disk. A line in the log reads back as it was written, and the
claim of a completion is decoded.
-/

set_option autoImplicit false

namespace Floofclaw.Source.Intake
open Floofclaw.Lib Floofclaw.Source.Json Floofclaw.Source.EventLog Floofclaw.Source.Actions
open Floofclaw.Source.Inbound Floofclaw.Source.Operations Floofclaw.Source.TaskState Floofclaw.Source.Claims
open Floofclaw.Source.Runs Floofclaw.Source.RunSteps

/-- An envelope in `bus/processed`: a completion claim, or one of the kinds that carry their own payload. -/
inductive Envelope
  | ordinary (env : ParsedEnvelope)
  | claim (claim : CompletionClaim)
  deriving DecidableEq

/-- What the process brings along: its profile, the record cap, the clock, and which canonical results fit their
buffers. -/
structure Host where
  profile : RtProfile
  keepFinished : Nat
  wallMs : Int := 0
  fits : OperationResult → Bool := fun _ => true

/-! ## Populating -/

def populateOrdinary (r : RtRun) (env : ParsedEnvelope) : Option RtRun :=
  (populateInboundContext [] r.runId none env).map fun inbound =>
    { r with
      contextId := inbound.contextId, eventKind := env.type, eventPayload := .text inbound.payload
      originChannel := inbound.originChannel, inboundAffairId := inbound.inboundAffairId, createdFromType := env.type
      actionCliOnly := env.kind = .actionExec }

def populateClaim (host : Host) (ops : OperationStore) (r : RtRun) (claim : CompletionClaim) : Option RtRun :=
  match opFind ops claim.operationId with
  | none => none
  | some o =>
    let ev := resultOf o r.number claim
    if host.fits ev then
      some { r with
        contextId := o.contextId, eventKind := lit "operation_result", eventPayload := .result ev
        originChannel := o.channel, inboundAffairId := [], createdFromType := lit "operation_result"
        actionCliOnly := false }
    else none

def populate (host : Host) (ops : OperationStore) (r : RtRun) : Envelope → Option RtRun
  | .ordinary env => populateOrdinary r env
  | .claim claim => populateClaim host ops r claim

/-- The first event of a populated run. -/
def firstEntry (r : RtRun) : Envelope → Entry
  | .ordinary env => .inbound (inboundEventType env) env.channel r.eventPayload
  | .claim _ => .inbound (lit "operation_result") r.originChannel r.eventPayload

/-! ## What follows the first event -/

/-- The payload of `rt_task_create_input_for_user_message`. -/
def inputTaskPayload (r : RtRun) (userText : Bytes) (wallMs : Int) : Option Bytes := do
  let taskId := clip rtSmall (lit "task_" ++ r.runId ++ lit "_" ++ decPadded 6 r.nextEvent)
  -- a populated run has its context id
  let ectx ← mirror rtMed r.contextId
  let text ← mirror (rtLarge * 2) userText
  let etask ← mirror rtMed taskId
  let payload := objText [(lit "task_id", quoted etask), (lit "context_id", quoted ectx), (lit "kind", quoted (lit "input")),
    (lit "input", objText [(lit "type", quoted (lit "message")), (lit "text", quoted text)]),
    (lit "created_event_id", quoted (clip rtSmall (eventIdText r.runId r.nextEvent))), (lit "created_ms", decInt wallMs),
    (lit "state", objText [(lit "status", quoted (lit "open")), (lit "work", lit "null"), (lit "done_when", lit "null"),
      (lit "working_memory", quoted []), (lit "artifacts", lit "[]"), (lit "updated_ms", decInt wallMs)])]
  guard (payload.length < rtXl)
  return payload

def createInputTask (host : Host) (r : RtRun) (d : Disk) (userText : Bytes) : RtRun × Disk × Bool :=
  match inputTaskPayload r userText host.wallMs with
  | none => (r, d, false)
  | some payload => rtAppendEvent host.keepFinished r d (.task (lit "task_created") payload)

/-- The request of an action envelope, as the output gate admits it. -/
def admitActionRequest (r : RtRun) (tasks : List TaskItem) (env : ParsedEnvelope) : Option Request := do
  let eaction ← mirror rtMed env.action
  let etask ← mirror rtMed env.actionTaskId
  let args := if env.actionArgs = [] then lit "\x7b\x7d" else env.actionArgs
  let output := objText [(lit "events", lit "[" ++ objText [(lit "type", quoted (lit "action_request")),
    (lit "payload", objText ([(lit "action", quoted eaction), (lit "args", args)] ++
      if etask = [] then [] else [(lit "task_id", quoted etask)]))] ++ lit "]")]
  guard (output.length < rtXl)
  guard (env.action ≠ [])
  guard (env.actionTaskId = [] ∨ (taskIndexOf tasks env.actionTaskId).isSome)
  let args ← jsonCompact (args.length + 1) args
  return { requestId := clip rtSmall (Runner.requestIdText r.runId r.nextEvent)
           call := { source := lit "action_cli", action := env.action, args := args, taskId := env.actionTaskId
                     workRev := 0 } }

def requestAction (host : Host) (r : RtRun) (d : Disk) (env : ParsedEnvelope) : RtRun × Disk × Bool :=
  match admitActionRequest r d.now.stores.tasks env with
  | none => (r, d, false)
  | some request =>
    match rtAppendEvent host.keepFinished r d (.action (.request request)) with
    | (r, d, false) => (r, d, false)
    | (r, d, true) =>
      let (r, d) := rtRunApplyOutputEvents host.keepFinished [.action (.request request)] r d
      (r, d, true)

def opExternalExcerptMax : Nat := 500

/-- `task_external_matches_attempt` on the row of the task. -/
def taskExternalMatchesAttempt (r : RtRun) (row : TaskItem) (handle : Bytes) (attemptRev : Int) : Bool :=
  handle ≠ [] && decide (0 < row.workRev) && row.contextId = r.contextId && row.kind = lit "work" &&
    [lit "open", lit "working", lit "blocked"].contains row.state &&
    match jsonRefTopObject row.external with
    | none => false
    | some external =>
      jsonRefObjectGetString external (lit "handle") rtSmall = some handle &&
        jsonRefObjectGetLong external (lit "work_rev") 0 = (attemptRev, true)

/-- Whether the attempt is still the one its task shows. -/
def projectsAttempt (r : RtRun) (tasks : List TaskItem) (o : OperationItem) : Bool :=
  o.taskId ≠ [] &&
    (decide (o.workRev ≤ 0) ||
      match tasks.find? fun t => t.taskId = o.taskId with
      | none => false
      | some row => row.workRev = o.workRev || taskExternalMatchesAttempt r row o.handle o.workRev)

/-- The payload of `update_task_external` with the status "finished". -/
def externalPayload (o : OperationItem) (excerpt : Bytes) : Option Bytes := do
  let etask ← mirror rtMed o.taskId
  let eh ← mirror rtMed o.handle
  let ea ← mirror rtMed o.action
  let ex ← mirror (rtMed * 2) (clip (opExternalExcerptMax + 1) excerpt)
  let payload := objText [(lit "task_id", quoted etask), (lit "state", objText [(lit "external", objText [
    (lit "handle", quoted eh), (lit "action", quoted ea), (lit "status", quoted (lit "finished")),
    (lit "work_rev", decInt o.workRev), (lit "result_excerpt", quoted ex)])])]
  guard (payload.length < rtLarge)
  return payload

/-- The projection a committed result makes into the task that owns it. -/
def externalUpdate (r : RtRun) (stores : Stores) (claim : CompletionClaim) (text : Bytes) : Option Bytes :=
  match opFind stores.ops claim.operationId with
  | none => none
  | some o =>
    if projectsAttempt r stores.tasks o then externalPayload o (if text.length < rtMed then text else []) else none

/-- `rt_operation_on_claim_committed`. -/
def rtOperationOnClaimCommitted (host : Host) (r : RtRun) (d : Disk) (claim : CompletionClaim) (text : Bytes) : RtRun × Disk :=
  match externalUpdate r d.now.stores claim text with
  | none => (r, d)
  | some payload =>
    let (r, d, _) := rtAppendEvent host.keepFinished r d (.task (lit "task_updated") payload)
    (r, d)

def InboundPayload.resultText : InboundPayload → Bytes
  | .text _ => []
  | .result ev => ev.text

/-- The effects of a kind behind its first event. -/
def commitEffects (host : Host) (r : RtRun) (d : Disk) : Envelope → RtRun × Disk × Bool
  | .claim claim =>
    let (r, d) := rtOperationOnClaimCommitted host r d claim (InboundPayload.resultText r.eventPayload)
    (r, d, true)
  | .ordinary env =>
    match env.kind with
    | .actionExec => requestAction host r d env
    | .userMessage | .affairReview => createInputTask host r d env.userText
    | .correlated | .custom | .completion => (r, d, true)

def isActionExec : Envelope → Bool
  | .ordinary env => env.kind = .actionExec
  | .claim _ => false

/-- `commit_inbound_event`. The skip of an action run is nothing but its cursor. -/
def commitInboundEvent (host : Host) (r : RtRun) (d : Disk) (e : Envelope) : RtRun × Disk × Bool :=
  match populate host d.now.stores.ops r e with
  | none => (r, d, false)
  | some r =>
    match rtAppendEvent host.keepFinished r d (firstEntry r e) with
    | (r, d, false) => (r, d, false)
    | (r, d, true) =>
      match commitEffects host r d e with
      | (r, d, false) => (r, d, false)
      | (r, d, true) =>
        let r := { r with phase := if isActionExec e then host.profile.steps.length else 0 }
        let (r, d) := rtRunSetState host.profile r d .ready
        (r, d, true)

/-! ## The first line -/

/-- `rt_ports_inbound_commit_state` on a readable log. -/
def rtPortsInboundCommitState (r : RtRun) (log : List Runs.Line) : CommitState :=
  match log with
  | [] => .absent
  | .event 1 (.inbound type source payload) :: _ =>
    if type = r.createdFromType ∧ source = r.originChannel ∧ payload = r.eventPayload then .exact else .conflict
  | _ :: _ => .conflict

/-! ## Creation -/

inductive Created
  | rejected | accepted | deferred
  deriving DecidableEq, Repr

/-- What decides over an intake before the run has a file: the identity of the envelope and of the next run, the outbox
record of a wake, and the run's directory. -/
structure Admission where
  admitted : Bool := true
  outboxValid : Bool := false
  created : Bool := true
  /-- The log can be read back after a failed append. -/
  readable : Bool := true

def disposed (ops : OperationStore) : Envelope → Bool
  | .claim claim => (completionClaimDisposition ops claim).isSome
  | .ordinary _ => false

def isClaim : Envelope → Bool
  | .claim _ => true
  | .ordinary _ => false

/-- Whether an envelope must have an outbox record; `none` refuses a result that carries part of a correlation. -/
def requireOutbox : Envelope → Option Bool
  | .claim _ => some false
  | .ordinary env =>
    if env.type = lit "operation_result" then
      let has (key : Bytes) : Bool := ((jsonRefTopObject env.payload).bind fun payload => jsonRefObjectGet payload key).isSome
      let fields := [has (lit "source_event_id"), has (lit "request_id"), has (lit "work_rev")]
      if fields.any id && !fields.all id then none else some (fields.all id)
    else some (env.type = lit "work_step_result" || env.type = lit "work_outcome")

/-- `create_run_from_envelope` once the run has its control claim on disk. -/
def commitClaimedRun (host : Host) (adm : Admission) (deferred : Bool) (r : RtRun) (d : Disk) (e : Envelope) :
    RtRun × Disk × Created :=
  match commitInboundEvent host r d e with
  | (r, d, true) => (r, d, .accepted)
  | (r, d, false) =>
    if deferred then
      if !adm.readable then (r, d, .deferred)
      else
        match rtPortsInboundCommitState r d.now.log with
        | .exact =>
          let (r, d) := rtRunSetState host.profile r d .ready
          (r, d, .accepted)
        | .absent => (r, d, .deferred)
        | .conflict => (r, d, .rejected)
    else (r, d, .rejected)

/-- `create_run_from_envelope`: the control claim comes before the first event, and a rejection leaves it. -/
def createRunFromEnvelope (host : Host) (adm : Admission) (number : Nat) (d : Disk) (e : Envelope) :
    RtRun × Disk × Created :=
  let r : RtRun := { number := number }
  match requireOutbox e with
  | none => (r, d, .rejected)
  | some required =>
  if !adm.admitted || disposed d.now.stores.ops e || (required && !adm.outboxValid) || !adm.created then (r, d, .rejected)
  else
    match populate host d.now.stores.ops r e with
    | none => (r, d, .rejected)
    | some r =>
      let deferred := required || isClaim e
      let r := { r with phase := 0, state := if deferred then .waitingEvent else .ready }
      match rtRunPersistState host.profile r d with
      | (d, false) => (r, d, .rejected)
      | (d, true) => commitClaimedRun host adm deferred r d e

/-- The torn tail is cut, then the same envelope is committed again. -/
def recommit (host : Host) (r : RtRun) (d : Disk) (e : Envelope) : RtRun × Disk × Bool :=
  commitInboundEvent host { r with nextEvent := 1 } d e

def cutTail (d : Disk) : Disk := if d.now.torn then d.wrote { d.now with torn := false } else d

/-- `retry_waiting_inbound_claims` on one run. -/
def retryWaitingInboundClaim (host : Host) (readable : Bool) (r : RtRun) (d : Disk) (e : Envelope) : RtRun × Disk :=
  if !readable then (r, d)
  else
    match rtPortsInboundCommitState r d.now.log with
    | .exact => rtRunSetState host.profile r d .ready
    | .conflict => applyRunTerminalEvent host.keepFinished host.profile r d .failed
    | .absent =>
      let (r, d, _) := recommit host r (cutTail d) e
      match rtPortsInboundCommitState r d.now.log with
      | .exact => rtRunSetState host.profile r d .ready
      | .conflict => applyRunTerminalEvent host.keepFinished host.profile r d .failed
      | .absent => (r, d)

/-! ## Recovery -/

/-- What `rt_action_runner_recover_started` makes of a request whose start is all that is known. -/
inductive Reconciled
  | terminal (t : Terminal)
  | blocked
  | relaunch
  | failed

structure Replaying where
  run : RtRun
  disk : Disk
  ended : Option RunState := none
  ok : Bool := true

/-- `replay_action_record`: a note that fails is an overflow of the ledger. -/
def replayActionRecord (keepFinished : Nat) (st : Replaying) : Actions.Body → Replaying
  | .request request =>
    let (r, d, ok) := noteRequest keepFinished st.run st.disk request
    { st with run := r, disk := d, ok := ok }
  | .started rid => { st with run := { st.run with ledger := noteStarted st.run.ledger rid } }
  | .terminal t =>
    let delivered := t.kind = .succeeded ∧ t.action = lit "message"
    { st with run := { st.run with
      ledger := noteTerminal st.run.ledger t.requestId
      deliveredMessage := st.run.deliveredMessage || delivered } }
  | .work _ rid => { st with run := { st.run with ledger := noteTerminal st.run.ledger rid } }
  | .overflow _ | .other _ => st

def replayEntry (keepFinished : Nat) (st : Replaying) : Entry → Replaying
  | .runStarted => { st with run := { st.run with runStarted := true } }
  | .runEnd ok => { st with ended := some (if ok then .done else .failed) }
  | .action body => replayActionRecord keepFinished st body
  | _ => st

/-- One line of the log that was read. -/
def replayLine (keepFinished : Nat) (st : Replaying) (line : Runs.Line) : Replaying :=
  if !st.ok then st
  else
    match line with
    | .corrupt => { st with ok := false }
    | .event number entry =>
      replayEntry keepFinished { st with run := { st.run with nextEvent := max st.run.nextEvent (number + 1) } } entry

/-- `replay_run_log`. -/
def replayRunLog (keepFinished : Nat) (r : RtRun) (d : Disk) : Replaying :=
  let d := cutTail d
  d.now.log.foldl (replayLine keepFinished) { run := { r with nextEvent := 1 }, disk := d }

/-- `rt_action_runner_recover_started` over the requests the replay left started. -/
def recoverStarted (keepFinished : Nat) (reconcile : Request → Reconciled) :
    List Pending → RtRun → Disk → RtRun × Disk × Bool
  | [], r, d => (r, d, true)
  | p :: rest, r, d =>
    if !p.started then recoverStarted keepFinished reconcile rest r d
    else
      match reconcile p.request with
      | .failed => (r, d, false)
      | .relaunch =>
        recoverStarted keepFinished reconcile rest
          { r with ledger := { r.ledger with pending := setStarted false p.request.requestId r.ledger.pending } } d
      | .blocked =>
        match rtAppendEvent keepFinished r d (.action (.work true p.request.requestId)) with
        | (r, d, true) =>
          recoverStarted keepFinished reconcile rest { r with ledger := noteTerminal r.ledger p.request.requestId } d
        | (r, d, false) => (r, d, false)
      | .terminal t =>
        match finishRequest keepFinished r d p.request t with
        | (r, d, true) => recoverStarted keepFinished reconcile rest r d
        | (r, d, false) => (r, d, false)

/-- Where a recovered run goes on: at its cursor when a message is out, else at phase zero. -/
def resumePosition (r : RtRun) : RtRun :=
  if r.deliveredMessage then { r with state := .running }
  else { r with phase := 0, advance := r.advance - 1, state := .ready }

inductive Restored
  | failed | retired | resumed
  deriving DecidableEq, Repr

/-- The end of `restore_runstate`, with the first line in place. -/
def resumeRun (host : Host) (reconcile : Request → Reconciled) (r : RtRun) (d : Disk) : RtRun × Disk × Restored :=
  match recoverStarted host.keepFinished reconcile r.ledger.pending r d with
  | (r, d, false) => (r, d, .failed)
  | (r, d, true) =>
    let r := resumePosition { r with waitingJobs := [], wait := .none }
    match rtRunPersistState host.profile r d with
    | (d, true) => (r, d, .resumed)
    | (d, false) => (r, d, .failed)

/-- The middle of `restore_runstate`: a run that ended is retired, one without its first line gets it now, and what the
second commit reports is not asked. -/
def restoreReplayed (host : Host) (reconcile : Request → Reconciled) (st : Replaying) (e : Envelope) :
    RtRun × Disk × Restored :=
  match rtPortsInboundCommitState st.run st.disk.now.log, st.ended with
  | .conflict, _ => (st.run, st.disk, .failed)
  | _, some state =>
    let r := { st.run with terminalEmitted := true, state := state }
    match rtRunPersistState host.profile r st.disk with
    | (d, true) => (r, d, .retired)
    | (d, false) => (r, d, .failed)
  | .exact, none => resumeRun host reconcile st.run st.disk
  | .absent, none =>
    let (r, d, _) := commitInboundEvent host st.run st.disk e
    match rtPortsInboundCommitState r d.now.log with
    | .exact => resumeRun host reconcile r d
    | _ => (r, d, .failed)

/-- `restore_runstate`. -/
def restoreRunstate (host : Host) (reconcile : Request → Reconciled) (number : Nat) (d : Disk) (e : Envelope) :
    RtRun × Disk × Restored :=
  let r : RtRun := { number := number }
  match d.now.control with
  | none => (r, d, .failed)
  | some control =>
    if control.profile ≠ host.profile.name ∨ host.profile.steps.length < control.phase then (r, d, .failed)
    else
      match populate host d.now.stores.ops { r with advance := control.advance, phase := control.phase } e with
      | none => (r, d, .failed)
      | some r =>
        let st := replayRunLog host.keepFinished r d
        if st.ok then restoreReplayed host reconcile st e else (st.run, st.disk, .failed)

end Floofclaw.Source.Intake
