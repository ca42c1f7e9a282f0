import Floofclaw.Source.Runs

/-!
# The step machine

Model of `run.c` from `drain_pending_effect` on, with the wakes of
`scheduler.c`: the implicit drain of the pending queue, the walk over the
profile's steps behind their gates, and the quiescence check at its end. What
the task store, a launch or an agent answers comes in with the environment of
the step; what they write goes through the disk of the run.
-/

set_option autoImplicit false

namespace Floofclaw.Source.RunSteps
open Floofclaw.Lib Floofclaw.Source.Json Floofclaw.Source.EventLog Floofclaw.Source.Actions
open Floofclaw.Source.Runs

inductive StepResult
  | advanced | waitingJob | waitingActionSlot | done | failed
  deriving DecidableEq, Repr

/-! ## What a step meets -/

inductive LaunchOutcome
  | busy
  /-- The claim is written and a process is running. -/
  | job (jobId : Bytes)
  /-- An intrinsic, a rejection or a launch that failed: over at once, with or without its claim. -/
  | finished (started : Bool) (terminal : Terminal)
  | failed

inductive AgentStart
  | failed
  /-- A native agent, with the events it committed. -/
  | native (events : List Entry)
  | job (jobId : Bytes)

structure StepEnv where
  snapshot : Bool := true
  /-- `rt_task_select_work_consequence`. -/
  workConsequence : Int := 1
  /-- `rt_work_state_outcome_matches`. -/
  workOutcome : Int := 0
  actionable : Bool := false
  compaction : Bool := true
  launch : Request → LaunchOutcome
  agent : AgentStart := .failed

/-! ## Notes -/

def actionLines (log : List Runs.Line) : List Actions.Line := log.filterMap fun line =>
  match line with
  | .event number (.action body) => some (.event number body)
  | _ => none

/-- A terminal outside a launch: written, then noted. -/
def emitTerminal (keepFinished : Nat) (r : RtRun) (d : Disk) (t : Terminal) : RtRun × Disk × Bool :=
  match rtAppendEvent keepFinished r d (.action (.terminal t)) with
  | (r, d, true) => ({ r with ledger := noteTerminal r.ledger t.requestId }, d, true)
  | (r, d, false) => (r, d, false)

/-- `rt_action_runner_note_request`; the flag is failure. -/
def noteRequest (keepFinished : Nat) (r : RtRun) (d : Disk) (request : Request) : RtRun × Disk × Bool :=
  match noteVerdict r.ledger request with
  | .ignored => (r, d, true)
  | .rejected reason => emitTerminal keepFinished r d (rejection request reason)
  | .repeated prior => emitTerminal keepFinished r d (memoTerminal (actionLines d.now.log) request prior)
  | .overflow =>
    let (r, d, _) := rtAppendEvent keepFinished r d (.action (.overflow request.requestId))
    (r, d, true)
  | .accepted => ({ r with ledger := accept r.ledger request }, d, true)

def isAccepted (r : RtRun) (request : Request) : Bool := noteVerdict r.ledger request = .accepted

/-- One event of an output in `rt_run_apply_output_events`. -/
def applyOutputEvent (keepFinished : Nat) (r : RtRun) (d : Disk) : Entry → RtRun × Disk
  | .task _ _ => ({ r with workProgress := true }, d)
  | .action (.request request) =>
    let progress := isAccepted r request && request.call.taskId ≠ [] && request.call.action ≠ lit "message"
    let (r, d, _) := noteRequest keepFinished r d request
    ({ r with workProgress := r.workProgress || progress }, d)
  | _ => (r, d)

def rtRunApplyOutputEvents (keepFinished : Nat) : List Entry → RtRun → Disk → RtRun × Disk
  | [], r, d => (r, d)
  | e :: events, r, d =>
    let (r, d) := applyOutputEvent keepFinished r d e
    rtRunApplyOutputEvents keepFinished events r d

/-- The events of an output, appended until one fails. -/
def appendOutput (keepFinished : Nat) : List Entry → RtRun → Disk → RtRun × Disk × Bool
  | [], r, d => (r, d, true)
  | e :: events, r, d =>
    match rtAppendEvent keepFinished r d e with
    | (r, d, true) => appendOutput keepFinished events r d
    | (r, d, false) => (r, d, false)

/-! ## Launching -/

inductive Launched
  | ok | busy | error
  deriving DecidableEq, Repr

/-- `rt_action_emit_started`. -/
def emitStarted (keepFinished : Nat) (r : RtRun) (d : Disk) (rid : Bytes) : RtRun × Disk × Bool :=
  match rtAppendEvent keepFinished r d (.action (.started rid)) with
  | (r, d, true) => ({ r with ledger := noteStarted r.ledger rid }, d, true)
  | (r, d, false) => (r, d, false)

/-- `rt_action_emit_terminal` of a pending request. A message that succeeded counts as delivered before its terminal is
written. -/
def finishRequest (keepFinished : Nat) (r : RtRun) (d : Disk) (request : Request) (t : Terminal) : RtRun × Disk × Bool :=
  let t := { t with requestId := request.requestId, action := request.call.action }
  let isMessage := request.call.action = lit "message"
  let r := if isMessage ∧ t.kind = .succeeded then { r with deliveredMessage := true } else r
  match rtAppendEvent keepFinished r d (.action (.terminal t)) with
  | (r, d, false) => (r, d, false)
  | (r, d, true) =>
    let progress := request.call.taskId ≠ [] ∧ ¬ isMessage ∧ request.call.action ≠ lit "working_memory_append"
    ({ r with workProgress := r.workProgress || progress, ledger := noteTerminal r.ledger request.requestId }, d, true)

/-- `rt_action_runner_launch`. -/
def rtActionRunnerLaunch (keepFinished : Nat) (profile : RtProfile) (env : StepEnv) (r : RtRun) (d : Disk)
    (request : Request) : RtRun × Disk × Launched :=
  match env.launch request with
  | .busy => (r, d, .busy)
  | .failed => (r, d, .error)
  | .job jobId =>
    match emitStarted keepFinished r d request.requestId with
    | (r, d, false) => (r, d, .error)
    | (r, d, true) =>
      let (r, d) := rtRunWaitingJobAdd profile r d jobId
      (r, d, .ok)
  | .finished started t =>
    match if started then emitStarted keepFinished r d request.requestId else (r, d, true) with
    | (r, d, false) => (r, d, .error)
    | (r, d, true) =>
      match finishRequest keepFinished r d request t with
      | (r, d, true) => (r, d, .ok)
      | (r, d, false) => (r, d, .error)

def waitFor (profile : RtProfile) (r : RtRun) (d : Disk) (state : RunState) (wait : Wait) : RtRun × Disk :=
  let (r, d) := rtRunSetState profile r d state
  ({ r with wait := wait }, d)

/-- `drain_pending_effect` over the requests that were waiting when it began; a launch adds none. -/
def drainPendingEffect (keepFinished : Nat) (profile : RtProfile) (env : StepEnv) (implicit launchedAny : Bool) :
    List Pending → RtRun → Disk → RtRun × Disk × StepResult
  | [], r, d => (r, d, if launchedAny then .advanced else .done)
  | p :: rest, r, d =>
    if p.started then drainPendingEffect keepFinished profile env implicit launchedAny rest r d
    else
      match rtActionRunnerLaunch keepFinished profile env r d p.request with
      | (r, d, .busy) =>
        let (r, d) := waitFor profile r d .waitingActionSlot (.slot p.request.requestId p.request.call.action)
        (r, d, .waitingActionSlot)
      | (r, d, .error) =>
        let (r, d) := applyRunTerminalEvent keepFinished profile r d .failed
        (r, d, .failed)
      | (r, d, .ok) =>
        if r.waitingJobs ≠ [] then
          let r := if !implicit && !r.actionCliOnly && !profile.onePass then { r with phase := 0 } else r
          let (r, d) := waitFor profile r d .waitingJobs (.action p.request.requestId p.request.call.action)
          (r, d, .waitingJob)
        else drainPendingEffect keepFinished profile env implicit true rest r d

/-! ## Passes -/

/-- `begin_advance_if_needed`. -/
def beginAdvanceIfNeeded (keepFinished : Nat) (profile : RtProfile) (r : RtRun) (d : Disk) : RtRun × Disk × Bool :=
  if r.phase = 0 ∧ r.state = .ready ∧ r.advance ≥ rtMaxProfilePasses then
    let (r, d) := applyRunTerminalEvent keepFinished profile r d .failed
    (r, d, false)
  else
    let r :=
      if r.phase = 0 ∧ r.state = .ready then
        { r with advance := r.advance + 1, deliveredMessage := false, workProgress := false }
      else r
    let (r, d) := if r.state = .ready then rtRunSetState profile r d .running else (r, d)
    (r, d, true)

/-- `finish_advance`. -/
def finishAdvance (keepFinished : Nat) (profile : RtProfile) (env : StepEnv) (r : RtRun) (d : Disk) :
    RtRun × Disk × StepResult :=
  if r.waitingJobs ≠ [] then
    let (r, d) := rtRunSetState profile r d .waitingJobs
    (r, d, .waitingJob)
  else if !r.actionCliOnly && !profile.onePass && r.workProgress && env.actionable then
    let (r, d) := rtRunSetState profile { r with phase := 0 } d .ready
    (r, d, .advanced)
  else
    let (r, d) := applyRunTerminalEvent keepFinished profile r d .done
    (r, d, .done)

/-! ## Steps -/

def stepIsExplicitActionRunner (step : RtStep) : Bool := step.type = lit "builtin" && step.target = lit "action_runner"

/-- `event_kind_gate_matches`: a token of the list is the kind. -/
def eventKindGateMatches (r : RtRun) (list : Bytes) : Bool :=
  r.eventKind ≠ [] && (list.splitOn (ch ',')).contains r.eventKind

/-- `step_gate_skip_reason`. -/
def stepGateSkipReason (env : StepEnv) (r : RtRun) (step : RtStep) : Option Bytes :=
  if step.gate = [] ∨ step.gate = lit "always" then none
  else if (lit "event_kind:").isPrefixOf step.gate then
    if eventKindGateMatches r (step.gate.drop 11) then none else some (lit "event_kind_mismatch")
  else if step.gate = lit "work_consequence" then
    if env.workConsequence = 0 then none
    else if env.workConsequence = 1 then some (lit "no_work_consequence")
    else if env.workConsequence = 2 then some (lit "multiple_work_consequences")
    else if env.workConsequence = 3 then some (lit "stale_work_revision")
    else if env.workConsequence = 4 then some (lit "uncorrelated_work_result")
    else if env.workConsequence = 5 then some (lit "work_consequence_consumed")
    else some (lit "work_consequence_lookup_failed")
  else if step.gate = lit "terminal_work_outcome" then
    if env.workOutcome = 1 then none
    else if env.workOutcome = 0 then some (lit "uncorrelated_work_outcome")
    else some (lit "work_outcome_lookup_failed")
  else if step.gate = lit "after_message_result" then if r.deliveredMessage then none else some (lit "config_noop")
  else if step.gate = lit "memory_compaction_due" then
    if r.memoryCompactionDue then none else some (lit "memory_compaction_not_due")
  else if step.gate = lit "affair_extraction_maybe_needed" then
    if r.inboundAffairId = [] then none else some (lit "affair_extraction_not_needed")
  else some (lit "config_noop")

/-- The lookups that fail the run before the gate is asked, with the text of their error. -/
def gateLookupError (env : StepEnv) (step : RtStep) : Option Bytes :=
  if step.gate = lit "work_consequence" ∧ env.workConsequence = 2 then
    some (lit "step " ++ step.id ++ lit " requires exactly one current-run work consequence; found multiple")
  else if step.gate = lit "work_consequence" ∧ env.workConsequence < 0 then
    some (lit "step " ++ step.id ++ lit " work consequence lookup failed")
  else if step.gate = lit "terminal_work_outcome" ∧ env.workOutcome < 0 then
    some (lit "step " ++ step.id ++ lit " terminal work-outcome lookup failed")
  else none

def postReplyBookkeepingFailed (r : RtRun) (step : RtStep) : Bool := r.deliveredMessage && step.id = lit "memory.after"

def advancePhase (profile : RtProfile) (r : RtRun) (d : Disk) : RtRun × Disk :=
  rtRunSetPhaseIndex profile r d (r.phase + 1)

/-- A step that failed: the reply may already be out, and then only its bookkeeping did. -/
def failStep (keepFinished : Nat) (profile : RtProfile) (r : RtRun) (d : Disk) (step : RtStep) : RtRun × Disk × StepResult :=
  if postReplyBookkeepingFailed r step then
    let (r, d) := applyRunTerminalEvent keepFinished profile r d .done
    (r, d, .done)
  else
    let (r, d) := applyRunTerminalEvent keepFinished profile r d .failed
    (r, d, .failed)

/-- The agent branch of a dispatched step. -/
def startAgentStep (keepFinished : Nat) (profile : RtProfile) (env : StepEnv) (r : RtRun) (d : Disk) (step : RtStep) :
    RtRun × Disk × StepResult :=
  let advanced (r : RtRun) (d : Disk) : RtRun × Disk × StepResult :=
    let (r, d) := advancePhase profile r d
    (r, d, .advanced)
  let failed (r : RtRun) (d : Disk) : RtRun × Disk × StepResult :=
    if step.nonCritical then advanced r d else failStep keepFinished profile r d step
  match env.agent with
  | .failed => failed r d
  | .native events =>
    match appendOutput keepFinished events r d with
    | (r, d, false) => failed r d
    | (r, d, true) =>
      let (r, d) := rtRunApplyOutputEvents keepFinished events r d
      if step.id = lit "memory.after" ∧ env.compaction = false then failStep keepFinished profile r d step
      else advanced r d
  | .job jobId =>
    let (r, d) := rtRunWaitingJobAdd profile r d jobId
    let (r, d) := advancePhase profile r d
    let (r, d) := waitFor profile r d .waitingJobs (.agent step.id)
    (r, d, .waitingJob)

/-- A step whose gate is open: it is traced and carried out. -/
def dispatchStep (keepFinished : Nat) (profile : RtProfile) (env : StepEnv) (r : RtRun) (d : Disk) (step : RtStep) :
    RtRun × Disk × StepResult :=
  let d := d.wrote { d.now with trace := d.now.trace ++ [(step.id, step.type)] }
  if step.type = lit "agent" then startAgentStep keepFinished profile env r d step
  else if stepIsExplicitActionRunner step then
    match drainPendingEffect keepFinished profile env false false r.ledger.pending r d with
    | (r, d, .done) | (r, d, .advanced) =>
      let (r, d) := advancePhase profile r d
      (r, d, .advanced)
    | drained => drained
  else
    let (r, d, _) := rtAppendEvent keepFinished r d (.error (lit "unknown step type or builtin"))
    let (r, d) := applyRunTerminalEvent keepFinished profile r d .failed
    (r, d, .failed)

def walkStep (keepFinished : Nat) (profile : RtProfile) (env : StepEnv) (r : RtRun) (d : Disk) (step : RtStep) :
    RtRun × Disk × StepResult :=
  match gateLookupError env step with
  | some message =>
    let (r, d, _) := rtAppendEvent keepFinished r d (.error message)
    let (r, d) := applyRunTerminalEvent keepFinished profile r d .failed
    (r, d, .failed)
  | none =>
    match stepGateSkipReason env r step with
    | some _ =>
      let (r, d) := advancePhase profile r d
      (r, d, .advanced)
    | none => dispatchStep keepFinished profile env r d step

/-- The choice of `rt_run_step_ready` once a pass is under way. -/
def advanceRun (keepFinished : Nat) (profile : RtProfile) (env : StepEnv) (r : RtRun) (d : Disk) : RtRun × Disk × StepResult :=
  match profile.steps[r.phase]? with
  | none =>
    if r.ledger.pending ≠ [] then drainPendingEffect keepFinished profile env true false r.ledger.pending r d
    else finishAdvance keepFinished profile env r d
  | some step =>
    if r.ledger.pending ≠ [] ∧ stepIsExplicitActionRunner step = false then
      drainPendingEffect keepFinished profile env true false r.ledger.pending r d
    else walkStep keepFinished profile env r d step

/-- The first step of a run says so in the log, whatever becomes of the line. -/
def emitRunStarted (keepFinished : Nat) (r : RtRun) (d : Disk) : RtRun × Disk :=
  if r.runStarted then (r, d)
  else
    let (r, d, _) := rtAppendEvent keepFinished r d .runStarted
    ({ r with runStarted := true }, d)

def rtRunStepReady (keepFinished : Nat) (profile : RtProfile) (env : StepEnv) (r : RtRun) (d : Disk) :
    RtRun × Disk × StepResult :=
  let (r, d) := emitRunStarted keepFinished r d
  if !env.snapshot then
    let (r, d) := applyRunTerminalEvent keepFinished profile r d .failed
    (r, d, .failed)
  else
    match beginAdvanceIfNeeded keepFinished profile r d with
    | (r, d, false) => (r, d, .failed)
    | (r, d, true) => advanceRun keepFinished profile env r d

/-! ## Wakes -/

def waitClear (r : RtRun) : RtRun := { r with wait := .none }

/-- What became of an agent's job: its events, a repair of its decision, or a failure. -/
inductive AgentJobEnd
  | output (events : List Entry)
  | repair
  | failed

inductive JobEnd
  | agent (stepId : Bytes) (ending : AgentJobEnd)
  /-- The terminal of an action's job. -/
  | action (rid : Bytes) (terminal : Terminal)

/-- `rt_agent_runner_complete_job`; the flag is success. -/
def completeAgentJob (keepFinished : Nat) (profile : RtProfile) (r : RtRun) (d : Disk) : AgentJobEnd → RtRun × Disk × Bool
  | .failed => (r, d, false)
  | .output events =>
    match appendOutput keepFinished events r d with
    | (r, d, false) => (r, d, false)
    | (r, d, true) =>
      let (r, d) := rtRunApplyOutputEvents keepFinished events r d
      (r, d, true)
  | .repair =>
    if r.phase = 0 then (r, d, false)
    else
      let r := { r with phase := r.phase - 1 }
      let (d, ok) := rtRunPersistState profile r d
      (r, d, ok)

/-- The branch of `wake_run_after_job` for a job of an agent that failed. -/
def wakeAfterAgentFailure (keepFinished : Nat) (profile : RtProfile) (r : RtRun) (d : Disk) (stepId : Bytes) : RtRun × Disk :=
  if stepId = lit "memory.after" ∧ r.deliveredMessage then applyRunTerminalEvent keepFinished profile r d .done
  else if (profile.steps.find? fun step => step.id = stepId).any RtStep.nonCritical then
    let (r, d) := rtRunSetState profile r d (if r.waitingJobs ≠ [] then .waitingJobs else .running)
    (waitClear r, d)
  else if r.attempts < profile.retryAttempts then
    let message := lit "phase " ++ stepId ++ lit " failed; retrying event (attempt " ++ decInt (r.attempts + 1) ++
      lit " of " ++ decInt profile.retryAttempts ++ lit ")"
    let (r, d, _) := rtAppendEvent keepFinished { r with attempts := r.attempts + 1 } d (.error message)
    rtRunSetState profile { waitClear r with phase := 0 } d .ready
  else applyRunTerminalEvent keepFinished profile r d .failed

/-- `pump_finished_jobs` on one job: `none` when it belongs to no waiting run. -/
def pumpFinishedJob (keepFinished : Nat) (profile : RtProfile) (r : RtRun) (d : Disk) (jobId : Bytes) (job : JobEnd) :
    Option (RtRun × Disk) :=
  if r.state ≠ .waitingJobs then none
  else
    match job with
    | .agent stepId ending =>
      if r.wait ≠ .agent stepId then none
      else
        let (r, d, ok) := completeAgentJob keepFinished profile r d ending
        let r := { r with waitingJobs := r.waitingJobs.erase jobId }
        if ok then
          let (r, d) := rtRunSetState profile r d .running
          some (waitClear r, d)
        else some (wakeAfterAgentFailure keepFinished profile r d stepId)
    | .action rid t =>
      match r.ledger.find rid with
      | none => none
      | some p =>
        let (r, d, ok) := finishRequest keepFinished r d p.request t
        let r := { r with waitingJobs := r.waitingJobs.erase jobId }
        if ok then
          let (r, d) := rtRunSetState profile r d (if r.waitingJobs ≠ [] then .waitingJobs else .ready)
          some (waitClear r, d)
        else some (applyRunTerminalEvent keepFinished profile r d .failed)

/-- `wake_action_slot_waiters` on one run. -/
def wakeActionSlotWaiter (profile : RtProfile) (r : RtRun) (d : Disk) : Option (RtRun × Disk) :=
  if r.state = .waitingActionSlot then
    let (r, d) := rtRunSetState profile r d .ready
    some (waitClear r, d)
  else none

end Floofclaw.Source.RunSteps
