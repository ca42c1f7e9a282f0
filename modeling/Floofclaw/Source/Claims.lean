import Floofclaw.Lib.Machine
import Floofclaw.Source.EventLog
import Floofclaw.Source.Operations

/-!
# Completion claims

Model of the claim half of `ports.c` with `recovery.c` and the bus directories:
publishing a claim, its intake, the retry of a first append that failed, the
requeue of an orphan, a crash anywhere and the recovery after it. What the disk
and the clock decide comes in with the input. The in-run terminal of an
operation (`terminalize_in_run`) opens no claim run and is not a step here; a
record closed without a result is.
-/

set_option autoImplicit false

namespace Floofclaw.Source.Claims
open Floofclaw.Lib Floofclaw.Source.Json Floofclaw.Source.EventLog Floofclaw.Source.Operations

inductive ClaimCause
  | worker | timeout
  deriving DecidableEq, Repr

/-- An `operation_completed` envelope as the parser admits it. -/
structure CompletionClaim where
  envelopeId : Bytes
  operationId : Bytes
  completionToken : Bytes
  cause : ClaimCause
  status : Bytes
  text : Bytes
  deriving DecidableEq

/-! ## Admission -/

/-- `completion_claim_disposition`: `none` opens the result run. -/
def completionClaimDisposition (st : OperationStore) (claim : CompletionClaim) : Option Bytes :=
  match opFind st claim.operationId with
  | none => some (lit "unknown_operation")
  | some o =>
    if o.status ≠ .running then some (lit "operation_already_terminal")
    else
      match claim.cause with
      | .timeout =>
        if o.completionToken ≠ [] ∧ !rtOperationTokenMatches st claim.operationId claim.completionToken then
          some (lit "completion_token_mismatch")
        else none
      | .worker =>
        if rtOperationTokenMatches st claim.operationId claim.completionToken then none
        else some (lit "completion_token_mismatch")

def deadlineText (action : Bytes) : Bytes :=
  lit "Managed operation " ++ (if action = [] then lit "(unknown)" else action) ++
    lit " reached its completion deadline; FloofClaw stopped waiting. Its external work may still be running " ++
    lit "and was not retried."

/-- The canonical result a claim makes of its record, sourced by the first event of its run. -/
def resultOf (o : OperationItem) (runNumber : Nat) (claim : CompletionClaim) : OperationResult :=
  { handle := o.handle, workerHandle := o.workerHandle, action := o.action, requestId := o.requestId
    triggerEventId := o.triggerEventId, taskId := o.taskId, contextId := o.contextId, channel := o.channel
    adapterId := o.adapterId, originEventId := o.originEventId, refJson := o.refJson, workRev := o.workRev
    sourceEventId := eventIdText (lit "run_" ++ decPadded 3 runNumber) 1
    status :=
      match claim.cause with
      | .timeout => lit "timed_out"
      | .worker => if claim.status = lit "failed" then lit "failed" else lit "succeeded"
    text := if claim.cause = .timeout ∧ claim.text = [] then deadlineText o.action else claim.text }

/-! ## Runs -/

inductive ClaimPhase
  | waiting | active | terminal
  deriving DecidableEq, Repr

/-- A run a claim opened: its control state, the first line of its log and, in memory, the payload expected there. -/
structure ClaimRun where
  number : Nat
  claim : CompletionClaim
  expected : OperationResult
  first : Option OperationResult
  phase : ClaimPhase
  live : Bool
  deriving DecidableEq

structure ClaimState where
  store : OperationStore
  inbox : List CompletionClaim
  processed : List CompletionClaim
  runs : List ClaimRun
  up : Bool
  /-- Every result ever committed as a first event, with its run. -/
  results : List (Bytes × Nat)
  deriving DecidableEq

/-- How the append of a first line ends. A torn line counts as none. -/
inductive AppendFate
  | unpopulated
  | crashedBefore
  | failed
  | reported (readable : Bool)
  | crashedAfter
  | appended (io : StoreIo)
  deriving DecidableEq

inductive CommitState
  | absent | exact | conflict
  deriving DecidableEq, Repr

/-- `rt_ports_inbound_commit_state` on a readable log. -/
def inboundCommitState (r : ClaimRun) : CommitState :=
  match r.first with
  | none => .absent
  | some line => if line = r.expected then .exact else .conflict

def replaceRun (s : ClaimState) (r r' : ClaimRun) : ClaimState :=
  { s with runs := s.runs.map fun x => if x = r then r' else x }

/-- The line is in the log: truth from here on. -/
def commitLine (s : ClaimState) (r : ClaimRun) (line : OperationResult) : ClaimState :=
  replaceRun { s with results := (r.claim.operationId, r.number) :: s.results } r
    { r with expected := line, first := some line }

/-- The end of `commit_inbound_event`: the state, the run and whether the call reported success. -/
structure Committed where
  state : ClaimState
  run : ClaimRun
  ok : Bool
  readable : Bool := true

/-- `commit_inbound_event`. A crash is left to the caller. -/
def commitInboundEvent (keepFinished : Nat) (s : ClaimState) (r : ClaimRun) (fate : AppendFate) : Committed :=
  match opFind s.store r.claim.operationId with
  | none => { state := s, run := r, ok := false }
  | some o =>
    let line := resultOf o r.number r.claim
    let prepared := { r with expected := line }
    let written := { r with expected := line, first := some line }
    match fate with
    | .unpopulated => { state := s, run := r, ok := false }
    | .crashedBefore | .failed => { state := replaceRun s r prepared, run := prepared, ok := false }
    | .reported readable => { state := commitLine s r line, run := written, ok := false, readable := readable }
    | .crashedAfter => { state := commitLine s r line, run := written, ok := false }
    | .appended io =>
      { state := { commitLine s r line with store := (storeApply io (applyResult keepFinished line) s.store).1 }
        run := written, ok := true }

def crash (s : ClaimState) : ClaimState :=
  { s with up := false, runs := s.runs.map fun r => { r with live := false } }

def AppendFate.crashes : AppendFate → Bool
  | .crashedBefore | .crashedAfter => true
  | _ => false

/-! ## Intake, retry, recovery -/

inductive IntakeFate
  | crashedRenamed
  | notCreated
  | committing (fate : AppendFate)
  deriving DecidableEq

def setPhase (s : ClaimState) (r : ClaimRun) (phase : ClaimPhase) (live : Bool) : ClaimState :=
  replaceRun s r { r with phase := phase, live := live }

/-- The end of `create_run_from_envelope`: a claim whose append failed waits, unless its line is there. -/
def settleIntake (c : Committed) : ClaimState :=
  if c.ok then setPhase c.state c.run .active true
  else if !c.readable then c.state
  else
    match inboundCommitState c.run with
    | .exact => setPhase c.state c.run .active true
    | .absent => c.state
    | .conflict => setPhase c.state c.run .waiting false

def takeEnvelope (s : ClaimState) (claim : CompletionClaim) : ClaimState :=
  { s with inbox := s.inbox.erase claim, processed := claim :: s.processed.filter fun c => c.envelopeId ≠ claim.envelopeId }

/-- The run the claim opens, its control state durable and its log empty. -/
def openRun (s : ClaimState) (o : OperationItem) (claim : CompletionClaim) (number : Nat) : ClaimState × ClaimRun :=
  let r : ClaimRun :=
    { number := number, claim := claim, expected := resultOf o number claim, first := none, phase := .waiting, live := true }
  ({ s with runs := s.runs ++ [r] }, r)

/-- `create_run_from_envelope` behind the rename of `bus_drain_inbox`. -/
def createRunFromEnvelope (keepFinished : Nat) (s : ClaimState) (claim : CompletionClaim) (number : Nat)
    (fate : IntakeFate) : ClaimState :=
  match fate with
  | .crashedRenamed => crash s
  | .notCreated => s
  | .committing fate =>
    match completionClaimDisposition s.store claim, opFind s.store claim.operationId with
    | none, some o =>
      let (s, r) := openRun s o claim number
      let c := commitInboundEvent keepFinished s r fate
      if fate.crashes then crash c.state else settleIntake c
    | _, _ => s

/-- `retry_waiting_inbound_claims` on one run. The line is appended without another look at the record's status. -/
def retryWaitingClaim (keepFinished : Nat) (s : ClaimState) (r : ClaimRun) (fate : AppendFate) : ClaimState :=
  match inboundCommitState r with
  | .exact => setPhase s r .active true
  | .conflict => setPhase s r .terminal false
  | .absent =>
    let c := commitInboundEvent keepFinished s r fate
    if fate.crashes then crash c.state
    else if !c.readable then c.state
    else
      match inboundCommitState c.run with
      | .exact => setPhase c.state c.run .active true
      | .conflict => setPhase c.state c.run .terminal false
      | .absent => c.state

/-- `restore_runstate` on one run; when it fails, the gateway does not come up. -/
def restoreRunstate (keepFinished : Nat) (s : ClaimState) (r : ClaimRun) (fate : AppendFate) : ClaimState :=
  match opFind s.store r.claim.operationId with
  | none => crash s
  | some o =>
    let r' := { r with expected := resultOf o r.number r.claim }
    let s := replaceRun s r r'
    match inboundCommitState r' with
    | .exact => setPhase s r' .active true
    | .conflict => crash s
    | .absent =>
      let c := commitInboundEvent keepFinished s r' fate
      if fate.crashes || !c.readable then crash c.state
      else
        match inboundCommitState c.run with
        | .exact => setPhase c.state c.run .active true
        | _ => crash c.state

/-! ## Steps -/

inductive ClaimInput
  | started (ev : OperationStarted) (io : StoreIo)
  | bindSecret (operationId token : Bytes) (io : StoreIo)
  | setWorkerHandle (operationId workerHandle : Bytes) (io : StoreIo)
  | closeWithoutResult (operationId : Bytes) (io : StoreIo)
  | publish (claim : CompletionClaim)
  | timeout (operationId reserved : Bytes) (io : StoreIo)
  | intake (envelopeId : Bytes) (number : Nat) (fate : IntakeFate)
  | retry (number : Nat) (fate : AppendFate)
  | requeue (envelopeId : Bytes)
  | discard (envelopeId : Bytes)
  | retire (number : Nat)
  | cancel (number : Nat)
  | prune (number : Nat)
  | crash
  | recover (number : Nat) (fate : AppendFate)
  | start
  deriving DecidableEq

def located (s : ClaimState) (envelopeId : Bytes) : Bool :=
  (s.inbox ++ s.processed).any fun c => c.envelopeId = envelopeId

/-- `bus_publish_stable`: an id already on the bus is left as it is. -/
def busPublishStable (s : ClaimState) (claim : CompletionClaim) : ClaimState :=
  if located s claim.envelopeId then s else { s with inbox := s.inbox ++ [claim] }

/-- `publish_timeout_claim`: the envelope id is reserved once and kept on the record. -/
def publishTimeoutClaim (s : ClaimState) (operationId reserved : Bytes) (io : StoreIo) : ClaimState :=
  match opFind s.store operationId with
  | none => s
  | some o =>
    if o.status ≠ .running then s
    else
      let bound := storeApply io (rtOperationBindClaimEnvelope operationId reserved) s.store
      if o.claimEnvelopeId = [] ∧ bound.2 = false then s
      else
        let fresh := o.claimEnvelopeId = []
        busPublishStable { s with store := if fresh then bound.1 else s.store }
          { envelopeId := if fresh then reserved else o.claimEnvelopeId
            operationId := operationId
            completionToken := if o.completionToken = [] then lit "expired" else o.completionToken
            cause := .timeout, status := lit "timed_out", text := deadlineText o.action }

def findRun (s : ClaimState) (number : Nat) : Option ClaimRun := s.runs.find? fun r => r.number = number

def storeStep (s : ClaimState) (io : StoreIo) (reduce : OperationStore → Reduced) : ClaimState :=
  { s with store := (storeApply io reduce s.store).1 }

/-- One step; `none` where the input does not apply. -/
def claimStep (keepFinished : Nat) (s : ClaimState) : ClaimInput → Option ClaimState
  | .started ev io => some (storeStep s io (applyStarted keepFinished ev))
  | .bindSecret op token io => some (storeStep s io (rtOperationBindSecret op token))
  | .setWorkerHandle op handle io => some (storeStep s io (rtOperationSetWorkerHandle op handle))
  | .closeWithoutResult op io => some (storeStep s io (rtOperationCloseWithoutResult keepFinished op))
  | .publish claim => some (busPublishStable s claim)
  | .timeout op reserved io => if s.up then some (publishTimeoutClaim s op reserved io) else none
  | .intake envelopeId number fate =>
    match s.inbox.find? fun c => c.envelopeId = envelopeId with
    | none => none
    | some claim =>
      if s.up ∧ (findRun s number).isNone then
        some (createRunFromEnvelope keepFinished (takeEnvelope s claim) claim number fate)
      else none
  | .retry number fate =>
    match findRun s number with
    | none => none
    | some r => if s.up ∧ r.live ∧ r.phase = .waiting then some (retryWaitingClaim keepFinished s r fate) else none
  | .requeue envelopeId =>
    match s.processed.find? fun c => c.envelopeId = envelopeId with
    | none => none
    | some claim =>
      -- the scan looks for a run, live or retired, created from the same envelope id
      if s.up ∧ completionClaimDisposition s.store claim = none ∧ s.runs.all (fun r => r.claim.envelopeId ≠ envelopeId) then
        some { s with processed := s.processed.erase claim, inbox := s.inbox ++ [claim] }
      else none
  | .discard envelopeId =>
    match s.processed.find? fun c => c.envelopeId = envelopeId with
    | none => none
    | some claim =>
      match opFind s.store claim.operationId with
      | none => none
      | some o => if o.status = .running then none else some { s with processed := s.processed.erase claim }
  | .retire number =>
    match findRun s number with
    | none => none
    | some r => if s.up ∧ r.live ∧ r.phase = .active then some (setPhase s r .terminal false) else none
  | .cancel number =>
    -- a shutdown cancels what is in memory, a waiting claim run too
    match findRun s number with
    | none => none
    | some r => if r.live then some (setPhase s r .terminal false) else none
  | .prune number =>
    match findRun s number with
    | none => none
    | some r => if r.phase = .terminal then some { s with runs := s.runs.filter fun x => x ≠ r } else none
  | .crash => some (crash s)
  | .recover number fate =>
    match findRun s number with
    | none => none
    | some r =>
      if s.up = false ∧ r.live = false ∧ r.phase ≠ .terminal ∧ s.processed.any (fun c => c.envelopeId = r.claim.envelopeId) then
        some (restoreRunstate keepFinished s r fate)
      else none
  | .start =>
    if s.up = false ∧ s.runs.all (fun r => r.phase = .terminal || r.live) then some { s with up := true } else none

def claimInit : ClaimState :=
  { store := [], inbox := [], processed := [], runs := [], up := true, results := [] }

end Floofclaw.Source.Claims
