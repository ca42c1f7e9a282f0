import Floofclaw.Lib.Machine
import Floofclaw.Source.EventLog

/-!
# The publication outbox

Model of `publication_outbox.c` with the intake of a wake in `ports.c`, the bus
directories it moves envelopes between and the janitor's pruning. Logs are the
texts of their files; run control states and outbox records are decoded. The
intake of one envelope is a program of several durable writes, so the state
says how far it got, and a crash forgets only that.
-/

set_option autoImplicit false

namespace Floofclaw.Source.Outbox
open Floofclaw.Lib Floofclaw.Source.Json Floofclaw.Source.EventLog

def publicationScanCap : Nat := 1024

structure PublicationRecord where
  wakeId : Bytes
  sourceRunId : Bytes
  sourceEventId : Bytes
  sourceType : Bytes
  channel : Bytes
  wakeType : Bytes
  /-- Empty until intake has bound the record to a run. -/
  claimedRunId : Bytes := []
  sourcePayload : Bytes
  wakePayload : Bytes
  deriving DecidableEq

structure WakeEnvelope where
  id : Bytes
  channel : Bytes
  type : Bytes
  payload : Bytes
  deriving DecidableEq

inductive RunStatus
  | live | terminal
  deriving DecidableEq, Repr

/-- What `runstate.json` says of a run. -/
structure RunControl where
  runId : Bytes
  status : RunStatus
  eventId : Bytes
  createdType : Bytes
  deriving DecidableEq

/-! ## Source truth -/

/-- The newline-terminated lines of a log; a torn tail is none of them. -/
def linesFrom : Bytes → Bytes → List Bytes
  | _, [] => []
  | line, c :: text => if c = ch '\n' then line :: linesFrom [] text else linesFrom (line ++ [c]) text

def completeLines (text : Bytes) : List Bytes := linesFrom [] (cstr text)

/-- `json_ref_value_compact_dup`. -/
def jsonRefValueCompactDup (v : JsonRef) : Option Bytes := jsonCompact (v.length + 1) v

def lineEventId (line : Bytes) : Option Bytes :=
  (jsonRefTopObject line).bind fun event => jsonRefObjectGetString event (lit "event_id") rtSmall

/-- The full envelope of a line agrees with the record. -/
def ownsSource (record : PublicationRecord) (line : Bytes) : Bool :=
  match jsonRefTopObject line with
  | none => false
  | some event =>
    decide (jsonRefObjectGetString event (lit "run_id") rtSmall = some record.sourceRunId ∧
      jsonRefObjectGetString event (lit "type") rtSmall = some record.sourceType ∧
      (jsonRefObjectGet event (lit "payload")).bind jsonRefValueCompactDup = some record.sourcePayload)

inductive SourceState
  | conflict | absent | exact
  deriving DecidableEq, Repr

def sourceLoop (record : PublicationRecord) : Nat → SourceState → List Bytes → SourceState
  | _, result, [] => result
  | found, result, line :: rest =>
    match lineEventId line with
    | none => .conflict
    | some eventId =>
      if eventId = record.sourceEventId then
        if found ≥ 1 ∨ ownsSource record line = false then .conflict
        else sourceLoop record (found + 1) .exact rest
      else sourceLoop record found result rest

/-- `source_state` of a readable log; a log that is not there is an absent source. -/
def sourceState (record : PublicationRecord) : Option Bytes → SourceState
  | none => .absent
  | some text => sourceLoop record 0 .absent (completeLines text)

/-! ## Claims -/

inductive InboundState
  | conflict | pending | exact
  deriving DecidableEq, Repr

def wakeLineExact (runId : Bytes) (record : PublicationRecord) (line : Bytes) : Bool :=
  match jsonRefTopObject line with
  | none => false
  | some event =>
    decide (jsonRefObjectGetString event (lit "event_id") rtSmall = some (eventIdText runId 1) ∧
      jsonRefObjectGetString event (lit "run_id") rtSmall = some runId ∧
      jsonRefObjectGetString event (lit "type") rtSmall = some record.wakeType ∧
      jsonRefObjectGetString event (lit "source") 64 = some record.channel ∧
      (jsonRefObjectGet event (lit "payload")).bind jsonRefValueCompactDup = some record.wakePayload)

/-- `claimed_inbound_state`: the first line of the claiming run. -/
def claimedInboundState (runId : Bytes) (record : PublicationRecord) : Option Bytes → InboundState
  | none => .pending
  | some text =>
    match completeLines text with
    | [] => .pending
    | line :: _ => if wakeLineExact runId record line then .exact else .conflict

inductive ClaimState
  | conflict | unclaimed | pending | active | terminal
  deriving DecidableEq, Repr

/-- How far the intake of an envelope got. -/
inductive IntakePc
  | idle
  | renamed (env : WakeEnvelope)
  | persisted (env : WakeEnvelope) (runId : Bytes)
  deriving DecidableEq

structure OutboxState where
  records : List PublicationRecord
  logs : Bytes → Option Bytes
  inbox : List WakeEnvelope
  processed : List WakeEnvelope
  runs : List RunControl
  pc : IntakePc

def claimStateOfRun (s : OutboxState) (record : PublicationRecord) (ctl : RunControl) : ClaimState :=
  if ctl.createdType ≠ record.wakeType then .conflict
  else
    match claimedInboundState ctl.runId record (s.logs ctl.runId) with
    | .conflict => .conflict
    | .pending => .pending
    | .exact => if ctl.status = .terminal then .terminal else .active

def runClaimStateBound (s : OutboxState) (runId : Bytes) (record : PublicationRecord) : ClaimState :=
  match s.runs.find? fun ctl => ctl.runId = runId with
  | none => .unclaimed
  | some ctl => if ctl.eventId ≠ record.wakeId then .conflict else claimStateOfRun s record ctl

/-- Which retained run claims the wake; a second claimant is a conflict. -/
def runClaimScan (s : OutboxState) (record : PublicationRecord) : ClaimState :=
  match s.runs.filter fun ctl => ctl.eventId = record.wakeId with
  | [] => .unclaimed
  | [ctl] => claimStateOfRun s record ctl
  | _ => .conflict

/-- A bound run whose directory is gone counts as terminal. -/
def runClaimState (s : OutboxState) (record : PublicationRecord) : ClaimState :=
  if record.claimedRunId = [] then runClaimScan s record
  else
    match runClaimStateBound s record.claimedRunId record with
    | .unclaimed => .terminal
    | claim => claim

/-! ## Bus -/

def inInbox (s : OutboxState) (id : Bytes) : Bool := s.inbox.any fun e => e.id = id
def inProcessed (s : OutboxState) (id : Bytes) : Bool := s.processed.any fun e => e.id = id

def wakeEnvelope (record : PublicationRecord) : WakeEnvelope :=
  { id := record.wakeId, channel := record.channel, type := record.wakeType, payload := record.wakePayload }

/-- Every file of that id in the directory is this very envelope. -/
def onlyEnvelope (dir : List WakeEnvelope) (env : WakeEnvelope) : Bool := dir.all fun e => e.id ≠ env.id || e = env

/-- The last part of a record's reconciliation: publish, leave or requeue. The flag is failure. -/
def publishWake (s : OutboxState) (record : PublicationRecord) (busOk : Bool) : OutboxState × Bool :=
  let env := wakeEnvelope record
  match inInbox s env.id, inProcessed s env.id with
  | true, true => (s, true)
  | true, false => (s, !onlyEnvelope s.inbox env)
  | false, true =>
    if onlyEnvelope s.processed env && busOk then
      ({ s with processed := s.processed.filter fun e => e.id ≠ env.id, inbox := s.inbox ++ [env] }, false)
    else (s, true)
  | false, false => if busOk then ({ s with inbox := s.inbox ++ [env] }, false) else (s, true)

/-! ## Reconciliation -/

/-- What the files and the work-state ledger answered while one record was reconciled. -/
structure RecordIo where
  loads : Bool := true
  sourceRead : Bool := true
  applied : Bool := true
  claimRead : Bool := true
  busOk : Bool := true
  unlinked : Bool := true
  deriving DecidableEq

/-- The source check of an unbound record: `none` goes on, `some failed` ends with it. -/
def sourceGate (s : OutboxState) (record : PublicationRecord) (io : RecordIo) : Option Bool :=
  if record.claimedRunId ≠ [] then none
  else if !io.sourceRead then some true
  else
    match sourceState record (s.logs record.sourceRunId) with
    | .conflict => some true
    | .absent => some false
    | .exact => if io.applied then none else some true

def removeRecord (s : OutboxState) (record : PublicationRecord) : OutboxState :=
  { s with records := s.records.filter fun r => r ≠ record }

/-- One record of a pass, with its failure. -/
def reconcileRecord (s : OutboxState) (record : PublicationRecord) (io : RecordIo) : OutboxState × Bool :=
  if !io.loads then (s, true)
  else
    match sourceGate s record io with
    | some failed => (s, failed)
    | none =>
      if !io.claimRead then (s, true)
      else
        match runClaimState s record with
        | .conflict => (s, true)
        | .terminal => if io.unlinked then (removeRecord s record, false) else (s, true)
        | .pending | .active => (s, false)
        | .unclaimed => publishWake s record io.busOk

/-- `reconcile_pass` over the records read at its start; a failed record does not stop it. -/
def reconcilePass (s : OutboxState) : List (PublicationRecord × RecordIo) → OutboxState × Bool
  | [] => (s, false)
  | (record, io) :: rest =>
    let (s, failed) := reconcileRecord s record io
    let (s, failedRest) := reconcilePass s rest
    (s, failed || failedRest)

/-! ## Producers -/

inductive Prepared
  | reused | refused | fresh
  deriving DecidableEq, Repr

/-- `prepared_source_lookup`: one record owns a reserved event id. -/
def preparedSourceLookup (records : List PublicationRecord) (wanted : PublicationRecord) : Prepared :=
  match records.find? fun r => r.sourceRunId = wanted.sourceRunId && r.sourceEventId = wanted.sourceEventId with
  | none => .fresh
  | some r =>
    if r.sourceType = wanted.sourceType ∧ r.sourcePayload = wanted.sourcePayload ∧ r.channel = wanted.channel ∧
        r.wakeType = wanted.wakeType ∧ r.wakePayload = wanted.wakePayload then .reused
    else .refused

/-- `rt_publication_outbox_prepare` with the envelope id it would reserve. -/
def rtPublicationOutboxPrepare (s : OutboxState) (wanted : PublicationRecord) (written : Bool) : OutboxState × Bool :=
  match preparedSourceLookup s.records wanted with
  | .reused => (s, true)
  | .refused => (s, false)
  | .fresh =>
    if s.records.length ≥ publicationScanCap || !written then (s, false)
    else ({ s with records := s.records ++ [{ wanted with claimedRunId := [] }] }, true)

/-! ## Intake -/

/-- The kinds of wake that must be backed by a record. -/
def requireOutbox (env : WakeEnvelope) : Bool :=
  env.type = lit "work_step_result" || env.type = lit "work_outcome" ||
    (env.type = lit "operation_result" &&
      match jsonRefTopObject env.payload with
      | none => false
      | some payload =>
        (jsonRefObjectGet payload (lit "source_event_id")).isSome &&
          (jsonRefObjectGet payload (lit "request_id")).isSome && (jsonRefObjectGet payload (lit "work_rev")).isSome)

/-- `rt_publication_outbox_validate`. -/
def rtPublicationOutboxValidate (s : OutboxState) (env : WakeEnvelope) : Bool :=
  match s.records.find? fun r => r.wakeId = env.id with
  | none => false
  | some r => decide (wakeEnvelope r = env ∧ sourceState r (s.logs r.sourceRunId) = .exact)

/-- `rt_publication_outbox_claim`: an unbound record is bound, a bound one left alone. -/
def rtPublicationOutboxClaim (s : OutboxState) (wakeId runId : Bytes) : OutboxState :=
  { s with
    records := s.records.map fun r => if r.wakeId = wakeId ∧ r.claimedRunId = [] then { r with claimedRunId := runId } else r }

/-- `rt_publication_outbox_release` for a run that retires. -/
def rtPublicationOutboxRelease (s : OutboxState) (wakeId runId : Bytes) (unlinked : Bool) : OutboxState × Bool :=
  match s.records.find? fun r => r.wakeId = wakeId with
  | none => (s, true)
  | some record =>
    if record.claimedRunId ≠ [] ∧ record.claimedRunId ≠ runId then (s, false)
    else if runClaimStateBound s runId record = .terminal && unlinked then (removeRecord s record, true)
    else (s, false)

/-- `rt_publication_outbox_run_pending`: a record still names the run as source or as claimant. -/
def rtPublicationOutboxRunPending (s : OutboxState) (ctl : RunControl) : Bool :=
  s.records.any fun r => r.sourceRunId = ctl.runId || r.wakeId = ctl.eventId

/-! ## Steps -/

inductive OutboxInput
  | prepare (wanted : PublicationRecord) (written : Bool)
  | append (runId text : Bytes)
  | truncate (runId : Bytes)
  | publishOther (env : WakeEnvelope)
  | reconcile (handled : List (PublicationRecord × RecordIo))
  | rename (id : Bytes)
  | reject
  | persist (runId : Bytes)
  | bind (written : Bool)
  | finish
  | terminate (runId : Bytes)
  | release (wakeId runId : Bytes) (unlinked : Bool)
  | prune (runId : Bytes)
  | discard (id : Bytes)
  | crash
  deriving DecidableEq

/-- The id was handed out by the bus counter and used nowhere yet. -/
def unusedId (s : OutboxState) (id : Bytes) : Bool :=
  !inInbox s id && !inProcessed s id && s.records.all (fun r => r.wakeId ≠ id) && s.runs.all (fun ctl => ctl.eventId ≠ id)

def setLog (s : OutboxState) (runId : Bytes) (text : Option Bytes) : OutboxState :=
  { s with logs := fun r => if r = runId then text else s.logs r }

/-- The control state of a run that ends. -/
def terminated (runId : Bytes) (ctl : RunControl) : RunControl :=
  if ctl.runId = runId then { ctl with status := .terminal } else ctl

/-- The text up to and with its last newline. -/
def untorn (text : Bytes) : Bytes := (text.reverse.dropWhile fun c => c ≠ ch '\n').reverse

def outboxStep (s : OutboxState) : OutboxInput → Option OutboxState
  | .prepare wanted written => if unusedId s wanted.wakeId then some (rtPublicationOutboxPrepare s wanted written).1 else none
  | .append runId text => some (setLog s runId (some ((s.logs runId).getD [] ++ text)))
  | .truncate runId => some (setLog s runId ((s.logs runId).map untorn))
  | .publishOther env => if unusedId s env.id then some { s with inbox := s.inbox ++ [env] } else none
  | .reconcile handled =>
    -- no pass runs between the rename of an envelope and the control state of its run
    match s.pc with
    | .renamed _ => none
    | _ => if handled.map Prod.fst <+: s.records then some (reconcilePass s handled).1 else none
  | .rename id =>
    match s.pc, s.inbox.find? fun e => e.id = id with
    | .idle, some env =>
      some { s with inbox := s.inbox.filter fun e => e.id ≠ id
                    processed := s.processed.filter (fun e => e.id ≠ id) ++ [env], pc := .renamed env }
    | _, _ => none
  | .reject =>
    match s.pc with
    | .renamed _ => some { s with pc := .idle }
    | _ => none
  | .persist runId =>
    match s.pc with
    | .renamed env =>
      -- the directory of the run is new
      if runId ≠ [] ∧ s.runs.all (fun ctl => ctl.runId ≠ runId) ∧ s.logs runId = none ∧
          (requireOutbox env = false ∨ rtPublicationOutboxValidate s env = true) then
        some { s with runs := s.runs ++ [{ runId := runId, status := .live, eventId := env.id, createdType := env.type }]
                      pc := .persisted env runId }
      else none
    | _ => none
  | .bind written =>
    match s.pc with
    | .persisted env runId => if requireOutbox env && written then some (rtPublicationOutboxClaim s env.id runId) else some s
    | _ => none
  | .finish =>
    match s.pc with
    | .persisted _ _ => some { s with pc := .idle }
    | _ => none
  | .terminate runId => some { s with runs := s.runs.map (terminated runId) }
  | .release wakeId runId unlinked => some (rtPublicationOutboxRelease s wakeId runId unlinked).1
  | .prune runId =>
    match s.pc, s.runs.find? fun ctl => ctl.runId = runId with
    | .idle, some ctl =>
      if ctl.status = .terminal ∧ rtPublicationOutboxRunPending s ctl = false then
        some (setLog { s with runs := s.runs.filter fun x => x ≠ ctl } runId none)
      else none
    | _, _ => none
  | .discard id =>
    if s.pc = .idle ∧ s.records.all (fun r => r.wakeId ≠ id) then
      some { s with processed := s.processed.filter fun e => e.id ≠ id }
    else none
  | .crash => some { s with pc := .idle }

/-- What recovery writes before the first pass; a refused record stops it. -/
def recoverRuns (s : OutboxState) : List OutboxInput → Option OutboxState
  | [] => some s
  | .prepare wanted written :: rest =>
    match rtPublicationOutboxPrepare s wanted written with
    | (_, false) => none
    | (s', true) => recoverRuns s' rest
  | i :: rest => (outboxStep s i).bind fun s' => recoverRuns s' rest

/-- The startup of the scheduler as far as the outbox decides it: recovery, then one pass over every record. -/
def rtSchedulerInit (s : OutboxState) (writes : List OutboxInput) : Bool :=
  match recoverRuns s writes with
  | none => false
  | some s' => !(reconcilePass s' (s'.records.map fun r => (r, {}))).2

def outboxInit : OutboxState :=
  { records := [], logs := fun _ => none, inbox := [], processed := [], runs := [], pc := .idle }

end Floofclaw.Source.Outbox
