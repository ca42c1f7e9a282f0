import Floofclaw.Lib.Machine
import Floofclaw.Source.Actions

/-!
# A run and its actions

Model of one run between `event_log.jsonl`, `deliveries.jsonl` and the
operation store: an agent's requests and their notes, launch, delivery, the
terminals, a crash anywhere and the recovery after it (`run.c`,
`action_events.c`, `action_subprocess.c`, `recovery.c`). Each step makes one
durable write at most. Recovery makes several, and the disk may stop it at
any of them; that is also how a crash during recovery looks.
-/

set_option autoImplicit false

namespace Floofclaw.Source.Runner
open Floofclaw.Lib Floofclaw.Source.Json Floofclaw.Source.EventLog Floofclaw.Source.Actions

/-- What a run is from its creation on: its id, and whether it came from a channel that messages go back to. -/
structure RunIdentity where
  runId : Bytes
  channel : Bool := true
  deriving DecidableEq

structure ActionDef where
  outsideWorld : Bool
  managedOperation : Bool := false
  workTerminal : Bool := false
  deriving DecidableEq

/-- The actions a process loaded at its start. -/
abbrev Registry : Type := List (Bytes × ActionDef)

def rtActionRegistryFind (registry : Registry) (action : Bytes) : Option ActionDef :=
  (registry.find? fun entry => entry.1 = action).map Prod.snd

/-- A readable line of `deliveries.jsonl` of this run; the delivery id is made of the number. -/
structure Delivery where
  number : Nat
  requestId : Bytes
  text : Bytes
  deriving DecidableEq

inductive DeliveryFate
  | done | lost | torn
  deriving DecidableEq, Repr

/-- A committed line whose bookkeeping is still to come. -/
inductive Note
  | request (r : Request)
  | started (requestId : Bytes)
  | terminal (requestId : Bytes)
  /-- A work terminal is in the log; the ledger waits for the terminal of its action. -/
  | work (requestId : Bytes)
  deriving DecidableEq

/-- The request that is being launched. -/
inductive Active
  | none
  | launching (requestId : Bytes)
  | delivered (requestId : Bytes)
  deriving DecidableEq

inductive RunStatus
  | up | failed | done | down
  deriving DecidableEq, Repr

structure RunnerState where
  log : RunLog := {}
  ledger : Ledger := {}
  todo : List Note := []
  deliveries : List Delivery := []
  deliveryTorn : Bool := false
  nextDelivery : Nat := 1
  /-- The operation records of managed calls by request, with "still running". -/
  ops : List (Bytes × Bool) := []
  registry : Registry := []
  active : Active := .none
  status : RunStatus := .up
  /-- Every effect let loose on the outside world, by request. -/
  launched : List Bytes := []
  /-- The requests whose start a recovery found without a terminal. -/
  recovered : List Bytes := []
  deriving DecidableEq

/-! ## Texts -/

def rtMessageTextMax : Nat := 8192

/-- The id of a request is made of the run and the number of its event. -/
def requestIdText (runId : Bytes) (number : Nat) : Bytes :=
  lit "actionreq_" ++ runId ++ lit "_" ++ decPadded 6 number

def messageResult (text : Bytes) : Bytes := lit "\x7b\"message\":\"" ++ (jsonEscape (rtMessageTextMax * 2 + 1) text).1 ++ lit "\"\x7d"

/-- `fc_message`: a text the delivery cannot carry is refused. -/
def fcMessage (args : Bytes) : Option Bytes :=
  match (jsonRefFirstObject args).bind fun root => jsonRefObjectGetString root (lit "message") (rtMessageTextMax + 1) with
  | none => none
  | some text => if (jsonEscape (rtMessageTextMax * 2 + 1) text).2 then some text else none

/-- What recovery reads back: a smaller buffer, and no error when it does not fit. -/
def recoveredMessage (args : Bytes) : Bytes :=
  ((jsonRefFirstObject args).bind fun root => jsonRefObjectGetString root (lit "message") rtLarge).getD []

/-- The terminal of a delivered message that recovery found without one. -/
def recoveredTerminal (r : Request) : Terminal :=
  { kind := .succeeded, requestId := r.requestId, action := r.call.action, reason := lit "memoized_duplicate"
    result := lit "\x7b\"message\":\"" ++ (jsonEscape (rtLarge * 2) (recoveredMessage r.call.args)).1 ++ lit "\"\x7d"
    error := lit "null" }

def ambiguousTerminal (r : Request) : Terminal :=
  { kind := .failed, requestId := r.requestId, action := r.call.action, reason := lit "ambiguous_completion"
    result := lit "\x7b\x7d"
    error := lit "\x7b\"message\":\"outside-world completion is ambiguous; the action was not replayed\"\x7d" }

/-! ## Recovery -/

/-- What the process meets when it recovers a run: its registry, the disk by event number, whether the task of a
bound request takes the blocker, and whether an operation record can be closed. -/
structure Restart where
  registry : Registry
  disk : Nat → Fate
  blocks : Bytes → Bool
  closes : Bytes → Bool

/-- `rt_ports_delivery_exists`. -/
def deliveryExists (s : RunnerState) (rid : Bytes) : Bool := s.deliveries.any fun d => d.requestId = rid

/-- `rt_operation_close_without_result`. -/
def closeOperation (s : RunnerState) (rid : Bytes) : RunnerState :=
  { s with ops := s.ops.map fun op => if op.1 = rid then (op.1, false) else op }

def bound (r : Request) : Bool := r.call.taskId ≠ [] && decide (0 < r.call.workRev) && r.call.trigger ≠ []

/-- A terminal of recovery; the flag is success. -/
def recoverTerminal (disk : Nat → Fate) (s : RunnerState) (t : Terminal) : RunnerState × Bool :=
  let (w, L, ok) := emitTerminal s.log s.ledger t (disk s.log.nextEvent)
  ({ s with log := w, ledger := L }, ok)

/-- The blocker of a bound request, which stands for its terminal. -/
def recoverBlocker (disk : Nat → Fate) (s : RunnerState) (rid : Bytes) : RunnerState × Bool :=
  match s.log.append (.work true rid) (disk s.log.nextEvent) with
  | (w, true) => ({ s with log := w, ledger := noteTerminal s.ledger rid }, true)
  | (w, false) => ({ s with log := w }, false)

def clearStarted (s : RunnerState) (rid : Bytes) : RunnerState :=
  { s with ledger := { s.ledger with pending := setStarted false rid s.ledger.pending } }

/-- An outside-world request whose start is all that is known. -/
def recoverAmbiguous (env : Restart) (s : RunnerState) (r : Request) : RunnerState × Bool :=
  -- only a registered managed action has its record closed
  let managed := (rtActionRegistryFind env.registry r.call.action).any ActionDef.managedOperation
  let s := if managed && env.closes r.requestId then closeOperation s r.requestId else s
  if bound r && env.blocks r.requestId then recoverBlocker env.disk s r.requestId
  else recoverTerminal env.disk s (ambiguousTerminal r)

/-- One entry of `rt_action_runner_recover_started`. -/
def recoverEntry (env : Restart) (s : RunnerState) (p : Pending) : RunnerState × Bool :=
  let r := p.request
  if !p.started then (s, true)
  else
    let s := { s with recovered := s.recovered ++ [r.requestId] }
    if r.call.action = lit "message" then
      if deliveryExists s r.requestId then
        -- a text that grows past the buffer when it is escaped stops the recovery
        if (jsonEscape (rtLarge * 2) (recoveredMessage r.call.args)).2 then recoverTerminal env.disk s (recoveredTerminal r)
        else (s, false)
      else (clearStarted s r.requestId, true)
    else
      match rtActionRegistryFind env.registry r.call.action with
      | none => recoverAmbiguous env s r
      | some d => if d.outsideWorld then recoverAmbiguous env s r else (clearStarted s r.requestId, true)

def recoverStarted (env : Restart) (s : RunnerState) : List Pending → RunnerState × Bool
  | [] => (s, true)
  | p :: rest =>
    match recoverEntry env s p with
    | (s', true) => recoverStarted env s' rest
    | (s', false) => (s', false)

/-- `restore_runstate` over the action ledger: replay, then the started requests. A failure stops the process. -/
def recoverRun (env : Restart) (s : RunnerState) : RunnerState :=
  let replayed := replayRunLog env.disk s.log
  let s := { s with
    log := replayed.log, ledger := replayed.ledger, nextDelivery := replayed.nextDelivery, registry := env.registry
    todo := [], active := .none }
  if !replayed.ok then { s with status := .down }
  else
    match recoverStarted env s s.ledger.pending with
    | (s', true) => { s' with status := .up }
    | (s', false) => { s' with status := .down }

/-! ## Steps -/

inductive RunnerInput
  /-- The next `action_request` of an output. -/
  | request (call : Call) (fate : Fate)
  /-- A later event of the output is refused: what it committed stays, and is never noted. -/
  | refuse
  | note (fate : Fate)
  | other (delivery : Bool) (fate : Fate)
  | reject (reason : Bytes) (fate : Fate)
  | start (fate : Fate)
  | allocate (written : Bool)
  | launch
  | deliver (fate : DeliveryFate)
  | work (blocked : Bool) (fate : Fate)
  | messageDone (fate : Fate)
  | finishAction (rid : Bytes) (kind : TerminalKind) (reason result error : Bytes) (fate : Fate)
  | finishRun (fate : Fate)
  /-- The first append of the run never became a line: `retry_waiting_inbound_claims`. -/
  | retryInbound
  | crash
  | recover (env : Restart)

/-- The next request to launch. -/
def peekNext (L : Ledger) : Option Pending := L.pending.find? fun p => !p.started

/-- The terminal of a request is written; its note follows, and a failed write fails the run. -/
def commitTerminal (s : RunnerState) (t : Terminal) (fate : Fate) : RunnerState :=
  match s.log.append (.terminal t) fate with
  | (w, true) => { s with log := w, todo := [.terminal t.requestId], active := .none }
  | (w, false) => { s with log := w, todo := [], active := .none, status := .failed }

def requestsOnly (todo : List Note) : Bool := todo.all fun note =>
  match note with
  | .request _ => true
  | _ => false

def performNote (s : RunnerState) (rest : List Note) (fate : Fate) : Note → RunnerState
  | .request r =>
    let (w, L, _) := noteRequest s.log s.ledger r fate
    { s with log := w, ledger := L, todo := rest }
  | .started rid => { s with ledger := noteStarted s.ledger rid, todo := rest }
  | .terminal rid | .work rid => { s with ledger := noteTerminal s.ledger rid, todo := rest }

/-- Nothing of the bookkeeping is open and no launch is under way. -/
def settled (s : RunnerState) : Bool := s.todo.isEmpty && s.active = .none

def runnerStep (run : RunIdentity) (s : RunnerState) (i : RunnerInput) : Option RunnerState :=
  match i, s.status with
  | .request call fate, .up =>
    if requestsOnly s.todo && s.active = .none then
      let r : Request := { requestId := requestIdText run.runId s.log.nextEvent, call := call }
      match s.log.append (.request r) fate with
      | (w, true) => some { s with log := w, todo := s.todo ++ [Note.request r] }
      | (w, false) => some { s with log := w, todo := [] }
    else none
  | .refuse, .up => if requestsOnly s.todo && s.active = .none then some { s with todo := [] } else none
  | .note fate, .up =>
    match s.todo with
    | [] => none
    | .work _ :: _ => none
    | note :: rest => some (performNote s rest fate note)
  | .other delivery fate, .up => some { s with log := (s.log.append (.other delivery) fate).1 }
  | .reject reason fate, .up =>
    match settled s, peekNext s.ledger with
    | true, some p => some (commitTerminal s (rejection p.request reason) fate)
    | _, _ => none
  | .start fate, .up =>
    match settled s, peekNext s.ledger with
    | true, some p =>
      match s.log.append (.started p.request.requestId) fate with
      | (w, true) => some { s with log := w, todo := [.started p.request.requestId], active := .launching p.request.requestId }
      | (w, false) => some { s with log := w, status := .failed }
    | _, _ => none
  | .allocate written, .up =>
    match s.active, s.todo with
    | .launching rid, [] =>
      match s.ledger.find rid with
      | none => none
      | some p =>
        -- the action CLI has no operation, and a relaunch finds its record
        if (rtActionRegistryFind s.registry p.request.call.action).any ActionDef.managedOperation &&
            p.request.call.source ≠ lit "action_cli" && written && s.ops.all (fun op => op.1 ≠ rid) then
          some { s with ops := s.ops ++ [(rid, true)] }
        else some s
    | _, _ => none
  | .launch, .up =>
    match s.active, s.todo with
    | .launching rid, [] =>
      match s.ledger.find rid with
      | none => none
      | some p =>
        if p.request.call.action = lit "message" then none
        else some { s with launched := s.launched ++ [rid], active := .none }
    | _, _ => none
  | .deliver fate, .up =>
    match s.active, s.todo with
    | .launching rid, [] =>
      match s.ledger.find rid with
      | none => none
      | some p =>
        match (if p.request.call.action = lit "message" ∧ run.channel then fcMessage p.request.call.args else none) with
        | none => none
        | some text =>
          let d : Delivery := { number := s.nextDelivery, requestId := rid, text := text }
          let s' := { s with nextDelivery := s.nextDelivery + 1, active := .delivered rid }
          match fate with
          | .done =>
            -- behind a torn line the record cannot be read
            if s.deliveryTorn then some { s' with deliveryTorn := false } else some { s' with deliveries := s.deliveries ++ [d] }
          | .lost => some s'
          | .torn => some { s' with deliveryTorn := true }
    | _, _ => none
  | .messageDone fate, .up =>
    match s.active, s.todo with
    | .delivered rid, [] =>
      match s.ledger.find rid with
      | none => none
      | some p =>
        match fcMessage p.request.call.args with
        | none => none
        | some text =>
          some (commitTerminal s { kind := .succeeded, requestId := rid, action := lit "message", reason := []
                                   result := messageResult text, error := lit "null", delivery := true } fate)
    | _, _ => none
  | .work blocked fate, .up =>
    match s.active, s.todo with
    | .launching rid, [] =>
      match s.ledger.find rid with
      | none => none
      | some p =>
        if (rtActionRegistryFind s.registry p.request.call.action).any ActionDef.workTerminal then
          match s.log.append (.work blocked rid) fate with
          | (w, true) => some { s with log := w, todo := [.work rid] }
          | (w, false) => some { s with log := w }
        else none
    | _, _ => none
  | .finishAction rid kind reason result error fate, .up =>
    if (s.todo = [] ∨ s.todo = [.work rid]) ∧ (s.active = .none ∨ s.active = .launching rid) then
      match s.ledger.find rid with
      | none => none
      | some p =>
        -- a message succeeds through its delivery, unless there is nowhere to deliver it
        if p.request.call.action = lit "message" ∧ kind = .succeeded ∧ run.channel then none
        else
          some (commitTerminal s { kind := kind, requestId := rid, action := p.request.call.action, reason := reason
                                   result := result, error := error } fate)
    else none
  | .finishRun fate, .up =>
    if settled s && s.ledger.pending.isEmpty then
      match s.log.append (.other false) fate with
      | (w, true) => some { s with log := w, status := .done }
      | (w, false) => some { s with log := w, status := .failed }
    else none
  | .retryInbound, .up =>
    if s.log.lines = [] then some { s with log := { s.log with torn := false, nextEvent := 1 } } else none
  | .crash, .up | .crash, .failed => some { s with ledger := {}, todo := [], active := .none, status := .down }
  | .recover env, .down => some (recoverRun env s)
  | _, _ => none

def runnerInit (registry : Registry) : RunnerState := { registry := registry }

end Floofclaw.Source.Runner
