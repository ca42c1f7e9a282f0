import Floofclaw.Source.Inbound

/-!
# The log file

Model of `append_event_unchecked` down to the octets of `event_log.jsonl`. How
much of a line reaches the file, and what the call is told about it, is decided
by the disk; the two flavours of append differ only in that. The reducers are
parameters, dispatched on the type as the source does.
-/

set_option autoImplicit false

namespace Floofclaw.Source.LogFile
open Floofclaw.Lib Floofclaw.Source.Json Floofclaw.Source.EventLog Floofclaw.Source.Inbound

/-- How a write ends. An error may be reported after any part of the text is in the file, also after all of it:
a failed flush or close. -/
inductive WriteFate
  | done
  | failed (written : Nat)
  deriving DecidableEq, Repr

def written (line : Bytes) : WriteFate → Bytes
  | .done => line
  | .failed n => line.take n

/-- The disk and the clock, asked once for every event number. -/
structure Host where
  disk : Nat → WriteFate
  clock : Nat → Bytes

/-- The run context as the append path sees it. -/
structure LogContext (σ : Type) where
  runId : Bytes
  nextEvent : Nat
  log : Bytes
  stores : σ
  replayMode : Bool
  errorActive : Bool

/-- The projection and the durable reducers. The verdict is success. -/
structure Reducers (σ : Type) where
  applyToContext : Bytes → Bytes → σ → σ
  memoryApply : Bytes → Bytes → σ → σ × Bool
  memoryApplyControl : Bytes → Bytes → σ → σ × Bool
  taskApplyEvent : Bytes → Bytes → σ → σ × Bool
  affairApplyEvent : Bytes → Bytes → σ → σ × Bool
  operationApplyEvent : Bytes → Bytes → σ → σ × Bool
  workStateApplyEvent : Bytes → Bytes → Bytes → σ → σ × Bool

section Append
variable {σ : Type}

def nextEventId (ctx : LogContext σ) : Option Bytes :=
  if ctx.runId = [] ∨ ctx.nextEvent = 0 then none
  else
    let id := eventIdText ctx.runId ctx.nextEvent
    if id.length ≥ rtSmall then none else some id

/-- The line of a call; `none` when it has no event id. -/
def callLine (host : Host) (ctx : LogContext σ) (type source body : Bytes) : Option Bytes :=
  (nextEventId ctx).map fun id => eventLine id (host.clock ctx.nextEvent) type source ctx.runId body ++ lit "\n"

/-- The counter moves before the write and whatever becomes of it. -/
def writeLine (host : Host) (ctx : LogContext σ) (line : Bytes) : LogContext σ × Bool :=
  ({ ctx with nextEvent := ctx.nextEvent + 1, log := ctx.log ++ written line (host.disk ctx.nextEvent) },
    host.disk ctx.nextEvent = .done)

/-- A nested `error` event. No reducer owns the type, and inside another one it is dropped. -/
def appendErrorEvent (host : Host) (ctx : LogContext σ) (message type body : Bytes) : LogContext σ :=
  if ctx.errorActive then ctx
  else
    let payload := clip rtLarge (lit "\x7b\"message\":\"" ++ message ++ lit "\",\"type\":\"" ++ type ++
      lit "\",\"payload\":" ++ body ++ lit "\x7d")
    match callLine host ctx (lit "error") (lit "kernel") payload with
    | none => ctx
    | some line => (writeLine host ctx line).1

def subsystemReducer (R : Reducers σ) (type body : Bytes) (stores : σ) : Option (Bytes × (σ × Bool)) :=
  if rtMemoryIsRecordType type then some (lit "memory record missing text", R.memoryApply type body stores)
  else if rtMemoryIsControlType type then
    some (lit "memory control event failed reducer", R.memoryApplyControl type body stores)
  else if rtTaskIsEventType type then some (lit "task event failed reducer", R.taskApplyEvent type body stores)
  else if rtAffairIsEventType type then some (lit "affair event failed reducer", R.affairApplyEvent type body stores)
  else if rtOperationIsEventType type then
    some (lit "operation event failed reducer", R.operationApplyEvent type body stores)
  else none

def reduceSubsystem (R : Reducers σ) (host : Host) (ctx : LogContext σ) (type body : Bytes) : LogContext σ :=
  match subsystemReducer R type body ctx.stores with
  | none => ctx
  | some (message, stores, ok) =>
    if ok then { ctx with stores := stores } else appendErrorEvent host { ctx with stores := stores } message type body

/-- What the call did to the stores before the work-step ledger is asked. -/
def beforeWorkState (R : Reducers σ) (host : Host) (ctx : LogContext σ) (type body : Bytes) : LogContext σ :=
  reduceSubsystem R host { ctx with stores := R.applyToContext type body ctx.stores } type body

def reduceWorkState (R : Reducers σ) (host : Host) (ctx : LogContext σ) (type body eventId : Bytes) :
    LogContext σ × Bool :=
  if rtWorkStateIsEventType type then
    match R.workStateApplyEvent type body eventId ctx.stores with
    | (stores, true) => ({ ctx with stores := stores }, true)
    | (stores, false) =>
      (appendErrorEvent host { ctx with stores := stores } (lit "work-step event failed reducer") type body, false)
  else (ctx, true)

def appendEventUnchecked (R : Reducers σ) (host : Host) (ctx : LogContext σ) (type source body : Bytes) :
    LogContext σ × Bool :=
  match nextEventId ctx, callLine host ctx type source body with
  | some eventId, some line =>
    match writeLine host ctx line with
    | (ctx, false) => (ctx, false)
    | (ctx, true) =>
      if ctx.replayMode then ({ ctx with stores := R.applyToContext type body ctx.stores }, true)
      else reduceWorkState R host (beforeWorkState R host ctx type body) type body eventId
  | _, _ => (ctx, false)

/-- `rt_append_event`, and `rt_append_event_sync`. -/
def rtAppendEvent (R : Reducers σ) (host : Host) (ctx : LogContext σ) (type source body : Bytes) : LogContext σ × Bool :=
  if type = lit "error" ∧ ctx.errorActive then (ctx, false) else appendEventUnchecked R host ctx type source body

/-! ## A caller -/

def workTerminalType (blocked : Bool) : Bytes := if blocked then lit "work_blocked" else lit "work_completed"

/-- The end of `terminalize_bound_work` with `rt_action_runtime_complete`: the work terminal, then the terminal of its
action, whose type goes by what the first append reported. -/
def completeBoundWork (R : Reducers σ) (host : Host) (ctx : LogContext σ) (blocked : Bool) (workPayload : Bytes)
    (actionPayload : Bool → Bytes) : LogContext σ × Bytes :=
  let (ctx, ok) := rtAppendEvent R host ctx (workTerminalType blocked) (lit "action") workPayload
  let type := if ok then lit "action_succeeded" else lit "action_failed"
  ((rtAppendEvent R host ctx type (lit "action_runner") (actionPayload ok)).1, type)

end Append

end Floofclaw.Source.LogFile
