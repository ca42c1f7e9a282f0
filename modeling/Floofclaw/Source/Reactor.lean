import Mathlib.Data.List.Basic
import Floofclaw.Source.JsonFields

/-!
# The reactor and its timer modules

Model of the poll timeout of `reactor.c`, of the schedule kept by
`janitor_module.c` (`janitor_init`, `janitor_tick`, `janitor_next_deadline_ms`)
and of the watcher's. Times are milliseconds of the monotonic clock as
`uint64_t`; a sum that can leave the type is taken modulo its size. What a task
does when it runs is not part of the schedule.
-/

set_option autoImplicit false

namespace Floofclaw.Source.Reactor
open Floofclaw.Lib Floofclaw.Source.Json

def word64 : Nat := 2 ^ 64

/-- `FC_NO_DEADLINE`. -/
def fcNoDeadline : Nat := word64 - 1

/-- A reading of `fc_now_ms`: the clock starts with the machine and stays far below its type's end. -/
structure Clock where
  ms : Nat
  bounded : ms < 2 ^ 63
  deriving DecidableEq

/-! ## The poll timeout -/

/-- The earliest of the deadlines and the default, from `earliest` on. -/
def earliestDeadline (earliest : Nat) (deadlines : List Nat) : Nat :=
  deadlines.foldl (fun e d => if d ≠ fcNoDeadline ∧ d < e then d else e) earliest

/-- The timeout `fc_reactor_run` polls with. -/
def pollTimeoutMs (now : Clock) (defaultTimeoutMs : Nat) (deadlines : List Nat) : Nat :=
  let earliest := earliestDeadline (now.ms + defaultTimeoutMs) deadlines
  if earliest ≤ now.ms then 0 else min (earliest - now.ms) defaultTimeoutMs

/-! ## The janitor's schedule -/

def janitorTickMs : Nat := 30000
def defaultIntervalMs : Nat := 300000
def defaultTasksArchiveIntervalMs : Nat := 3600000
def defaultLogsIntervalMs : Nat := 60000
def defaultRunsKeep : Int := 500
def defaultWorkerStoreKeep : Int := 200
def defaultBusProcessedKeep : Int := 10000
def defaultTasksArchiveKeepDays : Int := 90
def defaultLogsKeep : Int := 5
def janitorBusScanCap : Int := 12288

structure JanitorTask where
  name : Bytes
  enabled : Bool
  intervalMs : Nat
  nextRunMs : Nat
  deriving DecidableEq

structure JanitorState where
  nextTickMs : Nat
  tasks : List JanitorTask
  deriving DecidableEq

/-- The value of a long as `uint64_t`. -/
def asUint64 (v : Int) : Nat := (v % (word64 : Int)).toNat

/-- The value of a long as `int`. -/
def asInt (v : Int) : Int := (v + 2 ^ 31) % 2 ^ 32 - 2 ^ 31

/-- A long below an object, when it is there. -/
def longOf (obj : JsonRef) (key : Bytes) : Option Int :=
  match jsonRefObjectGetLong obj key 0 with
  | (v, true) => some v
  | (_, false) => none

/-- `read_appliance_block` on the text of the config file. -/
def readApplianceBlock (text : Option Bytes) : Option JsonRef :=
  (text.bind jsonRefFirstObject).bind fun root => jsonRefObjectGetObject root (lit "appliance")

/-- `cfg_task_int`; without a config every value is its default. -/
def cfgTaskInt (appliance : Option JsonRef) (task key : Bytes) : Option Int :=
  (appliance.bind fun a => jsonRefObjectGetObject a task).bind fun sub => longOf sub key

/-- The task of one block of the config: what it keeps, how often it runs, and when first. -/
def addTask (appliance : Option JsonRef) (name block keepKey : Bytes) (defaultKeep : Int) (keepCap : Int → Int)
    (defaultInterval stagger : Nat) : JanitorTask :=
  let keep := keepCap (((cfgTaskInt appliance block keepKey).map asInt).getD defaultKeep)
  let interval := ((cfgTaskInt appliance block (lit "check_interval_ms")).map asUint64).getD defaultInterval
  { name := name, enabled := decide (0 < keep ∧ 0 < interval), intervalMs := interval, nextRunMs := stagger }

/-- `add_rotation_task`: the interval all rotations share, and the `keep` of the target. -/
def addRotationTask (logs : Option JsonRef) (name : Bytes) (stagger : Nat) : JanitorTask :=
  let interval :=
    match logs.bind fun l => longOf l (lit "check_interval_ms") with
    | some v => if 0 < v then v.toNat else defaultLogsIntervalMs
    | none => defaultLogsIntervalMs
  let entry := (logs.bind fun l => jsonRefObjectGetObject l (lit "targets")).bind fun targets =>
    jsonRefObjectGetObject targets name
  let keep : Int :=
    match entry.bind fun e => longOf e (lit "keep") with
    | some v => if 0 ≤ v then asInt v else defaultLogsKeep
    | none => defaultLogsKeep
  { name := name, enabled := decide (0 < keep ∧ 0 < interval), intervalMs := interval, nextRunMs := stagger }

/-- The bus directory keeps fewer files than one scan of it sees. -/
def busKeepCap (keep : Int) : Int := if janitorBusScanCap ≤ keep then janitorBusScanCap - 1 else keep

def janitorInit (config : Option Bytes) : JanitorState :=
  let appliance := readApplianceBlock config
  let logs := appliance.bind fun a => jsonRefObjectGetObject a (lit "logs")
  let store (task block : String) (stagger : Nat) :=
    addTask appliance (lit task) (lit block) (lit "keep") defaultWorkerStoreKeep id defaultIntervalMs stagger
  { nextTickMs := 0
    tasks :=
      [ addTask appliance (lit "runs_prune") (lit "runs") (lit "keep") defaultRunsKeep id defaultIntervalMs 5000,
        store "codex_ops_prune" "codex_ops" 10000,
        store "claude_ops_prune" "claude_ops" 11000,
        store "hermes_ops_prune" "hermes_ops" 12000,
        addTask appliance (lit "bus_processed_prune") (lit "bus_processed") (lit "keep") defaultBusProcessedKeep
          busKeepCap defaultIntervalMs 15000,
        addTask appliance (lit "tasks_archive_prune") (lit "tasks_archive") (lit "keep_days")
          defaultTasksArchiveKeepDays id defaultTasksArchiveIntervalMs 20000,
        addRotationTask logs (lit "bus") 25000,
        addRotationTask logs (lit "deliveries") 30000,
        addRotationTask logs (lit "narration") 35000,
        addRotationTask logs (lit "llm_usage") 40000,
        addRotationTask logs (lit "rejected_events") 45000,
        addRotationTask logs (lit "gateway") 50000 ] }

/-- A due task runs and is scheduled again. -/
def runTask (now : Clock) (t : JanitorTask) : JanitorTask :=
  if t.enabled = false ∨ now.ms < t.nextRunMs then t
  else { t with nextRunMs := (now.ms + t.intervalMs) % word64 }

def janitorTick (now : Clock) (s : JanitorState) : JanitorState :=
  if now.ms < s.nextTickMs then s
  else { nextTickMs := now.ms + janitorTickMs, tasks := s.tasks.map (runTask now) }

/-- `janitor_next_deadline_ms`; a task with no time set does not count. -/
def janitorNextDeadlineMs (s : JanitorState) : Nat :=
  s.tasks.foldl
    (fun soonest t => if t.enabled ∧ t.nextRunMs ≠ 0 ∧ t.nextRunMs < soonest then t.nextRunMs else soonest) s.nextTickMs

/-! ## The affair watcher's schedule -/

def affairWatcherTickMs : Nat := 5000

structure WatcherState where
  nextTickMs : Nat := 0
  deriving DecidableEq

def watcherTick (now : Clock) (s : WatcherState) : WatcherState :=
  if now.ms < s.nextTickMs then s else { nextTickMs := now.ms + affairWatcherTickMs }

def watcherNextDeadlineMs (s : WatcherState) : Nat := s.nextTickMs

/-! ## Progress and reconnects -/

/-- `net_progress_timed_out`; a start of 0 was never set. -/
def netProgressTimedOut (startedMs : Nat) (now : Clock) (timeoutMs : Nat) : Bool :=
  decide (startedMs ≠ 0 ∧ startedMs ≤ now.ms ∧ timeoutMs ≤ now.ms - startedMs)

def fcReconnectBaseMs : Nat := 1000
def fcReconnectCapMs : Nat := 300000
def fcReconnectStableMs : Nat := 60000

structure FcReconnectBackoff where
  attempt : Nat := 0
  randomState : UInt32 := 0
  stableSinceMs : Nat := 0
  connected : Bool := false
  deriving DecidableEq

/-- `next_random`: xorshift, with a state of 0 replaced. -/
def nextRandom (state : UInt32) : UInt32 :=
  let x := if state = 0 then 0x9e3779b9 else state
  let x := x ^^^ (x <<< 13)
  let x := x ^^^ (x >>> 17)
  x ^^^ (x <<< 5)

/-- The loop of `nominal_delay`, with `left` doublings to go. -/
def nominalDelayLoop : Nat → Nat → Nat
  | 0, delay => delay
  | left + 1, delay =>
    if delay < fcReconnectCapMs then
      if fcReconnectCapMs / 2 < delay then fcReconnectCapMs else nominalDelayLoop left (delay * 2)
    else delay

def nominalDelay (attempt : Nat) : Nat := min (nominalDelayLoop (attempt - 1) fcReconnectBaseMs) fcReconnectCapMs

/-- `fc_reconnect_backoff_maybe_reset`. -/
def fcReconnectBackoffMaybeReset (now : Clock) (b : FcReconnectBackoff) : FcReconnectBackoff :=
  if !b.connected ∨ now.ms < b.stableSinceMs ∨ now.ms - b.stableSinceMs < fcReconnectStableMs then b
  else { b with attempt := 0, stableSinceMs := now.ms }

/-- `fc_reconnect_backoff_next`: the delay and the backoff after it. -/
def fcReconnectBackoffNext (now : Clock) (b : FcReconnectBackoff) : Nat × FcReconnectBackoff :=
  let b := fcReconnectBackoffMaybeReset now b
  let attempt := if b.attempt < 2 ^ 32 - 1 then b.attempt + 1 else b.attempt
  let random := nextRandom b.randomState
  let nominal := nominalDelay attempt
  let span := nominal / 5
  let jittered := nominal - span + random.toNat % (span * 2 + 1)
  (min jittered fcReconnectCapMs,
    { attempt := attempt, randomState := random, stableSinceMs := 0, connected := false })

end Floofclaw.Source.Reactor
