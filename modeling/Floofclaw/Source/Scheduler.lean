import Mathlib.Data.List.Sort
import Floofclaw.Source.RunLife

/-!
# The scheduler

Model of `scheduler.c` with `intake_envelope` of `ports.c`,
`rt_scheduler_recover_runs` and `rt_create_run_owned`: the pool of run slots,
the compacted list of active runs, the run directories of the workspace, and a
gateway that dies and starts over them. The loops over the active list are
inputs, one for each run they reach; a shutdown is a cancel of every run and
the loss of the process. What other writers do to the shared stores, and the
janitor, are inputs too.
-/

set_option autoImplicit false

namespace Floofclaw.Source.Scheduler
open Floofclaw.Lib Floofclaw.Source.Runs Floofclaw.Source.RunSteps Floofclaw.Source.Intake Floofclaw.Source.RunLife
open Floofclaw.Source.Actions (Request)

def rtMaxActiveRuns : Nat := 16
def rtMaxPhaseAdvancesPerTick : Nat := 8

/-- A directory under `workspace/runs`, with the processed envelope its control claim names. -/
structure RunDir where
  number : Nat
  envelope : Envelope
  files : Durable := {}

structure RtScheduler where
  host : Host
  serializeContexts : Bool
  nextRunNumber : Nat
  /-- A slot holds its run while it is used. -/
  pool : List (Option RtRun)
  /-- `runs[0 .. run_count)`, as slots of the pool. -/
  runs : List Nat

/-- The gateway over its workspace; between two processes there is no scheduler. -/
structure Gateway where
  sched : Option RtScheduler
  dirs : List RunDir
  stores : Stores

/-! ## Slots -/

def slotRun (s : RtScheduler) (slot : Nat) : Option RtRun := s.pool.getD slot none

/-- The runs behind the active list, in its order. -/
def activeRuns (s : RtScheduler) : List RtRun := s.runs.filterMap (slotRun s)

/-- `rt_scheduler_alloc_run`: the first slot that is not used. -/
def rtSchedulerAllocRun (s : RtScheduler) : Option Nat := s.pool.findIdx? Option.isNone

def putRun (s : RtScheduler) (slot : Nat) (r : RtRun) : RtScheduler := { s with pool := s.pool.set slot (some r) }

/-- A run that was taken in goes to the end of the list. -/
def listRun (s : RtScheduler) (slot : Nat) (r : RtRun) : RtScheduler :=
  { putRun s slot r with runs := s.runs ++ [slot] }

/-- `rt_scheduler_free_run`. -/
def rtSchedulerFreeRun (s : RtScheduler) (slot : Nat) : RtScheduler := { s with pool := s.pool.set slot none }

/-! ## Directories -/

def findDir (g : Gateway) (number : Nat) : Option RunDir := g.dirs.find? fun d => d.number = number

/-- What an operation left in the directory of a run and in the shared stores. -/
def putDir (g : Gateway) (number : Nat) (left : Durable) : Gateway :=
  { g with
    dirs := g.dirs.map fun d => if d.number = number then { d with files := left } else d
    stores := left.stores }

/-- The disk an operation on a run starts from. -/
def dirDisk (g : Gateway) (dir : RunDir) (w : Weather) : Disk := w.disk { dir.files with stores := g.stores }

/-- `mkdir` from the next run number on, over what is there. -/
def freeNumber (dirs : List RunDir) : Nat → Nat → Option Nat
  | 0, _ => none
  | attempts + 1, n => if dirs.any (fun d => d.number = n) then freeNumber dirs attempts (n + 1) else some n

def rtCreateRunAttempts : Nat := 1000000

/-- `scan_next_run_number`. -/
def scanNextRunNumber (dirs : List RunDir) : Nat := dirs.foldl (fun n d => max n d.number) 0 + 1

/-! ## Intake -/

/-- What is asked of an envelope before a directory is made for it. -/
def admits (stores : Stores) (adm : Admission) (e : Envelope) : Bool :=
  match requireOutbox e with
  | none => false
  | some required => adm.admitted && !disposed stores.ops e && (!required || adm.outboxValid)

/-- `intake_envelope`. A directory may be left behind by a creation that failed in it. -/
def intakeEnvelope (g : Gateway) (s : RtScheduler) (e : Envelope) (adm : Admission) (stranded : Bool) (w : Weather) : Gateway :=
  if s.runs.length ≥ rtMaxActiveRuns then g
  else
    match rtSchedulerAllocRun s with
    | none => g
    | some slot =>
      if !admits g.stores adm e then g
      else
        match freeNumber g.dirs rtCreateRunAttempts s.nextRunNumber with
        | none => g
        | some number =>
          let s' := { s with nextRunNumber := number + 1 }
          let dir : RunDir := { number := number, envelope := e }
          let made := { g with sched := some s', dirs := g.dirs ++ [dir] }
          if !adm.created then if stranded then made else g
          else
            let (r, d, created) := createRunFromEnvelope s.host adm number (dirDisk made dir w) e
            let left := putDir made number (w.left d)
            if w.cut ≠ none then { left with sched := none }
            else if created = .rejected then left
            else { left with sched := some (listRun s' slot r) }

/-! ## Stepping -/

/-- `serialized_behind_older_run` at an index of the active list. -/
def serializedBehindOlderRun (s : RtScheduler) (idx : Nat) (r : RtRun) : Bool :=
  s.serializeContexts && r.contextId ≠ [] &&
    ((s.runs.take idx).filterMap (slotRun s)).any fun o => !o.state.terminal && o.contextId = r.contextId

/-- A call of `rt_run_step_ready`, with the active runs at that moment. -/
structure Invocation where
  listed : List RtRun
  run : RtRun

/-- The loop of `step_ready_runs` over the steps of one run. -/
def stepWhile (slot : Nat) (oracle : Nat → StepEnv × Weather) : Nat → Nat → Gateway → Gateway × List Invocation
  | 0, _, g => (g, [])
  | fuel + 1, advances, g =>
    match g.sched with
    | none => (g, [])
    | some s =>
      match slotRun s slot with
      | none => (g, [])
      | some r =>
        match findDir g r.number with
        | none => (g, [])
        | some dir =>
          if r.state = .ready ∨ r.state = .running then
            let (env, w) := oracle advances
            let (r', d, result) := rtRunStepReady s.host.keepFinished s.host.profile env r (dirDisk g dir w)
            let call : Invocation := { listed := activeRuns s, run := r }
            let left := putDir g r.number (w.left d)
            if w.cut ≠ none then ({ left with sched := none }, [call])
            else
              let next := { left with sched := some (putRun s slot r') }
              if result = .advanced then
                let (last, calls) := stepWhile slot oracle fuel (advances + 1) next
                (last, call :: calls)
              else (next, [call])
          else (g, [])

/-- The body of `step_ready_runs` for one index. -/
def stepReadyRun (g : Gateway) (s : RtScheduler) (idx : Nat) (oracle : Nat → StepEnv × Weather) :
    Option (Gateway × List Invocation) :=
  match s.runs[idx]? with
  | none => none
  | some slot =>
    match slotRun s slot with
    | none => none
    | some r =>
      if serializedBehindOlderRun s idx r then some (g, [])
      else some (stepWhile slot oracle rtMaxPhaseAdvancesPerTick 0 g)

/-! ## The other operations -/

/-- A finished job, a wake, the retry of a waiting claim or a cancel, on the run at an index. -/
def operateRun (g : Gateway) (s : RtScheduler) (idx : Nat) (op : RunOp) (w : Weather) : Option Gateway :=
  match s.runs[idx]? with
  | none => none
  | some slot =>
    match slotRun s slot with
    | none => none
    | some r =>
      match findDir g r.number with
      | none => none
      | some dir =>
        match runOp s.host dir.envelope r (dirDisk g dir w) op with
        | none => none
        | some (r', d) =>
          let left := putDir g r.number (w.left d)
          some { left with sched := if w.cut = none then some (putRun s slot r') else none }

def retirable (s : RtScheduler) (slot : Nat) : Bool := (slotRun s slot).any fun r => r.state.terminal

/-- `retire_terminal_runs`: the slots of the terminal runs are freed, and the list closes up. -/
def retireTerminalRuns (s : RtScheduler) : RtScheduler :=
  { (s.runs.filter (retirable s)).foldl rtSchedulerFreeRun s with runs := s.runs.filter fun slot => !retirable s slot }

/-! ## Recovery -/

/-- The directories `collect_candidates` finds, oldest first. -/
def collectCandidates (dirs : List RunDir) : List RunDir :=
  (dirs.filter fun d => d.files.control.any fun c => !rtRunStatusIsTerminal c.status).insertionSort
    fun a b => a.number ≤ b.number

/-- The loop of `rt_scheduler_recover_runs`; `none` for the scheduler when the start fails or the process dies. -/
def recoverRuns (reconcile : Nat → Request → Reconciled) (weather : Nat → Weather) :
    List RunDir → RtScheduler → Gateway → Gateway
  | [], s, g => { g with sched := some s }
  | dir :: rest, s, g =>
    match rtSchedulerAllocRun s with
    | none => { g with sched := none }
    | some slot =>
      let w := weather dir.number
      let (r, d, restored) := restoreRunstate s.host (reconcile dir.number) dir.number (dirDisk g dir w) dir.envelope
      let left := putDir g dir.number (w.left d)
      if w.cut ≠ none then { left with sched := none }
      else
        match restored with
        | .failed => { left with sched := none }
        | .retired => recoverRuns reconcile weather rest s left
        | .resumed => recoverRuns reconcile weather rest (listRun s slot r) left

/-- `rt_scheduler_init` over what the last process left. -/
def rtSchedulerInit (g : Gateway) (host : Host) (serializeContexts : Bool) (reconcile : Nat → Request → Reconciled)
    (weather : Nat → Weather) : Gateway :=
  let candidates := collectCandidates g.dirs
  if candidates.length > rtMaxActiveRuns then { g with sched := none }
  else
    recoverRuns reconcile weather candidates
      { host := host, serializeContexts := serializeContexts, nextRunNumber := scanNextRunNumber g.dirs
        pool := List.replicate rtMaxActiveRuns none, runs := [] } g

/-! ## Steps -/

inductive SchedInput
  | intake (e : Envelope) (adm : Admission) (stranded : Bool) (w : Weather)
  | step (idx : Nat) (oracle : Nat → StepEnv × Weather)
  | job (idx : Nat) (jobId : Bytes) (ending : JobEnd) (w : Weather)
  | slot (idx : Nat) (w : Weather)
  | retry (idx : Nat) (readable : Bool) (w : Weather)
  | cancel (idx : Nat) (w : Weather)
  | retire
  /-- The janitor drops a directory whose run is over. -/
  | prune (number : Nat)
  | others (stores : Stores)
  | crash
  | restart (host : Host) (serializeContexts : Bool) (reconcile : Nat → Request → Reconciled) (weather : Nat → Weather)

def prunable (d : RunDir) : Bool := d.files.control.any fun c => rtRunStatusIsTerminal c.status

def schedStep (g : Gateway) (i : SchedInput) : Option Gateway :=
  match i, g.sched with
  | .intake e adm stranded w, some s => some (intakeEnvelope g s e adm stranded w)
  | .step idx oracle, some s => (stepReadyRun g s idx oracle).map Prod.fst
  | .job idx jobId ending w, some s => operateRun g s idx (.job jobId ending) w
  | .slot idx w, some s => operateRun g s idx .slot w
  | .retry idx readable w, some s => operateRun g s idx (.retry readable) w
  | .cancel idx w, some s => operateRun g s idx .cancel w
  | .retire, some s => some { g with sched := some (retireTerminalRuns s) }
  | .prune number, _ => some { g with dirs := g.dirs.filter fun d => !(d.number = number && prunable d) }
  | .others stores, _ => some { g with stores := stores }
  | .crash, _ => some { g with sched := none }
  | .restart host serializeContexts reconcile weather, none =>
    some (rtSchedulerInit g host serializeContexts reconcile weather)
  | _, _ => none

/-- The calls of `rt_run_step_ready` an input makes. -/
def invocations (g : Gateway) (i : SchedInput) : List Invocation :=
  match i, g.sched with
  | .step idx oracle, some s => ((stepReadyRun g s idx oracle).map Prod.snd).getD []
  | _, _ => []

/-- An empty workspace, and no process yet. -/
def schedInit (stores : Stores) : Gateway := { sched := none, dirs := [], stores := stores }

end Floofclaw.Source.Scheduler
