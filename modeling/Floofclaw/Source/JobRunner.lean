import Floofclaw.Lib.Bytes
import Floofclaw.Lib.Machine

/-!
# The job runner

Model of `gateway/jobrunner.c`: launches, the tick, readiness of a descriptor,
cancellation, shutdown and collection. What the system calls return is input:
how many octets a pipe yields until it would block or ends, whether the private
channel closes, what `waitpid` reports. Each job keeps the calls made on its
process. The progress records themselves and the artifact files are left out.
-/

set_option autoImplicit false

namespace Floofclaw.Source.JobRunner
open Floofclaw.Lib

def jobOutputCapStdoutDefault : Nat := 8 * 1024 * 1024
def jobOutputCapStderrDefault : Nat := 1024 * 1024
def jobKillGraceMsDefault : Nat := 1000

inductive JobKind
  | agent | action
  deriving DecidableEq

inductive JobState
  | running | finished | failed
  deriving DecidableEq

inductive Signal
  | sigterm | sigkill
  deriving DecidableEq

/-- Which line of the source sends a signal. -/
inductive Cause
  | deadline | outputCap | grace | cancel | shutdown
  deriving DecidableEq

inductive WaitStatus
  | exited (code : Fin 256)
  | signaled (number : Fin 128)
  deriving DecidableEq

/-- The `exit_status` a tick stores. -/
def WaitStatus.exitStatus : WaitStatus → Nat
  | .exited code => code
  | .signaled number => 128 + number

/-- A system call on the child of a job, or the job leaving `JOB_RUNNING`. -/
inductive Call
  | kill (signal : Signal) (cause : Cause)
  | reaped (status : WaitStatus)
  | left
  deriving DecidableEq

structure RtJob where
  jobId : Nat
  kind : JobKind
  runId : Bytes
  state : JobState
  deadlineMs : Nat
  stdoutCap : Nat
  stderrCap : Nat
  stdoutEof : Bool
  stderrEof : Bool
  progressEof : Bool
  brokerOpen : Bool
  stdoutDrained : Nat
  stderrDrained : Nat
  exited : Bool
  exitStatus : Nat
  killedForTimeout : Bool
  killedForOutputLimit : Bool
  sigtermAtMs : Nat
  calls : List Call
  deriving DecidableEq

structure RtJobRunner where
  jobs : List RtJob
  killGraceMs : Nat
  nextJobId : Nat
  nowMs : Nat
  deriving DecidableEq

def rtJobrunnerInit : RtJobRunner := { jobs := [], killGraceMs := jobKillGraceMsDefault, nextJobId := 1, nowMs := 0 }

/-- What reading a pipe yields: octets until it would block, or until its end or an error. -/
structure PipeRead where
  bytes : Nat
  ended : Bool
  deriving DecidableEq

/-- What `drain_pending` meets on the three pipes. -/
structure Pipes where
  stdout : PipeRead
  stderr : PipeRead
  progress : Bool
  deriving DecidableEq

/-- What a tick meets: the private channel, the pipes, `waitpid`, and the pipes once more behind it. -/
structure Meets where
  brokerCloses : Bool
  pipes : Pipes
  waited : Option WaitStatus
  rest : Pipes
  deriving DecidableEq

def sendSigterm (nowMs : Nat) (cause : Cause) (job : RtJob) : RtJob :=
  if job.sigtermAtMs ≠ 0 then job
  else { job with calls := job.calls ++ [Call.kill .sigterm cause], sigtermAtMs := nowMs }

def drainStdout (p : PipeRead) (job : RtJob) : RtJob :=
  if job.stdoutEof then job
  else
    { job with
      stdoutDrained := job.stdoutDrained + p.bytes
      killedForOutputLimit := job.killedForOutputLimit ||
        decide (0 < p.bytes ∧ 0 < job.stdoutCap ∧ job.stdoutCap < job.stdoutDrained + p.bytes)
      stdoutEof := p.ended }

def drainStderr (p : PipeRead) (job : RtJob) : RtJob :=
  if job.stderrEof then job
  else
    { job with
      stderrDrained := job.stderrDrained + p.bytes
      killedForOutputLimit := job.killedForOutputLimit ||
        decide (0 < p.bytes ∧ 0 < job.stderrCap ∧ job.stderrCap < job.stderrDrained + p.bytes)
      stderrEof := p.ended }

def drainPending (p : Pipes) (job : RtJob) : RtJob :=
  let job := drainStderr p.stderr (drainStdout p.stdout job)
  { job with progressEof := job.progressEof || p.progress }

/-- The deadline, the output cap and the grace of a tick. -/
def enforce (nowMs killGraceMs : Nat) (job : RtJob) : RtJob :=
  let job :=
    if 0 < job.deadlineMs ∧ job.deadlineMs ≤ nowMs ∧ job.sigtermAtMs = 0 then
      sendSigterm nowMs .deadline { job with killedForTimeout := true }
    else job
  let job := if job.killedForOutputLimit ∧ job.sigtermAtMs = 0 then sendSigterm nowMs .outputCap job else job
  if job.sigtermAtMs ≠ 0 ∧ (job.sigtermAtMs + killGraceMs) % 2 ^ 64 ≤ nowMs then
    { job with calls := job.calls ++ [Call.kill .sigkill .grace] }
  else job

def reap (m : Meets) (job : RtJob) : RtJob :=
  if job.exited then job
  else
    match m.waited with
    | none => job
    | some status =>
      drainPending m.rest
        { job with exitStatus := status.exitStatus, exited := true, calls := job.calls ++ [Call.reaped status] }

/-- What the last test of a tick waits for: the child, the pipes and the private channel. -/
def ended (job : RtJob) : Bool :=
  job.exited && job.stdoutEof && job.stderrEof && job.progressEof && !job.brokerOpen

def settle (job : RtJob) : RtJob :=
  if ended job then
    { job with
      state := if job.exitStatus = 0 ∧ !job.killedForTimeout ∧ !job.killedForOutputLimit then .finished else .failed
      calls := job.calls ++ [Call.left] }
  else job

/-- One job in `rt_jobrunner_tick`. -/
def tickJob (nowMs killGraceMs : Nat) (m : Meets) (job : RtJob) : RtJob :=
  if job.state ≠ .running then job
  else
    let job := { job with brokerOpen := job.brokerOpen && !m.brokerCloses }
    settle (reap m (enforce nowMs killGraceMs (drainPending m.pipes job)))

structure Launch where
  kind : JobKind
  runId : Bytes
  deadlineMs : Nat
  stdoutCap : Nat
  stderrCap : Nat
  privateCredentials : Bool

/-- The job `rt_jobrunner_launch` links in behind a fork that succeeds. -/
def launched (jobId : Nat) (l : Launch) : RtJob where
  jobId := jobId
  kind := l.kind
  runId := l.runId
  state := .running
  deadlineMs := l.deadlineMs
  stdoutCap := if 0 < l.stdoutCap then l.stdoutCap else jobOutputCapStdoutDefault
  stderrCap := if 0 < l.stderrCap then l.stderrCap else jobOutputCapStderrDefault
  stdoutEof := false
  stderrEof := false
  progressEof := decide (l.kind ≠ .agent)
  brokerOpen := l.privateCredentials
  stdoutDrained := 0
  stderrDrained := 0
  exited := false
  exitStatus := 0
  killedForTimeout := false
  killedForOutputLimit := false
  sigtermAtMs := 0
  calls := []

def cancelJob (nowMs : Nat) (runId : Bytes) (job : RtJob) : RtJob :=
  if job.state ≠ .running ∨ job.runId ≠ runId then job else sendSigterm nowMs .cancel job

/-- The first loop of `rt_jobrunner_shutdown_all`. -/
def shutdownTerm (nowMs : Nat) (job : RtJob) : RtJob :=
  if job.state ≠ .running then job
  else { job with calls := job.calls ++ [Call.kill .sigterm .shutdown], sigtermAtMs := nowMs }

/-- The loop that kills what the grace left over. -/
def shutdownKill (job : RtJob) : RtJob :=
  if job.state ≠ .running then job else { job with calls := job.calls ++ [Call.kill .sigkill .shutdown] }

/-- The steps of a run; the loops of `rt_jobrunner_shutdown_all` are `terminate`, ticks, `kill`, ticks and pops. -/
inductive Step
  | launch (l : Launch) (forks : Bool)
  | tick (nowMs : Nat) (meets : Nat → Meets)
  /-- `rt_jobrunner_on_fd`: a pipe of the job is ready. -/
  | pipeReady (jobId : Nat) (pipes : Pipes)
  /-- `rt_jobrunner_on_fd`: the private channel is ready, and may close. -/
  | brokerReady (jobId : Nat) (closes : Bool)
  | cancelRun (runId : Bytes) (nowMs : Nat)
  | terminate (nowMs : Nat)
  | kill
  | popFinished

def onJob (jobId : Nat) (f : RtJob → RtJob) (job : RtJob) : RtJob := if job.jobId = jobId then f job else job

/-- The clock does not go back. -/
def step (r : RtJobRunner) : Step → Option RtJobRunner
  | .launch l forks =>
    some { r with
      jobs := if forks then launched r.nextJobId l :: r.jobs else r.jobs
      nextJobId := r.nextJobId + 1 }
  | .tick nowMs meets =>
    if nowMs < r.nowMs then none
    else some { r with nowMs := nowMs, jobs := r.jobs.map fun job => tickJob nowMs r.killGraceMs (meets job.jobId) job }
  | .pipeReady jobId pipes => some { r with jobs := r.jobs.map (onJob jobId (drainPending pipes)) }
  | .brokerReady jobId closes =>
    some { r with jobs := r.jobs.map (onJob jobId fun job => { job with brokerOpen := job.brokerOpen && !closes }) }
  | .cancelRun runId nowMs =>
    if nowMs < r.nowMs then none
    else if runId = [] then some r
    else some { r with nowMs := nowMs, jobs := r.jobs.map (cancelJob nowMs runId) }
  | .terminate nowMs =>
    if nowMs < r.nowMs then none else some { r with nowMs := nowMs, jobs := r.jobs.map (shutdownTerm nowMs) }
  | .kill => some { r with jobs := r.jobs.map shutdownKill }
  | .popFinished => some { r with jobs := r.jobs.eraseP fun job => job.state ≠ .running }

end Floofclaw.Source.JobRunner
