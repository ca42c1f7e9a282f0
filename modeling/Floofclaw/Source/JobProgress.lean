import Floofclaw.Lib.Lines
import Floofclaw.Lib.Ring

/-!
# Progress records

Model of the progress pipe of `gateway/jobrunner.c`: a child writes records, one
a line, the runner cuts what it reads into lines and queues the records for all
jobs in one ring. Of a job and of the runner only what the records touch is
kept; the octets a read brings are input.
-/

set_option autoImplicit false

namespace Floofclaw.Source.JobProgress
open Floofclaw.Lib

def jobProgressRecordCap : Nat := 4096
def jobProgressQueueCap : Nat := 64
def jobProgressPartialCap : Nat := 8192

structure RtJob where
  jobId : Bytes
  runId : Bytes
  originEventId : Bytes
  progressPartial : Bytes
  progressDropped : Bool

structure RtJobProgress where
  jobId : Bytes
  runId : Bytes
  originEventId : Bytes
  record : Bytes
  deriving DecidableEq

structure RtJobRunner where
  progressQueue : Ring RtJobProgress jobProgressQueueCap
  progressDropped : Nat

/-- A slot after `memset`. -/
def noProgress : RtJobProgress := ⟨[], [], [], []⟩

def emptyQueue : Ring RtJobProgress jobProgressQueueCap :=
  { slots := List.replicate jobProgressQueueCap noProgress
    head := 0
    count := 0
    size := List.length_replicate
    start := by decide
    bound := Nat.zero_le _ }

def rtJobrunnerInit : RtJobRunner := ⟨emptyQueue, 0⟩

/-- The entry of a job's record. -/
def progressEntry (job : RtJob) (record : Bytes) : RtJobProgress := ⟨job.jobId, job.runId, job.originEventId, record⟩

/-- A record, or an octet run that cannot become one, is given up. -/
def dropProgress (s : RtJobRunner × RtJob) : RtJobRunner × RtJob :=
  ({ s.1 with progressDropped := s.1.progressDropped + 1 }, { s.2 with progressDropped := true })

def queueProgress (s : RtJobRunner × RtJob) (record : Bytes) : RtJobRunner × RtJob :=
  if record = [] then s
  else if record.length ≥ jobProgressRecordCap then dropProgress s
  else
    match s.1.progressQueue.push (progressEntry s.2 record) with
    | none => dropProgress s
    | some q => ({ s.1 with progressQueue := q }, s.2)

/-- What the line splitter does to the runner. -/
inductive ProgressCall
  | dropped
  | queue (record : Bytes)
  deriving DecidableEq

def ProgressCall.run (s : RtJobRunner × RtJob) : ProgressCall → RtJobRunner × RtJob
  | .dropped => dropProgress s
  | .queue record => queueProgress s record

/-- `progress_consume_bytes` over one read: its calls in order, and the partial record it leaves. -/
def progressConsumeBytes (progressPartial bytes : Bytes) : List ProgressCall × Bytes :=
  if bytes = [] then ([], progressPartial)
  else
    let part := bytes.takeWhile (· ≠ ch '\n')
    match _h : bytes.dropWhile (· ≠ ch '\n') with
    | [] =>
      if progressPartial.length + part.length ≥ jobProgressPartialCap then ([.dropped], [])
      else ([], progressPartial ++ part)
    | _ :: rest =>
      let after := progressConsumeBytes [] rest
      if progressPartial.length + part.length ≥ jobProgressPartialCap then (.dropped :: after.1, after.2)
      else if progressPartial ++ part = [] then after
      else (.queue (progressPartial ++ part) :: after.1, after.2)
termination_by bytes.length
decreasing_by
  have hle := (List.dropWhile_sublist (l := bytes) fun c => decide (c ≠ ch '\n')).length_le
  rw [_h, List.length_cons] at hle
  omega

/-- One turn of the loop of `drain_progress_pipe`. -/
def drainRead (s : RtJobRunner × RtJob) (bytes : Bytes) : RtJobRunner × RtJob :=
  let (calls, progressPartial) := progressConsumeBytes s.2.progressPartial bytes
  let s := calls.foldl ProgressCall.run s
  (s.1, { s.2 with progressPartial := progressPartial })

def drainProgressPipe (s : RtJobRunner × RtJob) (reads : List Bytes) : RtJobRunner × RtJob := reads.foldl drainRead s

/-- The end of the pipe in `drain_pending`: a final unterminated record is discarded. -/
def endProgress (s : RtJobRunner × RtJob) : RtJobRunner × RtJob :=
  if s.2.progressPartial = [] then s
  else
    let s := dropProgress s
    (s.1, { s.2 with progressPartial := [] })

def rtJobrunnerProgressPop (r : RtJobRunner) : Option (RtJobProgress × RtJobRunner) :=
  match r.progressQueue.pop noProgress with
  | none => none
  | some (out, q) => some (out, { r with progressQueue := q })

end Floofclaw.Source.JobProgress
