import Floofclaw.Source.Intake

/-!
# The life of a run

What can happen to one run from its envelope on: intake, steps and wakes, a
cancel, retirement, a crash between two writes or in the middle of one, and
recovery by a process that may have loaded another profile.
-/

set_option autoImplicit false

namespace Floofclaw.Source.RunLife
open Floofclaw.Lib Floofclaw.Source.Json Floofclaw.Source.Actions Floofclaw.Source.Runs Floofclaw.Source.RunSteps
open Floofclaw.Source.Intake

/-- What the scheduler does with a run in its list. -/
inductive RunOp
  | step (env : StepEnv)
  | job (jobId : Bytes) (ending : JobEnd)
  | slot
  | retry (readable : Bool)
  | cancel

def runOp (host : Host) (e : Envelope) (r : RtRun) (d : Disk) : RunOp → Option (RtRun × Disk)
  | .step env =>
    if r.state = .ready ∨ r.state = .running then
      let (r, d, _) := rtRunStepReady host.keepFinished host.profile env r d
      some (r, d)
    else none
  | .job jobId ending => pumpFinishedJob host.keepFinished host.profile r d jobId ending
  | .slot => wakeActionSlotWaiter host.profile r d
  | .retry readable => if r.state = .waitingEvent then some (retryWaitingInboundClaim host readable r d e) else none
  | .cancel => some (applyRunTerminalEvent host.keepFinished host.profile r d .canceled)

/-- How the writes of an operation end, and the one before which the process dies, if it does. -/
structure Weather where
  fates : List Fate := []
  cut : Option Nat := none

def Weather.disk (w : Weather) (now : Durable) : Disk := { now := now, fates := w.fates }

/-- The disk an operation leaves behind. -/
def Weather.left (w : Weather) (d : Disk) : Durable :=
  match w.cut with
  | none => d.now
  | some k => (d.past ++ [d.now]).getD k d.now

end Floofclaw.Source.RunLife
