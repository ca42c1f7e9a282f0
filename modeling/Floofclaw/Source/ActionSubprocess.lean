import Floofclaw.Source.FileIntrinsics

/-!
# Subprocess launch

Model of `action_subprocess.c`: the artifact paths of a call, the envelope that
is written for the child's standard input, and how a launch goes on after it.
What the system and the rest of the runtime answer is the environment of a
launch; the child's own environment variables are left out.
-/

set_option autoImplicit false

namespace Floofclaw.Source.ActionSubprocess
open Floofclaw.Lib Floofclaw.Source.Json Floofclaw.Source.ActionReports
open Floofclaw.Source.Inbound (escapeOrEmpty)
open Floofclaw.Source.FileIntrinsics (pathMax)

/-- What a launch takes of the run, the definition and the pending entry. -/
structure SubprocessCall where
  requestId : Bytes
  action : Bytes
  taskId : Bytes
  args : Bytes
  runId : Bytes
  runDir : Bytes

structure LaunchEnv where
  /-- An action job is already running. -/
  slotBusy : Bool
  fileExists : Bytes → Bool
  writes : Bool
  execReadable : Bool
  /-- `rt_action_emit_started`. -/
  emitsStarted : Bool
  /-- The action is a managed operation. -/
  managed : Bool
  allocates : Bool
  configured : Bool
  starts : Bool
  /-- `rt_action_emit_terminal` for the reason. -/
  emitsTerminal : Bytes → Bool

inductive LaunchOutcome
  | busy
  /-- The call ended in an `action_failed`. -/
  | terminated (reason : Bytes)
  | error
  | started
  deriving DecidableEq, Repr

/-! ## Paths -/

def inputPath (runDir rid : Bytes) (seq : Nat) : Bytes :=
  clip pathMax (runDir ++ lit "/action_calls/" ++ decPadded 3 seq ++ lit "_" ++ rid ++ lit ".input.json")

/-- The first number whose input does not exist yet, up to the thousandth. -/
def callSeq (fileExists : Bytes → Bool) (runDir rid : Bytes) : Nat → Nat → Nat
  | 0, seq => seq
  | n + 1, seq => if fileExists (inputPath runDir rid seq) then callSeq fileExists runDir rid n (seq + 1) else seq

/-- `rt_action_call_paths_next`, of which the envelope reads the call's id and the relative path of its body. -/
def rtActionCallPathsNext (fileExists : Bytes → Bool) (runDir rid : Bytes) : Option (Bytes × Bytes) :=
  if rid = [] then none
  else
    let callId := clip rtMed (decPadded 3 (callSeq fileExists runDir rid 999 1) ++ lit "_" ++ rid)
    let bodyPath := clip pathMax (runDir ++ lit "/action_calls/" ++ callId ++ lit ".body.html")
    (before (lit "/runs/") bodyPath).map fun root => (callId, clip pathMax (bodyPath.drop (root.length + 1)))

def workspaceRootFromRunDir (runDir : Bytes) : Option Bytes :=
  (before (lit "/runs/") runDir).filter fun root => root ≠ [] ∧ root.length < pathMax

/-! ## The envelope -/

/-- The members of the envelope, the identifiers written as they are. -/
def envelopeMembers (call : SubprocessCall) (callId bodyPath : Bytes) : List (Bytes × Bytes) :=
  [(lit "request_id", quoted call.requestId), (lit "action", quoted call.action),
    (lit "args", if call.args = [] then lit "\x7b\x7d" else call.args), (lit "run_id", quoted call.runId)] ++
  (if call.taskId = [] then [] else [(lit "task_id", quoted call.taskId)]) ++
  [(lit "call_id", quoted callId),
    (lit "artifacts", objText [(lit "body", quoted (escapeOrEmpty (pathMax * 2) bodyPath))])]

/-- `input[RT_LARGE * 2]`. -/
def envelopeText (call : SubprocessCall) (callId bodyPath : Bytes) : Bytes :=
  clip (rtLarge * 2) (objText (envelopeMembers call callId bodyPath) ++ lit "\n")

/-! ## The launch -/

def LaunchEnv.terminate (env : LaunchEnv) (reason : Bytes) : LaunchOutcome :=
  if env.emitsTerminal reason then .terminated reason else .error

/-- From the written envelope on. -/
def LaunchEnv.continue (env : LaunchEnv) : LaunchOutcome :=
  if env.execReadable = false then env.terminate (lit "missing_executable")
  else if env.emitsStarted = false then .error
  else if env.managed ∧ env.allocates = false then env.terminate (lit "operation_allocation_failed")
  else if env.configured = false then env.terminate (lit "config_missing")
  else if env.starts = false then env.terminate (lit "action_start_failed")
  else .started

/-- How a launch ends, and the envelope it wrote. -/
structure Launch where
  outcome : LaunchOutcome
  envelope : Option Bytes
  deriving DecidableEq, Repr

def rtActionSubprocessLaunch (env : LaunchEnv) (call : SubprocessCall) : Launch :=
  if env.slotBusy then ⟨.busy, none⟩
  else
    match rtActionCallPathsNext env.fileExists call.runDir call.requestId with
    | none => ⟨env.terminate (lit "action_artifact_path_failed"), none⟩
    | some (callId, bodyPath) =>
      match workspaceRootFromRunDir call.runDir with
      | none => ⟨env.terminate (lit "action_workspace_invalid"), none⟩
      | some _ =>
        if env.writes = false then ⟨env.terminate (lit "action_input_write_failed"), none⟩
        else ⟨env.continue, some (envelopeText call callId bodyPath)⟩

end Floofclaw.Source.ActionSubprocess
