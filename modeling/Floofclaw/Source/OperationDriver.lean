import Floofclaw.Source.FileIntrinsics
import Floofclaw.Source.OperationEvents

/-!
# From a finished action to its operation result

Model of the success branch of `rt_operation_driver_on_terminal`, for an
operation that is on record and running, behind the terminal of an intrinsic.
The running status, which only moves the record on, forwards no text.
-/

set_option autoImplicit false

namespace Floofclaw.Source.OperationDriver
open Floofclaw.Lib Floofclaw.Source.Json Floofclaw.Source.Inbound Floofclaw.Source.ActionReports
open Floofclaw.Source.FileIntrinsics Floofclaw.Source.OperationEvents

/-- The member `text`, else `final`, when it is a string. -/
def excerptValue (obj : JsonRef) : Option JsonRef :=
  ((jsonRefObjectGet obj (lit "text")).filter fun v => jsonRefInferType v = .string).or
    ((jsonRefObjectGet obj (lit "final")).filter fun v => jsonRefInferType v = .string)

/-- `result_text_excerpt` into a cleared buffer, which a copy that does not fit leaves filled. -/
def resultTextExcerpt (obj : JsonRef) : Bytes :=
  match excerptValue obj with
  | none => []
  | some v => cstr (stringCopyWrite (rtOperationResultTextMax + 1) v).1

/-- The status and the text a succeeded terminal ends its operation with. -/
def onSucceeded (result : Bytes) : Option (Bytes × Bytes) :=
  match jsonRefFirstObject result with
  | none => none
  | some obj =>
    if jsonRefObjectGetString obj (lit "status") rtSmall = some (lit "finished") then
      some (if jsonRefObjectGetString obj (lit "state") rtSmall = some (lit "failed") then lit "failed" else lit "succeeded",
        resultTextExcerpt obj)
    else none

/-- What surrounds a managed call of an intrinsic. -/
structure DriverEnv where
  fs : FileSystem
  runDir : Bytes
  call : Call
  prepare : Bytes → Bool
  operation : RtOperationSnapshot
  sourceEventId : Option Bytes

/-- The text that reaches the agent in the `operation_result` of a finished call; `none` when there is none. -/
def operationText (env : DriverEnv) (outcome : Outcome) : Option Bytes :=
  if outcome.ok = false ∨ env.call.managedOperation = false then none
  else do
    let _ ← reportIntrinsic env.prepare env.call outcome.ok outcome.result outcome.error
    let (status, text) ← onSucceeded (reportedResult env.call outcome.ok outcome.result)
    let _ ← terminalizeInRun env.operation env.sourceEventId status text true
    return text

/-- `read_file` as its caller meets it. -/
def readFileText (env : DriverEnv) (args : Bytes) : Option Bytes :=
  operationText env (fcReadFile env.fs env.runDir env.call.action args)

end Floofclaw.Source.OperationDriver
