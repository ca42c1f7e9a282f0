import Floofclaw.Source.FileIntrinsics

/-!
# Action output

Model of `action_output.c`: the finished-result wrapping as it lands in the
buffer of its caller, and `rt_action_output_extract` with every branch that
prints a replacement. The narration is left out.
-/

set_option autoImplicit false

namespace Floofclaw.Source.ActionOutput
open Floofclaw.Lib Floofclaw.Source.Json Floofclaw.Source.ActionReports
open Floofclaw.Source.Inbound (escapeOrEmpty)
open Floofclaw.Source.FileIntrinsics (pathMax)

/-- `rt_action_wrap_finished_result` on a buffer of `resultLen` octets: the wrapped text is printed back into it. -/
def wrapFinishedResultIn (resultLen : Nat) (result requestId : Bytes) : Bytes :=
  clip resultLen (rtActionWrapFinishedResult result requestId)

/-! ## Extraction -/

/-- What `artifact_ref_obj` prints. -/
def artifactRefMembers (path : Bytes) (outputBytes : Nat) (errorCode : Bytes) : List (Bytes × Bytes) :=
  [(lit "truncated", lit "true"), (lit "artifact", quoted (escapeOrEmpty (pathMax * 2) path)),
    (lit "output_bytes", decNat outputBytes), (lit "error", quoted (escapeOrEmpty (rtSmall * 2) errorCode))]

def artifactRefObj (path : Bytes) (outputBytes : Nat) (errorCode : Bytes) : Bytes :=
  objText (artifactRefMembers path outputBytes errorCode)

/-- What `artifact_ref_error` prints. -/
def artifactErrorMembers (path : Bytes) (outputBytes : Nat) (message : Bytes) : List (Bytes × Bytes) :=
  [(lit "message", quoted (escapeOrEmpty (rtMed * 2) message)), (lit "artifact", quoted (escapeOrEmpty (pathMax * 2) path)),
    (lit "output_bytes", decNat outputBytes)]

def artifactRefError (path : Bytes) (outputBytes : Nat) (message : Bytes) : Bytes :=
  objText (artifactErrorMembers path outputBytes message)

/-- The loud refusal of a result that does not fit. -/
def tooLargeMessage (outputBytes resultLen : Nat) : Bytes :=
  lit "result_too_large: " ++ decNat outputBytes ++ lit " bytes exceeds max " ++ decNat resultLen ++
    -- the dash of the format in its three octets
    lit " " ++ [0xe2, 0x80, 0x94] ++ lit " action must return result JSON <= " ++ decNat resultLen ++
    lit " bytes; write large payloads to disk and return a pointer (see docs/concepts/actions.md)"

def tooLargeMembers (path : Bytes) (outputBytes resultLen : Nat) : List (Bytes × Bytes) :=
  [(lit "message", quoted (tooLargeMessage outputBytes resultLen)),
    (lit "artifact", quoted (escapeOrEmpty (pathMax * 2) path)), (lit "output_bytes", decNat outputBytes)]

/-- `try_salvage_managed_op`: three strings read without a look at the verdict, two of them written as they are. -/
def salvagedMembers (status handle etext : Bytes) : List (Bytes × Bytes) :=
  [(lit "status", quoted status), (lit "handle", quoted handle), (lit "text", quoted etext), (lit "_salvaged", lit "true")]

def salvageStatus (value : JsonRef) : Bytes := stringField value (lit "status") rtSmall []
def salvageHandle (value : JsonRef) : Bytes := stringField value (lit "handle") rtSmall []
def salvageText (value : JsonRef) : Bytes := escapeOrEmpty (rtMed * 8) (stringField value (lit "text") (rtMed * 4) [])

def trySalvageManagedOp (value : JsonRef) (resultLen : Nat) : Option Bytes :=
  if salvageStatus value = [] ∨ salvageHandle value = [] then none
  else
    let salvaged := objText (salvagedMembers (salvageStatus value) (salvageHandle value) (salvageText value))
    if salvaged.length ≥ resultLen then none else some salvaged

/-- The two buffers and the return value. -/
structure Extracted where
  result : Bytes
  error : Bytes
  ok : Bool
  deriving DecidableEq, Repr

/-- From `after_result` on. -/
def extractError (root : JsonRef) (path : Bytes) (outputBytes errorLen : Nat) (result : Bytes) : Extracted :=
  match jsonRefObjectGet root (lit "error") with
  | none => { result, error := clip errorLen (lit "null"), ok := true }
  | some value =>
    if value.length + 1 > errorLen then
      { result, error := clip errorLen (artifactRefError path outputBytes (lit "action error too large")), ok := true }
    else { result, error := value, ok := true }

/-- The branches of the member `result`. -/
def extractResult (root value : JsonRef) (path : Bytes) (outputBytes resultLen errorLen : Nat) (isManagedOp : Bool) : Extracted :=
  if jsonRefInferType value = .object then
    if value.length + 1 > resultLen then
      match (if isManagedOp then trySalvageManagedOp value resultLen else none) with
      | some salvaged => extractError root path outputBytes errorLen salvaged
      | none =>
        { result := clip resultLen (lit "\x7b\x7d")
          error := clip errorLen (objText (tooLargeMembers path outputBytes resultLen)), ok := false }
    else extractError root path outputBytes errorLen value
  else if jsonRefInferType value = .null then
    extractError root path outputBytes errorLen (clip resultLen (lit "\x7b\x7d"))
  else
    extractError root path outputBytes errorLen
      (clip resultLen (artifactRefObj path outputBytes (lit "result_not_object")))

def rtActionOutputExtract (output path : Bytes) (resultLen errorLen : Nat) (isManagedOp : Bool) : Extracted :=
  let outputBytes := (cstr output).length
  match jsonRefFirstObject output with
  | none =>
    { result := clip resultLen (artifactRefObj path outputBytes (lit "invalid_action_output"))
      error := clip errorLen (artifactRefError path outputBytes (lit "invalid action output")), ok := false }
  | some root =>
    match jsonRefObjectGet root (lit "result") with
    | none => extractError root path outputBytes errorLen (clip resultLen (lit "\x7b\x7d"))
    | some value => extractResult root value path outputBytes resultLen errorLen isManagedOp

end Floofclaw.Source.ActionOutput
