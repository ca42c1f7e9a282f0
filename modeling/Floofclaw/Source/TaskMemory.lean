import Floofclaw.Source.AgentExec
import Floofclaw.Source.TaskEvents

/-!
# Working memory

Model of the `task_working_memory_appended` branch of `rt_task_normalize_event`
in `task_state.c`, with `payload_is_working_memory_append` and
`rt_task_working_memory_of`. The rows are those `load_store` finds, `ms` is the
clock and `outLen` the size of the payload buffer.
-/

set_option autoImplicit false

namespace Floofclaw.Source.TaskMemory
open Floofclaw.Lib Floofclaw.Source.Json Floofclaw.Source.TaskState
open Floofclaw.Source.AgentExec (objectItems)
open Floofclaw.Source.TaskEvents (payloadHasTaskRuntimeKey)

/-- The loop over the members: only the task and a text to append may be there. -/
def appendKeysLoop (sawText : Bool) : List (Bytes × JsonRef) → Bool
  | [] => sawText
  | (key, value) :: items =>
    if key = lit "task_id" then appendKeysLoop sawText items
    else if key = lit "working_memory" ∧ jsonRefInferType value = .string then appendKeysLoop true items
    else false

def payloadIsWorkingMemoryAppend (payload : JsonRef) : Bool := appendKeysLoop false (objectItems payload)

/-- `rt_task_working_memory_of`; both of its failures are `none`. -/
def rtTaskWorkingMemoryOf (rows : List TaskItem) (taskId : Bytes) (outLen : Nat) : Option Bytes :=
  ((taskIndexOf rows taskId).bind fun idx => rows[idx]?).bind fun t =>
    if t.workingMemory.length ≥ outLen then none else some t.workingMemory

/-- The members of the normalized payload. -/
def appendMembers (etask eincoming : Bytes) (ms : Int) : List (Bytes × Bytes) :=
  [(lit "task_id", quoted etask), (lit "working_memory", quoted eincoming), (lit "updated_ms", decInt ms)]

/-- `rt_task_normalize_event` for `task_working_memory_appended`. -/
def normalizeMemoryAppend (rows : List TaskItem) (payload : JsonRef) (ms : Int) (outLen : Nat) : Option Bytes := do
  guard (jsonRefInferType payload = .object)
  guard (payloadHasTaskRuntimeKey payload true = false)
  let taskId ← jsonRefObjectGetString payload (lit "task_id") rtSmall
  guard ((taskIndexOf rows taskId).isSome = true)
  let etask ← mirror rtMed taskId
  guard (payloadIsWorkingMemoryAppend payload = true)
  let incoming ← jsonRefObjectGetString payload (lit "working_memory") taskWorkingMemoryMax
  guard (incoming ≠ [])
  let current ← rtTaskWorkingMemoryOf rows taskId taskWorkingMemoryMax
  let eincoming ← mirror (taskWorkingMemoryMax * 2) incoming
  guard (current.length + (if current = [] then 0 else 1) + incoming.length < taskWorkingMemoryMax)
  let out := objText (appendMembers etask eincoming ms)
  if out.length ≥ outLen then none else some out

end Floofclaw.Source.TaskMemory
