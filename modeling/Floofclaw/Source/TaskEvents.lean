import Floofclaw.Source.EventLog
import Floofclaw.Source.TaskState

/-!
# Where task events come from

Model of the two producers of `task_created` and `task_updated`: the normalizer
of `task_state.c` that rebuilds what an agent asked for, with the artifact
normalizer of `task_artifacts.c`, and the `work` intrinsic of
`action_runtime_work.c`, with the target lookups of `task_projection.c` it
makes over the rows of the store. A producer yields the payload it appends.
-/

set_option autoImplicit false

namespace Floofclaw.Source.TaskEvents
open Floofclaw.Lib Floofclaw.Source.Json Floofclaw.Source.EventLog Floofclaw.Source.TaskState

/-- What a producer reads of its run. -/
structure TaskOrigin where
  run : Nat
  contextId : Bytes
  originChannel : Bytes := []
  originAdapterId : Bytes := []
  inboundAffairId : Bytes := []
  deriving DecidableEq

def TaskOrigin.runId (o : TaskOrigin) : Bytes := lit "run_" ++ decPadded 3 o.run

/-- `context_from_ctx`. -/
def contextFromCtx (o : TaskOrigin) : Bytes :=
  clip rtMed (if o.contextId ≠ [] then o.contextId
    else if o.originChannel ≠ [] ∧ o.originAdapterId ≠ [] then
      lit "chat:" ++ o.originChannel ++ lit ":" ++ o.originAdapterId
    else if o.originChannel ≠ [] then lit "chat:" ++ o.originChannel
    else lit "chat:unknown")

/-! ## What an agent asks for -/

def taskRuntimeKey (allowTaskId : Bool) (key : Bytes) : Bool :=
  if allowTaskId && key = lit "task_id" then false
  else [lit "task_id", lit "context_id", lit "created_event_id", lit "created_ms", lit "updated_ms"].contains key

def payloadHasTaskRuntimeKey (payload : JsonRef) (allowTaskId : Bool) : Bool :=
  iterFinds rtSmall (taskRuntimeKey allowTaskId) payload payload.length 0

def rtTaskWorkRevOf (rows : List TaskItem) (taskId : Bytes) : Option Int :=
  ((taskIndexOf rows taskId).bind fun i => rows[i]?).map TaskItem.workRev

/-! ## What the `work` intrinsic asks for -/

/-- `rt_task_work_binding_json`: whether the context has this work task, active at the revision. -/
def rtTaskWorkBinding (rows : List TaskItem) (contextId taskId : Bytes) (workRev : Int) (allowBlocked : Bool) : Bool :=
  contextId ≠ [] && taskId ≠ [] &&
    (rows.find? fun t => t.contextId = contextId && t.taskId = taskId).any fun t =>
      t.kind = lit "work" && (t.state = lit "open" || t.state = lit "working" || (allowBlocked && t.state = lit "blocked")) &&
        0 < t.workRev && (workRev ≤ 0 || t.workRev = workRev)

end Floofclaw.Source.TaskEvents
