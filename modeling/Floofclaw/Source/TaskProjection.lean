import Floofclaw.Source.AgentExec
import Floofclaw.Source.StoreFile

/-!
# The task projections

`rt_tasks_active_state_json` and `rt_tasks_active_agent_state_json` of
`task_projection.c`: the open, working and blocked tasks of a context, as they
are stored and as agents see them. The text of the store is the one that was
read. A task is printed as the pieces that are appended one after the other;
each projection ends at the first task it cannot print.
-/

set_option autoImplicit false

namespace Floofclaw.Source.TaskProjection
open Floofclaw.Lib Floofclaw.Source.Json Floofclaw.Source.TaskState
open Floofclaw.Source.AgentExec (objectItems)
open Floofclaw.Source.StoreFile (appendPieces writeRows separator)

/-- `rt_task_json_state_string` for the key `state`. -/
def rtTaskJsonState (task : JsonRef) (outLen : Nat) : Option Bytes :=
  ((jsonRefObjectGetObject task (lit "state")).bind fun state =>
    jsonRefObjectGetString state (lit "status") outLen <|> jsonRefObjectGetString state (lit "state") outLen) <|>
  jsonRefObjectGetString task (lit "state") outLen

/-- `rt_tasks_state_json`: the text of the store as far as it fits. -/
def rtTasksStateJson (outLen : Nat) (text : Option Bytes) : Bytes :=
  clip outLen (text.elim (lit "\x7b\"tasks\":[]\x7d") cstr)

def taskVisibleInContext (contextId : Bytes) (task : JsonRef) : Bool :=
  (contextId = [] || (rtTaskJsonStateString task (lit "context_id") rtMed).getD [] = contextId) &&
    (rtTaskJsonState task rtSmall).getD [] ≠ lit "archived"

/-- The states of a task that can still advance. -/
def activeStates : List Bytes := [lit "open", lit "working", lit "blocked"]

def taskActiveInContext (contextId : Bytes) (task : JsonRef) : Bool :=
  taskVisibleInContext contextId task && (rtTaskJsonState task rtSmall).any activeStates.contains

/-- The tasks of a store text, none where it is malformed. -/
def storedTasks (text : Option Bytes) : List JsonRef :=
  ((jsonRefFromText (rtTasksStateJson rtXl text)).bind fun root => jsonRefObjectGetArray root (lit "tasks")).elim [] arrayEntries

/-- The tasks both projections print. -/
def activeTasks (contextId : Bytes) (text : Option Bytes) : List JsonRef :=
  (storedTasks text).filter fun task => jsonRefInferType task = .object && taskActiveInContext contextId task

/-- A value copied and compacted through two buffers. -/
def copyCompact (outLen : Nat) (v : JsonRef) : Option Bytes := (jsonRefValueCopy outLen v).bind (jsonCompact outLen)

/-- The loop over the tasks, `row` printing one of them. -/
def projection (row : JsonRef → Option Bytes) (contextId : Bytes) (outLen : Nat) (text : Option Bytes) : Option Bytes :=
  (rtAppendText outLen [] (lit "\x7b\"active\":[")).bind fun out =>
    (writeRows outLen (fun first task => (row task).map fun r => [separator first, r]) true out (activeTasks contextId text)).bind
      fun out => rtAppendText outLen out (lit "]\x7d")

/-! ## The projections -/

def rtTasksActiveStateJson : Bytes → Nat → Option Bytes → Option Bytes := projection (copyCompact rtXl)

end Floofclaw.Source.TaskProjection
