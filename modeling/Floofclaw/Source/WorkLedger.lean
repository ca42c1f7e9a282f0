import Floofclaw.Source.TaskEvents

/-!
# The work ledger

Model of the records of `work_state.c`: the revisions and the steps, the lookups
and the evictions every reducer makes. The ledger is its records; its text reads
back. The reducers are in `WorkSteps`.
-/

set_option autoImplicit false

namespace Floofclaw.Source.WorkLedger
open Floofclaw.Lib Floofclaw.Source.Json Floofclaw.Source.TaskState Floofclaw.Source.TaskEvents

def workStepMaxItems : Nat := 256
def workRevisionMaxItems : Nat := 128

structure WorkStep where
  contextId : Bytes
  taskId : Bytes
  workRev : Int
  requestId : Bytes
  action : Bytes
  triggerEventId : Bytes
  selectedArgs : Bytes
  status : Bytes
  selectedEventId : Bytes
  resultEventId : Bytes
  terminalEventId : Bytes
  repairState : Bytes
  handle : Bytes := []
  startedEventId : Bytes := []
  resultKind : Bytes := []
  terminalKind : Bytes := []
  detail : Bytes := []
  terminalDetail : Bytes := []
  deriving DecidableEq

structure WorkRevision where
  contextId : Bytes
  taskId : Bytes
  workRev : Int
  parentWorkRev : Int
  lineageRootRev : Int
  semanticSteps : Nat
  repairAttempts : Nat
  requestId : Bytes
  action : Bytes
  triggerEventId : Bytes
  selectedEventId : Bytes
  deriving DecidableEq

structure WorkStore where
  revisions : List WorkRevision := []
  items : List WorkStep := []
  deriving DecidableEq

/-- What the ledger asks the outbox, and whether its text gets to disk. -/
structure LedgerEnv where
  sourcePending : Bytes → Bool
  written : Bool

def stepIndex (store : WorkStore) (taskId : Bytes) (workRev : Int) (requestId : Bytes) : Option WorkStep :=
  store.items.find? fun s => s.workRev = workRev && s.taskId = taskId && s.requestId = requestId

def revisionIndex (store : WorkStore) (taskId : Bytes) (workRev : Int) : Option WorkRevision :=
  store.revisions.find? fun r => r.workRev = workRev && r.taskId = taskId

/-- A revision the task store does not hold as the current one may go. -/
def revisionStale (rows : List TaskItem) (r : WorkRevision) : Bool := rtTaskWorkRevOf rows r.taskId ≠ some r.workRev

/-- `add_revision`: a full ledger gives up the first stale revision. -/
def addRevision (rows : List TaskItem) (store : WorkStore) (revision : WorkRevision) : Option WorkStore :=
  if store.revisions.length < workRevisionMaxItems then some { store with revisions := store.revisions ++ [revision] }
  else
    (store.revisions.findIdx? (revisionStale rows)).map fun i =>
      { store with revisions := store.revisions.eraseIdx i ++ [revision] }

/-- `step_is_current_live`. -/
def stepIsCurrentLive (env : LedgerEnv) (rows : List TaskItem) (s : WorkStep) : Bool :=
  (s.resultEventId ≠ [] && env.sourcePending s.resultEventId) ||
    (s.terminalEventId ≠ [] && env.sourcePending s.terminalEventId) ||
    rtTaskWorkBinding rows s.contextId s.taskId s.workRev false

/-- `add_step`: a full ledger gives up the first step that is not live. -/
def addStep (env : LedgerEnv) (rows : List TaskItem) (store : WorkStore) (step : WorkStep) : Option WorkStore :=
  if store.items.length < workStepMaxItems then some { store with items := store.items ++ [step] }
  else
    (store.items.findIdx? fun s => !stepIsCurrentLive env rows s).map fun i =>
      { store with items := store.items.eraseIdx i ++ [step] }

/-- Where a revision by the controller says it comes from. -/
structure Lineage where
  parentRev : Int
  requestId : Bytes
  action : Bytes
  triggerEventId : Bytes
  deriving DecidableEq

def lineageOf (payload : JsonRef) : Option Lineage :=
  match jsonRefObjectGetLong payload (lit "parent_work_rev") 0 with
  | (_, false) => none
  | (parentRev, true) => do
    let requestId ← jsonRefObjectGetString payload (lit "request_id") rtSmall
    let action ← jsonRefObjectGetString payload (lit "action") rtSmall
    let trigger ← jsonRefObjectGetString payload (lit "trigger_event_id") rtSmall
    return ⟨parentRev, requestId, action, trigger⟩

/-- A revision the ledger has: it must be the same one. -/
def sameRevision (r : WorkRevision) (contextId : Bytes) (controller : Bool) (payload : JsonRef) : Bool :=
  r.contextId = contextId &&
    if controller then
      lineageOf payload = some ⟨r.parentWorkRev, r.requestId, r.action, r.triggerEventId⟩
    else r.parentWorkRev = 0 && r.lineageRootRev = r.workRev

/-- A revision that starts a lineage of its own. -/
def rootRevision (contextId taskId : Bytes) (workRev : Int) : WorkRevision :=
  { contextId := contextId, taskId := taskId, workRev := workRev, parentWorkRev := 0, lineageRootRev := workRev,
    semanticSteps := 0, repairAttempts := 0, requestId := [], action := [], triggerEventId := [], selectedEventId := [] }

/-- The revision an event bears: that of a new work task, `1` unless it says otherwise, or the one an
update names. -/
def revisionBorne (type : Bytes) (payload : JsonRef) : Option Int :=
  if type = lit "task_created" then
    if jsonRefObjectGetString payload (lit "kind") rtSmall = some (lit "work") then
      match jsonRefObjectGetLong payload (lit "work_rev") 0 with
      | (n, true) => some n
      | (_, false) => some 1
    else none
  else if type = lit "task_updated" then
    match jsonRefObjectGetLong payload (lit "work_rev") 0 with
    | (n, true) => if n ≤ 0 then none else some n
    | (_, false) => none
  else none

end Floofclaw.Source.WorkLedger
