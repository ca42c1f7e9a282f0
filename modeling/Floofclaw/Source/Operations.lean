import Floofclaw.Lib.Bytes

/-!
# The operation store

Model of `operation_state.c`: one record per runtime-owned operation id, kept in
a list that every call loads, changes and writes back whole. A store that
cannot be read loads as empty. Events arrive decoded; a record's texts are what
the store file gives back.
-/

set_option autoImplicit false

namespace Floofclaw.Source.Operations
open Floofclaw.Lib

def operationMaxItems : Nat := 128
def rtOperationTokenHex : Nat := 64

inductive OperationStatus
  | running | finished
  deriving DecidableEq, Repr

structure OperationItem where
  handle : Bytes
  workerHandle : Bytes := []
  action : Bytes
  requestId : Bytes
  triggerEventId : Bytes
  taskId : Bytes
  contextId : Bytes
  channel : Bytes
  adapterId : Bytes
  originEventId : Bytes
  refJson : Bytes
  status : OperationStatus
  workRev : Int
  deadlineMs : Int := 0
  completionToken : Bytes := []
  claimEnvelopeId : Bytes := []
  deriving DecidableEq

abbrev OperationStore : Type := List OperationItem

/-- The payload of an `operation_started` event. -/
structure OperationStarted where
  handle : Bytes
  action : Bytes
  requestId : Bytes
  triggerEventId : Bytes
  taskId : Bytes
  contextId : Bytes
  channel : Bytes
  adapterId : Bytes
  originEventId : Bytes
  refJson : Bytes
  workRev : Int
  deadlineMs : Int
  deriving DecidableEq

/-- The payload of an `operation_result` event. -/
structure OperationResult where
  handle : Bytes
  workerHandle : Bytes
  action : Bytes
  requestId : Bytes
  triggerEventId : Bytes
  taskId : Bytes
  contextId : Bytes
  channel : Bytes
  adapterId : Bytes
  originEventId : Bytes
  refJson : Bytes
  workRev : Int
  sourceEventId : Bytes
  status : Bytes
  text : Bytes
  deriving DecidableEq

/-! ## Lookup -/

/-- The record `op_index_of` points at. -/
def opFind (st : OperationStore) (operationId : Bytes) : Option OperationItem :=
  if operationId = [] then none else st.find? fun o => o.handle = operationId

/-- The store with that record changed in place. -/
def opUpdate (operationId : Bytes) (change : OperationItem → OperationItem) : OperationStore → OperationStore
  | [] => []
  | o :: st => if o.handle = operationId then change o :: st else o :: opUpdate operationId change st

/-! ## Pruning -/

/-- Drops the oldest finished records. -/
def dropFinished : Nat → OperationStore → OperationStore
  | 0, st => st
  | _ + 1, [] => []
  | n + 1, o :: st => if o.status = .finished then dropFinished n st else o :: dropFinished (n + 1) st

def purgeFinishedOverCap (keepFinished : Nat) (st : OperationStore) : OperationStore :=
  dropFinished (st.countP (fun o => o.status = .finished) - keepFinished) st

/-! ## Reducer -/

/-- What a store function does with the loaded store. -/
inductive Reduced
  | refused
  | unchanged
  | written (st : OperationStore)

def startedItem (ev : OperationStarted) : OperationItem :=
  { handle := ev.handle, action := ev.action, requestId := ev.requestId, triggerEventId := ev.triggerEventId
    taskId := ev.taskId, contextId := ev.contextId, channel := ev.channel, adapterId := ev.adapterId
    originEventId := ev.originEventId, refJson := ev.refJson, status := .running, workRev := ev.workRev
    deadlineMs := ev.deadlineMs }

/-- `operation_started`: a known record must carry the same identity; a full table recycles its oldest
finished record. -/
def applyStarted (keepFinished : Nat) (ev : OperationStarted) (st : OperationStore) : Reduced :=
  if ev.handle = [] then .refused
  else
    match opFind st ev.handle with
    | some o =>
      if o.action = ev.action ∧ o.requestId = ev.requestId ∧ o.triggerEventId = ev.triggerEventId ∧
          o.taskId = ev.taskId ∧ o.workRev = ev.workRev then .unchanged
      else .refused
    | none =>
      if st.length ≥ operationMaxItems ∧ st.all (fun o => o.status ≠ .finished) then .refused
      else
        let room := if st.length ≥ operationMaxItems then dropFinished 1 st else st
        .written (purgeFinishedOverCap keepFinished (room ++ [startedItem ev]))

def resultItem (ev : OperationResult) : OperationItem :=
  { handle := ev.handle, action := ev.action, requestId := ev.requestId, triggerEventId := ev.triggerEventId
    taskId := ev.taskId, contextId := ev.contextId, channel := ev.channel, adapterId := ev.adapterId
    originEventId := ev.originEventId, refJson := ev.refJson, status := .finished, workRev := ev.workRev }

/-- A result may not contradict the identity its record already has. -/
def resultConflicts (o : OperationItem) (ev : OperationResult) : Prop :=
  (o.action ≠ [] ∧ o.action ≠ ev.action) ∨ (o.requestId ≠ [] ∧ o.requestId ≠ ev.requestId) ∨
    (o.triggerEventId ≠ [] ∧ o.triggerEventId ≠ ev.triggerEventId) ∨ (o.taskId ≠ [] ∧ o.taskId ≠ ev.taskId) ∨
    (0 < o.workRev ∧ o.workRev ≠ ev.workRev)

instance (o : OperationItem) (ev : OperationResult) : Decidable (resultConflicts o ev) :=
  inferInstanceAs (Decidable (_ ∨ _))

/-- The terminal transition: the deadline and the capability end with it. -/
def finishItem (o : OperationItem) : OperationItem :=
  { o with status := .finished, deadlineMs := 0, completionToken := [] }

/-- `operation_result`: a result without a record leaves a terminal one behind. -/
def applyResult (keepFinished : Nat) (ev : OperationResult) (st : OperationStore) : Reduced :=
  if ev.handle = [] then .refused
  else
    match opFind st ev.handle with
    | none =>
      let room := if st.length ≥ operationMaxItems then purgeFinishedOverCap keepFinished st else st
      if room.length ≥ operationMaxItems then .refused
      else .written (purgeFinishedOverCap keepFinished (room ++ [resultItem ev]))
    | some o =>
      if resultConflicts o ev then .refused
      else if o.status = .finished then .unchanged
      else .written (purgeFinishedOverCap keepFinished (opUpdate ev.handle finishItem st))

/-! ## Capability and metadata writes -/

/-- A direct write to a record that is not finished. -/
def writeRunning (operationId : Bytes) (change : OperationItem → OperationItem) (st : OperationStore) : Reduced :=
  match opFind st operationId with
  | none => .refused
  | some o => if o.status = .finished then .refused else .written (opUpdate operationId change st)

def rtOperationBindSecret (operationId token : Bytes) (st : OperationStore) : Reduced :=
  if token = [] then .refused else writeRunning operationId (fun o => { o with completionToken := token }) st

def rtOperationSetWorkerHandle (operationId workerHandle : Bytes) (st : OperationStore) : Reduced :=
  writeRunning operationId (fun o => { o with workerHandle := workerHandle }) st

def rtOperationBindClaimEnvelope (operationId envelopeId : Bytes) (st : OperationStore) : Reduced :=
  if envelopeId = [] then .refused else writeRunning operationId (fun o => { o with claimEnvelopeId := envelopeId }) st

def rtOperationCloseWithoutResult (keepFinished : Nat) (operationId : Bytes) (st : OperationStore) : Reduced :=
  match opFind st operationId with
  | none => .refused
  | some o =>
    if o.status = .finished then .unchanged
    else .written (purgeFinishedOverCap keepFinished (opUpdate operationId finishItem st))

/-- Both tokens are compared over the fixed token buffer; an empty one never matches. -/
def rtOperationTokenMatches (st : OperationStore) (operationId token : Bytes) : Bool :=
  match opFind st operationId with
  | none => false
  | some o =>
    decide (token ≠ [] ∧ o.completionToken ≠ [] ∧
      clip (rtOperationTokenHex + 1) o.completionToken = clip (rtOperationTokenHex + 1) token)

/-! ## The file -/

/-- Whether the store file could be read, and whether its replacement was written. -/
structure StoreIo where
  loaded : Bool := true
  written : Bool := true
  deriving DecidableEq

/-- Loads, reduces and writes back; the flag is the function's success. -/
def storeApply (io : StoreIo) (reduce : OperationStore → Reduced) (st : OperationStore) : OperationStore × Bool :=
  match reduce (if io.loaded then st else []) with
  | .refused => (st, false)
  | .unchanged => (st, true)
  | .written st' => if io.written then (st', true) else (st, false)

end Floofclaw.Source.Operations
