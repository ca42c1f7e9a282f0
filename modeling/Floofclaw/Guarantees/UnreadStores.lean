import Floofclaw.Source.Stores

/-!
# A state file that cannot be read

The three loaders answer a damaged file with an empty store. A mutation that
needs an earlier record then refuses, and the file stays; one that begins a
record of its own replaces the file with a store of that record alone.
-/

set_option autoImplicit false

namespace Floofclaw.Guarantees.UnreadStores
open Floofclaw.Lib Floofclaw.Source.Json Floofclaw.Source.Stores
open Floofclaw.Source Floofclaw.Source.StoreFile

/-! ## Loading -/

theorem tasks_empty {text : Option Bytes} (h : storeArray (lit "tasks") text = none) : TaskState.loadStore text = [] := by
  cases text with
  | none => rfl
  | some text =>
    have harr : ((jsonRefTopObject text).bind fun root => jsonRefObjectGetArray root (lit "tasks")) = none := h
    rw [TaskState.loadStore, harr]

theorem rows_empty {key : Bytes} {text : Option Bytes} (h : storeArray key text = none) : storeRows key text = [] := by
  rw [storeRows, h]

theorem affairs_empty {text : Option Bytes} (h : storeArray (lit "affairs") text = none) :
    AffairState.loadStore text = [] := by
  rw [AffairState.loadStore, rows_empty h]
  rfl

theorem operations_empty {text : Option Bytes} (h : storeArray (lit "operations") text = none) :
    OperationStore.loadStore text = [] := by
  rw [OperationStore.loadStore, rows_empty h]
  rfl

/-! ## Mutations of the empty store -/

section Tasks
open Floofclaw.Source.TaskState

/-- The task that a well-formed `task_created` event describes. -/
def createdTask (type payloadJson : Bytes) : Option TaskItem :=
  if type = lit "task_created" then (jsonRefTopObject payloadJson).bind (createItem blankItem []) else none

theorem reduceTasks_nil (type : Bytes) (payload : JsonRef) :
    reduceTasks [] type payload =
      if type = lit "task_created" then (createItem blankItem [] payload).map fun t => [t] else none := by
  rw [reduceTasks]
  split
  · rfl
  · have hnone : ((jsonRefObjectGetString payload (lit "task_id") rtSmall).bind (taskIndexOf [])) = none := by
      rw [Option.bind_eq_none_iff]
      intro id _
      rw [taskIndexOf]
      split <;> rfl
    rw [hnone]

theorem applyTaskEvent_nil (type payloadJson : Bytes) :
    (applyTaskEvent [] type payloadJson).bind writeStore = (createdTask type payloadJson).bind fun t => writeStore [t] := by
  rw [applyTaskEvent, createdTask]
  by_cases htype : type = lit "task_created"
  · rw [if_pos (by rw [htype]; decide), if_pos htype]
    cases jsonRefTopObject payloadJson with
    | none => rfl
    | some payload =>
      rw [Option.bind_some]
      dsimp only
      rw [reduceTasks_nil, if_pos htype]
      cases createItem blankItem [] payload with
      | none => rfl
      | some t => cases htext : writeStore [t] <;> simp [Option.filter, htext]
  · rw [if_neg htype]
    split
    · cases jsonRefTopObject payloadJson with
      | none => rfl
      | some payload =>
        dsimp only
        rw [reduceTasks_nil, if_neg htype]
        rfl
    · rfl

end Tasks

section Affairs
open Floofclaw.Source.AffairState

/-- The affair that a call creates: by a patch whose action is `create`, or by hand. -/
def createdAffair (now : Int) : Call → Option AffairItem
  | .applyEvent type payloadJson =>
    if cstr type = lit "affair_patch" then
      (jsonRefTopObject payloadJson).bind fun payload =>
        ((patchOf now payload).filter fun p => p.action = lit "create" ∧ p.manage ≠ []).map (createdItem now)
    else none
  | .createManual contextId manage initial =>
    (rtAffairCreateManual now (cstr contextId) (cstr manage) initial []).bind List.head?
  | .setStatus _ _ | .setNextReviewAt _ _ => none

theorem affairFind_nil (id : Bytes) : affairFind [] id = none := by
  rw [affairFind]
  split <;> rfl

theorem changeAffair_nil (id : Bytes) (f : AffairItem → Option AffairItem) : changeAffair id f [] = none := by
  rw [changeAffair, affairFind_nil]

theorem applyAffairPatch_nil (now : Int) (p : AffairPatch) :
    applyAffairPatch now p [] = if p.action = lit "create" ∧ p.manage ≠ [] then some [createdItem now p] else none := by
  by_cases haction : p.action = lit "create" <;> by_cases hmanage : p.manage = [] <;>
    simp [applyAffairPatch, affairFind_nil, affairMaxItems, haction, hmanage]

/-- The four events that change an affair in place refuse an unknown one. -/
theorem rtAffairApplyEvent_nil (now : Int) (type payloadJson : Bytes) :
    rtAffairApplyEvent now type payloadJson [] =
      if type = lit "affair_patch" then
        (jsonRefTopObject payloadJson).bind fun payload =>
          ((patchOf now payload).filter fun p => p.action = lit "create" ∧ p.manage ≠ []).map fun p => [createdItem now p]
      else none := by
  rw [rtAffairApplyEvent]
  by_cases htype : type = lit "affair_patch"
  · rw [if_neg (by rw [htype]; decide), if_pos htype]
    cases jsonRefTopObject payloadJson with
    | none => rfl
    | some payload =>
      rw [Option.bind_some]
      dsimp only
      rw [if_pos htype]
      cases patchOf now payload with
      | none => rfl
      | some p =>
        rw [Option.bind_some, applyAffairPatch_nil]
        by_cases hp : p.action = lit "create" ∧ p.manage ≠ [] <;> simp [Option.filter, hp]
  · rw [if_neg htype]
    split
    · rfl
    · cases jsonRefTopObject payloadJson with
      | none => rfl
      | some payload =>
        simp [applyNoteAdded, applyCounterBump, applyTaskLinked, applyReviewed, changeAffair_nil]

theorem affair_reduce_nil (now : Int) (c : Call) : reduce now [] c = (createdAffair now c).map fun a => [a] := by
  cases c with
  | applyEvent type payloadJson =>
    rw [reduce, rtAffairApplyEvent_nil, createdAffair]
    split
    · simp [Option.map_bind, Function.comp_def]
    · rfl
  | createManual contextId manage initial =>
    rw [reduce, createdAffair, rtAffairCreateManual]
    split <;> rfl
  | setStatus id status => simp [reduce, createdAffair, rtAffairSetStatus, changeAffair_nil]
  | setNextReviewAt id next => simp [reduce, createdAffair, rtAffairSetNextReviewAt, changeAffair_nil]

end Affairs

section Operations
open Floofclaw.Source.Operations Floofclaw.Source.OperationStore

/-- The record that an event with a handle begins: a running one, or a finished one for a result
whose operation is not on file. -/
def createdOperation : Call → Option OperationItem
  | .applyEvent type payloadJson =>
    if rtOperationIsEventType type then
      (jsonRefTopObject payloadJson).bind fun payload =>
        ((jsonRefObjectGetString payload (lit "handle") rtSmall).filter fun handle => handle ≠ []).map fun handle =>
          if type = lit "operation_started" then startedItem (startedOf handle payload)
          else resultItem (resultOf handle payload)
    else none
  | .bindSecret _ _ | .setWorkerHandle _ _ | .bindClaimEnvelope _ _ | .closeWithoutResult _ => none

theorem opFind_nil (id : Bytes) : opFind [] id = none := by
  rw [opFind]
  split <;> rfl

theorem operation_reduce_nil (keep : Nat) (c : Call) :
    OperationStore.reduce keep c [] =
      match createdOperation c with
      | none => .refused
      | some o => .written (purgeFinishedOverCap keep [o]) := by
  cases c with
  | applyEvent type payloadJson =>
    rw [OperationStore.reduce, rtOperationApplyEvent, createdOperation]
    split
    · cases jsonRefTopObject payloadJson with
      | none => rfl
      | some payload =>
        rw [Option.bind_some, Option.bind_some]
        cases jsonRefObjectGetString payload (lit "handle") rtSmall with
        | none => rfl
        | some handle =>
          by_cases hhandle : handle = []
          · simp [Option.filter, hhandle]
          · by_cases htype : type = lit "operation_started" <;>
              simp [Option.filter, hhandle, htype, applyStarted, applyResult, opFind_nil, startedOf, resultOf,
                operationMaxItems]
    · rfl
  | bindSecret id token =>
    rw [OperationStore.reduce, rtOperationBindSecret, writeRunning, opFind_nil, createdOperation]
    split <;> rfl
  | setWorkerHandle id handle =>
    rw [OperationStore.reduce, rtOperationSetWorkerHandle, writeRunning, opFind_nil, createdOperation]
  | bindClaimEnvelope id envelope =>
    rw [OperationStore.reduce, rtOperationBindClaimEnvelope, writeRunning, opFind_nil, createdOperation]
    split <;> rfl
  | closeWithoutResult id =>
    rw [OperationStore.reduce, rtOperationCloseWithoutResult, opFind_nil, createdOperation]

end Operations

/-! ## The file -/

/-- The text of a store that holds the record a mutation begins and nothing else. -/
def beginText : Mutation → Option Bytes
  | .task type payloadJson => (createdTask type payloadJson).bind fun t => TaskState.writeStore [t]
  | .affair now c => (createdAffair now c).bind fun a => AffairState.writeStore [a]
  | .operation config c => (createdOperation c).bind fun o =>
    OperationStore.writeStore (Operations.purgeFinishedOverCap (OperationStore.keepFinished config) [o])

/-- The mutation describes a record of its own, and that record can be printed. -/
def begins (m : Mutation) : Bool := (beginText m).isSome

/-- On a damaged file only the record a mutation begins matters. -/
theorem mutate_damaged {io : FileIo} {m : Mutation} {file : Option Bytes} (h : damaged m io file = true) :
    mutate io m file =
      match beginText m with
      | none => (file, false)
      | some text => if io.writable then (some text, true) else (file, false) := by
  have hnone : storeArray m.key (fsReadText io file) = none :=
    Option.isNone_iff_eq_none.mp (Bool.and_eq_true_iff.mp h).2
  cases m with
  | task type payloadJson =>
    rewrite [mutate, taskCall, tasks_empty hnone, applyTaskEvent_nil, beginText]
    rfl
  | affair now c =>
    rw [mutate, AffairState.call, affairs_empty hnone, affair_reduce_nil, beginText]
    cases createdAffair now c with
    | none => rfl
    | some a => rfl
  | operation config c =>
    rw [mutate, OperationStore.call, operations_empty hnone, operation_reduce_nil, beginText]
    cases createdOperation c with
    | none => rfl
    | some o => rfl

/-- A damaged state file survives exactly the mutations that begin no record, and the failing writes. -/
theorem damaged_refused_iff (m : Mutation) (io : FileIo) (file : Option Bytes) :
    (damaged m io file = true → mutate io m file = (file, false)) ↔
      (damaged m io file = true → begins m = false ∨ io.writable = false) := by
  refine imp_congr_right fun h => ?_
  rw [mutate_damaged h, begins]
  cases beginText m with
  | none => simp
  | some text => cases io.writable <;> simp

/-- An affair file that broke off in the middle of its second row. -/
def tornAffairs : Bytes :=
  lit "\x7b\"affairs\":[\x7b\"affair_id\":\"aff_1\",\"context_id\":\"chat:x\",\"manage\":\"rent\"\x7d,\x7b\"affair"

def createBills : Mutation := .affair 1000 (.createManual (lit "chat:x") (lit "bills") 0)

/-- `create` of the command line succeeds over the torn file, and the readable affair is gone with it. -/
theorem torn_file_replaced :
    damaged createBills {} (some tornAffairs) = true ∧ (mutate {} createBills (some tornAffairs)).2 = true ∧
      (AffairState.loadStore (mutate {} createBills (some tornAffairs)).1).map (·.manage) = [lit "bills"] := by
  unfold tornAffairs
  repeat rw [lit_ofList]
  decide +kernel

end Floofclaw.Guarantees.UnreadStores
