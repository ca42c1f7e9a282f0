import Floofclaw.Guarantees.WorkAttempts

/-!
# The record follows its operation

A task shows the attempt of its operation in its `external` record. Whenever an
operation finishes, the driver sends the task an update; whether the record
follows depends on what the update has to pass: the revision check, the buffers
it is escaped into, the log and the store.
-/

set_option autoImplicit false

namespace Floofclaw.Guarantees.RecordFinishes
open Floofclaw.Lib Floofclaw.Source.Json Floofclaw.Source.TaskState Floofclaw.Source.TaskEvents Floofclaw.Source.Operations
open Floofclaw.Source.Workers Floofclaw.Guarantees.TaskStoreText Floofclaw.Guarantees.TaskRoundTrip Floofclaw.Guarantees.TaskStates
open Floofclaw.Guarantees.TaskPayloads Floofclaw.Guarantees.ExternalRecords Floofclaw.Guarantees.ResultRuns
open Floofclaw.Guarantees.WorkAttempts

/-! ## Finishes -/

/-- The row an update of a task goes to. -/
def rowOf (rows : List TaskItem) (taskId : Bytes) : Option TaskItem := (taskIndexOf rows taskId).bind fun i => rows[i]?

/-- An operation that finishes, over the rows it meets. -/
structure Finish where
  rows : List TaskItem
  op : OperationItem
  /-- The text of its result; `none` when the record is closed without one. -/
  result : Option Bytes
  env : Env

def unfinished (s : State) (opId : Bytes) : Option OperationItem :=
  (opFind s.ops opId).filter fun op => op.status ≠ .finished

def concluded (s : State) (opId text : Bytes) (env : Env) : Option Finish :=
  if env.concludes then (unfinished s opId).map fun op => ⟨s.rows, op, some text, env⟩ else none

def closing (s : State) (opId : Bytes) (env : Env) : Option Finish :=
  (unfinished s opId).map fun op => ⟨s.rows, op, none, env⟩

section Finishes
variable (cfg : Config)

/-- A result allocates the operation its call still lacks. -/
def beforeResult (s : State) (call : ManagedCall) (env : Env) : State :=
  if (opFind s.ops (opIdOf call)).isNone then allocateForCall cfg s call env else s

def reacted (s : State) (call : ManagedCall) (env : Env) : Reaction → Option Finish
  | .nothing | .complains | .runs _ => none
  | .closes => closing s (opIdOf call) env
  | .ends _ text => concluded (beforeResult cfg s call env) (opIdOf call) text env

/-- The finish by the terminal of a call, with the rows it leaves. -/
def terminalFinish (s : State) (call : ManagedCall) (t : Terminal) (env : Env) : Option (Finish × List TaskItem) :=
  (reacted cfg s call env (reactionTo s call t)).map fun f => (f, (onTerminal cfg s call t env).rows)

/-- What a step finishes: by a terminal, by recovery and the terminal it appends, by a completion or timeout claim. -/
def finishesOf (s : State) : Step → List (Finish × List TaskItem)
  | .terminal requestId t env => ((findCall s requestId).bind fun call => terminalFinish cfg s call t env).toList
  | .recovered requestId env =>
    match findCall s requestId with
    | none => []
    | some call =>
      ((closing s (opIdOf call) env).map fun f => (f, (closeWithoutResult cfg s (opIdOf call)).rows)).toList ++
        (terminalFinish cfg (closeWithoutResult cfg s (opIdOf call)) call (.failed ambiguousDetail) env).toList
  | .claim opId status text env => ((concluded s opId text env).map fun f => (f, (conclude cfg s opId status text env).rows)).toList
  | _ => []

def finishes (s : State) : List Step → List (Finish × List TaskItem)
  | [] => []
  | i :: steps =>
    match step cfg s i with
    | none => []
    | some s' => finishesOf cfg s i ++ finishes s' steps

end Finishes

/-! ## What a finish owes its task -/

def NamesOperation (external handle : Bytes) : Prop := ∃ a ∈ attemptOf external, a.handle = handle

/-- The record names the operation as finished. -/
def NamesFinished (external handle : Bytes) : Prop := ∃ a ∈ attemptOf external, a.handle = handle ∧ a.status = lit "finished"

/-- The operation is of the task's current revision, or the one its record shows. -/
def Mine (t : TaskItem) (op : OperationItem) : Prop := t.workRev = op.workRev ∨ NamesOperation t.external op.handle

/-- The operation is of an older revision, and the record shows another one of a newer revision. -/
def Overtaken (t : TaskItem) (op : OperationItem) : Prop :=
  op.workRev < t.workRev ∧ ∃ a ∈ attemptOf t.external, a.handle ≠ op.handle ∧ op.workRev < a.workRev

/-- The record follows the finish: it names the operation the task is at, and keeps a newer one. -/
def RecordFollows (f : Finish) (after : List TaskItem) : Prop :=
  ∀ t ∈ rowOf f.rows f.op.taskId,
    (Mine t f.op → ∃ t' ∈ rowOf after f.op.taskId, NamesFinished t'.external f.op.handle) ∧
      (Overtaken t f.op → (rowOf after f.op.taskId).map TaskItem.external = some t.external)

/-! ## The condition -/

/-- A text as it is escaped in full. -/
def printed (s : Bytes) : Bytes := escaped (cstr s)

def finishedRecord (op : OperationItem) (text : Bytes) : Bytes :=
  objText (externalMembers (printed op.handle) (printed op.action) (lit "finished")
    (printed (clip (opExternalExcerptMax + 1) text)) op.workRev)

def finishedUpdate (op : OperationItem) (text : Bytes) : Bytes :=
  objText [(lit "task_id", quoted (printed op.taskId)), (lit "state", objText [(lit "external", finishedRecord op text)])]

/-- The rows with the record of one task replaced. -/
def withRecord (rows : List TaskItem) (taskId external : Bytes) : List TaskItem :=
  match taskIndexOf rows taskId with
  | none => rows
  | some i => rows.modify i fun t => { t with external := external }

/-- The texts of the update escape into their buffers, of 512 octets for an id and of 1024 for the excerpt. -/
def Escapes (op : OperationItem) (text : Bytes) : Prop :=
  (printed op.taskId).length < rtMed ∧ (printed op.handle).length < rtMed ∧ (printed op.action).length < rtMed ∧
    (printed (clip (opExternalExcerptMax + 1) text)).length < rtMed * 2

instance (op : OperationItem) (text : Bytes) : Decidable (Escapes op text) := inferInstanceAs (Decidable (_ ∧ _))

/-- The process lives to append the update, and the update, the record and the store fit theirs. -/
def Carried (f : Finish) (text : Bytes) : Prop :=
  Escapes f.op text ∧ f.env.projects = true ∧ (finishedUpdate f.op text).length < rtLarge ∧
    (finishedRecord f.op text).length < taskExternalMax ∧
    (writeStore (withRecord f.rows f.op.taskId (finishedRecord f.op text))).isSome = true

/-- The `work_rev` of a record. -/
def RecordedAt (external : Bytes) (workRev : Int) : Prop :=
  ∃ ext ∈ jsonRefFromText external, jsonRefObjectGetLong ext (lit "work_rev") 0 = (workRev, true)

/-- The task is active work of the operation's context, and the record gives the operation's revision. -/
def StillBound (rows : List TaskItem) (t : TaskItem) (op : OperationItem) : Prop :=
  rtTaskWorkBinding rows op.contextId op.taskId t.workRev true = true ∧ 0 < t.workRev ∧ 0 < op.workRev ∧
    RecordedAt t.external op.workRev

def Meets (f : Finish) : Prop :=
  ∀ t ∈ rowOf f.rows f.op.taskId,
    (Mine t f.op → NamesFinished t.external f.op.handle ∨
      ((t.workRev = f.op.workRev ∨ f.op.workRev ≤ 0 ∨ StillBound f.rows t f.op) ∧ ∃ text ∈ f.result, Carried f text)) ∧
      (Overtaken t f.op → 0 < f.op.workRev ∨ ¬ ∃ text ∈ f.result, Carried f text)

section Decidable
variable (external handle : Bytes) (workRev : Int) (rows after : List TaskItem) (t : TaskItem) (op : OperationItem) (f : Finish)

instance : Decidable (NamesOperation external handle) := inferInstanceAs (Decidable (∃ a ∈ _, _))
instance : Decidable (NamesFinished external handle) := inferInstanceAs (Decidable (∃ a ∈ _, _))
instance : Decidable (Mine t op) := inferInstanceAs (Decidable (_ ∨ _))
instance : Decidable (Overtaken t op) := inferInstanceAs (Decidable (_ ∧ ∃ a ∈ _, _))
instance : Decidable (RecordFollows f after) := inferInstanceAs (Decidable (∀ t ∈ _, _))
instance (text : Bytes) : Decidable (Carried f text) := inferInstanceAs (Decidable (_ ∧ _))
instance : Decidable (RecordedAt external workRev) := inferInstanceAs (Decidable (∃ ext ∈ _, _))
instance : Decidable (StillBound rows t op) := inferInstanceAs (Decidable (_ ∧ _))
instance : Decidable (Meets f) := inferInstanceAs (Decidable (∀ t ∈ _, _))

end Decidable

/-! ## The update -/

theorem mirror_printed (cap : Nat) (s : Bytes) : mirror cap s = if (printed s).length < cap then some (printed s) else none := by
  by_cases hfit : (printed s).length < cap
  · rw [if_pos hfit, mirror, jsonEscape_complete hfit]
    rfl
  · rw [if_neg hfit, mirror]
    split
    · rename_i out hout
      obtain ⟨rfl, hlt⟩ := jsonEscape_fits hout
      exact absurd hlt hfit
    · rfl

theorem mirror_finished : mirror rtMed (lit "finished") = some (lit "finished") := by decide +kernel

example : printed (lit "ok") = lit "ok" := by decide +kernel

theorem externalPayload_eq (op : OperationItem) (text : Bytes) :
    externalPayload op.taskId op.handle op.action (lit "finished") text op.workRev =
      if Escapes op text ∧ (finishedUpdate op text).length < rtLarge then some (finishedUpdate op text) else none := by
  rw [externalPayload, mirror_finished, mirror_printed rtMed op.taskId, mirror_printed rtMed op.handle,
    mirror_printed rtMed op.action, mirror_printed (rtMed * 2)]
  by_cases htask : (printed op.taskId).length < rtMed
  case neg => simp [Escapes, htask]
  by_cases hhandle : (printed op.handle).length < rtMed
  case neg => simp [Escapes, hhandle]
  by_cases haction : (printed op.action).length < rtMed
  case neg => simp [Escapes, haction]
  by_cases hexcerpt : (printed (clip (opExternalExcerptMax + 1) text)).length < rtMed * 2
  case neg => simp [Escapes, hexcerpt]
  rw [if_pos htask, if_pos hhandle, if_pos haction, if_pos hexcerpt]
  have hescapes : Escapes op text := ⟨htask, hhandle, haction, hexcerpt⟩
  by_cases hupdate : (finishedUpdate op text).length < rtLarge
  · rw [if_pos ⟨hescapes, hupdate⟩]
    change Option.bind (guard ((finishedUpdate op text).length < rtLarge)) (fun _ => some (finishedUpdate op text)) = _
    rw [guard, if_pos hupdate]
    rfl
  · rw [if_neg fun h => hupdate h.2]
    change Option.bind (guard ((finishedUpdate op text).length < rtLarge)) (fun _ => some (finishedUpdate op text)) = _
    rw [guard, if_neg hupdate]
    rfl

theorem printed_clean (s : Bytes) : CleanValue (quoted (printed s)) :=
  mirror_clean ((mirror_printed ((printed s).length + 1) s).trans (if_pos (Nat.lt_succ_self _)))

theorem finishedMembers_written (op : OperationItem) (text : Bytes) :
    WrittenMembers (externalMembers (printed op.handle) (printed op.action) (lit "finished")
      (printed (clip (opExternalExcerptMax + 1) text)) op.workRev) :=
  externalMembers_written (printed_clean _) (printed_clean _) (mirror_clean mirror_finished) (printed_clean _) op.workRev

theorem finishedRecord_squeezes (op : OperationItem) (text : Bytes) : Squeezes (finishedRecord op text) (finishedRecord op text) :=
  externalMembers_squeezes (.text _) (.text _) (mirror_squeezes mirror_finished) (.text _) op.workRev

theorem finishedState_written (op : OperationItem) (text : Bytes) : WrittenMembers [(lit "external", finishedRecord op text)] :=
  .key (by decide) (.objText (finishedMembers_written op text)) .nil

theorem finishedUpdate_written (op : OperationItem) (text : Bytes) :
    WrittenMembers [(lit "task_id", quoted (printed op.taskId)), (lit "state", objText [(lit "external", finishedRecord op text)])] :=
  .key (by decide) (printed_clean _) (.key (by decide) (.objText (finishedState_written op text)) .nil)

theorem update_state (op : OperationItem) (text : Bytes) :
    jsonRefObjectGetObject (finishedUpdate op text) (lit "state") = some (objText [(lit "external", finishedRecord op text)]) := by
  rw [jsonRefObjectGetObject, finishedUpdate, (finishedUpdate_written op text).get]
  have hobj : jsonRefInferType (objText [(lit "external", finishedRecord op text)]) = .object :=
    ObjText.inferType (finishedState_written op text).objText
  exact Option.filter_eq_some_iff.mpr ⟨rfl, by simp [hobj]⟩

section Readers
variable (op : OperationItem) (text : Bytes) (key : Bytes)

theorem update_get (htask : key ≠ lit "task_id") (hstate : key ≠ lit "state") : jsonRefObjectGet (finishedUpdate op text) key = none := by
  rw [finishedUpdate, (finishedUpdate_written op text).get]
  simp [assoc, htask.symm, hstate.symm]

theorem state_get (hexternal : key ≠ lit "external") :
    jsonRefObjectGet (objText [(lit "external", finishedRecord op text)]) key = none := by
  rw [(finishedState_written op text).get]
  simp [assoc, hexternal.symm]

theorem update_string (htask : key ≠ lit "task_id") (hstate : key ≠ lit "state") (hexternal : key ≠ lit "external") (cap : Nat) :
    rtTaskJsonStateString (finishedUpdate op text) key cap = none := by
  rw [rtTaskJsonStateString, update_state, Option.bind_some, jsonRefObjectGetString, state_get op text key hexternal]
  rw [Option.bind_none, jsonRefObjectGetString, update_get op text key htask hstate]
  rfl

theorem update_array (htask : key ≠ lit "task_id") (hstate : key ≠ lit "state") (hexternal : key ≠ lit "external") :
    rtTaskJsonStateArray (finishedUpdate op text) key = none := by
  rw [rtTaskJsonStateArray, update_state, Option.bind_some, jsonRefObjectGetArray, state_get op text key hexternal]
  rw [jsonRefObjectGetArray, update_get op text key htask hstate]
  rfl

theorem update_value : rtTaskJsonStateValue (finishedUpdate op text) (lit "external") = some (finishedRecord op text) := by
  rw [rtTaskJsonStateValue, update_state, Option.bind_some, (finishedState_written op text).get]
  rfl

theorem update_status : rtTaskJsonStatus (finishedUpdate op text) rtSmall = none := by
  rw [rtTaskJsonStatus, update_state, Option.bind_some, jsonRefObjectGetString, state_get op text _ (lit_ne (by decide))]
  rw [Option.bind_none, jsonRefObjectGetString, finishedUpdate, (finishedUpdate_written op text).get]
  rfl

theorem update_stamp : updatedMember (finishedUpdate op text) 0 = 0 := by
  have hnested : nestedUpdated (finishedUpdate op text) 0 = 0 := by
    rw [nestedUpdated, update_state]
    exact congrArg Prod.fst (written_absent (finishedState_written op text) rfl 0)
  rw [updatedMember, hnested, if_pos rfl]
  exact congrArg Prod.fst (written_absent (finishedUpdate_written op text) rfl 0)

theorem update_compact (old : Bytes) : valueCompact (finishedRecord op text) taskExternalMax old =
    if (finishedRecord op text).length < taskExternalMax then (finishedRecord op text, true)
    else ((valueCompact (finishedRecord op text) taskExternalMax old).1, false) := by
  have hclean : CleanValue (finishedRecord op text) := .objText (finishedMembers_written op text)
  have hcompact := jsonCompact_eq hclean.nulFree (Compacts.of_stable hclean.value (finishedRecord_squeezes op text)) taskExternalMax
  split
  · rename_i hfit
    have hcopy : jsonRefValueCopy rtLarge (finishedRecord op text) = some (finishedRecord op text) := by
      rw [jsonRefValueCopy, if_neg]
      have : taskExternalMax < rtLarge := by decide
      omega
    rw [if_pos hfit] at hcompact
    rw [valueCompact, hcopy]
    dsimp only
    rw [jsonCompactWrite_of_compact hcompact]
  · rename_i hlong
    rw [if_neg hlong] at hcompact
    rw [valueCompact]
    cases hcopy : jsonRefValueCopy rtLarge (finishedRecord op text) with
    | none => rfl
    | some raw =>
      rw [valueCopy_eq hcopy]
      dsimp only
      rcases hrun : jsonCompactWrite taskExternalMax (finishedRecord op text) with ⟨out, _ | _⟩
      · rfl
      · rw [jsonCompact, hrun] at hcompact
        cases hcompact

end Readers

/-- The reducer puts the record in place of the old one, and touches nothing else of the row. -/
theorem reduceItem_finished (op : OperationItem) (text : Bytes) (t : TaskItem) :
    reduceItem t (lit "task_updated") (finishedUpdate op text) =
      if (finishedRecord op text).length < taskExternalMax then some { t with external := finishedRecord op text } else none := by
  have hwork := update_string op text (lit "work") (lit_ne (by decide)) (lit_ne (by decide)) (lit_ne (by decide))
  have hdone := update_string op text (lit "done_when") (lit_ne (by decide)) (by decide) (by decide)
  have haffair := update_string op text (lit "affair_id") (lit_ne (by decide)) (by decide) (by decide)
  have hdelegate := update_string op text (lit "delegate") (lit_ne (by decide)) (by decide) (by decide)
  have hartifacts := update_array op text (lit "artifacts") (lit_ne (by decide)) (by decide) (by decide)
  have hreduced : reduceUpdated t (finishedUpdate op text) =
      if (finishedRecord op text).length < taskExternalMax then some { t with external := finishedRecord op text } else none := by
    simp only [reduceUpdated, requestedState, proseUpdate, hwork, hdone, haffair, hdelegate, update_status, update_value,
      Option.filter_none, Option.isSome_none, Option.getD_none, reduceCtorEq, or_self, false_and, and_false, if_false,
      Bool.or_self, Bool.false_eq_true]
    rw [update_compact]
    by_cases hfit : (finishedRecord op text).length < taskExternalMax
    · rw [if_pos hfit, if_pos hfit]
    · rw [if_neg hfit, if_neg hfit]
  rw [reduceItem, if_neg fun h => absurd h.1 (lit_ne (by decide)), if_neg (lit_ne (by decide)), if_neg fun h => absurd h.1 (lit_ne (by decide)),
    if_neg fun h => absurd h.1 (lit_ne (by decide)), update_stamp, stampUpdated, if_neg (Int.lt_irrefl 0), reduceState, if_pos rfl, hreduced]
  by_cases hfit : (finishedRecord op text).length < taskExternalMax
  · rw [if_pos hfit]
    dsimp only
    rw [reduceArtifacts, hartifacts]
  · rw [if_neg hfit]

theorem withRecord_row {rows : List TaskItem} {taskId external : Bytes} {i : Nat} {t : TaskItem}
    (hindex : taskIndexOf rows taskId = some i) (hrow : rows[i]? = some t) :
    withRecord rows taskId external = rows.set i { t with external := external } := by
  rw [withRecord, hindex]
  refine List.ext_getElem? fun j => ?_
  rw [List.getElem?_modify, List.getElem?_set]
  by_cases hij : i = j
  · subst hij
    obtain ⟨hlt, -⟩ := List.getElem?_eq_some_iff.mp hrow
    rw [hrow, if_pos rfl, if_pos hlt]
    exact congrArg some (if_pos rfl)
  · simp [hij]

/-- An update of a task that is there leaves the record in its row, where the record and the store fit. -/
theorem applyTaskEvent_finished {rows : List TaskItem} {op : OperationItem} {text : Bytes} {t : TaskItem}
    (htask : TextField rtSmall op.taskId) (hfits : (printed op.taskId).length < rtMed) (hrow : rowOf rows op.taskId = some t) :
    applyTaskEvent rows (lit "task_updated") (finishedUpdate op text) =
      if (finishedRecord op text).length < taskExternalMax ∧
          (writeStore (withRecord rows op.taskId (finishedRecord op text))).isSome = true then
        some (withRecord rows op.taskId (finishedRecord op text))
      else none := by
  obtain ⟨i, hindex, hget⟩ := Option.bind_eq_some_iff.mp hrow
  have hname : jsonRefObjectGetString (finishedUpdate op text) (lit "task_id") rtSmall = some op.taskId :=
    written_text (finishedUpdate_written op text) htask ((mirror_printed rtMed op.taskId).trans (if_pos hfits)) rfl
  have htop : jsonRefTopObject (finishedUpdate op text) = some (finishedUpdate op text) := written_top (finishedUpdate_written op text)
  rw [applyTaskEvent, if_pos (by rw [lit_ofList]; decide), htop]
  dsimp only
  rw [reduceTasks, if_neg (by decide), hname, Option.bind_some, hindex]
  dsimp only
  rw [hget]
  dsimp only
  rw [reduceItem_finished, withRecord_row hindex hget]
  by_cases hrecord : (finishedRecord op text).length < taskExternalMax
  · rw [if_pos hrecord, Option.map_some, Option.filter_some]
    simp only [hrecord, true_and]
  · rw [if_neg hrecord, Option.map_none, Option.filter_none, if_neg fun h => hrecord h.1]

theorem taskIndexOf_congr {rows rows' : List TaskItem} (h : rows'.map TaskItem.taskId = rows.map TaskItem.taskId) (id : Bytes) :
    taskIndexOf rows' id = taskIndexOf rows id := by
  have hmap (rows : List TaskItem) : (rows.findIdx? fun t => decide (t.taskId = id)) =
      (rows.map TaskItem.taskId).findIdx? fun x => decide (x = id) := by
    rw [List.findIdx?_map]
    rfl
  rw [taskIndexOf, taskIndexOf, hmap, hmap, h]

theorem rowOf_withRecord {rows : List TaskItem} {taskId : Bytes} {t : TaskItem} (hrow : rowOf rows taskId = some t) (external : Bytes) :
    rowOf (withRecord rows taskId external) taskId = some { t with external := external } := by
  obtain ⟨i, hindex, hget⟩ := Option.bind_eq_some_iff.mp hrow
  obtain ⟨hlt, -⟩ := List.getElem?_eq_some_iff.mp hget
  have hids : (rows.set i { t with external := external }).map TaskItem.taskId = rows.map TaskItem.taskId := map_set_same hget rfl
  rw [withRecord_row hindex hget, rowOf, taskIndexOf_congr hids, hindex, Option.bind_some, List.getElem?_set_self hlt]

theorem rowOf_id {rows : List TaskItem} {taskId : Bytes} {t : TaskItem} (hrow : rowOf rows taskId = some t) :
    t.taskId = taskId ∧ taskId ≠ [] := by
  obtain ⟨i, hindex, hget⟩ := Option.bind_eq_some_iff.mp hrow
  obtain ⟨hne, u, hu, hid⟩ := taskIndexOf_some hindex
  rw [hget] at hu
  cases hu
  exact ⟨hid, hne⟩

/-! ## What a finish leaves -/

/-- The fields of an operation that are read back from the record. -/
structure OpNamed (o : OperationItem) : Prop where
  handle : TextField rtSmall o.handle
  named : o.handle ≠ []
  taskId : TextField rtSmall o.taskId

/-- The record of a finish names its operation as finished. -/
theorem finishedRecord_names {op : OperationItem} {text : Bytes} (hop : OpNamed op) (hfits : (printed op.handle).length < rtMed) :
    NamesFinished (finishedRecord op text) op.handle := by
  have hms := finishedMembers_written op text
  have hfrom : jsonRefFromText (finishedRecord op text) = some (finishedRecord op text) :=
    jsonRefFromText_complete (CleanValue.objText hms).value (CleanValue.objText hms).nulFree
  have hobj : jsonRefInferType (finishedRecord op text) = .object := ObjText.inferType hms.objText
  have hhandle : jsonRefObjectGetString (finishedRecord op text) (lit "handle") rtSmall = some op.handle :=
    written_text hms hop.handle ((mirror_printed rtMed op.handle).trans (if_pos hfits)) rfl
  have hplain : escaped (lit "finished") = lit "finished" := by rw [lit_ofList]; decide
  have hget : jsonRefObjectGet (finishedRecord op text) (lit "status") = some (quoted (escaped (lit "finished"))) := by
    rw [hplain]
    exact hms.get _
  have hstatus : stringField (finishedRecord op text) (lit "status") rtSmall [] = lit "finished" :=
    OperationRecords.stringField_printed ⟨plain_nulFree (by decide), by decide⟩ hget []
  have hnull : finishedRecord op text ≠ [] ∧ finishedRecord op text ≠ lit "null" := by
    constructor
    · intro heq
      rw [heq] at hobj
      exact absurd hobj (by decide)
    · intro heq
      rw [heq] at hobj
      exact absurd hobj (by decide)
  have hread : attemptOf (finishedRecord op text) = some
      { handle := op.handle
        status := stringField (finishedRecord op text) (lit "status") rtSmall []
        workRev := (jsonRefObjectGetLong (finishedRecord op text) (lit "work_rev") 0).1
        excerpt := stringField (finishedRecord op text) (lit "result_excerpt") rtMed [] } := by
    rw [attemptOf, hfrom]
    simp only [Option.filter_some, hobj, decide_true, if_true, Option.bind_eq_bind, Option.bind_some, hhandle, guard]
    rw [if_pos hnull, if_pos hop.named]
    rfl
  refine ⟨_, hread, rfl, ?_⟩
  dsimp only
  rw [hstatus]

/-- The rows after a finish. -/
def Finish.after (f : Finish) : List TaskItem :=
  match f.result with
  | none => f.rows
  | some text => projectedRows f.rows f.op (lit "finished") text f.env

theorem rowOf_rev (rows : List TaskItem) (taskId : Bytes) : rtTaskWorkRevOf rows taskId = (rowOf rows taskId).map TaskItem.workRev := rfl

/-- The update is written where the operation may write and the update is carried. -/
theorem after_eq {f : Finish} (hop : OpNamed f.op) {t : TaskItem} (hrow : rowOf f.rows f.op.taskId = some t) {text : Bytes}
    (hresult : f.result = some text)
    (hallowed : currentOrOwn f.rows f.op.contextId f.op.taskId f.op.handle f.op.workRev = true) (hcarried : Carried f text) :
    f.after = withRecord f.rows f.op.taskId (finishedRecord f.op text) := by
  obtain ⟨hescapes, hprojects, hupdate, hrecord, hstore⟩ := hcarried
  have hne := (rowOf_id hrow).2
  rw [Finish.after, hresult]
  dsimp only
  rw [projectedRows, updateTaskExternal, hallowed, if_neg (by simp [hne]), externalPayload_eq, if_pos ⟨hescapes, hupdate⟩]
  dsimp only
  rw [if_neg (by simp [hprojects]), applyTaskEvent_finished hop.taskId hescapes.1 hrow, if_pos ⟨hrecord, hstore⟩]
  rfl

theorem after_same {f : Finish} (hop : OpNamed f.op) {t : TaskItem} (hrow : rowOf f.rows f.op.taskId = some t)
    (hnot : currentOrOwn f.rows f.op.contextId f.op.taskId f.op.handle f.op.workRev = true → ¬ ∃ text ∈ f.result, Carried f text) :
    f.after = f.rows := by
  rw [Finish.after]
  cases hresult : f.result with
  | none => rfl
  | some text =>
    dsimp only
    rw [projectedRows, updateTaskExternal]
    by_cases hallowed : currentOrOwn f.rows f.op.contextId f.op.taskId f.op.handle f.op.workRev = true
    case neg => simp [hallowed]
    have hne := (rowOf_id hrow).2
    rw [hallowed, if_neg (by simp [hne]), externalPayload_eq]
    by_cases hprinted : Escapes f.op text ∧ (finishedUpdate f.op text).length < rtLarge
    case neg => rw [if_neg hprinted]
    rw [if_pos hprinted]
    dsimp only
    by_cases hprojects : f.env.projects = true
    case neg => simp [hprojects]
    rw [if_neg (by simp [hprojects]), applyTaskEvent_finished hop.taskId hprinted.1.1 hrow, if_neg]
    · rfl
    · rintro ⟨hrecord, hstore⟩
      exact hnot hallowed ⟨text, hresult, hprinted.1, hprojects, hprinted.2, hrecord, hstore⟩

/-! ## Who may write -/

theorem attemptOf_some {external : Bytes} {a : Attempt} (h : attemptOf external = some a) :
    ∃ ext, jsonRefFromText external = some ext ∧ jsonRefInferType ext = .object ∧
      jsonRefObjectGetString ext (lit "handle") rtSmall = some a.handle := by
  simp only [attemptOf, Option.bind_eq_bind, Option.bind_eq_some_iff, Option.pure_def, Option.some.injEq] at h
  obtain ⟨-, -, ext, hext, handle, hhandle, -, -, rfl⟩ := h
  obtain ⟨hfrom, hobj⟩ := Option.filter_eq_some_iff.mp hext
  exact ⟨ext, hfrom, of_decide_eq_true hobj, hhandle⟩

theorem matches_iff {rows : List TaskItem} {t : TaskItem} {contextId taskId handle : Bytes} {workRev : Int}
    (hrow : rowOf rows taskId = some t) (hnamed : handle ≠ []) {a : Attempt} (ha : attemptOf t.external = some a) :
    taskExternalMatchesAttempt rows contextId taskId t.workRev handle workRev = true ↔
      rtTaskWorkBinding rows contextId taskId t.workRev true = true ∧ 0 < t.workRev ∧ 0 < workRev ∧ RecordedAt t.external workRev ∧
        a.handle = handle := by
  obtain ⟨ext, hfrom, hobj, hhandle⟩ := attemptOf_some ha
  have hget : ((taskIndexOf rows taskId).bind fun i => rows[i]?) = some t := hrow
  rw [taskExternalMatchesAttempt, hget, Option.any_some, hfrom, Option.any_some, hobj, hhandle]
  simp only [RecordedAt, hfrom, hnamed, Option.mem_def, Option.some.injEq, exists_eq_left', Bool.and_eq_true, decide_eq_true_eq,
    ne_eq, not_false_eq_true, decide_true, Bool.true_and]
  constructor
  · rintro ⟨⟨⟨hcurrent, hrev⟩, hbound⟩, hname, hrecorded⟩
    exact ⟨hbound, hcurrent, hrev, hrecorded, hname⟩
  · rintro ⟨hbound, hcurrent, hrev, hrecorded, hname⟩
    exact ⟨⟨⟨hcurrent, hrev⟩, hbound⟩, hname, hrecorded⟩

theorem currentOrOwn_iff {rows : List TaskItem} {t : TaskItem} {op : OperationItem} (hrow : rowOf rows op.taskId = some t) :
    currentOrOwn rows op.contextId op.taskId op.handle op.workRev = true ↔
      op.workRev ≤ 0 ∨ t.workRev = op.workRev ∨
        taskExternalMatchesAttempt rows op.contextId op.taskId t.workRev op.handle op.workRev = true := by
  rw [currentOrOwn, rowOf_rev, hrow]
  simp only [Option.map_some, Option.any_some, Bool.or_eq_true, decide_eq_true_eq]

/-- An operation of the task's revision writes, and the one of the record as long as the task is bound to it. -/
theorem allowed_of_mine {rows : List TaskItem} {t : TaskItem} {op : OperationItem} (hop : OpNamed op)
    (hrow : rowOf rows op.taskId = some t) (hmine : Mine t op) :
    currentOrOwn rows op.contextId op.taskId op.handle op.workRev = true ↔
      t.workRev = op.workRev ∨ op.workRev ≤ 0 ∨ StillBound rows t op := by
  rw [currentOrOwn_iff hrow]
  by_cases hcurrent : t.workRev = op.workRev
  · exact iff_of_true (.inr (.inl hcurrent)) (.inl hcurrent)
  · obtain ⟨a, ha, hname⟩ := hmine.resolve_left hcurrent
    rw [matches_iff hrow hop.named ha, StillBound]
    simp only [hcurrent, false_or, hname, and_true]

/-- An overtaken operation writes only without a revision of its own. -/
theorem allowed_of_overtaken {rows : List TaskItem} {t : TaskItem} {op : OperationItem} (hop : OpNamed op)
    (hrow : rowOf rows op.taskId = some t) (hlate : Overtaken t op) :
    currentOrOwn rows op.contextId op.taskId op.handle op.workRev = true ↔ op.workRev ≤ 0 := by
  obtain ⟨hlt, a, ha, hother, -⟩ := hlate
  rw [currentOrOwn_iff hrow, matches_iff hrow hop.named ha]
  constructor
  · rintro (hfree | hcurrent | ⟨-, -, -, -, hname⟩)
    · exact hfree
    · exact absurd hcurrent (Int.ne_of_gt hlt)
    · exact absurd hname hother
  · exact .inl

/-! ## One finish -/

theorem follows_iff {f : Finish} (hop : OpNamed f.op) : RecordFollows f f.after ↔ Meets f := by
  refine forall₂_congr fun t hrow => and_congr (forall_congr' fun hmine => ?_) (forall_congr' fun hlate => ?_)
  · by_cases hwritten : (t.workRev = f.op.workRev ∨ f.op.workRev ≤ 0 ∨ StillBound f.rows t f.op) ∧ ∃ text ∈ f.result, Carried f text
    · obtain ⟨hallowed, text, hresult, hcarried⟩ := hwritten
      refine iff_of_true ?_ (.inr ⟨hallowed, text, hresult, hcarried⟩)
      rw [after_eq hop hrow hresult ((allowed_of_mine hop hrow hmine).mpr hallowed) hcarried]
      exact ⟨_, rowOf_withRecord hrow _, finishedRecord_names hop hcarried.1.2.1⟩
    · have hsame : f.after = f.rows := after_same hop hrow fun hallowed hcarried =>
        hwritten ⟨(allowed_of_mine hop hrow hmine).mp hallowed, hcarried⟩
      rw [hsame, hrow]
      constructor
      · rintro ⟨t', ht', hnames⟩
        cases ht'
        exact .inl hnames
      · intro hnames
        exact ⟨t, rfl, hnames.resolve_right hwritten⟩
  · by_cases hwritten : f.op.workRev ≤ 0 ∧ ∃ text ∈ f.result, Carried f text
    · obtain ⟨hfree, text, hresult, hcarried⟩ := hwritten
      refine iff_of_false ?_ ?_
      · rw [after_eq hop hrow hresult ((allowed_of_overtaken hop hrow hlate).mpr hfree) hcarried, rowOf_withRecord hrow,
          Option.map_some, Option.some.injEq]
        dsimp only
        intro hkept
        obtain ⟨-, a, ha, hother, -⟩ := hlate
        have hnames : NamesFinished (finishedRecord f.op text) f.op.handle := finishedRecord_names hop hcarried.1.2.1
        obtain ⟨b, hb, hname, -⟩ := hnames
        rw [hkept, Option.mem_def.mp ha] at hb
        cases hb
        exact hother hname
      · rintro (hpos | hnone)
        · exact absurd hfree (Int.not_le.mpr hpos)
        · exact hnone ⟨text, hresult, hcarried⟩
    · have hsame : f.after = f.rows := after_same hop hrow fun hallowed hcarried =>
        hwritten ⟨(allowed_of_overtaken hop hrow hlate).mp hallowed, hcarried⟩
      rw [hsame, hrow]
      refine iff_of_true rfl ?_
      by_cases hpos : 0 < f.op.workRev
      · exact .inl hpos
      · exact .inr fun hcarried => hwritten ⟨Int.not_lt.mp hpos, hcarried⟩

/-! ## The ids a run keeps -/

structure Named (s : State) : Prop where
  rows : ∀ t ∈ s.rows, TextField rtSmall t.taskId
  ops : ∀ o ∈ s.ops, OpNamed o
  calls : ∀ c ∈ s.calls, TextField rtSmall c.taskId

theorem empty_named : Named State.empty := ⟨nofun, nofun, nofun⟩

theorem event_ids {rows : List TaskItem} (h : ∀ t ∈ rows, TextField rtSmall t.taskId) (type payloadJson : Bytes) :
    ∀ t ∈ (applyTaskEvent rows type payloadJson).getD rows, TextField rtSmall t.taskId := by
  cases happly : applyTaskEvent rows type payloadJson with
  | none => exact h
  | some rows' =>
    obtain ⟨payload, -, hchange⟩ := applyTaskEvent_change happly
    exact rowsChange_ids hchange h

theorem projectedRows_ids {rows : List TaskItem} (h : ∀ t ∈ rows, TextField rtSmall t.taskId) (op : OperationItem)
    (status excerpt : Bytes) (env : Env) : ∀ t ∈ projectedRows rows op status excerpt env, TextField rtSmall t.taskId := by
  rw [projectedRows]
  split
  · exact h
  · split
    · exact h
    · exact event_ids h _ _

/-- A change in place leaves the ids of an operation. -/
theorem opUpdate_named {opId : Bytes} {change : OperationItem → OperationItem}
    (hkeep : ∀ o, (change o).handle = o.handle ∧ (change o).taskId = o.taskId) {ops : OperationStore}
    (h : ∀ o ∈ ops, OpNamed o) : ∀ o ∈ opUpdate opId change ops, OpNamed o := by
  intro x hx
  rcases mem_opUpdate hx with hx | ⟨o, ho, -, rfl⟩
  · exact h x hx
  · obtain ⟨hhandle, htask⟩ := hkeep o
    have hold := h o ho
    exact ⟨hhandle ▸ hold.handle, hhandle ▸ hold.named, htask ▸ hold.taskId⟩

theorem finished_named {ops : OperationStore} (h : ∀ o ∈ ops, OpNamed o) (keep : Nat) (opId : Bytes) :
    ∀ o ∈ purgeFinishedOverCap keep (opUpdate opId finishItem ops), OpNamed o := by
  intro o ho
  have hkeep (o : OperationItem) : (finishItem o).handle = o.handle ∧ (finishItem o).taskId = o.taskId := ⟨rfl, rfl⟩
  exact opUpdate_named hkeep h o ((purge_sublist _ _).subset ho)

theorem applyStarted_new {keep : Nat} {ev : OperationStarted} {ops ops' : OperationStore}
    (h : applyStarted keep ev ops = .written ops') : ev.handle ≠ [] ∧ ∀ o ∈ ops', o ∈ ops ∨ o = startedItem ev := by
  rw [applyStarted] at h
  split at h
  · cases h
  · rename_i hnamed
    refine ⟨hnamed, fun o ho => ?_⟩
    split at h
    · split at h <;> cases h
    · split at h
      · cases h
      · cases h
        rcases List.mem_append.mp ((purge_sublist _ _).subset ho) with ho | ho
        · refine .inl ?_
          split at ho
          · exact (dropFinished_sublist 1 ops).subset ho
          · exact ho
        · exact .inr (List.mem_singleton.mp ho)

theorem mark_named {calls : List ManagedCall} (h : ∀ c ∈ calls, TextField rtSmall c.taskId) (requestId : Bytes) :
    ∀ c ∈ markAllocated requestId calls, TextField rtSmall c.taskId := by
  intro c' hc'
  obtain ⟨c, hc, heq, -⟩ := mem_markAllocated hc'
  rw [heq]
  exact h c hc

theorem addCall_named {s s' : State} {call : ManagedCall} (h : Named s) (hcall : TextField rtSmall call.taskId)
    (hadd : addCall s call = some s') : Named s' := by
  rw [addCall] at hadd
  split at hadd
  · cases hadd
  · cases hadd
    refine ⟨h.rows, h.ops, fun c hc => ?_⟩
    rcases List.mem_append.mp hc with hc | hc
    · exact h.calls c hc
    · exact List.mem_singleton.mp hc ▸ hcall

section Steps
variable {cfg : Config} {s : State}

theorem allocate_named (h : Named s) {call : ManagedCall} (hcall : TextField rtSmall call.taskId) (env : Env) :
    Named (allocateForCall cfg s call env) := by
  rw [allocateForCall]
  split
  · exact ⟨h.rows, h.ops, mark_named h.calls _⟩
  · split
    · exact h
    · split
      · rename_i ops hwritten
        obtain ⟨hnamed, hback⟩ := applyStarted_new hwritten
        refine ⟨h.rows, fun o ho => ?_, mark_named h.calls _⟩
        rcases hback o ho with ho | rfl
        · exact h.ops o ho
        · exact ⟨opIdOf_text call, hnamed, hcall⟩
      · exact h

theorem conclude_named (h : Named s) (opId status text : Bytes) (env : Env) : Named (conclude cfg s opId status text env) := by
  rcases conclude_cases cfg s opId status text env with ⟨heq, -⟩ | ⟨op, -, -, heq⟩
  · rw [heq]
    exact h
  · rw [heq]
    exact ⟨projectedRows_ids h.rows _ _ _ _, finished_named h.ops _ _, h.calls⟩

theorem close_named (h : Named s) (opId : Bytes) : Named (closeWithoutResult cfg s opId) := by
  rw [closeWithoutResult, rtOperationCloseWithoutResult]
  cases opFind s.ops opId with
  | none => exact h
  | some op =>
    by_cases hfinished : op.status = .finished
    · simp only [hfinished, if_true]
      exact h
    · simp only [hfinished, if_false]
      exact ⟨h.rows, finished_named h.ops _ _, h.calls⟩

theorem worker_named {ops : OperationStore} (h : ∀ o ∈ ops, OpNamed o) (opId workerHandle : Bytes) :
    ∀ o ∈ (match rtOperationSetWorkerHandle opId workerHandle ops with
      | .written ops' => ops'
      | _ => ops), OpNamed o := by
  rw [rtOperationSetWorkerHandle, writeRunning]
  cases opFind ops opId with
  | none => exact h
  | some op =>
    by_cases hfinished : op.status = .finished
    · simp only [hfinished, if_true]
      exact h
    · simp only [hfinished, if_false]
      have hkeep (o : OperationItem) : ({ o with workerHandle := workerHandle } : OperationItem).handle = o.handle ∧
          ({ o with workerHandle := workerHandle } : OperationItem).taskId = o.taskId := ⟨rfl, rfl⟩
      exact opUpdate_named hkeep h

theorem noteRunning_named (h : Named s) (opId workerHandle : Bytes) (env : Env) : Named (noteRunning s opId workerHandle env) := by
  have hops := worker_named h.ops opId workerHandle
  rw [noteRunning]
  split
  · exact ⟨h.rows, hops, h.calls⟩
  · rw [project_rows]
    exact ⟨projectedRows_ids h.rows _ _ _ _, hops, h.calls⟩

theorem beforeResult_named (h : Named s) {call : ManagedCall} (hcall : TextField rtSmall call.taskId) (env : Env) :
    Named (beforeResult cfg s call env) := by
  rw [beforeResult]
  split
  · exact allocate_named h hcall env
  · exact h

theorem react_named (h : Named s) {call : ManagedCall} (hcall : TextField rtSmall call.taskId) (env : Env) (reaction : Reaction) :
    Named (react cfg s call env reaction) := by
  cases reaction with
  | nothing => exact h
  | complains => exact h
  | closes => exact close_named h _
  | runs workerHandle => exact noteRunning_named h _ _ _
  | ends status text => exact conclude_named (beforeResult_named h hcall env) _ _ _ _

theorem onTerminal_named (h : Named s) {call : ManagedCall} (hcall : TextField rtSmall call.taskId) (t : Terminal) (env : Env) :
    Named (onTerminal cfg s call t env) := by
  have hreact : Named (react cfg s call env (reactionTo s call t)) := react_named h hcall env _
  exact ⟨hreact.rows, hreact.ops, fun c hc => hreact.calls c (List.mem_of_mem_filter hc)⟩

end Steps

theorem step_named {cfg : Config} {s s' : State} {i : Step} (h : Named s) (hstep : step cfg s i = some s') : Named s' := by
  cases i with
  | taskEvent type payloadJson =>
    cases hstep
    exact ⟨event_ids h.rows _ _, h.ops, h.calls⟩
  | phase contextId requestId =>
    rw [step] at hstep
    cases hphase : rtAgentWorkersRun cfg.handler cfg.stdoutCap s.rows contextId with
    | fails =>
      rw [hphase] at hstep
      exact Option.some.inj hstep ▸ h
    | idle stdout =>
      rw [hphase] at hstep
      exact Option.some.inj hstep ▸ h
    | starts taskId stdout =>
      rw [hphase] at hstep
      obtain ⟨t, ht, htid, -, -⟩ := phase_starts hphase
      exact addCall_named h (htid ▸ h.rows t ht) hstep
  | request call =>
    rw [step] at hstep
    split at hstep
    · cases hstep
    · rename_i hid
      simp only [isTaskId, Bool.not_eq_true, Bool.not_eq_false', Bool.and_eq_true, List.all_eq_true, decide_eq_true_eq, bne_iff_ne] at hid
      have hcall : TextField rtSmall ({ call with byPhase := false, allocated := false } : ManagedCall).taskId := ⟨hid.1, hid.2⟩
      exact addCall_named h hcall hstep
  | allocate requestId env =>
    obtain ⟨call, hcall, rfl⟩ := Option.map_eq_some_iff.mp hstep
    exact allocate_named h (h.calls call (findCall_some hcall).1) env
  | terminal requestId t env =>
    obtain ⟨call, hcall, rfl⟩ := Option.map_eq_some_iff.mp hstep
    exact onTerminal_named h (h.calls call (findCall_some hcall).1) t env
  | lost requestId =>
    obtain ⟨call, hcall, rfl⟩ := Option.map_eq_some_iff.mp hstep
    exact ⟨h.rows, h.ops, fun c hc => h.calls c (List.mem_of_mem_filter hc)⟩
  | recovered requestId env =>
    obtain ⟨call, hcall, rfl⟩ := Option.map_eq_some_iff.mp hstep
    exact onTerminal_named (close_named h _) (h.calls call (findCall_some hcall).1) _ env
  | claim opId status text env =>
    cases hstep
    exact conclude_named h _ _ _ _

/-! ## The finish of a step -/

/-- A finish is of a named operation, and these are the rows it leaves. -/
structure Leaves (f : Finish) (rows : List TaskItem) : Prop where
  named : OpNamed f.op
  rows : rows = f.after

section Finish
variable {cfg : Config} {s : State}

theorem unfinished_some {opId : Bytes} {op : OperationItem} (h : unfinished s opId = some op) :
    opFind s.ops opId = some op ∧ op.status ≠ .finished := by
  simpa [unfinished, Option.filter_eq_some_iff] using h

theorem concluded_leaves (h : Named s) {opId text : Bytes} {env : Env} {f : Finish} (hf : concluded s opId text env = some f)
    (status : Bytes) : Leaves f (conclude cfg s opId status text env).rows := by
  rw [concluded] at hf
  split at hf
  · rename_i hconcludes
    obtain ⟨op, hop, rfl⟩ := Option.map_eq_some_iff.mp hf
    obtain ⟨hfind, hrunning⟩ := unfinished_some hop
    refine ⟨h.ops op (opFind_mem hfind).1, ?_⟩
    rcases conclude_cases cfg s opId status text env with ⟨-, hdone⟩ | ⟨op', hfind', -, heq⟩
    · exact absurd (hdone hconcludes op hfind) hrunning
    · rw [hfind] at hfind'
      cases hfind'
      rw [heq]
      rfl
  · cases hf

theorem close_rows (opId : Bytes) : (closeWithoutResult cfg s opId).rows = s.rows := by
  rw [closeWithoutResult]
  split <;> rfl

theorem closing_leaves (h : Named s) {opId : Bytes} {env : Env} {f : Finish} (hf : closing s opId env = some f) : Leaves f s.rows := by
  obtain ⟨op, hop, rfl⟩ := Option.map_eq_some_iff.mp hf
  exact ⟨h.ops op (opFind_mem (unfinished_some hop).1).1, rfl⟩

theorem reacted_leaves (h : Named s) {call : ManagedCall} (hcall : TextField rtSmall call.taskId) {env : Env} {reaction : Reaction}
    {f : Finish} (hf : reacted cfg s call env reaction = some f) : Leaves f (react cfg s call env reaction).rows := by
  cases reaction with
  | nothing => cases hf
  | complains => cases hf
  | runs workerHandle => cases hf
  | closes =>
    rw [react, close_rows]
    exact closing_leaves h hf
  | ends status text => exact concluded_leaves (beforeResult_named h hcall env) hf status

theorem terminalFinish_leaves (h : Named s) {call : ManagedCall} (hcall : TextField rtSmall call.taskId) {t : Terminal} {env : Env}
    {x : Finish × List TaskItem} (hx : terminalFinish cfg s call t env = some x) : Leaves x.1 x.2 := by
  obtain ⟨f, hf, rfl⟩ := Option.map_eq_some_iff.mp hx
  exact reacted_leaves h hcall hf

theorem finishesOf_leaves (h : Named s) {i : Step} {x : Finish × List TaskItem} (hx : x ∈ finishesOf cfg s i) : Leaves x.1 x.2 := by
  cases i with
  | taskEvent type payloadJson => cases hx
  | phase contextId requestId => cases hx
  | request call => cases hx
  | allocate requestId env => cases hx
  | lost requestId => cases hx
  | terminal requestId t env =>
    obtain ⟨call, hcall, hx⟩ := Option.bind_eq_some_iff.mp (Option.mem_toList.mp hx)
    exact terminalFinish_leaves h (h.calls call (findCall_some hcall).1) hx
  | recovered requestId env =>
    rw [finishesOf] at hx
    cases hcall : findCall s requestId with
    | none =>
      rw [hcall] at hx
      cases hx
    | some call =>
      rw [hcall] at hx
      rcases List.mem_append.mp hx with hx | hx
      · obtain ⟨f, hf, rfl⟩ := Option.map_eq_some_iff.mp (Option.mem_toList.mp hx)
        rw [close_rows]
        exact closing_leaves h hf
      · exact terminalFinish_leaves (close_named h _) (h.calls call (findCall_some hcall).1) (Option.mem_toList.mp hx)
  | claim opId status text env =>
    obtain ⟨f, hf, rfl⟩ := Option.map_eq_some_iff.mp (Option.mem_toList.mp hx)
    exact concluded_leaves h hf status

theorem finishes_leave (h : Named s) {steps : List Step} {x : Finish × List TaskItem} (hx : x ∈ finishes cfg s steps) :
    Leaves x.1 x.2 := by
  induction steps generalizing s with
  | nil => cases hx
  | cons i steps ih =>
    rw [finishes] at hx
    cases hstep : step cfg s i with
    | none =>
      rw [hstep] at hx
      cases hx
    | some s' =>
      rw [hstep] at hx
      rcases List.mem_append.mp hx with hx | hx
      · exact finishesOf_leaves h hx
      · exact ih (step_named h hstep) hx

end Finish

/-- In every run, the record of a task follows a finish of its operation just where the finish meets the condition. -/
theorem record_follows_iff (cfg : Config) (steps : List Step) {f : Finish} {after : List TaskItem}
    (h : (f, after) ∈ finishes cfg State.empty steps) : RecordFollows f after ↔ Meets f := by
  obtain ⟨hnamed, hrows⟩ := finishes_leave empty_named h
  dsimp only at hnamed hrows
  rw [hrows]
  exact follows_iff hnamed

/-- A task is opened, a worker is called for it and answers. -/
def answeredSteps (text : Bytes) : List Step :=
  [openTask, .request ⟨lit "r1", lit "manage_codex", lit "t1", 0, [], false, false⟩, .allocate (lit "r1") durable,
    .claim (lit "op_r1") (lit "succeeded") text durable]

theorem record_follows_done : ∃ f after, (f, after) ∈ finishes codexConfig State.empty (answeredSteps (lit "done")) ∧
    f.op.handle = lit "op_r1" ∧ RecordFollows f after := by
  have hcheck : (finishes codexConfig State.empty (answeredSteps (lit "done"))).head?.map
      (fun x => (x.1.op.handle, decide (Meets x.1))) = some (lit "op_r1", true) := by
    unfold answeredSteps openTask
    repeat rw [lit_ofList]
    decide +kernel
  obtain ⟨⟨f, after⟩, hhead, hx⟩ := Option.map_eq_some_iff.mp hcheck
  have hmem := List.mem_of_head? hhead
  exact ⟨f, after, hmem, congrArg Prod.fst hx,
    (record_follows_iff codexConfig _ hmem).mpr (of_decide_eq_true (congrArg Prod.snd hx))⟩

/-- An answer of 171 escape characters is printed in six octets each, more than the buffer of the excerpt holds. -/
theorem colored_result_lost : ¬ ∀ (cfg : Config) (steps : List Step) (f : Finish) (after : List TaskItem),
    (f, after) ∈ finishes cfg State.empty steps → RecordFollows f after := by
  intro hall
  have hcheck : (finishes codexConfig State.empty (answeredSteps (List.replicate 171 0x1b))).head?.map
      (fun x => decide (RecordFollows x.1 x.2)) = some false := by
    unfold answeredSteps openTask
    repeat rw [lit_ofList]
    decide +kernel
  obtain ⟨⟨f, after⟩, hhead, hx⟩ := Option.map_eq_some_iff.mp hcheck
  exact of_decide_eq_false hx (hall codexConfig _ f after (List.mem_of_head? hhead))

end Floofclaw.Guarantees.RecordFinishes
