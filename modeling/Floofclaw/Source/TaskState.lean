import Floofclaw.Source.JsonFields

/-!
# The task store

Model of the durable task projection: the row readers of `task_json.c` and the
loader, writer and reducer of `task_state.c`. The store on disk is the text of
`tasks.json`, absent before the first write; every reducer call loads it,
changes the rows and writes the whole text again. A field is the C string in
its buffer. A row is built in a slot that may still hold the bytes of a row
that was evicted, so the constructor takes the slot's previous content.
Directory creation and the atomic replacement of the file succeed.
-/

set_option autoImplicit false

namespace Floofclaw.Source.TaskState
open Floofclaw.Lib Floofclaw.Source.Json

def taskMaxItems : Nat := 32
def taskInputMax : Nat := 4096
def taskWorkMax : Nat := 1024
def taskDoneMax : Nat := 512
def taskExternalMax : Nat := 3072
def taskArtifactsMax : Nat := 2048
def taskWorkingMemoryMax : Nat := 4096

structure TaskItem where
  taskId : Bytes
  contextId : Bytes
  kind : Bytes
  state : Bytes
  input : Bytes
  work : Bytes
  doneWhen : Bytes
  affairId : Bytes
  delegate : Bytes
  external : Bytes
  artifacts : Bytes
  workingMemory : Bytes
  createdEventId : Bytes
  createdMs : Int
  updatedMs : Int
  workRev : Int
  deriving DecidableEq

/-- A slot after `memset`. -/
def blankItem : TaskItem :=
  { taskId := [], contextId := [], kind := [], state := [], input := [], work := [], doneWhen := [],
    affairId := [], delegate := [], external := [], artifacts := [], workingMemory := [],
    createdEventId := [], createdMs := 0, updatedMs := 0, workRev := 0 }

/-! ## Row readers -/

def rtTaskJsonStatus (task : JsonRef) (outLen : Nat) : Option Bytes :=
  match (jsonRefObjectGetObject task (lit "state")).bind fun state =>
      jsonRefObjectGetString state (lit "status") outLen with
  | some out => some out
  | none => jsonRefObjectGetString task (lit "state") outLen

/-- `rt_task_json_state_string` for the keys other than `state` and `status`; a failed read empties
the buffer. -/
def rtTaskJsonStateString (task : JsonRef) (key : Bytes) (outLen : Nat) : Option Bytes :=
  match (jsonRefObjectGetObject task (lit "state")).bind fun state =>
      jsonRefObjectGetString state key outLen with
  | some out => some out
  | none => jsonRefObjectGetString task key outLen

def rtTaskJsonStateValue (task : JsonRef) (key : Bytes) : Option JsonRef :=
  match (jsonRefObjectGetObject task (lit "state")).bind fun state => jsonRefObjectGet state key with
  | some v => some v
  | none => jsonRefObjectGet task key

def rtTaskJsonStateArray (task : JsonRef) (key : Bytes) : Option JsonRef :=
  match (jsonRefObjectGetObject task (lit "state")).bind fun state => jsonRefObjectGetArray state key with
  | some v => some v
  | none => jsonRefObjectGetArray task key

def rtTaskJsonStateLong (task : JsonRef) (key : Bytes) (old : Int) : Int × Bool :=
  match jsonRefObjectGetObject task (lit "state") with
  | none => jsonRefObjectGetLong task key old
  | some state =>
    match jsonRefObjectGetLong state key old with
    | (n, true) => (n, true)
    | (n, false) => jsonRefObjectGetLong task key n

/-- `value_compact`: what the field holds afterwards, and the verdict. A value of 4096 octets or more
leaves the field alone; a compaction that does not fit leaves its unterminated prefix. -/
def valueCompact (v : JsonRef) (outLen : Nat) (old : Bytes) : Bytes × Bool :=
  match jsonRefValueCopy rtLarge v with
  | none => (old, false)
  | some raw =>
    match jsonCompactWrite outLen raw with
    | (out, true) => (out, true)
    | (out, false) => (overlay out old, false)

/-- A field that keeps what `value_compact` leaves, or a default when the member is absent. -/
def compactField (v : Option JsonRef) (outLen : Nat) (old dflt : Bytes) : Bytes :=
  match v with
  | none => dflt
  | some v => (valueCompact v outLen old).1

def taskStateOk (state : Bytes) : Bool :=
  [lit "open", lit "working", lit "blocked", lit "completed", lit "failed", lit "canceled"].contains state

def taskStateTerminal (state : Bytes) : Bool :=
  [lit "completed", lit "failed", lit "canceled"].contains state

def kindField (task : JsonRef) : Bytes :=
  match jsonRefObjectGetString task (lit "kind") rtSmall with
  | none | some [] => lit "work"
  | some kind => kind

/-! ## Loading -/

/-- The revision of a loaded row: a missing or non-positive one is derived from the work text. -/
def loadedRev (task : JsonRef) (work : Bytes) : Int :=
  match rtTaskJsonStateLong task (lit "work_rev") 0 with
  | (n, true) => if n ≤ 0 then (if work = [] then 0 else 1) else n
  | (_, false) => if work = [] then 0 else 1

/-- One entry of the `tasks` array; `none` skips it. -/
def loadItem (item : JsonRef) : Option TaskItem :=
  if jsonRefInferType item ≠ .object then none
  else
    match jsonRefObjectGetString item (lit "task_id") rtSmall,
        jsonRefObjectGetString item (lit "context_id") rtMed, rtTaskJsonStatus item rtSmall with
    | some taskId, some contextId, some state =>
      if taskStateOk state then
        let work := (rtTaskJsonStateString item (lit "work") taskWorkMax).getD []
        some
          { taskId := taskId
            contextId := contextId
            kind := kindField item
            state := state
            input := compactField (jsonRefObjectGet item (lit "input")) taskInputMax [] (lit "null")
            work := work
            doneWhen := (rtTaskJsonStateString item (lit "done_when") taskDoneMax).getD []
            affairId := (rtTaskJsonStateString item (lit "affair_id") rtSmall).getD []
            delegate := (rtTaskJsonStateString item (lit "delegate") rtSmall).getD []
            external := compactField (rtTaskJsonStateValue item (lit "external")) taskExternalMax [] (lit "null")
            artifacts := compactField (rtTaskJsonStateArray item (lit "artifacts")) taskArtifactsMax [] (lit "[]")
            workingMemory := (rtTaskJsonStateString item (lit "working_memory") taskWorkingMemoryMax).getD []
            createdEventId := stringField item (lit "created_event_id") rtSmall []
            createdMs := (jsonRefObjectGetLong item (lit "created_ms") 0).1
            updatedMs := (rtTaskJsonStateLong item (lit "updated_ms") 0).1
            workRev := loadedRev item work }
      else none
    | _, _, _ => none

/-- The entries of an array, in order. -/
def arrayEntries (arr : JsonRef) : List JsonRef :=
  (List.range (jsonRefArraySize arr)).filterMap fun i => jsonRefArrayGet arr i

/-- `load_store`: an absent or unreadable file is the empty store. -/
def loadStore (file : Option Bytes) : List TaskItem :=
  match file with
  | none => []
  | some text =>
    match (jsonRefTopObject text).bind fun root => jsonRefObjectGetArray root (lit "tasks") with
    | none => []
    | some tasks => ((arrayEntries tasks).filterMap loadItem).take taskMaxItems

/-! ## Writing -/

/-- A text field of the `state` object: quoted, or `null` when empty. -/
def proseField (field escapedField : Bytes) : Bytes := if field = [] then lit "null" else quoted escapedField

/-- A text member that is left out when empty. -/
def optionalMember (key field escapedField : Bytes) : List (Bytes × Bytes) :=
  if field = [] then [] else [(key, quoted escapedField)]

/-- A raw JSON field, with its default when empty. -/
def rawField (field dflt : Bytes) : Bytes := if field = [] then dflt else field

/-- The escaped mirrors of a row's text fields. -/
structure EscapedItem where
  tid : Bytes
  ctx : Bytes
  kind : Bytes
  state : Bytes
  work : Bytes
  done : Bytes
  workingMemory : Bytes
  affair : Bytes
  delegate : Bytes
  created : Bytes

def escapeItem (t : TaskItem) : Option EscapedItem := do
  let tid ← mirror rtMed t.taskId
  let ctx ← mirror rtMed t.contextId
  let kind ← mirror rtMed (if t.kind = [] then lit "work" else t.kind)
  let state ← mirror rtMed t.state
  let work ← mirror (taskWorkMax * 2) t.work
  let done ← mirror (taskDoneMax * 2) t.doneWhen
  let workingMemory ← mirror (taskWorkingMemoryMax * 2) t.workingMemory
  let affair ← mirror rtMed t.affairId
  let delegate ← mirror rtMed t.delegate
  let created ← mirror rtMed t.createdEventId
  return ⟨tid, ctx, kind, state, work, done, workingMemory, affair, delegate, created⟩

/-- The members of the `state` object in the row format. -/
def stateMembers (t : TaskItem) (e : EscapedItem) : List (Bytes × Bytes) :=
  [(lit "status", quoted e.state), (lit "work", proseField t.work e.work),
    (lit "done_when", proseField t.doneWhen e.done), (lit "work_rev", decInt t.workRev),
    (lit "working_memory", quoted e.workingMemory), (lit "artifacts", rawField t.artifacts (lit "[]"))] ++
  (optionalMember (lit "affair_id") t.affairId e.affair ++
    (optionalMember (lit "delegate") t.delegate e.delegate ++
      [(lit "external", rawField t.external (lit "null")), (lit "updated_ms", decInt t.updatedMs)]))

/-- The members of the row format. -/
def rowMembers (t : TaskItem) (e : EscapedItem) : List (Bytes × Bytes) :=
  [(lit "task_id", quoted e.tid), (lit "context_id", quoted e.ctx), (lit "kind", quoted e.kind),
    (lit "input", rawField t.input (lit "null")), (lit "created_event_id", quoted e.created),
    (lit "created_ms", decInt t.createdMs), (lit "state", objText (stateMembers t e))]

/-- The row text of `write_store`, without the separating comma. Its format has no white space, so it
is the object text of its members. -/
def itemText (t : TaskItem) (e : EscapedItem) : Bytes := objText (rowMembers t e)

def writeItems (first : Bool) : Bytes → List TaskItem → Option Bytes
  | out, [] => some out
  | out, t :: items =>
    match escapeItem t with
    | none => none
    | some e =>
      let item := (if first then [] else lit ",") ++ itemText t e
      if item.length ≥ rtXl then none
      else
        match rtAppendText rtXl out item with
        | none => none
        | some out => writeItems false out items

/-- `write_store`: the text it puts on disk. -/
def writeStore (items : List TaskItem) : Option Bytes :=
  (writeItems true (lit "\x7b\"tasks\":[") items).bind fun out => rtAppendText rtXl out (lit "]\x7d\n")

/-! ## Reducing -/

def taskIndexOf (items : List TaskItem) (taskId : Bytes) : Option Nat :=
  if taskId = [] then none else items.findIdx? fun t => t.taskId = taskId

/-- `append_artifacts`: the merged array, or the newest part when the merge does not fit. -/
def appendArtifacts (artifacts incoming : Bytes) : Option Bytes :=
  if incoming = [] ∨ incoming = lit "[]" then some artifacts
  else
    let cur := rawField artifacts (lit "[]")
    if cur = lit "[]" then some (clip taskArtifactsMax incoming)
    else if cur.length < 2 ∨ incoming.length < 2 ∨ cur.head? ≠ some (ch '[') ∨ cur.getLast? ≠ some (ch ']') ∨
        incoming.head? ≠ some (ch '[') ∨ incoming.getLast? ≠ some (ch ']') then none
    else if incoming.length = 2 then some artifacts
    else
      let merged := cur.dropLast ++ lit "," ++ incoming.tail
      if merged.length ≥ taskArtifactsMax then some (clip taskArtifactsMax incoming) else some merged

def taskEvictOldestTerminal (items : List TaskItem) : Option (List TaskItem) :=
  match items.findIdx? fun t => taskStateTerminal t.state with
  | none => none
  | some i => some (items.eraseIdx i)

/-- The `updated_ms` of the nested `state` object over a previous value. -/
def nestedUpdated (payload : JsonRef) (old : Int) : Int :=
  match jsonRefObjectGetObject payload (lit "state") with
  | none => old
  | some state => (jsonRefObjectGetLong state (lit "updated_ms") old).1

/-- `updated_ms` of a payload: the nested member, and the top-level one when that leaves zero. -/
def updatedMember (payload : JsonRef) (old : Int) : Int :=
  if nestedUpdated payload old = 0 then (jsonRefObjectGetLong payload (lit "updated_ms") (nestedUpdated payload old)).1
  else nestedUpdated payload old

/-- The `task_created` row, built in a slot that held `slot`. -/
def createItem (slot : TaskItem) (items : List TaskItem) (payload : JsonRef) : Option TaskItem :=
  match jsonRefObjectGetString payload (lit "task_id") rtSmall with
  | none => none
  | some taskId =>
    if (taskIndexOf items taskId).isSome then none
    else
      match jsonRefObjectGetString payload (lit "context_id") rtMed, rtTaskJsonStatus payload rtSmall with
      | some contextId, some state =>
        if taskStateOk state then
          let work := (rtTaskJsonStateString payload (lit "work") taskWorkMax).getD []
          some
            { taskId := taskId
              contextId := contextId
              kind := kindField payload
              state := state
              input := compactField (jsonRefObjectGet payload (lit "input")) taskInputMax slot.input (lit "null")
              work := work
              doneWhen := (rtTaskJsonStateString payload (lit "done_when") taskDoneMax).getD []
              affairId := (rtTaskJsonStateString payload (lit "affair_id") rtSmall).getD []
              delegate := (rtTaskJsonStateString payload (lit "delegate") rtSmall).getD []
              external := compactField (rtTaskJsonStateValue payload (lit "external")) taskExternalMax slot.external
                (lit "null")
              artifacts := compactField (rtTaskJsonStateArray payload (lit "artifacts")) taskArtifactsMax
                slot.artifacts (lit "[]")
              workingMemory := (rtTaskJsonStateString payload (lit "working_memory") taskWorkingMemoryMax).getD []
              createdEventId := stringField payload (lit "created_event_id") rtSmall slot.createdEventId
              createdMs := (jsonRefObjectGetLong payload (lit "created_ms") slot.createdMs).1
              updatedMs := updatedMember payload slot.updatedMs
              workRev := if work = [] then 0 else 1 }
        else none
      | _, _ => none

/-- The `task_created` branch: a full store gives up its oldest terminal row, whose place the slot of
the last row takes. -/
def reduceCreated (items : List TaskItem) (payload : JsonRef) : Option (List TaskItem) :=
  if taskMaxItems ≤ items.length then
    match taskEvictOldestTerminal items with
    | none => none
    | some kept => (createItem (items.getLastD blankItem) kept payload).map fun t => kept ++ [t]
  else (createItem blankItem items payload).map fun t => items ++ [t]

def stampUpdated (t : TaskItem) (updated : Int) : TaskItem :=
  if 0 < updated then { t with updatedMs := updated } else t

/-- The working memory with a text appended on a line of its own. -/
def appendMemory (memory incoming : Bytes) : Bytes :=
  if memory = [] then incoming else memory ++ lit "\n" ++ incoming

/-- `task_working_memory_appended`. -/
def reduceWorkingMemory (t : TaskItem) (payload : JsonRef) : Option TaskItem :=
  match jsonRefObjectGetString payload (lit "working_memory") taskWorkingMemoryMax with
  | none | some [] => none
  | some incoming =>
    if (appendMemory t.workingMemory incoming).length ≥ taskWorkingMemoryMax then none
    else
      let memory := appendMemory t.workingMemory incoming
      match jsonRefObjectGetLong payload (lit "updated_ms") 0 with
      | (updated, true) => some (stampUpdated { t with workingMemory := memory } updated)
      | (_, false) => some { t with workingMemory := memory }

/-- The binding check of `work_completed` and `work_blocked`. -/
def workTerminalMatches (t : TaskItem) (payload : JsonRef) (expected : Bytes) : Bool :=
  t.kind = lit "work" && (jsonRefObjectGetLong payload (lit "work_rev") 0 = (t.workRev, true)) &&
    jsonRefObjectGetString payload (lit "context_id") rtMed = some t.contextId &&
    rtTaskJsonStatus payload rtSmall = some expected

/-- A work text clipped into its field. -/
def proseUpdate (payload : JsonRef) (key : Bytes) (outLen : Nat) (old : Bytes) : Bytes :=
  match rtTaskJsonStateString payload key rtLarge with
  | none => old
  | some text => clip outLen text

def requestedState (payload : JsonRef) : Option Bytes :=
  (rtTaskJsonStatus payload rtSmall).filter fun s => !s.isEmpty

/-- The `task_updated` changes short of the artifacts. -/
def reduceUpdated (t : TaskItem) (payload : JsonRef) : Option TaskItem :=
  let hasWork := (rtTaskJsonStateString payload (lit "work") rtLarge).isSome
  let hasDone := (rtTaskJsonStateString payload (lit "done_when") rtLarge).isSome
  let requested := requestedState payload
  if t.kind = lit "work" ∧ t.state = lit "blocked" ∧
      (requested = some (lit "open") ∨ requested = some (lit "working")) ∧ !hasWork ∧ !hasDone then none
  else
    let t := { t with
      state := (requested.filter taskStateOk).getD t.state
      work := proseUpdate payload (lit "work") taskWorkMax t.work
      doneWhen := proseUpdate payload (lit "done_when") taskDoneMax t.doneWhen
      workRev := if hasWork || hasDone then max t.workRev 0 + 1 else t.workRev
      affairId := proseUpdate payload (lit "affair_id") rtSmall t.affairId
      delegate := proseUpdate payload (lit "delegate") rtSmall t.delegate }
    match rtTaskJsonStateValue payload (lit "external") with
    | none => some t
    | some v =>
      match valueCompact v taskExternalMax t.external with
      | (out, true) => some { t with external := out }
      | (_, false) => none

/-- The row after any event but `task_created` and the working-memory append, short of its artifacts. -/
def reduceState (t : TaskItem) (type : Bytes) (payload : JsonRef) : Option TaskItem :=
  if type = lit "task_updated" then reduceUpdated t payload
  else
    match rtTaskJsonStatus payload rtSmall with
    | none => none
    | some state => if taskStateOk state then some { t with state := state } else none

def reduceArtifacts (t : TaskItem) (payload : JsonRef) : Option TaskItem :=
  match rtTaskJsonStateArray payload (lit "artifacts") with
  | none => some t
  | some arts =>
    match valueCompact arts taskArtifactsMax [] with
    | (incoming, true) => (appendArtifacts t.artifacts incoming).map fun a => { t with artifacts := a }
    | (_, false) => none

/-- One row under an event that names it; `none` refuses the event. -/
def reduceItem (t : TaskItem) (type : Bytes) (payload : JsonRef) : Option TaskItem :=
  if type = lit "task_canceled" ∧
      (t.state ≠ lit "open" ∨ rtTaskJsonStatus payload rtSmall ≠ some (lit "canceled")) then none
  else if type = lit "task_working_memory_appended" then reduceWorkingMemory t payload
  else if type = lit "work_completed" ∧ !workTerminalMatches t payload (lit "completed") then none
  else if type = lit "work_blocked" ∧ !workTerminalMatches t payload (lit "blocked") then none
  else
    match reduceState (stampUpdated t (updatedMember payload 0)) type payload with
    | none => none
    | some t => reduceArtifacts t payload

/-- The reducer on the loaded rows; `none` is a return before `write_store`. -/
def reduceTasks (items : List TaskItem) (type : Bytes) (payload : JsonRef) : Option (List TaskItem) :=
  if type = lit "task_created" then reduceCreated items payload
  else
    match (jsonRefObjectGetString payload (lit "task_id") rtSmall).bind (taskIndexOf items) with
    | none => none
    | some idx =>
      match items[idx]? with
      | none => none
      | some t => (reduceItem t type payload).map fun t => items.set idx t

/-- The rows `rt_task_apply_event` hands to `write_store`. -/
def rowsToWrite (file : Option Bytes) (type payloadJson : Bytes) : Option (List TaskItem) :=
  if rtTaskIsEventType type then
    match jsonRefTopObject payloadJson with
    | none => none
    | some payload => reduceTasks (loadStore file) type payload
  else none

/-- `rt_task_apply_event`: the file afterwards and the verdict. -/
def rtTaskApplyEvent (file : Option Bytes) (type payloadJson : Bytes) : Option Bytes × Bool :=
  match (rowsToWrite file type payloadJson).bind writeStore with
  | none => (file, false)
  | some text => (some text, true)

/-- `rt_task_apply_event` over the rows of the store: those it leaves there, `none` where it fails. -/
def applyTaskEvent (rows : List TaskItem) (type payloadJson : Bytes) : Option (List TaskItem) :=
  if rtTaskIsEventType type then
    match jsonRefTopObject payloadJson with
    | none => none
    | some payload => (reduceTasks rows type payload).filter fun rows => (writeStore rows).isSome
  else none

/-- The rows are the ones whose text the file gets. -/
theorem rtTaskApplyEvent_rows (file : Option Bytes) (type payloadJson : Bytes) :
    rtTaskApplyEvent file type payloadJson =
      match applyTaskEvent (loadStore file) type payloadJson with
      | none => (file, false)
      | some rows => (writeStore rows, true) := by
  rw [rtTaskApplyEvent, rowsToWrite, applyTaskEvent]
  by_cases htype : rtTaskIsEventType type = true
  · rw [if_pos htype, if_pos htype]
    cases jsonRefTopObject payloadJson with
    | none => rfl
    | some payload =>
      dsimp only
      cases hrows : reduceTasks (loadStore file) type payload with
      | none => rfl
      | some rows =>
        cases htext : writeStore rows with
        | none => simp [Option.filter, htext]
        | some text => simp [Option.filter, htext]
  · rw [if_neg htype, if_neg htype]
    rfl

end Floofclaw.Source.TaskState
