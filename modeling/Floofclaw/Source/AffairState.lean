import Floofclaw.Lib.Calendar
import Floofclaw.Lib.Keyed
import Floofclaw.Source.StoreFile

/-!
# The affair store

Model of `affair_state.c`: the loader and the writer of `affairs.json`, the
reducer of the five affair events, the direct writes of the CLI and the reads
of the watcher. The arguments of a call are C strings, `now` is what
`timing_system_wall_ms` returns in it. An index into the store is the first
item that carries the id.
-/

set_option autoImplicit false

namespace Floofclaw.Source.AffairState
open Floofclaw.Lib Floofclaw.Source.Json Floofclaw.Source.StoreFile

def affairMaxItems : Nat := 32
def affairMaxNotes : Nat := 16
def affairMaxTaskIds : Nat := 16
def affairMaxCounters : Nat := 16
def counterNameMax : Nat := 32
def intMax : Int := 2147483647

structure AffairCounter where
  name : Bytes
  value : Int
  deriving DecidableEq

structure AffairNote where
  ts : Bytes
  text : Bytes
  deriving DecidableEq

inductive AffairStatus
  | active | paused | closed
  deriving DecidableEq, Repr

structure AffairItem where
  affairId : Bytes
  contextId : Bytes
  status : AffairStatus
  manage : Bytes
  nextReviewAtMs : Int
  taskIds : List Bytes
  notes : List AffairNote
  counters : List AffairCounter
  createdMs : Int
  updatedMs : Int
  deriving DecidableEq

abbrev AffairStore := List AffairItem

def statusText : AffairStatus → Bytes
  | .active => lit "active"
  | .paused => lit "paused"
  | .closed => lit "closed"

/-- `affair_status_canonical`: an empty text is an active one. -/
def affairStatusCanonical (s : Bytes) : Option AffairStatus :=
  if s = [] ∨ s = lit "active" then some .active
  else if s = lit "paused" then some .paused
  else if s = lit "closed" then some .closed
  else none

/-- `iso_ts_for_ms` in a buffer that holds every date of a `long long`. -/
def isoTsForMs (ms : Int) : Bytes :=
  let secs := ms.tdiv 1000
  let day := (secs % 86400).toNat
  dateText (civilOfDays (secs / 86400)) ++ lit "T" ++ decPadded 2 (day / 3600) ++ lit ":" ++
    decPadded 2 (day / 60 % 60) ++ lit ":" ++ decPadded 2 (day % 60) ++ lit "Z"

/-! ## Loading -/

def loadTaskId (t : JsonRef) : Option Bytes :=
  if jsonRefInferType t ≠ .string then none
  else (jsonRefStringCopy rtSmall t).filter fun s => !s.isEmpty

def loadNote (n : JsonRef) : Option AffairNote :=
  if jsonRefInferType n ≠ .object then none
  else match jsonRefObjectGetString n (lit "text") rtMed with
    | none | some [] => none
    | some text => some { ts := stringField n (lit "ts") rtSmall [], text := text }

def counterFind (cs : List AffairCounter) (name : Bytes) : Option AffairCounter := cs.find? fun c => c.name = name

/-- One turn of the counter loop: a repeated name is skipped, and nothing is added to a full array. -/
def loadCounter (cs : List AffairCounter) (c : JsonRef) : List AffairCounter :=
  if cs.length ≥ affairMaxCounters ∨ jsonRefInferType c ≠ .object then cs
  else match jsonRefObjectGetString c (lit "name") counterNameMax, jsonRefObjectGetLong c (lit "value") 0 with
    | none, _ | some [], _ | some _, (_, false) => cs
    | some name, (value, true) => if (counterFind cs name).isSome then cs else cs ++ [{ name, value }]

/-- The entries of an array member; a missing one has none. -/
def memberEntries (item : JsonRef) (key : Bytes) : List JsonRef :=
  match jsonRefObjectGetArray item key with
  | none => []
  | some arr => TaskState.arrayEntries arr

/-- One entry of the `affairs` array; `none` skips it. -/
def loadItem (item : JsonRef) : Option AffairItem :=
  if jsonRefInferType item ≠ .object then none
  else match jsonRefObjectGetString item (lit "affair_id") rtSmall, jsonRefObjectGetString item (lit "context_id") rtMed,
      jsonRefObjectGetString item (lit "manage") rtMed with
    | some affairId, some contextId, some manage =>
      if manage = [] then none
      else some
        { affairId, contextId, manage
          status := (affairStatusCanonical (stringField item (lit "status") rtSmall [])).getD .active
          nextReviewAtMs := (jsonRefObjectGetLong item (lit "next_review_at_ms") 0).1
          taskIds := ((memberEntries item (lit "task_ids")).filterMap loadTaskId).take affairMaxTaskIds
          notes := ((memberEntries item (lit "notes")).filterMap loadNote).take affairMaxNotes
          counters := (memberEntries item (lit "counters")).foldl loadCounter []
          createdMs := (jsonRefObjectGetLong item (lit "created_ms") 0).1
          updatedMs := (jsonRefObjectGetLong item (lit "updated_ms") 0).1 }
    | _, _, _ => none

/-- `load_store` on the text that was read. -/
def loadStore (text : Option Bytes) : AffairStore :=
  ((storeRows (lit "affairs") text).filterMap loadItem).take affairMaxItems

/-! ## Writing -/

section Arrays
variable {β : Type}

/-- The elements of an array, each printed into a buffer of `cap` octets with the comma before it. -/
def arrayItems (cap : Nat) (text : β → Option Bytes) : Bool → List β → Option (List Bytes)
  | _, [] => some []
  | first, x :: xs => do
    let e ← text x
    guard ((separator first ++ e).length < cap)
    let rest ← arrayItems cap text false xs
    return (separator first ++ e) :: rest

def arrayPieces (cap : Nat) (text : β → Option Bytes) (xs : List β) : Option (List Bytes) :=
  (arrayItems cap text true xs).map fun items => lit "[" :: (items ++ [lit "]"])

end Arrays

def noteText (n : AffairNote) : Option Bytes := do
  let ets ← mirror rtMed n.ts
  let etext ← mirror (rtMed * 2) n.text
  return objText [(lit "ts", quoted ets), (lit "text", quoted etext)]

def taskIdText (taskId : Bytes) : Option Bytes := (mirror rtMed taskId).map quoted

def counterText (c : AffairCounter) : Option Bytes :=
  (mirror (counterNameMax * 6 + 1) c.name).map fun ename =>
    objText [(lit "name", quoted ename), (lit "value", decInt c.value)]

/-- One affair, piece by piece as it is appended. -/
def row (first : Bool) (a : AffairItem) : Option (List Bytes) := do
  let eid ← mirror rtMed a.affairId
  let ectx ← mirror rtMed a.contextId
  let emanage ← mirror (rtMed * 2) a.manage
  let estatus ← mirror rtMed (statusText a.status)
  let head := separator first ++ lit "\x7b\"affair_id\":\"" ++ eid ++ lit "\",\"context_id\":\"" ++ ectx ++
    lit "\",\"status\":\"" ++ estatus ++ lit "\",\"manage\":\"" ++ emanage ++ lit "\",\"next_review_at_ms\":" ++
    decInt a.nextReviewAtMs ++ lit ",\"task_ids\":"
  guard (head.length < rtXl)
  let taskIds ← arrayPieces (rtMed + 8) taskIdText a.taskIds
  let notes ← arrayPieces (rtMed * 4) noteText a.notes
  let counters ← arrayPieces 256 counterText a.counters
  let tail := lit ",\"created_ms\":" ++ decInt a.createdMs ++ lit ",\"updated_ms\":" ++ decInt a.updatedMs ++ lit "\x7d"
  guard (tail.length < rtMed)
  return [head] ++ taskIds ++ [lit ",\"notes\":"] ++ notes ++ [lit ",\"counters\":"] ++ counters ++ [tail]

def writeStore (st : AffairStore) : Option Bytes := StoreFile.writeStore (rtXl * 4) (lit "\x7b\"affairs\":[") row st

/-! ## Items -/

def hasId (id : Bytes) (a : AffairItem) : Bool := a.affairId = id

/-- `index_of`: an empty id is nobody's. -/
def affairFind (st : AffairStore) (id : Bytes) : Option AffairItem := if id = [] then none else st.find? (hasId id)

/-- The item at the index of the id, changed in place. -/
def affairUpdate (id : Bytes) (f : AffairItem → AffairItem) (st : AffairStore) : AffairStore := modifyFirst (hasId id) f st

/-- Room for one more at the end of a full array is made at its front. -/
def pushBounded {β : Type} (cap : Nat) (xs : List β) (x : β) : List β :=
  (if xs.length ≥ cap then (xs.drop 1).take (cap - 1) else xs) ++ [x]

def noteAppend (now ms : Int) (text : Bytes) (a : AffairItem) : AffairItem :=
  if text = [] then a
  else { a with notes := pushBounded affairMaxNotes a.notes
                  { ts := isoTsForMs (if ms ≠ 0 then ms else now), text := clip rtMed text } }

local instance bytesLawful : LawfulBEq Bytes := inferInstance

def taskIdLink (taskId : Bytes) (a : AffairItem) : AffairItem :=
  if taskId = [] ∨ taskId ∈ a.taskIds then a
  else { a with taskIds := pushBounded affairMaxTaskIds a.taskIds taskId }

inductive CounterOp
  | delta (d : Int)
  | set (v : Int)
  deriving DecidableEq

/-- The new value, unless a delta leaves the range. -/
def CounterOp.apply (value : Int) : CounterOp → Option Int
  | .delta d =>
    if (0 < d ∧ value > int64Max - d) ∨ (d < 0 ∧ value < int64Min - d) then none else some (value + d)
  | .set v => some v

def counterBump (name : Bytes) (op : CounterOp) (cs : List AffairCounter) : Option (List AffairCounter) :=
  match counterFind cs name with
  | some c => (op.apply c.value).map fun value => modifyFirst (fun c => c.name = name) (fun c => { c with value }) cs
  | none =>
    if cs.length ≥ affairMaxCounters then none else (op.apply 0).map fun value => cs ++ [{ name, value }]

/-! ## Events -/

def rtAffairIsEventType (type : Bytes) : Bool :=
  [lit "affair_patch", lit "affair_note_added", lit "affair_counter_bumped", lit "affair_task_linked",
    lit "affair_reviewed"].contains type

/-- What `apply_affair_patch` reads. -/
structure AffairPatch where
  action : Bytes
  affairId : Bytes
  contextId : Bytes
  manage : Bytes
  noteText : Bytes
  status : AffairStatus
  createdMs : Int
  updatedMs : Int
  nextReviewAtMs : Option Int

def patchOf (now : Int) (payload : JsonRef) : Option AffairPatch := do
  let action ← jsonRefObjectGetString payload (lit "action") rtSmall
  let affairId ← jsonRefObjectGetString payload (lit "affair_id") rtSmall
  let contextId ← jsonRefObjectGetString payload (lit "context_id") rtMed
  let updated := (jsonRefObjectGetLong payload (lit "updated_ms") 0).1
  return { action, affairId, contextId
           manage := stringField payload (lit "manage") rtMed []
           noteText := stringField payload (lit "note_text") rtMed []
           status := (affairStatusCanonical (stringField payload (lit "status") rtSmall [])).getD .active
           createdMs := (jsonRefObjectGetLong payload (lit "created_ms") 0).1
           updatedMs := if updated = 0 then now else updated
           nextReviewAtMs := match jsonRefObjectGetLong payload (lit "next_review_at_ms") 0 with
             | (nra, true) => some nra
             | (_, false) => none }

def createdItem (now : Int) (p : AffairPatch) : AffairItem :=
  noteAppend now p.updatedMs p.noteText
    { affairId := p.affairId, contextId := p.contextId, manage := p.manage, status := p.status
      createdMs := if p.createdMs ≠ 0 then p.createdMs else p.updatedMs, updatedMs := p.updatedMs
      nextReviewAtMs := match p.nextReviewAtMs with
        | some nra => if 0 < nra then nra else 0
        | none => 0
      taskIds := [], notes := [], counters := [] }

/-- The item an `update` leaves; any other action only touches the time. -/
def patchedItem (now : Int) (p : AffairPatch) (a : AffairItem) : AffairItem :=
  let a := if p.action = lit "update" then
      let a := if p.manage = [] then a else { a with manage := p.manage }
      let a := noteAppend now p.updatedMs p.noteText a
      { a with status := p.status, nextReviewAtMs := match p.nextReviewAtMs with
        | some nra => if 0 ≤ nra then nra else a.nextReviewAtMs
        | none => a.nextReviewAtMs }
    else a
  { a with updatedMs := p.updatedMs }

def applyAffairPatch (now : Int) (p : AffairPatch) (st : AffairStore) : Option AffairStore :=
  if p.action = lit "create" then
    if st.length ≥ affairMaxItems ∨ p.manage = [] ∨ (affairFind st p.affairId).isSome then none
    else some (createdItem now p :: st)
  else match affairFind st p.affairId with
    | none => none
    | some a =>
      if a.contextId ≠ p.contextId then none
      -- the changed item moves to the front
      else some (patchedItem now p a :: st.eraseP (hasId p.affairId))

/-- The shape the other four events share: the named affair is changed in place. -/
def changeAffair (id : Bytes) (f : AffairItem → Option AffairItem) (st : AffairStore) : Option AffairStore :=
  match affairFind st id with
  | none => none
  | some a => (f a).map fun a' => affairUpdate id (fun _ => a') st

def applyNoteAdded (now : Int) (payload : JsonRef) (st : AffairStore) : Option AffairStore := do
  let affairId ← jsonRefObjectGetString payload (lit "affair_id") rtSmall
  let text ← jsonRefObjectGetString payload (lit "text") rtLarge
  guard (text ≠ [])
  let ms := (jsonRefObjectGetLong payload (lit "ts_ms") 0).1
  changeAffair affairId (fun a => some { noteAppend now ms text a with updatedMs := if ms ≠ 0 then ms else now }) st

/-- The operation a counter event asks for: exactly one of `delta` and `set`, and an integer. -/
def counterOpOf (payload : JsonRef) : Option CounterOp :=
  match jsonRefObjectGet payload (lit "delta"), jsonRefObjectGet payload (lit "set") with
  | some _, none =>
    match jsonRefObjectGetLong payload (lit "delta") 0 with
    | (raw, true) => some (.delta raw)
    | (_, false) => none
  | none, some _ =>
    match jsonRefObjectGetLong payload (lit "set") 0 with
    | (raw, true) => some (.set raw)
    | (_, false) => none
  | _, _ => none

def applyCounterBump (now : Int) (payload : JsonRef) (st : AffairStore) : Option AffairStore := do
  let affairId ← jsonRefObjectGetString payload (lit "affair_id") rtSmall
  let name ← jsonRefObjectGetString payload (lit "name") counterNameMax
  guard (name ≠ [])
  let op ← counterOpOf payload
  changeAffair affairId
    (fun a => (counterBump name op a.counters).map fun counters => { a with counters, updatedMs := now }) st

def applyTaskLinked (now : Int) (payload : JsonRef) (st : AffairStore) : Option AffairStore := do
  let affairId ← jsonRefObjectGetString payload (lit "affair_id") rtSmall
  let taskId ← jsonRefObjectGetString payload (lit "task_id") rtSmall
  guard (taskId ≠ [])
  changeAffair affairId (fun a => some { taskIdLink taskId a with updatedMs := now }) st

def applyReviewed (now : Int) (payload : JsonRef) (st : AffairStore) : Option AffairStore := do
  let affairId ← jsonRefObjectGetString payload (lit "affair_id") rtSmall
  let ms := (jsonRefObjectGetLong payload (lit "ms") 0).1
  changeAffair affairId (fun a => some { a with nextReviewAtMs := 0, updatedMs := if ms ≠ 0 then ms else now }) st

def rtAffairApplyEvent (now : Int) (type payloadJson : Bytes) (st : AffairStore) : Option AffairStore :=
  if !rtAffairIsEventType type then none
  else match jsonRefTopObject payloadJson with
    | none => none
    | some payload =>
      if type = lit "affair_patch" then (patchOf now payload).bind fun p => applyAffairPatch now p st
      else if type = lit "affair_note_added" then applyNoteAdded now payload st
      else if type = lit "affair_counter_bumped" then applyCounterBump now payload st
      else if type = lit "affair_task_linked" then applyTaskLinked now payload st
      else applyReviewed now payload st

/-! ## Direct writes -/

/-- The number `sscanf` reads after `aff_cli_`, clamped as `strtol` does and cut to an `int`. -/
def scanInt (s : Bytes) : Option Int :=
  let s := skipWs s
  let unsigned := if s.head? = some (ch '+') then s.drop 1 else (signSplit s).2
  let digits := unsigned.takeWhile isDigit
  if digits = [] then none
  else
    let n : Int := decValue digits
    some ((clampLong (if (signSplit s).1 then -n else n)).1.bmod (2 ^ 32))

/-- The sequence number of a CLI affair, as an `int` that wraps. -/
def cliSeq (st : AffairStore) : Int :=
  st.foldl (fun seq a =>
    if (lit "aff_cli_").isPrefixOf a.affairId then
      match scanInt (a.affairId.drop 8) with
      | some n => if seq ≤ n then (n + 1).bmod (2 ^ 32) else seq
      | none => seq
    else seq) 1

/-- `%06d`. -/
def sixDigits (n : Int) : Bytes := if 0 ≤ n then decPadded 6 n.toNat else lit "-" ++ decPadded 5 n.natAbs

def cliId (st : AffairStore) : Bytes := lit "aff_cli_" ++ sixDigits (cliSeq st)

def rtAffairCreateManual (now : Int) (contextId manage : Bytes) (initialNextReviewAtMs : Int) (st : AffairStore) :
    Option AffairStore :=
  if contextId = [] ∨ manage = [] ∨ st.length ≥ affairMaxItems then none
  else some
    ({ affairId := cliId st, contextId := clip rtMed contextId, manage := clip rtMed manage, status := .active
       createdMs := now, updatedMs := now, taskIds := [], notes := [], counters := []
       nextReviewAtMs := if 0 < initialNextReviewAtMs then initialNextReviewAtMs else 0 } :: st)

def rtAffairSetStatus (now : Int) (affairId status : Bytes) (st : AffairStore) : Option AffairStore :=
  (affairStatusCanonical status).bind fun canon =>
    changeAffair affairId (fun a => some { a with status := canon, updatedMs := now }) st

def rtAffairSetNextReviewAt (now : Int) (affairId : Bytes) (nextReviewAtMs : Int) (st : AffairStore) :
    Option AffairStore :=
  if nextReviewAtMs < 0 then none
  else changeAffair affairId (fun a => some { a with nextReviewAtMs, updatedMs := now }) st

/-! ## Calls -/

inductive Call
  | applyEvent (type payloadJson : Bytes)
  | createManual (contextId manage : Bytes) (initialNextReviewAtMs : Int)
  | setStatus (affairId status : Bytes)
  | setNextReviewAt (affairId : Bytes) (nextReviewAtMs : Int)
  deriving DecidableEq

/-- What a call makes of the store it loaded. -/
def reduce (now : Int) (st : AffairStore) : Call → Option AffairStore
  | .applyEvent type payloadJson => rtAffairApplyEvent now (cstr type) payloadJson st
  | .createManual contextId manage initial => rtAffairCreateManual now (cstr contextId) (cstr manage) initial st
  | .setStatus affairId status => rtAffairSetStatus now (cstr affairId) (cstr status) st
  | .setNextReviewAt affairId next => rtAffairSetNextReviewAt now (cstr affairId) next st

/-- One call on the file: what it leaves there, and its verdict. -/
def call (now : Int) (io : FileIo) (c : Call) (file : Option Bytes) : Option Bytes × Bool :=
  match (reduce now (loadStore (fsReadText io file)) c).bind writeStore with
  | none => (file, false)
  | some text => if io.writable then (some text, true) else (file, false)

/-! ## The watcher's reads -/

/-- `rt_affair_list_due`: the ids of at most `max` due affairs. -/
def rtAffairListDue (now : Int) (max : Nat) (st : AffairStore) : List Bytes :=
  ((st.filter fun a => a.status = .active && a.nextReviewAtMs ≠ 0 && a.nextReviewAtMs ≤ now).take max).map (·.affairId)

def rtAffairContextIdOf (affairId : Bytes) (st : AffairStore) : Option Bytes := (affairFind st affairId).map (·.contextId)

def rtAffairGetManage (affairId : Bytes) (st : AffairStore) : Option Bytes := (affairFind st affairId).map (·.manage)

end Floofclaw.Source.AffairState
