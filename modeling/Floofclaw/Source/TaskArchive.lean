import Floofclaw.Source.TaskProjection

/-!
# The task archive

Model of `task_archive.c`. A pass appends a line for each completed task of the
context and then replaces the store by one text with the other tasks. What a
failure or a crash leaves of it is `Cut`: some of the lines, a part of the next
one, and the store as it was.
-/

set_option autoImplicit false

namespace Floofclaw.Source.TaskArchive
open Floofclaw.Lib Floofclaw.Source.Json Floofclaw.Source.TaskState Floofclaw.Source.TaskProjection
open Floofclaw.Source.AgentExec (objectItems)
open Floofclaw.Source.StoreFile (appendPieces separator)

/-! ## A line -/

/-- The members a line writes itself. -/
def ownKeys : List Bytes := [lit "state", lit "final_state", lit "archived_ms"]

/-- `rt_task_json_append_pair`: the member it appends. -/
def appendPair (x : Bytes × JsonRef) : Option (Bytes × Bytes) :=
  (mirror rtMed x.1).bind fun ekey => (copyCompact rtXl x.2).map fun v => (ekey, v)

/-- A text of the task; a read that fails leaves the empty text. -/
def textField (task : JsonRef) (key : Bytes) (outLen : Nat) : Bytes := (rtTaskJsonStateString task key outLen).getD []

/-- The artifacts, compacted; without an array there are none. -/
def artifactsField (task : JsonRef) : Option Bytes :=
  match rtTaskJsonStateArray task (lit "artifacts") with
  | none => some (lit "[]")
  | some array => copyCompact rtLarge array

def lineState (work ework done edone ememory artifacts : Bytes) (ms : Int) : List (Bytes × Bytes) :=
  [(lit "status", quoted (lit "archived")), (lit "work", proseField work ework), (lit "done_when", proseField done edone),
    (lit "working_memory", quoted ememory), (lit "artifacts", artifacts), (lit "updated_ms", decInt ms)]

def lineTail (state : List (Bytes × Bytes)) (ms : Int) : List (Bytes × Bytes) :=
  [(lit "state", objText state), (lit "final_state", quoted (lit "completed")), (lit "archived_ms", decInt ms)]

/-- `archive_line_for_task`. Every append checks its room, so it is checked for the whole line. -/
def archiveLineForTask (task : JsonRef) (ms : Int) : Option Bytes := do
  let pairs ← ((objectItems task).filter fun x => !ownKeys.contains x.1).mapM appendPair
  let artifacts ← artifactsField task
  let work := textField task (lit "work") rtLarge
  let done := textField task (lit "done_when") rtLarge
  let ework ← mirror rtXl work
  let edone ← mirror rtXl done
  let ememory ← mirror rtXl (textField task (lit "working_memory") taskWorkingMemoryMax)
  let line := objText (pairs ++ lineTail (lineState work ework done edone ememory artifacts ms) ms) ++ lit "\n"
  if line.length ≥ rtXl then none else some line

/-! ## A pass -/

/-- The tasks that leave the store. -/
def archivable (contextId : Bytes) (task : JsonRef) : Bool :=
  textField task (lit "context_id") rtMed = contextId && (rtTaskJsonState task rtSmall).getD [] = lit "completed"

/-- The loop over the entries: the lines it appends, and the text for the store where it gets to its end. -/
def archiveLoop (contextId : Bytes) (ms : Int) : Bool → Bytes → List JsonRef → List Bytes × Option Bytes
  | _, out, [] => ([], rtAppendText rtXl out (lit "]\x7d\n"))
  | first, out, task :: tasks =>
    if jsonRefInferType task ≠ .object then archiveLoop contextId ms first out tasks
    else if archivable contextId task then
      match archiveLineForTask task ms with
      | none => ([], none)
      | some line => (line :: (archiveLoop contextId ms first out tasks).1, (archiveLoop contextId ms first out tasks).2)
    else
      match (copyCompact rtXl task).bind fun compact => appendPieces rtXl out [separator first, compact] with
      | none => ([], none)
      | some out => archiveLoop contextId ms false out tasks

/-- The entries of a store text, where it can be read. -/
def storedEntries (text : Option Bytes) : Option (List JsonRef) :=
  ((jsonRefFromText (rtTasksStateJson rtXl text)).bind fun root => jsonRefObjectGetArray root (lit "tasks")).map arrayEntries

/-- What `rt_tasks_archive_completed_for_context` does to the files when nothing fails. -/
def archiveEffects (contextId : Bytes) (ms : Int) (text : Option Bytes) : List Bytes × Option Bytes :=
  if contextId = [] then ([], none)
  else
    match storedEntries text with
    | none => ([], none)
    | some tasks => archiveLoop contextId ms true (lit "\x7b\"tasks\":[") tasks

/-! ## The files -/

/-- The text of the task store and of the archive. -/
structure Disk where
  store : Option Bytes
  archive : Bytes

/-- Where a pass ends too early: behind some lines and so many octets of the next. -/
structure Cut where
  lines : Nat
  octets : Nat

structure Pass where
  contextId : Bytes
  ms : Int
  cut : Option Cut

/-- What is appended to the archive. -/
def appended (lines : List Bytes) : Option Cut → Bytes
  | none => lines.flatten
  | some cut => (lines.take cut.lines).flatten ++ (lines.getD cut.lines []).take cut.octets

/-- `rt_tasks_archive_completed_for_context`. -/
def archivePass (disk : Disk) (pass : Pass) : Disk :=
  let effects := archiveEffects pass.contextId pass.ms disk.store
  { store := if pass.cut.isNone then effects.2 <|> disk.store else disk.store
    archive := disk.archive ++ appended effects.1 pass.cut }

end Floofclaw.Source.TaskArchive
