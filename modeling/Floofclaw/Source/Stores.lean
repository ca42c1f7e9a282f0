import Floofclaw.Source.AffairState
import Floofclaw.Source.OperationStore

/-!
# The reducers on their state files

`rt_task_apply_event`, the affair calls and the operation calls share one
shape: the state file is read and loaded, the call reduces the store, and a
store it changed replaces the file. A loader that finds no file, no readable
file or no array under its key reports success with an empty store.
-/

set_option autoImplicit false

namespace Floofclaw.Source.Stores
open Floofclaw.Lib Floofclaw.Source.Json
open Floofclaw.Source.StoreFile (FileIo fsReadText storeArray)

inductive Mutation
  /-- `rt_task_apply_event` -/
  | task (type payloadJson : Bytes)
  /-- a mutator of `affair_state.c`, at the time it reads -/
  | affair (now : Int) (c : AffairState.Call)
  /-- a mutator of `operation_state.c`, under the configuration it reads -/
  | operation (config : Option Bytes) (c : OperationStore.Call)

/-- The key of the array in the state file of the store. -/
def Mutation.key : Mutation → Bytes
  | .task _ _ => lit "tasks"
  | .affair _ _ => lit "affairs"
  | .operation _ _ => lit "operations"

/-- `rt_task_apply_event` on the file. -/
def taskCall (io : FileIo) (type payloadJson : Bytes) (file : Option Bytes) : Option Bytes × Bool :=
  match (TaskState.applyTaskEvent (TaskState.loadStore (fsReadText io file)) type payloadJson).bind
      TaskState.writeStore with
  | none => (file, false)
  | some text => if io.writable then (some text, true) else (file, false)

/-- A mutation on its state file: what it leaves there, and whether it reports success. -/
def mutate (io : FileIo) : Mutation → Option Bytes → Option Bytes × Bool
  | .task type payloadJson, file => taskCall io type payloadJson file
  | .affair now c, file => AffairState.call now io c file
  | .operation config c, file => OperationStore.call config io c file

/-- The file is there, but it cannot be read or holds no array under the key. -/
def damaged (m : Mutation) (io : FileIo) (file : Option Bytes) : Bool :=
  file.isSome && (storeArray m.key (fsReadText io file)).isNone

end Floofclaw.Source.Stores
