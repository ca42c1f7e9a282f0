import Floofclaw.Guarantees.TaskRoundTrip
import Floofclaw.Guarantees.TaskStates
import Floofclaw.Source.WorkLedger

/-!
# What the reducers read of a produced payload

The payloads of the task events are JSON texts whatever the agent wrote, so the
reducers read exactly the members the producers put there: an update an agent
asked for bears no revision, one by the `work` intrinsic bears the next, and a
new task bears the first.
-/

set_option autoImplicit false

namespace Floofclaw.Guarantees.TaskPayloads
open Floofclaw.Lib Floofclaw.Source.Json Floofclaw.Source.EventLog Floofclaw.Source.TaskState
open Floofclaw.Source.TaskEvents Floofclaw.Source.WorkLedger
open Floofclaw.Guarantees.TaskRoundTrip Floofclaw.Guarantees.TaskStoreText Floofclaw.Guarantees.TaskStates

/-! ## Clean texts -/

theorem mirror_clean {cap : Nat} {s e : Bytes} (h : mirror cap s = some e) : CleanValue (quoted e) := by
  rw [mirror] at h
  split at h
  · rename_i out hout
    cases h
    rw [(jsonEscape_fits hout).1]
    exact .text _
  · cases h

theorem valueCopy_eq {cap : Nat} {v raw : Bytes} (h : jsonRefValueCopy cap v = some raw) : raw = v := by
  rw [jsonRefValueCopy] at h
  split at h
  · cases h
  · exact (Option.some.inj h).symm

/-! ## Artifacts -/

theorem plain_nulFree {s : Bytes} (h : s.all isPlain = true) : NulFree s :=
  fun c hc => isPlain_ne_zero (List.all_eq_true.mp h c hc)

/-! ## New tasks -/

/-- What a reader meets of a text a producer wrote. -/
theorem written_top {ms : List (Bytes × Bytes)} (h : WrittenMembers ms) : jsonRefTopObject (objText ms) = some (objText ms) :=
  jsonRefTopObject_complete h.objText (CleanValue.objText h).nulFree

theorem written_text {ms : List (Bytes × Bytes)} (h : WrittenMembers ms) {key s e : Bytes} {cap cap' : Nat} (hs : TextField cap s)
    (he : mirror cap' s = some e) (hget : assoc key ms = some (quoted e)) :
    jsonRefObjectGetString (objText ms) key cap = some s := by
  rw [jsonRefObjectGetString, h.get, hget, mirror_eq_some hs.nulFree he]
  exact hs.copy

theorem written_absent {ms : List (Bytes × Bytes)} (h : WrittenMembers ms) {key : Bytes} (hget : assoc key ms = none) (old : Int) :
    jsonRefObjectGetLong (objText ms) key old = (old, false) := by
  rw [jsonRefObjectGetLong, h.get, hget]

theorem written_long {ms : List (Bytes × Bytes)} (h : WrittenMembers ms) {key : Bytes} {z : Int}
    (hget : assoc key ms = some (decInt z)) (old : Int) :
    jsonRefObjectGetLong (objText ms) key old = jsonRefGetLong (decInt z) old := by
  rw [jsonRefObjectGetLong, h.get, hget]

end Floofclaw.Guarantees.TaskPayloads
