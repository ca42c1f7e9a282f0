import Floofclaw.Source.AffairState
import Floofclaw.Source.TaskEvents

/-!
# Where affair patches come from

Model of the normalizer of `affair_state.c` that rebuilds an `affair_patch` an
agent asked for before it is appended and reduced.
-/

set_option autoImplicit false

namespace Floofclaw.Source.AffairEvents
open Floofclaw.Lib Floofclaw.Source.Json Floofclaw.Source.AffairState
open Floofclaw.Source.TaskEvents (TaskOrigin contextFromCtx)

def rtAffairReferenceInContext (contextId affairId : Bytes) (st : AffairStore) : Bool :=
  contextId ≠ [] && affairId ≠ [] && st.any fun a => a.contextId = contextId && a.affairId = affairId

/-- What becomes of a patch: it is refused, asks for nothing, or has a payload. -/
inductive Normalized
  | refused
  | none
  | payload (text : Bytes)
  deriving DecidableEq

def affairIdText (o : TaskOrigin) (eventSeq : Nat) : Bytes :=
  clip rtSmall (lit "aff_" ++ o.runId ++ lit "_" ++ decPadded 6 eventSeq)

/-- A review time that is not negative is passed on. -/
def nextReviewMember (payload : JsonRef) : List (Bytes × Bytes) :=
  match jsonRefObjectGetLong payload (lit "next_review_at_ms") 0 with
  | (nra, true) => if 0 ≤ nra then [(lit "next_review_at_ms", decInt nra)] else []
  | (_, false) => []

/-- The payload as it is printed. -/
def patchMembers (ms : Int) (context affairId action : Bytes) (payload : JsonRef) : Option (List (Bytes × Bytes)) := do
  let eaction ← mirror rtMed action
  let emanage ← mirror (rtMed * 2) (stringField payload (lit "manage") rtMed [])
  let enote ← mirror (rtMed * 2) (stringField payload (lit "note_text") rtMed [])
  let status := (affairStatusCanonical (stringField payload (lit "status") rtSmall [])).getD .active
  let estatus ← mirror rtMed (statusText status)
  let eaffair ← mirror rtMed affairId
  let ectx ← mirror rtMed context
  return [(lit "action", quoted eaction), (lit "affair_id", quoted eaffair), (lit "context_id", quoted ectx),
    (lit "manage", quoted emanage), (lit "note_text", quoted enote), (lit "status", quoted estatus)] ++
    nextReviewMember payload ++ [(lit "created_ms", decInt ms), (lit "updated_ms", decInt ms)]

/-- The affair a patch is about: a new one for `create`, else one of the context that the store knows. -/
def patchAffair (o : TaskOrigin) (eventSeq : Nat) (st : AffairStore) (action : Bytes) (payload : JsonRef) : Option Bytes :=
  if action = lit "create" then
    if stringField payload (lit "manage") rtMed [] = [] then none else some (affairIdText o eventSeq)
  else (jsonRefObjectGetString payload (lit "affair_id") rtSmall).filter fun id =>
    rtAffairReferenceInContext (contextFromCtx o) id st

/-- `rt_affair_normalize_event`, at the time `ms` and on the store it loads, into a buffer of `outLen` octets. -/
def rtAffairNormalizeEvent (o : TaskOrigin) (ms : Int) (eventSeq outLen : Nat) (st : AffairStore) (payload : JsonRef) :
    Normalized :=
  if jsonRefInferType payload ≠ .object then .refused
  else match jsonRefObjectGetString payload (lit "action") rtSmall with
    | none => .refused
    | some action =>
      if action = lit "none" then .none
      else if ¬ (action = lit "create" ∨ action = lit "link" ∨ action = lit "update") then .refused
      else match (patchAffair o eventSeq st action payload).bind fun affairId =>
          (patchMembers ms (contextFromCtx o) affairId action payload).filter fun members => (objText members).length < outLen with
        | none => .refused
        | some members => .payload (objText members)

end Floofclaw.Source.AffairEvents
