import Floofclaw.Source.AffairState
import Floofclaw.Source.FileIntrinsics

/-!
# Actions on affairs

Model of `support/duration.c` and of the two actions of
`action_runtime_affair.c` that set a review time. What the run's log says of an
earlier attempt, the stable clock and whether the append works are inputs; a
product or a sum of C integers that does not fit wraps.
-/

set_option autoImplicit false

namespace Floofclaw.Source.AffairActions
open Floofclaw.Lib Floofclaw.Source.Json Floofclaw.Source.FileIntrinsics

/-! ## Durations -/

/-- What a `long long` makes of a result. -/
def wrapLong (z : Int) : Int := z.bmod (2 ^ 64)

/-- What the suffix multiplies the number with. -/
def unitMs (suffix : Bytes) : Option Nat :=
  if suffix = [] ∨ suffix = lit "ms" then some 1
  else if suffix = lit "s" then some 1000
  else if suffix = lit "m" ∨ suffix = lit "min" then some 60000
  else if suffix = lit "h" then some 3600000
  else if suffix = lit "d" then some 86400000
  else none

/-- What follows the sign `strtoll` takes. -/
def behindSign (s : Bytes) : Bytes :=
  match s with
  | [] => []
  | c :: t => if c = ch '-' ∨ c = ch '+' then t else s

def fcParseDurationMs (s : Bytes) : Option Int :=
  let text := behindSign (skipWs s)
  let digits := text.takeWhile isDigit
  let value : Int := decValue digits
  let n := (clampLong (if (skipWs s).head? = some (ch '-') then -value else value)).1
  if digits = [] ∨ n ≤ 0 then none
  else (unitMs (text.drop digits.length)).map fun (unit : Nat) => wrapLong (n * (unit : Int))

/-! ## The actions -/

/-- The fields of the run the actions read; each stands in an array of its own. -/
structure ReviewRun where
  runId : Bytes
  contextId : Bytes
  inboundAffairId : Bytes
  nextEvent : Nat
  runId_text : NulFree runId
  contextId_text : NulFree contextId
  inboundAffairId_text : NulFree inboundAffairId ∧ inboundAffairId.length < rtSmall

/-- `rt_action_committed_effect`: what the run's log has for the request. -/
inductive Committed
  | fresh
  | found (payload : Bytes)
  | unreadable

/-- The two buffers of an action, its verdict, and the `affair_patch` it appended. -/
structure Answer where
  ok : Bool
  result : Bytes
  error : Bytes
  event : Option Bytes

def refusal (message : Bytes) : Answer := ⟨false, lit "\x7b\x7d", messageText message, none⟩

/-- `rt_json_get_string` into a buffer whose verdict is not read. -/
def argText (args key : Bytes) (outLen : Nat) : Bytes :=
  match jsonRefFirstObject (if args = [] then lit "\x7b\x7d" else args) with
  | none => []
  | some root => stringField root key outLen []

/-- The time of the next review. -/
def nextReviewAt (nowMs inMs : Int) : Int := wrapLong (nowMs + inMs)

def deferMembers (eaff ectx erid : Bytes) (nextReviewAtMs : Int) : List (Bytes × Bytes) :=
  [(lit "action", quoted (lit "update")), (lit "affair_id", quoted eaff), (lit "context_id", quoted ectx),
    (lit "status", quoted (lit "active")), (lit "next_review_at_ms", decInt nextReviewAtMs), (lit "request_id", quoted erid)]

/-- The append of a payload that was printed into `RT_LARGE` octets. -/
def appendPatch (appends : Bytes → Bool) (members : List (Bytes × Bytes)) (result : Bytes) : Answer :=
  if (objText members).length < rtLarge ∧ appends (objText members) = true then
    ⟨true, result, lit "null", some (objText members)⟩
  else refusal (lit "failed to append affair_patch event")

def deferRecovered (payload : Bytes) : Answer :=
  match jsonRefFirstObject payload with
  | none => refusal (lit "defer committed effect is unreadable")
  | some prior =>
    match jsonRefObjectGetLong prior (lit "next_review_at_ms") 0 with
    | (priorMs, true) => ⟨true, objText [(lit "ok", lit "true"), (lit "next_review_at_ms", decInt priorMs), (lit "recovered", lit "true")], lit "null", none⟩
    | (_, false) => refusal (lit "defer committed effect is unreadable")

/-- `fc_defer` at the stable time `nowMs`. -/
def fcDefer (r : ReviewRun) (rid args : Bytes) (committed : Committed) (nowMs : Int) (appends : Bytes → Bool) : Answer :=
  if r.inboundAffairId = [] then refusal (lit "defer requires an active affair_review")
  else
    match fcParseDurationMs (argText args (lit "value") rtSmall) with
    | none => refusal (lit "defer.value must be a duration like \\\"1d\\\" or \\\"60s\\\"")
    | some deferMs =>
      match committed with
      | .found payload => deferRecovered payload
      | .unreadable => refusal (lit "defer could not read its own committed effect")
      | .fresh =>
        match mirror rtMed r.inboundAffairId, mirror rtMed r.contextId, mirror rtMed rid with
        | some eaff, some ectx, some erid =>
          appendPatch appends (deferMembers eaff ectx erid (nextReviewAt nowMs deferMs))
            (objText [(lit "ok", lit "true"), (lit "next_review_at_ms", decInt (nextReviewAt nowMs deferMs))])
        | _, _, _ => refusal (lit "defer json escape failed")

def openMembers (eaff ectx emanage erid : Bytes) (nextReviewAtMs : Int) : List (Bytes × Bytes) :=
  [(lit "action", quoted (lit "create")), (lit "affair_id", quoted eaff), (lit "context_id", quoted ectx),
    (lit "manage", quoted emanage), (lit "status", quoted (lit "active")),
    (lit "next_review_at_ms", decInt nextReviewAtMs), (lit "request_id", quoted erid)]

def openRecovered (payload : Bytes) : Answer :=
  match jsonRefFirstObject payload with
  | none => refusal (lit "affair_open committed effect is unreadable")
  | some prior =>
    match jsonRefObjectGetString prior (lit "affair_id") rtSmall with
    | none => refusal (lit "affair_open committed effect is unreadable")
    | some priorId =>
      ⟨true, objText [(lit "affair_id", quoted priorId), (lit "next_review_at_ms", decInt (jsonRefObjectGetLong prior (lit "next_review_at_ms") 0).1),
        (lit "recovered", lit "true")], lit "null", none⟩

/-- The id of an affair the run opens. -/
def openedId (r : ReviewRun) : Bytes :=
  clip rtSmall (lit "aff_" ++ (if r.runId = [] then lit "run" else r.runId) ++ lit "_" ++ decPadded 6 r.nextEvent)

/-- When the affair is to be reviewed; zero is never. -/
def reviewInMs (reviewIn : Bytes) (nowMs : Int) : Option Int :=
  if reviewIn = [] then some 0
  else
    match fcParseDurationMs reviewIn with
    | none => none
    | some inMs => if inMs ≤ 0 then none else some (nextReviewAt nowMs inMs)

/-- `fc_affair_open` at the stable time `nowMs`. -/
def fcAffairOpen (r : ReviewRun) (rid args : Bytes) (committed : Committed) (nowMs : Int) (appends : Bytes → Bool) : Answer :=
  match committed with
  | .found payload => openRecovered payload
  | .unreadable => refusal (lit "affair_open could not read its own committed effect")
  | .fresh =>
    let manage := argText args (lit "manage") rtMed
    if manage = [] then refusal (lit "args.manage must describe the concern to watch")
    else
      match reviewInMs (argText args (lit "review_in") rtSmall) nowMs with
      | none => refusal (lit "args.review_in must be a duration like \\\"1d\\\" or \\\"6h\\\"")
      | some nextReviewAtMs =>
        match mirror rtMed (openedId r), mirror (rtMed * 2) manage, mirror rtMed r.contextId, mirror rtMed rid with
        | some eaff, some emanage, some ectx, some erid =>
          appendPatch appends (openMembers eaff ectx emanage erid nextReviewAtMs)
            (objText [(lit "affair_id", quoted eaff), (lit "next_review_at_ms", decInt nextReviewAtMs)])
        | _, _, _, _ => refusal (lit "affair_open json escape failed")

end Floofclaw.Source.AffairActions
