import Floofclaw.Source.JsonFields

/-!
# The event log and agent output

Model of the append path and the agent-output gate of `event_log.c`. File
appends succeed here and no replay is running. The subsystem
normalizers and reducers are fields of `Kernel`: every result below holds for
whatever they compute. Timestamps and the rejected-events side file are left
out, since no later step reads them.
-/

set_option autoImplicit false

namespace Floofclaw.Source.EventLog
open Floofclaw.Lib Floofclaw.Source.Json

/-- One committed line: identity, type, source and payload text. -/
structure Event where
  eventId : Bytes
  type : Bytes
  source : Bytes
  payload : Bytes
  deriving DecidableEq

/-- The run context as the append path sees it. `stores` is everything the reducers and
normalizers read or write: the durable stores and the projected context fields. -/
structure RtContext (σ : Type) where
  runId : Bytes
  contextId : Bytes
  inboundAffairId : Bytes
  nextEvent : Nat
  log : List Event
  stores : σ

/-- Which loop of the agent-output gate asks. -/
inductive Pass
  | validate | append
  deriving DecidableEq

/-- The consequence `rt_task_select_work_consequence` selects. -/
structure WorkConsequence where
  taskId : Bytes
  workRev : Int
  triggerEventId : Bytes

/-- The subsystems behind the append path. `wallMs` is the clock at each event of each loop. -/
structure Kernel (σ : Type) where
  applyToContext : Bytes → Bytes → σ → σ
  memoryApply : RtContext σ → Bytes → Bytes → σ × Bool
  memoryApplyControl : Bytes → Bytes → σ → σ × Bool
  taskApplyEvent : Bytes → Bytes → σ → σ × Bool
  affairApplyEvent : Bytes → Bytes → σ → σ × Bool
  operationApplyEvent : Bytes → Bytes → σ → σ × Bool
  workStateApplyEvent : RtContext σ → Bytes → Bytes → Bytes → σ × Bool
  taskNormalizeEvent : Option (RtContext σ) → Bytes → JsonRef → Nat → Nat → σ → Option Bytes
  affairNormalizeEvent : RtContext σ → JsonRef → Nat → Nat → Int → Int × Bytes
  taskReferenceExists : σ → Bytes → Bool
  taskReferenceInContext : σ → Bytes → Bytes → Bool
  taskReferenceIsReadyForContext : σ → Bytes → Bytes → Bool
  taskWorkBinding : σ → Bytes → Bytes → Int → Bool → Bool
  taskSelectWorkConsequence : RtContext σ → Option WorkConsequence
  wallMs : Pass → Nat → Int

/-! ## Event types -/

def rtMemoryIsRecordType (type : Bytes) : Bool :=
  [lit "user", lit "asst", lit "fact", lit "summ"].contains type

def rtMemoryIsControlType (type : Bytes) : Bool := type == lit "memory_compacted"

def rtAffairIsEventType (type : Bytes) : Bool :=
  [lit "affair_patch", lit "affair_note_added", lit "affair_counter_bumped", lit "affair_task_linked",
    lit "affair_reviewed"].contains type

def rtOperationIsEventType (type : Bytes) : Bool :=
  [lit "operation_started", lit "operation_result"].contains type

def rtWorkStateIsEventType (type : Bytes) : Bool :=
  [lit "task_created", lit "task_updated", lit "action_request", lit "action_started",
    lit "action_succeeded", lit "action_failed", lit "action_rejected", lit "operation_started",
    lit "operation_result", lit "work_completed", lit "work_blocked"].contains type

def safeEventType (type : Bytes) : Bool :=
  !type.isEmpty && type.all fun c =>
    (97 ≤ c && c ≤ 122) || (65 ≤ c && c ≤ 90) || (48 ≤ c && c ≤ 57) || c = ch '_'

/-- The lifecycle types only the kernel writes. -/
def kernelOnlyType (type : Bytes) : Bool :=
  [lit "action_started", lit "action_rejected", lit "action_succeeded", lit "action_failed",
    lit "action_result", lit "run_started", lit "run_done", lit "run_failed", lit "run_canceled",
    lit "tasks_patch"].contains type

/-! ## Appending -/

section Append
variable {σ : Type}

def eventIdText (runId : Bytes) (seq : Nat) : Bytes :=
  lit "evt_" ++ runId ++ lit "_" ++ decPadded 6 seq

def rtNextEventId (ctx : RtContext σ) (outLen : Nat) : Option Bytes :=
  if ctx.runId = [] ∨ ctx.nextEvent = 0 then none
  else
    let id := eventIdText ctx.runId ctx.nextEvent
    if id.length ≥ outLen then none else some id

/-- The line is committed and the counter moves on. -/
def commitLine (ctx : RtContext σ) (eventId type source body : Bytes) : RtContext σ :=
  { ctx with
    nextEvent := ctx.nextEvent + 1
    log := ctx.log ++ [{ eventId := eventId, type := type, source := source, payload := body }] }

/-- A nested `error` event: no reducer owns the type, so only the line is written. -/
def appendReducerError (ctx : RtContext σ) (message type body : Bytes) : RtContext σ :=
  match rtNextEventId ctx rtSmall with
  | none => ctx
  | some eventId =>
    commitLine ctx eventId (lit "error") (lit "kernel")
      (clip rtLarge (lit "\x7b\"message\":\"" ++ message ++ lit "\",\"type\":\"" ++ type ++
        lit "\",\"payload\":" ++ body ++ lit "\x7d"))

/-- The reducer that owns the type, with the message its failure is reported under. -/
def subsystemReducer (K : Kernel σ) (ctx : RtContext σ) (type body : Bytes) : Option (Bytes × (σ × Bool)) :=
  if rtMemoryIsRecordType type then some (lit "memory record missing text", K.memoryApply ctx type body)
  else if rtMemoryIsControlType type then
    some (lit "memory control event failed reducer", K.memoryApplyControl type body ctx.stores)
  else if rtTaskIsEventType type then
    some (lit "task event failed reducer", K.taskApplyEvent type body ctx.stores)
  else if rtAffairIsEventType type then
    some (lit "affair event failed reducer", K.affairApplyEvent type body ctx.stores)
  else if rtOperationIsEventType type then
    some (lit "operation event failed reducer", K.operationApplyEvent type body ctx.stores)
  else none

def reduceSubsystem (K : Kernel σ) (ctx : RtContext σ) (type body : Bytes) : RtContext σ :=
  match subsystemReducer K ctx type body with
  | none => ctx
  | some (message, stores, ok) =>
    if ok then { ctx with stores := stores }
    else appendReducerError { ctx with stores := stores } message type body

def reduceWorkState (K : Kernel σ) (ctx : RtContext σ) (type body eventId : Bytes) : RtContext σ × Bool :=
  if rtWorkStateIsEventType type then
    match K.workStateApplyEvent ctx type body eventId with
    | (stores, true) => ({ ctx with stores := stores }, true)
    | (stores, false) =>
      (appendReducerError { ctx with stores := stores } (lit "work-step event failed reducer") type body, false)
  else (ctx, true)

/-- What follows a committed line: the context projection, then the owning reducers. -/
def reduceEvent (K : Kernel σ) (ctx : RtContext σ) (type body eventId : Bytes) : RtContext σ × Bool :=
  let ctx := { ctx with stores := K.applyToContext type body ctx.stores }
  reduceWorkState K (reduceSubsystem K ctx type body) type body eventId

/-- `rt_append_event` and `rt_append_event_sync`, which differ only in when the file is flushed:
the context after the call, and its verdict. -/
def rtAppendEvent (K : Kernel σ) (ctx : RtContext σ) (type source body : Bytes) : RtContext σ × Bool :=
  match rtNextEventId ctx rtSmall with
  | none => (ctx, false)
  | some eventId => reduceEvent K (commitLine ctx eventId type source body) type body eventId

end Append

/-! ## The agent-output gate -/

def keyIsRuntimeOwned (key : Bytes) : Bool :=
  [lit "event_id", lit "ts", lit "run_id", lit "request_id", lit "job_id", lit "source",
    lit "created_by"].contains key

/-- `while (json_ref_object_iter(..) == 1) if (stop(key)) return 1; return 0`, from a cursor on. -/
def iterFinds (keyOutLen : Nat) (stop : Bytes → Bool) (obj : JsonRef) : Nat → Nat → Bool
  | 0, _ => false
  | n + 1, cursor =>
    match jsonRefObjectIter keyOutLen obj cursor with
    | .item key _ => if stop key then true else iterFinds keyOutLen stop obj n (cursor + 1)
    | _ => false

def eventHasOnlyIntentKeys (ev : JsonRef) : Bool :=
  !iterFinds rtSmall (fun key => key ≠ lit "type" && key ≠ lit "payload") ev ev.length 0

def payloadHasRuntimeOwnedKey (payload : JsonRef) : Bool :=
  jsonRefInferType payload = .object && iterFinds rtSmall keyIsRuntimeOwned payload payload.length 0

section Gate
variable {σ : Type}

def actionTaskReferenceOk (K : Kernel σ) (ctx : RtContext σ) (action taskId : Bytes) (workRev : Int) : Bool :=
  if taskId = [] then decide (workRev ≤ 0)
  else if workRev ≤ 0 ∧ (lit "action:cli:").isPrefixOf ctx.contextId then
    K.taskReferenceExists ctx.stores taskId
  else if 0 < workRev then K.taskWorkBinding ctx.stores ctx.contextId taskId workRev false
  else if action = lit "message" then K.taskReferenceInContext ctx.stores ctx.contextId taskId
  else if action = lit "work" then
    K.taskWorkBinding ctx.stores ctx.contextId taskId 0 true ||
      K.taskReferenceIsReadyForContext ctx.stores ctx.contextId taskId
  else K.taskReferenceIsReadyForContext ctx.stores ctx.contextId taskId

/-- `action_work_rev`: absent, malformed, or a positive revision. -/
inductive WorkRev
  | absent | malformed | rev (n : Int)

def actionWorkRev (payload : JsonRef) : WorkRev :=
  match jsonRefObjectGet payload (lit "work_rev") with
  | none => .absent
  | some v =>
    match jsonRefGetLong v 0 with
    | (n, true) => if 0 < n then .rev n else .malformed
    | (_, false) => .malformed

def WorkRev.value : WorkRev → Int
  | .rev n => n
  | _ => 0

/-- The task reference of an action request: absent, refused, or an id the stores know. -/
def actionTaskId (K : Kernel σ) (ctx : RtContext σ) (payload : JsonRef) (action : Bytes) (workRev : Int) :
    Option (Option Bytes) :=
  match jsonRefObjectGet payload (lit "task_id") with
  | none => some none
  | some v =>
    match jsonRefStringCopy rtSmall v with
    | none => none
    | some id => if actionTaskReferenceOk K ctx action id workRev then some (some id) else none

/-- The clause a revision-bound request carries; `none` refuses the request. -/
def workClause (K : Kernel σ) (ctx : RtContext σ) (payload : JsonRef) (action taskId : Bytes)
    (workRev : Int) : Option Bytes :=
  if taskId = [] ∨ actionTaskReferenceOk K ctx action taskId workRev = false then none
  else
    match jsonRefObjectGetString payload (lit "trigger_event_id") rtSmall with
    | none | some [] => some (clip rtLarge (lit ",\"work_rev\":" ++ decInt workRev))
    | some trigger =>
      match K.taskSelectWorkConsequence ctx with
      | none => none
      | some sel =>
        if sel.taskId = taskId ∧ sel.workRev = workRev ∧ sel.triggerEventId = trigger then
          match jsonEscape rtLarge ctx.contextId, jsonEscape rtMed trigger with
          | (ectx, true), (etrigger, true) =>
            some (clip rtLarge (lit ",\"work_rev\":" ++ decInt workRev ++ lit ",\"context_id\":\"" ++ ectx ++
              lit "\",\"trigger_event_id\":\"" ++ etrigger ++ lit "\""))
          | _, _ => none
        else none

/-- The arguments of a request, compacted; an absent member is the empty object. -/
def actionArgs (payload : JsonRef) : Option Bytes :=
  match jsonRefObjectGet payload (lit "args") with
  | none => some (lit "\x7b\x7d")
  | some v => if jsonRefInferType v = .object then jsonCompact (v.length + 1) v else none

def normalizeActionRequest (K : Kernel σ) (ctx : RtContext σ) (payload : JsonRef) (seq outLen : Nat) :
    Option Bytes :=
  if jsonRefInferType payload ≠ .object ∨ payloadHasRuntimeOwnedKey payload then none
  else
    match jsonRefObjectGetString payload (lit "action") rtSmall with
    | none | some [] => none
    | some action =>
      match actionWorkRev payload with
      | .malformed => none
      | rev =>
        match actionTaskId K ctx payload action rev.value with
        | none => none
        | some taskId? =>
          let taskId := taskId?.getD []
          let clause : Option Bytes :=
            match rev with
            | .rev n => workClause K ctx payload action taskId n
            | _ => some []
          match jsonEscape rtMed taskId, clause, actionArgs payload,
              jsonEscape rtMed (clip rtSmall (lit "actionreq_" ++ ctx.runId ++ lit "_" ++ decPadded 6 seq)),
              jsonEscape rtMed action with
          | (etask, true), some clause, some args, (erid, true), (eaction, true) =>
            let task := if taskId = [] then [] else lit ",\"task_id\":\"" ++ etask ++ lit "\""
            let out := lit "\x7b\"request_id\":\"" ++ erid ++ lit "\",\"action\":\"" ++ eaction ++
              lit "\",\"args\":" ++ args ++ task ++ clause ++ lit "\x7d"
            if out.length ≥ outLen then none else some out
          | _, _, _, _, _ => none

def normalizeGenericPayload (ev : JsonRef) (outLen : Nat) : Option Bytes :=
  match jsonRefObjectGetObject ev (lit "payload") with
  | none => some (clip outLen (lit "\x7b\x7d"))
  | some payload =>
    if payloadHasRuntimeOwnedKey payload then none
    else
      match jsonRefValueCopy rtLarge payload with
      | none => none
      | some raw => jsonCompact outLen raw

/-- The `action_request` branch of `validate_agent_event`. -/
def validateActionRequest (K : Kernel σ) (ctx : RtContext σ) (payload : JsonRef) : Bool :=
  if payloadHasRuntimeOwnedKey payload then false
  else
    match jsonRefObjectGetString payload (lit "action") rtSmall with
    | none | some [] => false
    | some action =>
      if (jsonRefObjectGet payload (lit "args")).any fun v => jsonRefInferType v ≠ .object then false
      else
        match actionWorkRev payload with
        | .malformed => false
        | rev =>
          match actionTaskId K ctx payload action rev.value with
          | none => false
          | some none => match rev with
            | .rev _ => false
            | _ => true
          | some (some _) => true

def validateAgentEvent (K : Kernel σ) (ctx : RtContext σ) (index : Nat) (ev : JsonRef) : Bool :=
  if jsonRefInferType ev ≠ .object || !eventHasOnlyIntentKeys ev then false
  else
    match jsonRefObjectGetString ev (lit "type") rtSmall with
    | none => false
    | some type =>
      let payload? := jsonRefObjectGetObject ev (lit "payload")
      if !safeEventType type || kernelOnlyType type then false
      else if type = lit "action_request" then
        match payload? with
        | none => false
        | some payload => validateActionRequest K ctx payload
      else if rtTaskIsEventType type then
        match payload? with
        | none => false
        | some payload =>
          !payloadHasRuntimeOwnedKey payload &&
            (K.taskNormalizeEvent none type payload 1 rtLarge ctx.stores).isSome
      else if rtAffairIsEventType type then
        match payload? with
        | none => false
        | some payload =>
          !payloadHasRuntimeOwnedKey payload &&
            (type ≠ lit "affair_patch" ||
              (K.affairNormalizeEvent ctx payload 1 rtLarge (K.wallMs .validate index)).1 = 0)
      else
        match payload? with
        | none => true
        | some payload => !payloadHasRuntimeOwnedKey payload

/-- What the second loop makes of one event before it appends. -/
inductive Prepared
  | refused
  | skipped
  | ready (type payload : Bytes)

def Prepared.ofPayload (type : Bytes) : Option Bytes → Prepared
  | none => .refused
  | some payload => .ready type payload

/-- The normalization of the second loop, against the context its predecessors left. -/
def prepareEvent (K : Kernel σ) (ctx : RtContext σ) (index : Nat) (ev : JsonRef) : Prepared :=
  let type := (jsonRefObjectGetString ev (lit "type") rtSmall).getD []
  let payload? := jsonRefObjectGetObject ev (lit "payload")
  if type = lit "action_request" then
    match payload? with
    | none => .refused
    | some payload => .ofPayload type (normalizeActionRequest K ctx payload ctx.nextEvent rtXl)
  else if rtTaskIsEventType type then
    match payload? with
    | none => .refused
    | some payload =>
      .ofPayload type (K.taskNormalizeEvent (some ctx) type payload ctx.nextEvent rtXl ctx.stores)
  else if rtAffairIsEventType type then
    match payload? with
    | none => .refused
    | some payload =>
      if type = lit "affair_patch" then
        match K.affairNormalizeEvent ctx payload ctx.nextEvent rtXl (K.wallMs .append index) with
        | (ar, out) => if 0 < ar then .skipped else if ar ≠ 0 then .refused else .ready type out
      else .ofPayload type (normalizeGenericPayload ev rtXl)
  else .ofPayload type (normalizeGenericPayload ev rtXl)

def committedOpening : Bytes := lit "\x7b\"events\":["

/-- `append_committed`: the mirror of the committed events handed back to the caller. -/
def appendCommitted (outLen : Nat) (out : Bytes) (ctx : RtContext σ) (type source : Bytes) (seq : Nat)
    (payload : Bytes) : Option Bytes :=
  if outLen = 0 then some out
  else
    match jsonEscape rtMed type, jsonEscape rtMed source, jsonEscape rtMed ctx.runId with
    | (etype, true), (esource, true), (erun, true) =>
      let item := (if committedOpening.length < out.length then lit "," else []) ++
        lit "\x7b\"event_id\":\"" ++ clip rtMed (eventIdText ctx.runId seq) ++ lit "\",\"type\":\"" ++ etype ++
        lit "\",\"source\":\"" ++ esource ++ lit "\",\"run_id\":\"" ++ erun ++ lit "\",\"payload\":" ++ payload ++
        lit "\x7d"
      if item.length ≥ rtXl * 2 then none else rtAppendText outLen out item
    | _, _, _ => none

/-- The affair watcher: a work task created by an affair review is linked back. -/
def linkAffairTask (K : Kernel σ) (ctx : RtContext σ) (type payload : Bytes) (seq : Nat) : RtContext σ :=
  if type = lit "task_created" ∧ ctx.inboundAffairId ≠ [] then
    let kind := ((jsonRefFirstObject payload).bind fun obj =>
      jsonRefObjectGetString obj (lit "kind") rtSmall).getD []
    if kind = lit "work" then
      let newTask := clip rtSmall (lit "task_" ++ ctx.runId ++ lit "_" ++ decPadded 6 seq)
      match jsonEscape rtMed ctx.inboundAffairId, jsonEscape rtMed newTask with
      | (eaff, true), (etask, true) =>
        (rtAppendEvent K ctx (lit "affair_task_linked") (lit "kernel")
          (clip rtLarge (lit "\x7b\"affair_id\":\"" ++ eaff ++ lit "\",\"task_id\":\"" ++ etask ++ lit "\"\x7d"))).1
      | _, _ => ctx
    else ctx
  else ctx

/-- What a call leaves behind: its verdict, the context, the committed mirror, and the output's
own events among the appended ones. -/
structure Outcome (σ : Type) where
  ok : Bool
  ctx : RtContext σ
  committed : Bytes
  batch : List Bytes

/-- One event of the second loop: refused before its append, skipped, or appended. -/
inductive Step (σ : Type)
  | refused (committed : Bytes)
  | skipped
  | appended (ctx : RtContext σ) (committed : Bytes) (ok : Bool)

def appendStep (K : Kernel σ) (source : Bytes) (committedLen : Nat) (ctx : RtContext σ) (committed : Bytes)
    (index : Nat) (ev : JsonRef) : Step σ :=
  match prepareEvent K ctx index ev with
  | .refused => .refused committed
  | .skipped => .skipped
  | .ready type payload =>
    match appendCommitted committedLen committed ctx type source ctx.nextEvent payload with
    | none => .refused committed
    | some committed' =>
      if (rtNextEventId ctx rtSmall).isNone then .refused committed'
      else
        match rtAppendEvent K ctx type source payload with
        | (ctx', false) => .appended ctx' committed' false
        | (ctx', true) => .appended (linkAffairTask K ctx' type payload ctx.nextEvent) committed' true

/-- The second loop over the remaining events. -/
def appendLoop (K : Kernel σ) (source : Bytes) (committedLen : Nat) :
    Nat → List JsonRef → RtContext σ → Bytes → List Bytes → Outcome σ
  | _, [], ctx, committed, batch =>
    if committedLen = 0 then ⟨true, ctx, committed, batch⟩
    else match rtAppendText committedLen committed (lit "]\x7d") with
      | none => ⟨false, ctx, committed, batch⟩
      | some out => ⟨true, ctx, out, batch⟩
  | index, ev :: evs, ctx, committed, batch =>
    match appendStep K source committedLen ctx committed index ev with
    | .refused committed' => ⟨false, ctx, committed', batch⟩
    | .skipped => appendLoop K source committedLen (index + 1) evs ctx committed batch
    | .appended ctx' committed' false => ⟨false, ctx', committed', batch ++ [ev]⟩
    | .appended ctx' committed' true =>
      appendLoop K source committedLen (index + 1) evs ctx' committed' (batch ++ [ev])

/-- The first loop: `none` when every event passes, else the context it leaves. -/
def validateLoop (K : Kernel σ) (source : Bytes) (canWriteMemory : Bool) (ctx : RtContext σ) :
    Nat → List JsonRef → Option (RtContext σ)
  | _, [] => none
  | index, ev :: evs =>
    if validateAgentEvent K ctx index ev then
      let type := (jsonRefObjectGetString ev (lit "type") rtSmall).getD []
      if (rtMemoryIsRecordType type || rtMemoryIsControlType type) && !canWriteMemory then
        match rtNextEventId ctx rtSmall with
        | none => some ctx
        | some eventId =>
          some (commitLine ctx eventId (lit "error") (lit "kernel")
            (clip rtLarge (lit "\x7b\"message\":\"agent " ++ source ++
              lit " not authorised to write memory\",\"agent\":\"" ++ source ++ lit "\",\"type\":\"" ++ type ++
              lit "\"\x7d")))
      else validateLoop K source canWriteMemory ctx (index + 1) evs
    else some ctx

/-- The events array of an output, entry by entry. -/
def outputEvents (output : Bytes) : Option (List JsonRef) :=
  match jsonRefFirstObject output with
  | none => none
  | some root =>
    match jsonRefObjectGetArray root (lit "events") with
    | none => none
    | some events => (List.range (jsonRefArraySize events)).mapM fun i => jsonRefArrayGet events i

def rtAppendEventsFromOutput (K : Kernel σ) (ctx : RtContext σ) (source : Bytes) (canWriteMemory : Bool)
    (output : Bytes) (committedLen : Nat) : Outcome σ :=
  match outputEvents output with
  | none => ⟨false, ctx, committedOpening, []⟩
  | some events =>
    match validateLoop K source canWriteMemory ctx 0 events with
    | some ctx' => ⟨false, ctx', committedOpening, []⟩
    | none => appendLoop K source committedLen 0 events ctx committedOpening []

end Gate

/-! ## The entries of an output -/

theorem mapM_range_getElem? (xs : List Bytes) : (List.range xs.length).mapM (fun i => xs[i]?) = some xs := by
  induction xs with
  | nil => rfl
  | cons x xs ih =>
    have hcomp : (fun i => (x :: xs)[i]?) ∘ Nat.succ = fun i => xs[i]? := by
      funext i
      simp
    rw [List.length_cons, List.range_succ_eq_map, List.mapM_cons, List.mapM_map, hcomp, ih]
    rfl

theorem firstObjectLoop_sound {s v : Bytes} (h : firstObjectLoop s = some v) : (∃ ms, ObjText v ms) ∧ v ⊆ s := by
  induction s with
  | nil => simp [firstObjectLoop] at h
  | cons c s ih =>
    have hskip : firstObjectLoop s = some v → (∃ ms, ObjText v ms) ∧ v ⊆ c :: s := fun hs =>
      ⟨(ih hs).1, fun x hx => List.mem_cons_of_mem _ ((ih hs).2 hx)⟩
    rw [firstObjectLoop] at h
    split at h
    · rename_i hc
      split at h
      · rename_i v' r hv
        simp only [Option.some.injEq] at h
        subst h
        obtain ⟨hval, hs⟩ := valueSpan_sound hv
        have hwithin : v' ⊆ c :: s := fun x hx => by rw [hs]; exact List.mem_append_left _ hx
        obtain ⟨d, u, rfl, -⟩ := IsValue.head hval
        rw [List.cons_append, List.cons.injEq] at hs
        exact ⟨isValue_object hval (by rw [← hs.1, hc]; rfl), hwithin⟩
      · exact hskip h
    · exact hskip h

theorem outputEvents_clean {output : Bytes} {events : List JsonRef} (h : outputEvents output = some events) :
    ∀ ev ∈ events, CleanValue ev := by
  unfold outputEvents at h
  split at h
  · simp at h
  · rename_i root hroot
    obtain ⟨⟨ms, hms⟩, hwithin⟩ := firstObjectLoop_sound hroot
    have hfree : NulFree root := fun c hc => cstr_nulFree _ c (hwithin hc)
    split at h
    · simp at h
    · rename_i arr harr
      rw [jsonRefObjectGetArray, Option.filter_eq_some_iff] at harr
      have harrClean : CleanValue arr := .get hms hfree harr.1
      obtain ⟨xs, hxs⟩ := isValue_array harrClean.value (by simpa using harr.2)
      simp only [jsonRefArraySize_eq hxs, jsonRefArrayGet_eq hxs, mapM_range_getElem?, Option.some.injEq] at h
      exact h ▸ fun ev hev => ⟨hxs.wellformed ev hev, hxs.nulFree harrClean.nulFree ev hev⟩

end Floofclaw.Source.EventLog
