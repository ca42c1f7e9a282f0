import Floofclaw.Guarantees.OwnedKeys

/-!
# Agent output is all or nothing

The first loop of `rt_append_events_from_output` validates, the second one
normalizes again and appends. A refusal leaves nothing behind exactly when the
first loop finds it, when it comes before the first append of the second loop,
or when there is none.
-/

set_option autoImplicit false

namespace Floofclaw.Guarantees.AgentOutput
open Floofclaw.Lib Floofclaw.Source.Json Floofclaw.Source.EventLog Floofclaw.Guarantees.OwnedKeys

section
variable {σ : Type}

/-- A refused output has appended none of its events and run no reducer; only `error` events of the
kernel may be new. -/
def AllOrNothing (before : RtContext σ) (out : Outcome σ) : Prop :=
  out.ok = false →
    out.batch = [] ∧ out.ctx.stores = before.stores ∧
      ∃ errs, out.ctx.log = before.log ++ errs ∧ ∀ e ∈ errs, e.type = lit "error" ∧ e.source = lit "kernel"

/-! ## The condition -/

/-- What the second normalization asks of an event that passed the first loop. A payload that no
subsystem owns is only asked to be shorter than 4096 octets. -/
def admitted (K : Kernel σ) (ctx : RtContext σ) (index : Nat) (ev : JsonRef) : Bool :=
  let type := (jsonRefObjectGetString ev (lit "type") rtSmall).getD []
  match jsonRefObjectGetObject ev (lit "payload") with
  | none => true
  | some payload =>
    if type = lit "action_request" then (normalizeActionRequest K ctx payload ctx.nextEvent rtXl).isSome
    else if rtTaskIsEventType type then
      (K.taskNormalizeEvent (some ctx) type payload ctx.nextEvent rtXl ctx.stores).isSome
    else if type = lit "affair_patch" then
      decide (0 ≤ (K.affairNormalizeEvent ctx payload ctx.nextEvent rtXl (K.wallMs .append index)).1)
    else decide (payload.length < rtLarge)

/-- The second loop stops, or ends, before it has appended anything. -/
inductive StopsEmpty (K : Kernel σ) (source : Bytes) (cap : Nat) (ctx : RtContext σ) (committed : Bytes) :
    Nat → List JsonRef → Prop
  | exhausted {index : Nat} : StopsEmpty K source cap ctx committed index []
  | notAdmitted {index : Nat} {ev : JsonRef} {evs : List JsonRef} : admitted K ctx index ev = false →
      StopsEmpty K source cap ctx committed index (ev :: evs)
  | noRoom {index : Nat} {ev : JsonRef} {evs : List JsonRef} {type payload : Bytes} :
      prepareEvent K ctx index ev = .ready type payload →
      appendCommitted cap committed ctx type source ctx.nextEvent payload = none →
      StopsEmpty K source cap ctx committed index (ev :: evs)
  | noId {index : Nat} {ev : JsonRef} {evs : List JsonRef} {type payload : Bytes} :
      prepareEvent K ctx index ev = .ready type payload → rtNextEventId ctx rtSmall = none →
      StopsEmpty K source cap ctx committed index (ev :: evs)
  | skipped {index : Nat} {ev : JsonRef} {evs : List JsonRef} : prepareEvent K ctx index ev = .skipped →
      StopsEmpty K source cap ctx committed (index + 1) evs → StopsEmpty K source cap ctx committed index (ev :: evs)

/-- Every event of the second loop passes in the state its predecessors left. -/
inductive GoesThrough (K : Kernel σ) (source : Bytes) (cap : Nat) :
    Nat → List JsonRef → RtContext σ → Bytes → Prop
  | closed {index : Nat} {ctx : RtContext σ} {committed : Bytes} : cap = 0 ∨ committed.length + 2 < cap →
      GoesThrough K source cap index [] ctx committed
  | skipped {index : Nat} {ev : JsonRef} {evs : List JsonRef} {ctx : RtContext σ} {committed : Bytes} :
      prepareEvent K ctx index ev = .skipped → GoesThrough K source cap (index + 1) evs ctx committed →
      GoesThrough K source cap index (ev :: evs) ctx committed
  | appended {index : Nat} {ev : JsonRef} {evs : List JsonRef} {ctx ctx' : RtContext σ}
      {committed committed' type payload : Bytes} :
      prepareEvent K ctx index ev = .ready type payload →
      appendCommitted cap committed ctx type source ctx.nextEvent payload = some committed' →
      (rtNextEventId ctx rtSmall).isSome = true → rtAppendEvent K ctx type source payload = (ctx', true) →
      GoesThrough K source cap (index + 1) evs (linkAffairTask K ctx' type payload ctx.nextEvent) committed' →
      GoesThrough K source cap index (ev :: evs) ctx committed

/-! ## Admission -/

/-- A generic payload that the guard lets through is refused for its length only. -/
theorem normalizeGenericPayload_some {ev payload : Bytes} (hp : jsonRefObjectGetObject ev (lit "payload") = some payload)
    (hclean : CleanValue payload) (hguard : payloadHasRuntimeOwnedKey payload = false) :
    (normalizeGenericPayload ev rtXl).isSome = decide (payload.length < rtLarge) := by
  obtain ⟨c, hc⟩ := isValue_compacts hclean.value
  have hlen := hc.length_le
  simp only [normalizeGenericPayload, hp, hguard, Bool.false_eq_true, if_false, jsonRefValueCopy]
  by_cases hlong : payload.length < rtLarge
  · rw [if_neg (by omega)]
    dsimp only
    rw [jsonCompact_eq hclean.nulFree hc, if_pos (by unfold rtXl; unfold rtLarge at hlong; omega)]
    simp [hlong]
  · rw [if_pos (by omega)]
    simp [hlong]

theorem Prepared.ofPayload_refused {type : Bytes} {p : Option Bytes} :
    Prepared.ofPayload type p = .refused ↔ p.isSome = false := by
  cases p <;> simp [Prepared.ofPayload]

/-- The branches of the validator that demand a payload object. -/
theorem validateAgentEvent_payload {K : Kernel σ} {ctx : RtContext σ} {index : Nat} {ev : Bytes}
    (h : validateAgentEvent K ctx index ev = true)
    (hp : jsonRefObjectGetObject ev (lit "payload") = none) :
    ∃ type, jsonRefObjectGetString ev (lit "type") rtSmall = some type ∧ type ≠ lit "action_request" ∧
      rtTaskIsEventType type = false ∧ rtAffairIsEventType type = false := by
  unfold validateAgentEvent at h
  split at h
  · simp at h
  · split at h
    · simp at h
    · rename_i type htype
      simp only [hp] at h
      split at h
      · simp at h
      split at h
      · simp at h
      rename_i haction
      split at h
      · simp at h
      rename_i htask
      split at h
      · simp at h
      rename_i haffair
      exact ⟨type, htype, haction, by simpa using htask, by simpa using haffair⟩

/-- The validator leaves the second normalization exactly the question `admitted`, in whatever state
it is asked. -/
theorem prepareEvent_refused_iff {K : Kernel σ} {ctx ctx' : RtContext σ} {i index : Nat} {ev : Bytes}
    (hclean : CleanValue ev) (h : validateAgentEvent K ctx i ev = true) :
    prepareEvent K ctx' index ev = .refused ↔ admitted K ctx' index ev = false := by
  cases hp : jsonRefObjectGetObject ev (lit "payload") with
  | none =>
    obtain ⟨type, htype, haction, htask, haffair⟩ := validateAgentEvent_payload h hp
    simp [prepareEvent, admitted, hp, htype, haction, htask, haffair, Prepared.ofPayload, normalizeGenericPayload]
  | some payload =>
    obtain ⟨hobj, hguard⟩ := validateAgentEvent_guard h hp
    obtain ⟨ms, hms⟩ := isValue_object hclean.value hobj
    have hpclean : CleanValue payload := by
      rw [jsonRefObjectGetObject, Option.filter_eq_some_iff] at hp
      exact .get hms hclean.nulFree hp.1
    have hgeneric := normalizeGenericPayload_some hp hpclean hguard
    simp only [prepareEvent, admitted, hp]
    generalize (jsonRefObjectGetString ev (lit "type") rtSmall).getD [] = type
    have hpatch : rtAffairIsEventType (lit "affair_patch") = true := by decide +kernel
    by_cases haction : type = lit "action_request"
    · simp only [haction, if_true, Prepared.ofPayload_refused]
    cases htask : rtTaskIsEventType type with
    | true => simp only [haction, if_true, if_false, Prepared.ofPayload_refused]
    | false =>
      by_cases hpt : type = lit "affair_patch"
      · subst hpt
        cases hr : K.affairNormalizeEvent ctx' payload ctx'.nextEvent rtXl (K.wallMs .append index) with
        | mk ar out =>
          simp only [haction, hpatch, hr, Bool.false_eq_true, if_true, if_false, decide_eq_false_iff_not]
          by_cases hpos : 0 < ar
          · rw [if_pos hpos]
            exact ⟨by simp, fun hneg => absurd (Int.le_of_lt hpos) hneg⟩
          · rw [if_neg hpos]
            by_cases hzero : ar = 0
            · simp [hzero]
            · rw [if_pos hzero]
              exact ⟨fun _ => by omega, fun _ => rfl⟩
      · simp only [haction, hpt, Bool.false_eq_true, if_false, ite_self, Prepared.ofPayload_refused, hgeneric]

/-! ## The second loop -/

theorem appendLoop_extends {K : Kernel σ} {source : Bytes} {cap index : Nat} {events : List JsonRef}
    {ctx : RtContext σ} {committed : Bytes} {batch : List Bytes} :
    batch <+: (appendLoop K source cap index events ctx committed batch).batch := by
  induction events generalizing index ctx committed batch with
  | nil =>
    rw [appendLoop]
    split
    · exact List.prefix_rfl
    · split <;> exact List.prefix_rfl
  | cons ev events ih =>
    rw [appendLoop]
    split
    · exact List.prefix_rfl
    · exact ih
    · exact List.prefix_append _ _
    · exact (List.prefix_append _ _).trans ih

theorem StopsEmpty.unchanged {K : Kernel σ} {source : Bytes} {cap index : Nat} {events : List JsonRef}
    {ctx : RtContext σ} {committed : Bytes} {batch : List Bytes}
    (href : ∀ ev ∈ events, ∀ i, prepareEvent K ctx i ev = .refused ↔ admitted K ctx i ev = false)
    (h : StopsEmpty K source cap ctx committed index events) :
    (appendLoop K source cap index events ctx committed batch).ctx = ctx ∧
      (appendLoop K source cap index events ctx committed batch).batch = batch := by
  induction h with
  | exhausted =>
    rw [appendLoop]
    split
    · exact ⟨rfl, rfl⟩
    · split <;> exact ⟨rfl, rfl⟩
  | @notAdmitted index ev evs hadm =>
    have hrefused := (href ev (by simp) index).mpr hadm
    simp [appendLoop, appendStep, hrefused]
  | noRoom hready hnone => simp [appendLoop, appendStep, hready, hnone]
  | @noId index ev evs type payload hready hnone =>
    cases hmirror : appendCommitted cap committed ctx type source ctx.nextEvent payload with
    | none => simp [appendLoop, appendStep, hready, hmirror]
    | some committed' => simp [appendLoop, appendStep, hready, hmirror, hnone]
  | skipped hskip _ ih =>
    have hstep := ih fun e he => href e (List.mem_cons_of_mem _ he)
    simpa [appendLoop, appendStep, hskip] using hstep

/-- The second loop leaves the batch as it was only by stopping empty. -/
theorem stopsEmpty_of_batch {K : Kernel σ} {source : Bytes} {cap index : Nat} {events : List JsonRef}
    {ctx : RtContext σ} {committed : Bytes} {batch : List Bytes}
    (href : ∀ ev ∈ events, ∀ i, prepareEvent K ctx i ev = .refused ↔ admitted K ctx i ev = false)
    (h : (appendLoop K source cap index events ctx committed batch).batch = batch) :
    StopsEmpty K source cap ctx committed index events := by
  induction events generalizing index with
  | nil => exact .exhausted
  | cons ev events ih =>
    cases hprep : prepareEvent K ctx index ev with
    | refused => exact .notAdmitted ((href ev (by simp) index).mp hprep)
    | skipped =>
      refine .skipped hprep (ih (fun e he => href e (List.mem_cons_of_mem _ he)) ?_)
      simpa [appendLoop, appendStep, hprep] using h
    | ready type payload =>
      cases hmirror : appendCommitted cap committed ctx type source ctx.nextEvent payload with
      | none => exact .noRoom hprep hmirror
      | some committed' =>
        cases hid : rtNextEventId ctx rtSmall with
        | none => exact .noId hprep hid
        | some id =>
          -- the event reaches the log, so the batch has grown
          have hgrown : batch ++ [ev] <+: (appendLoop K source cap index (ev :: events) ctx committed batch).batch := by
            cases happ : rtAppendEvent K ctx type source payload with
            | mk ctx' ok =>
              cases ok with
              | false => simp [appendLoop, appendStep, hprep, hmirror, hid, happ]
              | true =>
                simp only [appendLoop, appendStep, hprep, hmirror, hid, happ, Option.isNone_some, Bool.false_eq_true,
                  if_false]
                exact appendLoop_extends
          have hlen := hgrown.length_le
          rw [h, List.length_append, List.length_singleton] at hlen
          omega

theorem appendLoop_ok_iff {K : Kernel σ} {source : Bytes} {cap index : Nat} {events : List JsonRef}
    {ctx : RtContext σ} {committed : Bytes} {batch : List Bytes} :
    (appendLoop K source cap index events ctx committed batch).ok = true ↔
      GoesThrough K source cap index events ctx committed := by
  constructor
  · intro h
    induction events generalizing index ctx committed batch with
    | nil =>
      refine .closed ?_
      rw [appendLoop] at h
      by_cases hcap : cap = 0
      · exact .inl hcap
      · rw [if_neg hcap, rtAppendText] at h
        by_cases hroom : committed.length + (lit "]\x7d").length ≥ cap
        · rw [if_pos hroom] at h
          simp at h
        · exact .inr (Nat.not_le.mp hroom)
    | cons ev events ih =>
      rw [appendLoop, appendStep] at h
      cases hprep : prepareEvent K ctx index ev with
      | refused => simp [hprep] at h
      | skipped =>
        simp only [hprep] at h
        exact .skipped hprep (ih h)
      | ready type payload =>
        simp only [hprep] at h
        cases hmirror : appendCommitted cap committed ctx type source ctx.nextEvent payload with
        | none => simp [hmirror] at h
        | some committed' =>
          simp only [hmirror] at h
          cases hid : rtNextEventId ctx rtSmall with
          | none => simp [hid] at h
          | some id =>
            simp only [hid, Option.isNone_some, Bool.false_eq_true, if_false] at h
            cases happ : rtAppendEvent K ctx type source payload with
            | mk ctx' ok =>
              cases ok with
              | false => simp [happ] at h
              | true =>
                simp only [happ] at h
                exact .appended hprep hmirror (by rw [hid]; rfl) happ (ih h)
  · intro h
    induction h generalizing batch with
    | closed hroom =>
      rw [appendLoop]
      split
      · rfl
      · rename_i hcap
        rw [rtAppendText, if_neg]
        exact Nat.not_le.mpr (hroom.resolve_left hcap)
    | skipped hskip _ ih => simpa [appendLoop, appendStep, hskip] using ih
    | appended hready hmirror hid happ _ ih =>
      rw [← Option.not_isNone, Bool.not_eq_true'] at hid
      simpa [appendLoop, appendStep, hready, hmirror, hid, happ] using ih

/-! ## Batch and log -/

theorem appendReducerError_log {before : List Event} {ctx : RtContext σ} (h : before <+: ctx.log)
    (message type body : Bytes) : before <+: (appendReducerError ctx message type body).log := by
  unfold appendReducerError
  split
  · exact h
  · exact h.trans (List.prefix_append _ _)

theorem reduceSubsystem_log {before : List Event} (K : Kernel σ) {ctx : RtContext σ} (h : before <+: ctx.log)
    (type body : Bytes) : before <+: (reduceSubsystem K ctx type body).log := by
  unfold reduceSubsystem
  split
  · exact h
  · split
    · exact h
    · apply appendReducerError_log
      exact h

theorem reduceWorkState_log {before : List Event} (K : Kernel σ) {ctx : RtContext σ} (h : before <+: ctx.log)
    (type body eventId : Bytes) : before <+: (reduceWorkState K ctx type body eventId).1.log := by
  unfold reduceWorkState
  split
  · split
    · exact h
    · apply appendReducerError_log
      exact h
  · exact h

/-- An append that has an id puts its line behind the log. -/
theorem rtAppendEvent_log {K : Kernel σ} {ctx : RtContext σ} {eventId : Bytes} (type source body : Bytes)
    (hid : rtNextEventId ctx rtSmall = some eventId) :
    ctx.log ++ [{ eventId := eventId, type := type, source := source, payload := body }] <+:
      (rtAppendEvent K ctx type source body).1.log := by
  rw [rtAppendEvent, hid]
  apply reduceWorkState_log
  apply reduceSubsystem_log
  exact List.prefix_rfl

theorem linkAffairTask_log (K : Kernel σ) (ctx : RtContext σ) (type payload : Bytes) (seq : Nat) :
    ctx.log <+: (linkAffairTask K ctx type payload seq).log := by
  have happ : ∀ source body, ctx.log <+: (rtAppendEvent K ctx (lit "affair_task_linked") source body).1.log := by
    intro source body
    cases hid : rtNextEventId ctx rtSmall with
    | none => simp [rtAppendEvent, hid]
    | some eventId => exact (List.prefix_append _ _).trans (rtAppendEvent_log _ _ _ hid)
  unfold linkAffairTask
  split
  · dsimp only
    split
    · split
      · exact happ _ _
      · exact List.prefix_rfl
    · exact List.prefix_rfl
  · exact List.prefix_rfl

/-- The line of an output's event: its type, the trusted source. -/
def IsLineOf (source : Bytes) (ev : JsonRef) (line : Event) : Prop :=
  line.source = source ∧ line.type = (jsonRefObjectGetString ev (lit "type") rtSmall).getD []

theorem prepareEvent_type {K : Kernel σ} {ctx : RtContext σ} {index : Nat} {ev type payload : Bytes}
    (h : prepareEvent K ctx index ev = .ready type payload) :
    type = (jsonRefObjectGetString ev (lit "type") rtSmall).getD [] := by
  have hof : ∀ {t : Bytes} {p : Option Bytes}, Prepared.ofPayload t p = .ready type payload → type = t := by
    intro t p hp
    cases p with
    | none => simp [Prepared.ofPayload] at hp
    | some out => exact (by simpa [Prepared.ofPayload, eq_comm] using hp : type = t ∧ _).1
  unfold prepareEvent at h
  dsimp only at h
  split at h
  · split at h
    · simp at h
    · exact hof h
  split at h
  · split at h
    · simp at h
    · exact hof h
  split at h
  · split at h
    · simp at h
    · split at h
      · split at h
        · simp at h
        split at h
        · simp at h
        · simp only [Prepared.ready.injEq] at h
          exact h.1.symm
      · exact hof h
  · exact hof h

/-- Every event counted in the batch has its line in the log. -/
theorem appendLoop_logged {K : Kernel σ} {source : Bytes} {cap index : Nat} {events : List JsonRef}
    {ctx : RtContext σ} {committed : Bytes} {batch : List Bytes}
    (hbatch : ∀ ev ∈ batch, ∃ line ∈ ctx.log, IsLineOf source ev line) :
    ∀ ev ∈ (appendLoop K source cap index events ctx committed batch).batch,
      ∃ line ∈ (appendLoop K source cap index events ctx committed batch).ctx.log, IsLineOf source ev line := by
  induction events generalizing index ctx committed batch with
  | nil =>
    rw [appendLoop]
    split
    · exact hbatch
    · split <;> exact hbatch
  | cons ev events ih =>
    rw [appendLoop, appendStep]
    cases hprep : prepareEvent K ctx index ev with
    | refused => exact hbatch
    | skipped => exact ih hbatch
    | ready type payload =>
      dsimp only
      cases hmirror : appendCommitted cap committed ctx type source ctx.nextEvent payload with
      | none => exact hbatch
      | some committed' =>
        dsimp only
        cases hid : rtNextEventId ctx rtSmall with
        | none => exact hbatch
        | some eventId =>
          have hlog := rtAppendEvent_log (K := K) type source payload hid
          have hnew : ∀ e ∈ batch ++ [ev], ∃ line ∈ (rtAppendEvent K ctx type source payload).1.log,
              IsLineOf source e line := by
            intro e he
            rcases List.mem_append.mp he with he | he
            · obtain ⟨line, hline, hof⟩ := hbatch e he
              exact ⟨line, hlog.subset (List.mem_append_left _ hline), hof⟩
            · rw [List.mem_singleton.mp he]
              exact ⟨_, hlog.subset (List.mem_append_right _ (List.mem_singleton.mpr rfl)), rfl, prepareEvent_type hprep⟩
          cases happ : rtAppendEvent K ctx type source payload with
          | mk ctx' ok =>
            rw [happ] at hnew
            cases ok with
            | false => exact hnew
            | true =>
              refine ih fun e he => ?_
              obtain ⟨line, hline, hof⟩ := hnew e he
              exact ⟨line, (linkAffairTask_log K ctx' type payload ctx.nextEvent).subset hline, hof⟩

/-! ## Whole outputs -/

/-- The exact condition: an output that the first loop accepts stops before its first append or goes
through to its end. -/
def Settles (K : Kernel σ) (ctx : RtContext σ) (source : Bytes) (canWriteMemory : Bool) (output : Bytes) (cap : Nat) :
    Prop :=
  ∀ events, outputEvents output = some events → validateLoop K source canWriteMemory ctx 0 events = none →
    StopsEmpty K source cap ctx committedOpening 0 events ∨ GoesThrough K source cap 0 events ctx committedOpening

/-- A refusal of the first loop adds at most the kernel's `error` line. -/
theorem validateLoop_quiet {K : Kernel σ} {source : Bytes} {canWrite : Bool} {ctx ctx' : RtContext σ} {index : Nat}
    {events : List JsonRef} (h : validateLoop K source canWrite ctx index events = some ctx') :
    ctx'.stores = ctx.stores ∧
      ∃ errs, ctx'.log = ctx.log ++ errs ∧ ∀ e ∈ errs, e.type = lit "error" ∧ e.source = lit "kernel" := by
  have hsame : ctx.stores = ctx.stores ∧
      ∃ errs, ctx.log = ctx.log ++ errs ∧ ∀ e ∈ errs, e.type = lit "error" ∧ e.source = lit "kernel" :=
    ⟨rfl, [], by simp, by simp⟩
  induction events generalizing index with
  | nil => simp [validateLoop] at h
  | cons ev events ih =>
    rw [validateLoop] at h
    split at h
    · dsimp only at h
      split at h
      · split at h
        · exact Option.some.inj h ▸ hsame
        · rw [Option.some.injEq] at h
          subst h
          refine ⟨rfl, [_], rfl, fun e he => ?_⟩
          rw [List.mem_singleton.mp he]
          exact ⟨rfl, rfl⟩
      · exact ih h
    · exact Option.some.inj h ▸ hsame

end

/-! ## A refusal behind an append -/

/-- An action name of 86 control characters: 86 octets to the validator, 516 once escaped again. -/
def controlName : Bytes := (List.replicate 86 (lit "\\u0001")).flatten

def noteFirst : Bytes := objText [(lit "type", quoted (lit "note"))]

def requestSecond : Bytes :=
  objText [(lit "type", quoted (lit "action_request")), (lit "payload", objText [(lit "action", quoted controlName)])]

def splitOutput : Bytes := objText [(lit "events", arrText [noteFirst, requestSecond])]

end Floofclaw.Guarantees.AgentOutput
