import Floofclaw.Source.LogFile

/-!
# What an append reports

An append reports success or failure, and its callers take failure for "not in
the log". Two things break that reading: the work-step ledger refuses an event
whose line is committed, and the disk reports an error after the whole line.
-/

set_option autoImplicit false

namespace Floofclaw.Guarantees.AppendTruth
open Floofclaw.Lib Floofclaw.Source.Json Floofclaw.Source.LogFile
open Floofclaw.Source.EventLog (rtWorkStateIsEventType)
open Floofclaw.Source.Inbound (eventLine)

variable {σ : Type}

/-- The text ends where a line may start. -/
def AtLineStart (text : Bytes) : Prop := text = [] ∨ text.getLast? = some (ch '\n')

instance (text : Bytes) : Decidable (AtLineStart text) := inferInstanceAs (Decidable (_ ∨ _))

/-- The complete line is in the log, as a line of its own. -/
def Committed (old line new : Bytes) : Prop := AtLineStart old ∧ old ++ line <+: new

/-- The call reports success exactly when its line is committed. -/
def Truthful (R : Reducers σ) (host : Host) (ctx : LogContext σ) (type source body : Bytes) : Prop :=
  (rtAppendEvent R host ctx type source body).2 = true ↔
    ∃ line, callLine host ctx type source body = some line ∧
      Committed ctx.log line (rtAppendEvent R host ctx type source body).1.log

/-! ## The condition -/

/-- The stores as the projection and the owning reducer leave them. -/
def reducedStores (R : Reducers σ) (type body : Bytes) (stores : σ) : σ :=
  match subsystemReducer R type body (R.applyToContext type body stores) with
  | none => R.applyToContext type body stores
  | some (_, stores, _) => stores

/-- The work-step ledger does not refuse the event: a replay does not ask it, and most types are not its own. -/
def WorkAccepted (R : Reducers σ) (ctx : LogContext σ) (type body eventId : Bytes) : Prop :=
  ctx.replayMode = true ∨ rtWorkStateIsEventType type = false ∨
    (R.workStateApplyEvent type body eventId (reducedStores R type body ctx.stores)).2 = true

/-- The disk and the ledger agree about the line. -/
def Honest (R : Reducers σ) (host : Host) (ctx : LogContext σ) (type source body : Bytes) : Prop :=
  ¬(type = lit "error" ∧ ctx.errorActive = true) →
    ∀ eventId line, nextEventId ctx = some eventId → callLine host ctx type source body = some line →
      match host.disk ctx.nextEvent with
      | .failed n => n < line.length ∨ ¬AtLineStart ctx.log
      | .done => AtLineStart ctx.log ↔ WorkAccepted R ctx type body eventId

/-! ## Reducers only add to the log -/

theorem appendErrorEvent_log (host : Host) (ctx : LogContext σ) (message type body : Bytes) :
    ctx.log <+: (appendErrorEvent host ctx message type body).log := by
  unfold appendErrorEvent
  split
  · exact List.prefix_refl _
  dsimp only
  split
  · exact List.prefix_refl _
  · exact List.prefix_append _ _

theorem appendErrorEvent_stores (host : Host) (ctx : LogContext σ) (message type body : Bytes) :
    (appendErrorEvent host ctx message type body).stores = ctx.stores := by
  unfold appendErrorEvent
  split
  · rfl
  dsimp only
  split <;> rfl

theorem beforeWorkState_log (R : Reducers σ) (host : Host) (ctx : LogContext σ) (type body : Bytes) :
    ctx.log <+: (beforeWorkState R host ctx type body).log := by
  unfold beforeWorkState reduceSubsystem
  split
  · exact List.prefix_refl _
  rename_i message stores ok _
  split
  · exact List.prefix_refl _
  · exact appendErrorEvent_log host { ctx with stores := stores } message type body

theorem beforeWorkState_stores (R : Reducers σ) (host : Host) (ctx : LogContext σ) (type body : Bytes) :
    (beforeWorkState R host ctx type body).stores = reducedStores R type body ctx.stores := by
  unfold beforeWorkState reduceSubsystem reducedStores
  dsimp only
  cases subsystemReducer R type body (R.applyToContext type body ctx.stores) with
  | none => rfl
  | some reduced =>
    obtain ⟨message, stores, ok⟩ := reduced
    cases ok with
    | true => rfl
    | false => exact appendErrorEvent_stores host _ _ type body

theorem reduceWorkState_log (R : Reducers σ) (host : Host) (ctx : LogContext σ) (type body eventId : Bytes) :
    ctx.log <+: (reduceWorkState R host ctx type body eventId).1.log := by
  unfold reduceWorkState
  split
  · split
    · exact List.prefix_refl _
    · rename_i stores _
      exact appendErrorEvent_log host { ctx with stores := stores } _ type body
  · exact List.prefix_refl _

theorem reduceWorkState_ok (R : Reducers σ) (host : Host) (ctx : LogContext σ) (type body eventId : Bytes) :
    (reduceWorkState R host ctx type body eventId).2 = true ↔
      rtWorkStateIsEventType type = false ∨ (R.workStateApplyEvent type body eventId ctx.stores).2 = true := by
  unfold reduceWorkState
  split
  · rename_i htype
    split
    · rename_i happly
      simp [happly]
    · rename_i happly
      simp [htype, happly]
  · rename_i htype
    simp [htype]

/-! ## The iff -/

/-- A write that is reported done is followed by reducers, and they alone decide what the call reports. -/
theorem append_done {R : Reducers σ} {host : Host} {ctx : LogContext σ} {type source body eventId line : Bytes}
    (hid : nextEventId ctx = some eventId) (hline : callLine host ctx type source body = some line)
    (hdisk : host.disk ctx.nextEvent = .done) :
    ctx.log ++ line <+: (appendEventUnchecked R host ctx type source body).1.log ∧
      ((appendEventUnchecked R host ctx type source body).2 = true ↔ WorkAccepted R ctx type body eventId) := by
  have hwrite : writeLine host ctx line = ({ ctx with nextEvent := ctx.nextEvent + 1, log := ctx.log ++ line }, true) := by
    simp [writeLine, hdisk, written]
  unfold appendEventUnchecked
  rw [hid, hline]
  dsimp only
  rw [hwrite]
  dsimp only
  split
  · rename_i hreplay
    exact ⟨List.prefix_refl _, iff_of_true rfl (.inl hreplay)⟩
  · rename_i hlive
    generalize hafter : { ctx with nextEvent := ctx.nextEvent + 1, log := ctx.log ++ line } = after
    have hlog : ctx.log ++ line = after.log := by rw [← hafter]
    have hstores : ctx.stores = after.stores := by rw [← hafter]
    rw [hlog]
    refine ⟨(beforeWorkState_log R host after type body).trans (reduceWorkState_log R host _ type body eventId), ?_⟩
    rw [reduceWorkState_ok, beforeWorkState_stores, WorkAccepted, hstores]
    simp [hlive]

theorem append_failed {R : Reducers σ} {host : Host} {ctx : LogContext σ} {type source body eventId line : Bytes} {n : Nat}
    (hid : nextEventId ctx = some eventId) (hline : callLine host ctx type source body = some line)
    (hdisk : host.disk ctx.nextEvent = .failed n) :
    (appendEventUnchecked R host ctx type source body).1.log = ctx.log ++ line.take n ∧
      (appendEventUnchecked R host ctx type source body).2 = false := by
  have hwrite : writeLine host ctx line =
      ({ ctx with nextEvent := ctx.nextEvent + 1, log := ctx.log ++ line.take n }, false) := by
    simp [writeLine, hdisk, written]
  unfold appendEventUnchecked
  rw [hid, hline]
  dsimp only
  rw [hwrite]
  exact ⟨rfl, rfl⟩

theorem prefix_take_iff (line : Bytes) (n : Nat) : line <+: line.take n ↔ line.length ≤ n := by
  constructor
  · intro h
    have := h.length_le
    rw [List.length_take] at this
    omega
  · intro h
    simp [List.take_of_length_le h]

theorem truthful_iff (R : Reducers σ) (host : Host) (ctx : LogContext σ) (type source body : Bytes) :
    Truthful R host ctx type source body ↔ Honest R host ctx type source body := by
  unfold Truthful Honest rtAppendEvent
  by_cases herror : type = lit "error" ∧ ctx.errorActive = true
  · -- dropped inside another error: nothing is written, and that is what the call says
    rw [if_pos herror]
    refine iff_of_true (iff_of_false (by simp) ?_) fun h => absurd herror h
    rintro ⟨line, hline, -, hextends⟩
    have hlong := hextends.length_le
    have hpos : 0 < line.length := by
      obtain ⟨id, -, rfl⟩ := Option.map_eq_some_iff.mp hline
      simp [eventLine, lit]
    rw [List.length_append] at hlong
    dsimp only at hlong
    omega
  rw [if_neg herror]
  cases hid : nextEventId ctx with
  | none =>
    have hline : callLine host ctx type source body = none := by rw [callLine, hid]; rfl
    have hcall : appendEventUnchecked R host ctx type source body = (ctx, false) := by
      rw [appendEventUnchecked, hid]
    rw [hcall, hline]
    exact iff_of_true (iff_of_false (by simp) (by simp)) fun _ _ _ h => by cases h
  | some eventId =>
    obtain ⟨line, hline⟩ : ∃ line, callLine host ctx type source body = some line := by
      rw [callLine, hid]
      exact ⟨_, rfl⟩
    have hcommit : (∃ line', callLine host ctx type source body = some line' ∧
        Committed ctx.log line' (appendEventUnchecked R host ctx type source body).1.log) ↔
        Committed ctx.log line (appendEventUnchecked R host ctx type source body).1.log := by
      rw [hline]
      simp
    rw [hcommit]
    have hcond : (¬(type = lit "error" ∧ ctx.errorActive = true) → ∀ eventId' line', some eventId = some eventId' →
        callLine host ctx type source body = some line' →
        match host.disk ctx.nextEvent with
        | .failed n => n < line'.length ∨ ¬AtLineStart ctx.log
        | .done => AtLineStart ctx.log ↔ WorkAccepted R ctx type body eventId') ↔
        match host.disk ctx.nextEvent with
        | .failed n => n < line.length ∨ ¬AtLineStart ctx.log
        | .done => AtLineStart ctx.log ↔ WorkAccepted R ctx type body eventId := by
      constructor
      · exact fun h => h herror eventId line rfl hline
      · rintro h - eventId' line' ⟨⟩ hline'
        rw [hline, Option.some.injEq] at hline'
        exact hline' ▸ h
    rw [hcond]
    cases hdisk : host.disk ctx.nextEvent with
    | done =>
      obtain ⟨hlog, hok⟩ := append_done (R := R) hid hline hdisk
      rw [hok, Committed, and_iff_left hlog]
      exact iff_comm
    | failed n =>
      obtain ⟨hlog, hok⟩ := append_failed (R := R) hid hline hdisk
      rw [hok, hlog, Committed, List.prefix_append_right_inj, prefix_take_iff]
      dsimp only
      by_cases hstart : AtLineStart ctx.log
      · simp [hstart]
      · simp [hstart]

/-- An append tells the truth exactly when disk and ledger agree about its line; where they agree about a work
terminal, its action does not fail after it. -/
theorem append_tells_truth_iff (R : Reducers σ) (host : Host) (ctx : LogContext σ) (type source body : Bytes) :
    (Truthful R host ctx type source body ↔ Honest R host ctx type source body) ∧
      ∀ blocked workPayload actionPayload, Honest R host ctx (workTerminalType blocked) (lit "action") workPayload →
        ∀ line, callLine host ctx (workTerminalType blocked) (lit "action") workPayload = some line →
          Committed ctx.log line (rtAppendEvent R host ctx (workTerminalType blocked) (lit "action") workPayload).1.log →
            (completeBoundWork R host ctx blocked workPayload actionPayload).2 ≠ lit "action_failed" := by
  refine ⟨truthful_iff R host ctx type source body, fun blocked workPayload actionPayload honest line hline hcommitted => ?_⟩
  have hok := ((truthful_iff R host ctx (workTerminalType blocked) (lit "action") workPayload).mpr honest).mpr
    ⟨line, hline, hcommitted⟩
  unfold completeBoundWork
  dsimp only
  rw [if_pos hok]
  exact lit_ne (by decide)

/-- A ledger that cannot be written. -/
def refusingLedger : Reducers Unit :=
  { applyToContext := fun _ _ s => s, memoryApply := fun _ _ s => (s, true), memoryApplyControl := fun _ _ s => (s, true)
    taskApplyEvent := fun _ _ s => (s, true), affairApplyEvent := fun _ _ s => (s, true)
    operationApplyEvent := fun _ _ s => (s, true), workStateApplyEvent := fun _ _ _ s => (s, false) }

def workingHost : Host := { disk := fun _ => .done, clock := fun _ => lit "2025-01-01T00:00:00Z" }

def workContext : LogContext Unit :=
  { runId := lit "run_001", nextEvent := 1, log := [], stores := (), replayMode := false, errorActive := false }

def workDonePayload : Bytes := lit "\x7b\"task_id\":\"task_run_001_000001\",\"work_rev\":1,\"request_id\":\"r1\"\x7d"

/-- The work-step ledger refuses the committed `work_completed`: the append reports failure, and the action of the
completed work fails. -/
theorem committed_work_reported_failed :
    ¬Truthful refusingLedger workingHost workContext (lit "work_completed") (lit "action") workDonePayload ∧
      (completeBoundWork refusingLedger workingHost workContext false workDonePayload
        fun _ => lit "\x7b\"request_id\":\"r1\"\x7d").2 = lit "action_failed" := by
  refine ⟨fun htruth => ?_, by decide +kernel⟩
  have hreport : (rtAppendEvent refusingLedger workingHost workContext (lit "work_completed") (lit "action")
      workDonePayload).2 = false := by
    rw [workDonePayload, lit_ofList]
    decide +kernel
  have hline : ∃ line, callLine workingHost workContext (lit "work_completed") (lit "action") workDonePayload = some line ∧
      line.isPrefixOf (rtAppendEvent refusingLedger workingHost workContext (lit "work_completed") (lit "action")
        workDonePayload).1.log = true := by
    refine ⟨_, rfl, ?_⟩
    rw [workDonePayload, lit_ofList]
    decide +kernel
  obtain ⟨line, hcall, hextends⟩ := hline
  have htold := htruth.mpr ⟨line, hcall, .inl rfl, List.isPrefixOf_iff_prefix.mp hextends⟩
  rw [hreport] at htold
  cases htold

end Floofclaw.Guarantees.AppendTruth
