import Floofclaw.Guarantees.Budgets

/-!
# The evidence of a step is written once

The result of a step and its terminal are each written by one event and never
again, and a step with a terminal has a result, so its status stays too. What a
later report may still fill in is an action, a start or a handle the step lacks.
-/

set_option autoImplicit false

namespace Floofclaw.Guarantees.Evidence
open Floofclaw.Lib Floofclaw.Source.Json Floofclaw.Source.TaskState Floofclaw.Source.WorkSteps
open Floofclaw.Source.WorkLedger
open Floofclaw.Guarantees.LedgerSteps Floofclaw.Guarantees.Budgets

/-! ## What a report leaves alone -/

structure SameResult (x y : WorkStep) : Prop where
  resultEventId : y.resultEventId = x.resultEventId
  resultKind : y.resultKind = x.resultKind
  detail : y.detail = x.detail

structure SameTerminal (x y : WorkStep) : Prop where
  terminalEventId : y.terminalEventId = x.terminalEventId
  terminalKind : y.terminalKind = x.terminalKind
  terminalDetail : y.terminalDetail = x.terminalDetail
  status : y.status = x.status

theorem SameResult.refl (x : WorkStep) : SameResult x x := ⟨rfl, rfl, rfl⟩

theorem SameResult.trans {x y z : WorkStep} (h : SameResult x y) (h' : SameResult y z) : SameResult x z :=
  ⟨h'.resultEventId.trans h.resultEventId, h'.resultKind.trans h.resultKind, h'.detail.trans h.detail⟩

theorem SameTerminal.refl (x : WorkStep) : SameTerminal x x := ⟨rfl, rfl, rfl, rfl⟩

theorem SameTerminal.trans {x y z : WorkStep} (h : SameTerminal x y) (h' : SameTerminal y z) : SameTerminal x z :=
  ⟨h'.terminalEventId.trans h.terminalEventId, h'.terminalKind.trans h.terminalKind,
    h'.terminalDetail.trans h.terminalDetail, h'.status.trans h.status⟩

/-- A step with a terminal has a result. -/
def Ended (x : WorkStep) : Prop := x.terminalEventId ≠ [] → x.resultEventId ≠ []

/-- What is written stays: the result, and with the terminal the status. -/
structure Keeps (x y : WorkStep) : Prop where
  result : x.resultEventId ≠ [] → SameResult x y
  terminal : x.terminalEventId ≠ [] → SameTerminal x y
  ended : Ended y

theorem Keeps.refl {x : WorkStep} (h : Ended x) : Keeps x x := ⟨fun _ => .refl x, fun _ => .refl x, h⟩

theorem Keeps.trans {x y z : WorkStep} (h : Keeps x y) (h' : Keeps y z) : Keeps x z := by
  refine ⟨fun hx => ?_, fun hx => ?_, h'.ended⟩
  · have hxy := h.result hx
    exact hxy.trans (h'.result (hxy.resultEventId ▸ hx))
  · have hxy := h.terminal hx
    exact hxy.trans (h'.terminal (hxy.terminalEventId ▸ hx))

theorem takeAction_keeps (f : StepFields) {x : WorkStep} (h : Ended x) : Keeps x (takeAction f x) := by
  unfold takeAction
  split
  · exact ⟨fun _ => ⟨rfl, rfl, rfl⟩, fun _ => ⟨rfl, rfl, rfl, rfl⟩, h⟩
  · exact .refl h

theorem noteStarted_keeps (eventId : Bytes) {x : WorkStep} (h : Ended x) : Keeps x (noteStarted eventId x).1 := by
  unfold noteStarted
  split
  · exact .refl h
  · exact ⟨fun _ => ⟨rfl, rfl, rfl⟩, fun hx => ⟨rfl, rfl, rfl, if_neg (h hx)⟩, h⟩

theorem noteOperation_keeps (payload : JsonRef) {x : WorkStep} (h : Ended x) : Keeps x (noteOperation payload x).1 := by
  unfold noteOperation
  dsimp only
  split
  · exact .refl h
  · exact ⟨fun _ => ⟨rfl, rfl, rfl⟩, fun hx => ⟨rfl, rfl, rfl, if_neg (h hx)⟩, h⟩

theorem clip_ne_nil {eventId : Bytes} (h : eventId ≠ []) : clip rtSmall eventId ≠ [] := by
  cases eventId with
  | nil => exact absurd rfl h
  | cons c rest => exact List.cons_ne_nil _ _

theorem noteTerminal_keeps (type : Bytes) {eventId : Bytes} (hid : eventId ≠ []) (payload : JsonRef) {x : WorkStep}
    (h : Ended x) : Keeps x (noteTerminal type eventId payload x).1 := by
  unfold noteTerminal
  dsimp only
  split
  · exact .refl h
  · rename_i hopen
    have hnone : ¬ x.terminalEventId ≠ [] := by simpa using hopen
    split
    · rename_i hresult
      exact ⟨fun hx => absurd hresult hx, fun hx => absurd hx hnone, fun _ => clip_ne_nil hid⟩
    · rename_i hresult
      exact ⟨fun _ => ⟨rfl, rfl, rfl⟩, fun hx => absurd hx hnone, fun _ => hresult⟩

theorem noteResult_keeps (type : Bytes) {eventId : Bytes} (hid : eventId ≠ []) (payload : JsonRef) (payloadJson : Bytes)
    {x : WorkStep} (h : Ended x) : Keeps x (noteResult type eventId payload payloadJson x).1 := by
  unfold noteResult
  dsimp only
  split
  · exact .refl h
  · rename_i hopen
    have hresult : ¬ x.resultEventId ≠ [] := by simpa using hopen
    have hterminal : ¬ x.terminalEventId ≠ [] := fun hx => hresult (h hx)
    repeat' split
    all_goals exact ⟨fun hx => absurd hx hresult, fun hx => absurd hx hterminal, fun _ => clip_ne_nil hid⟩

theorem noteReport_keeps (type : Bytes) {eventId : Bytes} (hid : eventId ≠ []) (payload : JsonRef) (payloadJson : Bytes)
    {x : WorkStep} (h : Ended x) : Keeps x (noteReport type eventId payload payloadJson x).1 := by
  unfold noteReport
  split
  · exact noteStarted_keeps eventId h
  · split
    · exact noteOperation_keeps payload h
    · split
      · exact .refl h
      · split
        · exact noteTerminal_keeps type hid payload h
        · exact noteResult_keeps type hid payload payloadJson h

theorem reportOn_keeps (type : Bytes) {eventId : Bytes} (hid : eventId ≠ []) (payload : JsonRef) (payloadJson : Bytes)
    (f : StepFields) {x : WorkStep} (h : Ended x) : Keeps x (reportOn type eventId payload payloadJson f x).1 := by
  unfold reportOn
  split
  · have haction := takeAction_keeps f h
    exact haction.trans (noteReport_keeps type hid payload payloadJson haction.ended)
  · exact .refl h

/-! ## Along the live ledger -/

/-- A well-kept ledger in which every step with a terminal has a result. -/
structure Evident (s : WorkStore) : Prop where
  wellKept : WellKept s
  ended : ∀ x ∈ s.items, Ended x

theorem eventId_of_report {e : LedgerEvent} {f : StepFields} {payload : JsonRef} (h : askOf e = .report f payload) :
    e.eventId ≠ [] := by
  have hsaid := askOf_says e
  rw [h] at hsaid
  exact hsaid.2.1

theorem touched_keeps {e : LedgerEvent} {x y : WorkStep} (h : Touched e x y) (hx : Ended x) : Keeps x y := by
  rcases h with rfl | rfl | ⟨f, payload, hask, -, hreport⟩
  · exact .refl hx
  · exact ⟨fun _ => ⟨rfl, rfl, rfl⟩, fun _ => ⟨rfl, rfl, rfl, rfl⟩, hx⟩
  · have hkeeps := reportOn_keeps e.type (eventId_of_report hask) payload e.payloadJson f hx
    rwa [hreport] at hkeeps

theorem newStep_ended {e : LedgerEvent} {y : WorkStep} (h : NewStep e y) : Ended y := by
  rcases h with ⟨-, hnone⟩ | ⟨f, payload, hask, rfl⟩
  · exact fun hterminal => absurd hnone hterminal
  · exact (reportOn_keeps e.type (eventId_of_report hask) payload e.payloadJson f (fun h => absurd rfl h)).ended

theorem took_evident {w : World} {s s' : WorkStore} {e : LedgerEvent} (h : Took w s e s') (hs : Evident s) : Evident s' := by
  refine ⟨h.wellKept hs.wellKept, fun y hy => ?_⟩
  rcases h.step hs.wellKept hy with ⟨x, hx, htouched⟩ | ⟨-, hnew⟩
  · exact (touched_keeps htouched (hs.ended x (stepIndex_some hx).1)).ended
  · exact newStep_ended hnew

theorem took_keeps {w : World} {s s' : WorkStore} {e : LedgerEvent} (h : Took w s e s') (hs : Evident s) {id rid : Bytes}
    {rev : Int} {x y : WorkStep} (hx : stepIndex s id rev rid = some x) (hy : stepIndex s' id rev rid = some y) : Keeps x y := by
  obtain ⟨hmem, hkey⟩ := stepIndex_some hy
  obtain ⟨hid, hrest⟩ := Prod.mk.inj hkey
  obtain ⟨hrev, hrid⟩ := Prod.mk.inj hrest
  have hbehind := h.step hs.wellKept hmem
  rw [StepBehind, hid, hrev, hrid, hx] at hbehind
  rcases hbehind with ⟨x', hx', htouched⟩ | ⟨hnone, -⟩
  · cases hx'
    exact touched_keeps htouched (hs.ended x (stepIndex_some hx).1)
  · cases hnone

theorem liveStep_evident {st : Live} (hst : Evident st.store) (i : World × LedgerEvent) : Evident (liveStep st i).store := by
  unfold liveStep
  rcases hrun : rtWorkStateApplyEvent i.1 st.store i.2 with ⟨after, _ | _⟩
  · cases live_refused hrun
    exact hst
  · exact took_evident (live_took hrun) hst

theorem liveStep_keeps {st : Live} (hst : Evident st.store) (i : World × LedgerEvent) {id rid : Bytes} {rev : Int}
    {x y : WorkStep} (hx : stepIndex st.store id rev rid = some x) (hy : stepIndex (liveStep st i).store id rev rid = some y) :
    Keeps x y := by
  unfold liveStep at hy
  rcases hrun : rtWorkStateApplyEvent i.1 st.store i.2 with ⟨after, _ | _⟩
  · rw [hrun] at hy
    cases live_refused hrun
    cases hx.symm.trans hy
    exact .refl (hst.ended x (stepIndex_some hx).1)
  · rw [hrun] at hy
    exact took_keeps (live_took hrun) hst hx hy

theorem live_evident (inputs : List (World × LedgerEvent)) : Evident (live inputs).store := by
  have hall : ∀ st : Live, Evident st.store → Evident (inputs.foldl liveStep st).store := by
    induction inputs with
    | nil => exact fun st hst => hst
    | cons i inputs ih => exact fun st hst => ih _ (liveStep_evident hst i)
  refine hall {} ⟨.empty, fun x hx => ?_⟩
  cases hx

theorem live_append (before after : List (World × LedgerEvent)) : live (before ++ after) = after.foldl liveStep (live before) :=
  List.foldl_append

/-- A step that is retained throughout keeps what is written on it. -/
theorem foldl_keeps {st : Live} (hst : Evident st.store) (after : List (World × LedgerEvent)) {id rid : Bytes} {rev : Int}
    (hkept : ∀ n, (stepIndex ((after.take n).foldl liveStep st).store id rev rid).isSome = true) {x y : WorkStep}
    (hx : stepIndex st.store id rev rid = some x) (hy : stepIndex (after.foldl liveStep st).store id rev rid = some y) :
    Keeps x y := by
  induction after generalizing st x with
  | nil =>
    have heq : x = y := Option.some.inj (hx.symm.trans hy)
    exact heq ▸ .refl (hst.ended x (stepIndex_some hx).1)
  | cons i after ih =>
    obtain ⟨z, hz⟩ := Option.isSome_iff_exists.mp (hkept 1)
    have hstep := liveStep_keeps hst i hx hz
    exact hstep.trans (ih (liveStep_evident hst i) (fun n => hkept (n + 1)) hz hy)

/-! ## Late reports -/

/-- The report of an event on the step. -/
def ReportsOn (e : LedgerEvent) (payload : JsonRef) (x : WorkStep) : Prop :=
  jsonRefTopObject e.payloadJson = some payload ∧ isTaskEvent e.type = false ∧ e.type ≠ lit "action_request" ∧
    notForLedger e.type (stepFields e.runContext payload) = false ∧
    stepKey x = ((stepFields e.runContext payload).taskId, (stepFields e.runContext payload).workRev,
      (stepFields e.runContext payload).requestId)

/-- The report says what the step has, or what it lacks, or it is no evidence. -/
def AgreesWith (e : LedgerEvent) (payload : JsonRef) (x : WorkStep) : Prop :=
  if e.type = lit "action_started" then x.startedEventId = [] ∨ x.startedEventId = e.eventId
  else if e.type = lit "operation_started" then
    x.handle = [] ∨ x.handle = stringField payload (lit "handle") rtSmall []
  else
    noEvidence e.type e.eventId payload = true ∨
      if isTerminalType e.type then x.terminalEventId = [] ∨ x.terminalEventId = e.eventId ∧ x.terminalKind = e.type
      else x.resultEventId = e.eventId ∧ x.resultKind = e.type

/-- Nothing changes but an action, a start or a handle. -/
def FillsOnly (x y : WorkStep) : Prop :=
  y = { x with action := y.action, startedEventId := y.startedEventId, handle := y.handle } ∧
    (x.action ≠ [] → y.action = x.action)

theorem noteReport_late {type eventId : Bytes} {payload : JsonRef} {payloadJson : Bytes} {x y : WorkStep}
    (hresult : x.resultEventId ≠ []) (h : noteReport type eventId payload payloadJson x = (y, true)) :
    AgreesWith { runContext := [], type := type, payloadJson := payloadJson, eventId := eventId } payload x ∧
      (x.terminalEventId ≠ [] → FillsOnly x y ∧ y.action = x.action) := by
  unfold noteReport at h
  unfold AgreesWith
  dsimp only
  by_cases hstart : type = lit "action_started"
  · rw [if_pos hstart] at h ⊢
    unfold noteStarted at h
    split at h
    · cases h
    · rename_i hfree
      cases h
      refine ⟨?_, fun _ => ⟨⟨?_, fun _ => rfl⟩, rfl⟩⟩
      · by_cases hnil : x.startedEventId = []
        · exact .inl hnil
        · exact .inr (by simpa [hnil] using hfree)
      · simp
  · rw [if_neg hstart] at h ⊢
    by_cases hoperation : type = lit "operation_started"
    · rw [if_pos hoperation] at h ⊢
      unfold noteOperation at h
      dsimp only at h
      split at h
      · cases h
      · rename_i hfree
        cases h
        refine ⟨?_, fun _ => ⟨⟨?_, fun _ => rfl⟩, rfl⟩⟩
        · by_cases hnil : x.handle = []
          · exact .inl hnil
          · exact .inr (by simpa [hnil] using hfree)
        · simp
    · rw [if_neg hoperation] at h ⊢
      by_cases hno : noEvidence type eventId payload = true
      · rw [if_pos hno] at h
        cases h
        exact ⟨.inl hno, fun _ => ⟨⟨rfl, fun _ => rfl⟩, rfl⟩⟩
      · rw [if_neg hno] at h
        by_cases hkind : isTerminalType type = true
        · rw [if_pos hkind] at h ⊢
          unfold noteTerminal at h
          by_cases hterminal : x.terminalEventId ≠ []
          · rw [if_pos hterminal, Prod.mk.injEq, Bool.and_eq_true, decide_eq_true_eq, decide_eq_true_eq] at h
            obtain ⟨rfl, hsame⟩ := h
            exact ⟨.inr (.inr hsame), fun _ => ⟨⟨rfl, fun _ => rfl⟩, rfl⟩⟩
          · exact ⟨.inr (.inl (by simpa using hterminal)), fun hx => absurd hx hterminal⟩
        · rw [if_neg hkind] at h ⊢
          unfold noteResult at h
          rw [if_pos hresult, Prod.mk.injEq, Bool.and_eq_true, decide_eq_true_eq, decide_eq_true_eq] at h
          obtain ⟨rfl, hsame⟩ := h
          exact ⟨.inr hsame, fun _ => ⟨⟨rfl, fun _ => rfl⟩, rfl⟩⟩

theorem askOf_report {e : LedgerEvent} {payload : JsonRef} {x : WorkStep} (hid : e.eventId ≠ [])
    (hknown : rtWorkStateIsEventType e.type = true) (h : ReportsOn e payload x) :
    askOf e = .report (stepFields e.runContext payload) payload := by
  obtain ⟨htop, htask, hother, hnot, -⟩ := h
  simp [askOf, hid, hknown, htop, htask, hother, hnot]

/-- A report the live path takes is written by the reducer on its step. -/
theorem live_report {w : World} {s s' : WorkStore} {e : LedgerEvent} {payload : JsonRef} {x : WorkStep}
    (hon : ReportsOn e payload x) (hstep : stepIndex s x.taskId x.workRev x.requestId = some x)
    (h : rtWorkStateApplyEvent w s e = (s', true)) :
    ∃ y, reportOn e.type e.eventId payload e.payloadJson (stepFields e.runContext payload) x = (y, true) ∧
      s' = rewritten (stepFields e.runContext payload) y s := by
  have htook := live_took h
  obtain ⟨htop, htask, hother, hnot, hkey⟩ := id hon
  obtain ⟨hkid, hrest⟩ := Prod.mk.inj hkey
  obtain ⟨hkrev, hkrid⟩ := Prod.mk.inj hrest
  rw [hkid, hkrev, hkrid] at hstep
  unfold rtWorkStateApplyEvent at h
  split at h
  · cases h
  · rename_i hgood
    simp only [Bool.or_eq_true, Bool.not_eq_true', decide_eq_true_eq, not_or, Bool.not_eq_false] at hgood
    have hask := askOf_report hgood.2 hgood.1 hon
    have hpasses : passesBy e.type (stepFields e.runContext payload) = false := by
      simp only [notForLedger, Bool.or_eq_false_iff] at hnot
      simp [passesBy, htask, hnot.1.1.1, hnot.1.1.2, hnot.1.2]
    simp only [htop, hpasses, Bool.false_eq_true, if_false] at h
    rw [applyToStore_asked, hask, answer, reportStep, hstep] at h
    dsimp only at h
    rcases hwritten : reportOn e.type e.eventId payload e.payloadJson (stepFields e.runContext payload) x with ⟨y, _ | _⟩
    · simp [hwritten] at h
    · simp only [hwritten] at h
      split at h
      · cases h
        exact ⟨y, rfl, rfl⟩
      · cases h

/-- A report on a step that has its result agrees with the step, and fills in at most what the step lacks once it has ended. -/
theorem late_report {w : World} {s s' : WorkStore} {e : LedgerEvent} {payload : JsonRef} {x : WorkStep} (hs : WellKept s)
    (hx : x ∈ s.items) (hon : ReportsOn e payload x) (hresult : x.resultEventId ≠ [])
    (h : rtWorkStateApplyEvent w s e = (s', true)) :
    AgreesWith e payload x ∧ (x.terminalEventId ≠ [] →
      ∃ y, stepIndex s' x.taskId x.workRev x.requestId = some y ∧ FillsOnly x y) := by
  have hstep := stepIndex_of_mem hs hx
  obtain ⟨y, hreport, rfl⟩ := live_report hon hstep h
  have hsame := reportOn_same e.type e.eventId payload e.payloadJson (stepFields e.runContext payload) x
  rw [hreport] at hsame
  have hkey := hon.2.2.2.2
  have hitems : (rewritten (stepFields e.runContext payload) y s).items = modifyFirst _ (fun _ => y) s.items := rfl
  have hindex := stepIndex_rewritten (fun z hz => hsame.key.trans (hkey.trans hz.symm)) hitems x.taskId x.workRev
    x.requestId
  rw [if_pos (show _ = (x.taskId, x.workRev, x.requestId) from hkey.symm), hstep, Option.map_some] at hindex
  unfold reportOn at hreport
  split at hreport
  · rename_i hcall
    have hlate := noteReport_late (x := takeAction (stepFields e.runContext payload) x) ?_ hreport
    · refine ⟨?_, fun hterminal => ⟨y, hindex, ?_⟩⟩
      · have hagrees := hlate.1
        unfold takeAction at hagrees
        split at hagrees
        · exact hagrees
        · exact hagrees
      · unfold takeAction at hlate
        split at hlate
        · rename_i hempty
          simp only [Bool.and_eq_true, decide_eq_true_eq] at hempty
          refine ⟨?_, fun hne => absurd hempty.2 hne⟩
          have hfills := (hlate.2 hterminal).1.1
          rw [hfills]
        · have hfills := hlate.2 hterminal
          exact hfills.1
    · unfold takeAction
      split
      · exact hresult
      · exact hresult
  · cases hreport

/-- What is written of the result and the end of a step stays for as long as the step is retained, whatever events
come; and a report on a step that has its result is taken only if it agrees with the step or is no evidence. Once the
step has ended, it can fill in an action, a start or a handle the step lacks, and nothing else. -/
theorem evidence_written_once (before after : List (World × LedgerEvent)) (x : WorkStep)
    (hx : x ∈ (live before).store.items) :
    (∀ y, (∀ n, (stepIndex (live (before ++ after.take n)).store x.taskId x.workRev x.requestId).isSome = true) →
      stepIndex (live (before ++ after)).store x.taskId x.workRev x.requestId = some y →
      (x.resultEventId ≠ [] → SameResult x y) ∧ (x.terminalEventId ≠ [] → SameTerminal x y ∧ SameResult x y)) ∧
      ∀ w e payload s', ReportsOn e payload x → x.resultEventId ≠ [] →
        rtWorkStateApplyEvent w (live before).store e = (s', true) →
        AgreesWith e payload x ∧ (x.terminalEventId ≠ [] →
          ∃ y, stepIndex s' x.taskId x.workRev x.requestId = some y ∧ FillsOnly x y) := by
  have hevident := live_evident before
  refine ⟨fun y hkept hy => ?_, fun w e payload s' hon hresult h => late_report hevident.wellKept hx hon hresult h⟩
  have hkeeps : Keeps x y := by
    refine foldl_keeps hevident after (fun n => ?_) (stepIndex_of_mem hevident.wellKept hx) (by rwa [← live_append])
    rw [← live_append]
    exact hkept n
  exact ⟨hkeeps.result, fun hterminal => ⟨hkeeps.terminal hterminal, hkeeps.result (hevident.ended x hx hterminal)⟩⟩

/-! ## A start behind the end -/

def workDone : LedgerEvent :=
  eventOf "work_completed"
    "\x7b\"task_id\":\"t\",\"work_rev\":1,\"request_id\":\"q\",\"trigger_event_id\":\"g\",\"source_event_id\":\"e3\",\"summary\":\"ok\"\x7d" "e3"

def lateStart : LedgerEvent :=
  eventOf "action_started" "\x7b\"task_id\":\"t\",\"work_rev\":1,\"request_id\":\"q\",\"trigger_event_id\":\"g\"\x7d" "e4"

def endedStep : WorkStep :=
  { firstStep with
    status := lit "completed", resultEventId := lit "e3", terminalEventId := lit "e3", resultKind := lit "work_completed"
    terminalKind := lit "work_completed", detail := lit "\"ok\"", terminalDetail := lit "\"ok\"" }

def endedLedger : WorkStore := { revisions := [firstRevision], items := [endedStep] }

def startedLedger : WorkStore := { revisions := [firstRevision], items := [{ endedStep with startedEventId := lit "e4" }] }

/-- A task and a selection that completes its work. -/
def endedInputs : List (World × LedgerEvent) :=
  [(openWorld, madeTask), (openWorld, firstRequest), (openWorld, workDone)]

theorem ended_live : (live endedInputs).store = endedLedger := by
  have hdone : rtWorkStateApplyEvent openWorld selectedLedger workDone = (endedLedger, true) := by
    unfold workDone eventOf
    rw [lit_ofList, lit_ofList, lit_ofList, lit_ofList]
    decide +kernel
  rw [live, endedInputs, List.foldl_cons, List.foldl_cons, List.foldl_cons, List.foldl_nil, liveStep_taken [] madeTask_live,
    liveStep_taken _ firstRequest_live, liveStep_taken _ hdone]

theorem lateStart_taken : rtWorkStateApplyEvent openWorld endedLedger lateStart = (startedLedger, true) := by
  unfold lateStart eventOf
  rw [lit_ofList, lit_ofList, lit_ofList, lit_ofList]
  decide +kernel

/-- The step has ended, and a first start of it is taken: it is no duplicate and it is not refused. -/
theorem late_start_fills : (∃ x ∈ (live endedInputs).store.items, x.terminalEventId ≠ [] ∧ x.startedEventId = []) ∧
    (rtWorkStateApplyEvent openWorld (live endedInputs).store lateStart).2 = true ∧
    (rtWorkStateApplyEvent openWorld (live endedInputs).store lateStart).1 ≠ (live endedInputs).store := by
  rw [ended_live, lateStart_taken]
  refine ⟨⟨endedStep, List.mem_singleton.mpr rfl, by decide, rfl⟩, rfl, ?_⟩
  intro heq
  have hstarted := congrArg (fun s : WorkStore => s.items.map WorkStep.startedEventId) heq
  simp [startedLedger, endedLedger, endedStep, firstStep] at hstarted
  exact absurd hstarted (by decide)

/-- The end of that step stays as it is behind the late start. -/
theorem ended_step_stays : SameTerminal endedStep { endedStep with startedEventId := lit "e4" } := by
  have hmem : endedStep ∈ (live endedInputs).store.items := by
    rw [ended_live]
    exact List.mem_singleton.mpr rfl
  have hafter : (live (endedInputs ++ [(openWorld, lateStart)])).store = startedLedger := by
    rw [live_append, List.foldl_cons, List.foldl_nil, liveStep, ended_live, lateStart_taken]
  have hkept : ∀ n, (stepIndex (live (endedInputs ++ [(openWorld, lateStart)].take n)).store endedStep.taskId endedStep.workRev
      endedStep.requestId).isSome = true := by
    intro n
    cases n with
    | zero =>
      rw [List.take_zero, List.append_nil, ended_live]
      decide
    | succ n =>
      rw [List.take_succ_cons, List.take_nil, hafter]
      decide
  have hy : stepIndex (live (endedInputs ++ [(openWorld, lateStart)])).store endedStep.taskId endedStep.workRev
      endedStep.requestId = some { endedStep with startedEventId := lit "e4" } := by
    rw [hafter]
    rw [lit_ofList]; decide
  exact (((evidence_written_once endedInputs [(openWorld, lateStart)] endedStep hmem).1 _ hkept hy).2 (by decide)).1

end Floofclaw.Guarantees.Evidence
