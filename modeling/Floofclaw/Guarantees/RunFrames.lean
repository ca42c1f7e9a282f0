import Floofclaw.Source.RunLife

/-!
# What the operations of a run leave alone

The append path moves the event counter of a run and nothing else; the notes of
its actions also move the ledger and raise the two flags of the pass. Each
function of the step machine is described once by what it may change, and the
results about whole runs start from these descriptions.
-/

set_option autoImplicit false

namespace Floofclaw.Guarantees.RunFrames
open Floofclaw.Lib Floofclaw.Source Floofclaw.Source.Actions Floofclaw.Source.Runs Floofclaw.Source.RunSteps
open Floofclaw.Source.Intake Floofclaw.Source.RunLife

/-! ## Notes -/

/-- The counter and the ledger may move, and the flags of the run may rise. -/
def Noted (r r' : RtRun) : Prop :=
  ∃ n l a b c, r' = { r with
    nextEvent := n, ledger := l, deliveredMessage := r.deliveredMessage || a, workProgress := r.workProgress || b
    runStarted := r.runStarted || c }

theorem Noted.refl (r : RtRun) : Noted r r := ⟨r.nextEvent, r.ledger, false, false, false, by simp⟩

theorem Noted.trans {r r1 r2 : RtRun} (h : Noted r r1) (h' : Noted r1 r2) : Noted r r2 := by
  obtain ⟨n, l, a, b, c, rfl⟩ := h
  obtain ⟨n', l', a', b', c', rfl⟩ := h'
  exact ⟨n', l', a || a', b || b', c || c', by simp [Bool.or_assoc]⟩

theorem Noted.counter (r : RtRun) (n : Nat) : Noted r { r with nextEvent := n } :=
  ⟨n, r.ledger, false, false, false, by simp⟩

theorem Noted.ledger (r : RtRun) (l : Ledger) : Noted r { r with ledger := l } :=
  ⟨r.nextEvent, l, false, false, false, by simp⟩

theorem Noted.progress (r : RtRun) (b : Bool) : Noted r { r with workProgress := r.workProgress || b } :=
  ⟨r.nextEvent, r.ledger, false, b, false, by simp⟩

theorem Noted.delivered (r : RtRun) (a : Bool) : Noted r { r with deliveredMessage := r.deliveredMessage || a } :=
  ⟨r.nextEvent, r.ledger, a, false, false, by simp⟩

theorem Noted.started (r : RtRun) : Noted r { r with runStarted := true } :=
  ⟨r.nextEvent, r.ledger, false, false, true, by simp⟩

/-- Only the counter moves. -/
def Numbered (r r' : RtRun) : Prop := ∃ n, r' = { r with nextEvent := n }

theorem Numbered.trans {r r1 r2 : RtRun} (h : Numbered r r1) (h' : Numbered r1 r2) : Numbered r r2 := by
  obtain ⟨_, rfl⟩ := h
  obtain ⟨n, rfl⟩ := h'
  exact ⟨n, rfl⟩

theorem Numbered.noted {r r' : RtRun} (h : Numbered r r') : Noted r r' := by
  obtain ⟨n, rfl⟩ := h
  exact .counter r n

theorem appendLine_numbered (r : RtRun) (d : Disk) (entry : Entry) : Numbered r (appendLine r d entry).1 := ⟨_, rfl⟩

theorem reduceStore_numbered (r : RtRun) (d : Disk) (stores : Option Stores) (message : Bytes) :
    Numbered r (reduceStore r d stores message).1 := by
  unfold reduceStore
  split
  · exact appendLine_numbered r d (.error message)
  · split
    · exact ⟨r.nextEvent, rfl⟩
    · rename_i d1 _
      exact appendLine_numbered r d1 (.error message)

theorem append_numbered (keep : Nat) (r : RtRun) (d : Disk) (entry : Entry) :
    Numbered r (rtAppendEvent keep r d entry).1 := by
  have hline := appendLine_numbered r d entry
  unfold rtAppendEvent
  split
  · rename_i r1 d1 heq
    rw [heq] at hline
    exact hline
  · rename_i r1 d1 heq
    rw [heq] at hline
    split
    · exact hline
    · exact hline.trans (reduceStore_numbered r1 d1 _ _)

theorem append_noted (keep : Nat) (r : RtRun) (d : Disk) (entry : Entry) : Noted r (rtAppendEvent keep r d entry).1 :=
  (append_numbered keep r d entry).noted

/-- The form in which a caller meets an append. -/
theorem append_noted_of {keep : Nat} {r r' : RtRun} {d d' : Disk} {entry : Entry} {ok : Bool}
    (h : rtAppendEvent keep r d entry = (r', d', ok)) : Noted r r' := by
  have := append_noted keep r d entry
  rw [h] at this
  exact this

theorem emitTerminal_noted (keep : Nat) (r : RtRun) (d : Disk) (t : Terminal) : Noted r (RunSteps.emitTerminal keep r d t).1 := by
  unfold RunSteps.emitTerminal
  split
  · rename_i heq
    exact (append_noted_of heq).trans (.ledger _ _)
  · rename_i heq
    exact append_noted_of heq

theorem noteRequest_noted (keep : Nat) (r : RtRun) (d : Disk) (request : Request) :
    Noted r (RunSteps.noteRequest keep r d request).1 := by
  unfold RunSteps.noteRequest
  split
  · exact .refl r
  · exact emitTerminal_noted keep r d _
  · exact emitTerminal_noted keep r d _
  · exact append_noted keep r d _
  · exact .ledger r _

theorem applyOutputEvent_noted (keep : Nat) (r : RtRun) (d : Disk) (entry : Entry) :
    Noted r (applyOutputEvent keep r d entry).1 := by
  unfold applyOutputEvent
  split
  · exact ⟨r.nextEvent, r.ledger, false, true, false, by simp⟩
  · exact (noteRequest_noted keep r d _).trans (.progress _ _)
  · exact .refl r

theorem applyOutputEvents_noted (keep : Nat) (events : List Entry) (r : RtRun) (d : Disk) :
    Noted r (rtRunApplyOutputEvents keep events r d).1 := by
  induction events generalizing r d with
  | nil => exact .refl r
  | cons e events ih => exact (applyOutputEvent_noted keep r d e).trans (ih _ _)

theorem appendOutput_noted (keep : Nat) (events : List Entry) (r : RtRun) (d : Disk) :
    Noted r (appendOutput keep events r d).1 := by
  induction events generalizing r d with
  | nil => exact .refl r
  | cons e events ih =>
    unfold appendOutput
    split
    · rename_i heq
      exact (append_noted_of heq).trans (ih _ _)
    · rename_i heq
      exact append_noted_of heq

theorem emitStarted_noted (keep : Nat) (r : RtRun) (d : Disk) (rid : Bytes) : Noted r (emitStarted keep r d rid).1 := by
  unfold emitStarted
  split
  · rename_i heq
    exact (append_noted_of heq).trans (.ledger _ _)
  · rename_i heq
    exact append_noted_of heq

theorem finishRequest_noted (keep : Nat) (r : RtRun) (d : Disk) (request : Request) (t : Terminal) :
    Noted r (finishRequest keep r d request t).1 := by
  unfold finishRequest
  dsimp only
  have hflag : Noted r (if request.call.action = lit "message" ∧ t.kind = .succeeded then
      { r with deliveredMessage := true } else r) := by
    split
    · simpa using Noted.delivered r true
    · exact .refl r
  split
  · rename_i heq
    exact hflag.trans (append_noted_of heq)
  · rename_i heq
    exact (hflag.trans (append_noted_of heq)).trans ((Noted.progress _ _).trans (.ledger _ _))

/-! ## Ending -/

theorem terminalizeTasks_noted (keep : Nat) (type state : Bytes) (ids : List Bytes) (r : RtRun) (d : Disk) :
    Noted r (terminalizeTasks keep type state ids r d).1 := by
  induction ids generalizing r d with
  | nil => exact .refl r
  | cons id ids ih =>
    unfold terminalizeTasks
    split
    · exact .refl r
    · split
      · rename_i heq
        exact (append_noted_of heq).trans (ih _ _)
      · rename_i heq
        exact append_noted_of heq

theorem endTasks_noted (keep : Nat) (r : RtRun) (d : Disk) (ending : Ending) : Noted r (endTasks keep r d ending).1 := by
  cases ending with
  | done => exact .refl r
  | failed => exact terminalizeTasks_noted keep _ _ _ r d
  | canceled => exact terminalizeTasks_noted keep _ _ _ r d

/-- The run is over, its cursor and its counter where they were. -/
def Ended (r r' : RtRun) : Prop :=
  ∃ r1 state, Noted r r1 ∧ state.terminal = true ∧ r' = { r1 with terminalEmitted := true, state := state }

theorem terminal_ended (keep : Nat) (profile : RtProfile) {r : RtRun} (d : Disk) (ending : Ending)
    (hopen : r.terminalEmitted = false) : Ended r (applyRunTerminalEvent keep profile r d ending).1 := by
  unfold applyRunTerminalEvent
  rw [if_neg (by simp [hopen])]
  dsimp only
  refine ⟨_, _, (endTasks_noted keep r d ending).trans (append_noted keep _ _ _), ?_, rfl⟩
  split
  · cases ending <;> rfl
  · rfl

theorem Noted.ended {r r1 r' : RtRun} (h : Noted r r1) (h' : Ended r1 r') : Ended r r' := by
  obtain ⟨r2, state, hnoted, hterminal, rfl⟩ := h'
  exact ⟨r2, state, h.trans hnoted, hterminal, rfl⟩

theorem Noted.open {r r' : RtRun} (h : Noted r r') (hopen : r.terminalEmitted = false) : r'.terminalEmitted = false := by
  obtain ⟨_, _, _, _, _, rfl⟩ := h
  exact hopen

/-- A run that has not ended yet ends behind notes. -/
theorem Noted.terminal {keep : Nat} {profile : RtProfile} {r r1 : RtRun} {d : Disk} {ending : Ending} (h : Noted r r1)
    (hopen : r.terminalEmitted = false) : Ended r (applyRunTerminalEvent keep profile r1 d ending).1 :=
  h.ended (terminal_ended keep profile d ending (h.open hopen))

/-! ## Launching and draining -/

section Drain
variable (keep : Nat) (profile : RtProfile) {env : StepEnv} {request : Request}

theorem launch_busy (r : RtRun) (d : Disk) (h : env.launch request = .busy) :
    rtActionRunnerLaunch keep profile env r d request = (r, d, .busy) := by simp [rtActionRunnerLaunch, h]

theorem launch_failed (r : RtRun) (d : Disk) (h : env.launch request = .failed) :
    rtActionRunnerLaunch keep profile env r d request = (r, d, .error) := by simp [rtActionRunnerLaunch, h]

theorem launch_finished (r : RtRun) (d : Disk) {started : Bool} {t : Terminal}
    (h : env.launch request = .finished started t) :
    ∃ r' d' result, rtActionRunnerLaunch keep profile env r d request = (r', d', result) ∧ Noted r r' ∧ result ≠ .busy := by
  simp only [rtActionRunnerLaunch, h]
  have hstarted : Noted r (if started then emitStarted keep r d request.requestId else (r, d, true)).1 := by
    split
    · exact emitStarted_noted keep r d _
    · exact .refl r
  generalize (if started then emitStarted keep r d request.requestId else (r, d, true)) = s at hstarted
  obtain ⟨r1, d1, ok1⟩ := s
  cases ok1 with
  | false => exact ⟨r1, d1, .error, rfl, hstarted, by simp⟩
  | true =>
    have hfinished := finishRequest_noted keep r1 d1 request t
    dsimp only at hstarted ⊢
    generalize finishRequest keep r1 d1 request t = f at hfinished
    obtain ⟨r2, d2, ok2⟩ := f
    cases ok2 with
    | false => exact ⟨r2, d2, .error, rfl, hstarted.trans hfinished, by simp⟩
    | true => exact ⟨r2, d2, .ok, rfl, hstarted.trans hfinished, by simp⟩

/-- A job without a name is not waited for. -/
theorem launch_job {r : RtRun} (d : Disk) {j : Bytes} (h : env.launch request = .job j) (hjobs : r.waitingJobs = []) :
    ∃ r1 d', Noted r r1 ∧ (rtActionRunnerLaunch keep profile env r d request = (r1, d', .error) ∨
      rtActionRunnerLaunch keep profile env r d request =
        (if j = [] then r1 else { r1 with waitingJobs := [j] }, d', .ok)) := by
  simp only [rtActionRunnerLaunch, h]
  have hstarted := emitStarted_noted keep r d request.requestId
  generalize emitStarted keep r d request.requestId = s at hstarted
  obtain ⟨r1, d1, ok1⟩ := s
  cases ok1 with
  | false => exact ⟨r1, d1, hstarted, .inl rfl⟩
  | true =>
    have hjobs1 : r1.waitingJobs = [] := by
      obtain ⟨_, _, _, _, _, rfl⟩ := hstarted
      exact hjobs
    refine ⟨r1, (rtRunWaitingJobAdd profile r1 d1 j).2, hstarted, .inr ?_⟩
    by_cases hj : j = []
    · simp [rtRunWaitingJobAdd, hj]
    · simp [rtRunWaitingJobAdd, hj, hjobs1, rtMaxWaitingJobs]

/-- The launch a drain does not get past; what comes before it is over at once. -/
def drainStop (env : StepEnv) : List Pending → Option LaunchOutcome
  | [] => none
  | p :: rest =>
    if p.started then drainStop env rest
    else
      match env.launch p.request with
      | .finished _ _ | .job [] => drainStop env rest
      | outcome => some outcome

/-- How a drain ends on a run that waits for no job. -/
inductive Drained (implicit : Bool) (r : RtRun) (stop : Option LaunchOutcome) (r' : RtRun) : StepResult → Prop
  | emptied (result : StepResult) (hresult : result = .advanced ∨ result = .done) (hnoted : Noted r r') :
    Drained implicit r stop r' result
  | parked {r1 : RtRun} (rid action : Bytes) (hstop : stop = some .busy) (hnoted : Noted r r1)
    (heq : r' = { r1 with state := .waitingActionSlot, wait := .slot rid action }) :
    Drained implicit r stop r' .waitingActionSlot
  | ended (hended : Ended r r') : Drained implicit r stop r' .failed
  | waits {r1 : RtRun} {j : Bytes} (rid action : Bytes) (hstop : stop = some (.job j)) (hnoted : Noted r r1)
    (heq : r' = { r1 with
      waitingJobs := [j]
      phase := if !implicit && !r1.actionCliOnly && !profile.onePass then 0 else r1.phase
      state := .waitingJobs, wait := .action rid action }) : Drained implicit r stop r' .waitingJob

theorem Drained.before {implicit : Bool} {r r1 r' : RtRun} {stop : Option LaunchOutcome} {result : StepResult}
    (h : Drained profile implicit r1 stop r' result) (hnoted : Noted r r1) : Drained profile implicit r stop r' result := by
  cases h with
  | emptied result hresult h => exact .emptied result hresult (hnoted.trans h)
  | parked rid action hstop h heq => exact .parked rid action hstop (hnoted.trans h) heq
  | ended h => exact .ended (hnoted.ended h)
  | waits rid action hstop h heq => exact .waits rid action hstop (hnoted.trans h) heq

theorem drain_drained (env : StepEnv) (implicit launchedAny : Bool) (ps : List Pending) (r : RtRun) (d : Disk)
    (hopen : r.terminalEmitted = false) (hjobs : r.waitingJobs = []) :
    Drained profile implicit r (drainStop env ps)
      (drainPendingEffect keep profile env implicit launchedAny ps r d).1
      (drainPendingEffect keep profile env implicit launchedAny ps r d).2.2 := by
  induction ps generalizing r d launchedAny with
  | nil =>
    refine .emptied _ ?_ (.refl r)
    cases launchedAny
    · exact .inr rfl
    · exact .inl rfl
  | cons p rest ih =>
    by_cases hstarted : p.started = true
    · simp only [drainPendingEffect, drainStop, hstarted, if_true]
      exact ih launchedAny r d hopen hjobs
    simp only [drainPendingEffect, drainStop, hstarted, Bool.false_eq_true, if_false]
    cases hlaunch : env.launch p.request with
    | busy =>
      rw [launch_busy keep profile r d hlaunch]
      exact .parked _ _ rfl (.refl r) rfl
    | failed =>
      rw [launch_failed keep profile r d hlaunch]
      exact .ended (terminal_ended keep profile d .failed hopen)
    | finished started t =>
      obtain ⟨r1, d1, result, heq, hnoted, hbusy⟩ := launch_finished keep profile r d hlaunch
      rw [heq]
      have hjobs1 : r1.waitingJobs = [] := by
        obtain ⟨_, _, _, _, _, rfl⟩ := hnoted
        exact hjobs
      cases result with
      | busy => exact absurd rfl hbusy
      | error => exact .ended (hnoted.terminal hopen)
      | ok =>
        simp only [hjobs1, ne_eq, not_true_eq_false, if_false]
        exact (ih true r1 d1 (hnoted.open hopen) hjobs1).before profile hnoted
    | job j =>
      obtain ⟨r1, d1, hnoted, heq | heq⟩ := launch_job keep profile d hlaunch hjobs
      · rw [heq]
        exact .ended (hnoted.terminal hopen)
      rw [heq]
      have hjobs1 : r1.waitingJobs = [] := by
        obtain ⟨_, _, _, _, _, rfl⟩ := hnoted
        exact hjobs
      by_cases hj : j = []
      · subst hj
        simp only [if_true, hjobs1, ne_eq, not_true_eq_false, if_false]
        exact (ih true r1 d1 (hnoted.open hopen) hjobs1).before profile hnoted
      · obtain ⟨b, j', rfl⟩ := List.exists_cons_of_ne_nil hj
        rw [if_neg hj]
        dsimp only
        rw [if_pos (by simp)]
        refine .waits p.request.requestId p.request.call.action rfl hnoted ?_
        split
        · rfl
        · rfl

end Drain

/-! ## Steps -/

theorem emitRunStarted_run (keep : Nat) (r : RtRun) (d : Disk) :
    ∃ n, (emitRunStarted keep r d).1 = { r with nextEvent := n, runStarted := true } := by
  unfold emitRunStarted
  split
  · rename_i hstarted
    exact ⟨r.nextEvent, by cases r; simp_all⟩
  · obtain ⟨n, heq⟩ := append_numbered keep r d .runStarted
    refine ⟨n, ?_⟩
    dsimp only
    rw [heq]

/-- Whether the step at the cursor empties the queue before, or instead of, anything else. -/
def drains (profile : RtProfile) (env : StepEnv) (r : RtRun) : Bool :=
  match profile.steps[r.phase]? with
  | none => true
  | some step =>
    !stepIsExplicitActionRunner step ||
      ((gateLookupError env step).isNone && (stepGateSkipReason env r step).isNone)

/-- Whether waiting for a job rewinds the walk: it is the declared behaviour of an explicit runner in a looping profile. -/
def rewindsOnWait (profile : RtProfile) (r : RtRun) : Bool :=
  (profile.steps[r.phase]?).any stepIsExplicitActionRunner && !r.actionCliOnly && !profile.onePass

/-- What the walk makes of a run that waits for nothing. -/
inductive Advanced (profile : RtProfile) (env : StepEnv) (r r' : RtRun) : Prop
  | went {r1 : RtRun} (hnoted : Noted r r1) (phase : Nat) (hphase : r.phase ≤ phase)
    (heq : r' = { r1 with phase := phase })
  | rewound (heq : r' = { r with phase := 0, state := .ready })
  | ended (hended : Ended r r')
  | parked {r1 : RtRun} (rid action : Bytes) (hdrains : drains profile env r = true)
    (hstop : drainStop env r.ledger.pending = some .busy) (hnoted : Noted r r1)
    (heq : r' = { r1 with state := .waitingActionSlot, wait := .slot rid action })
  | waits {r1 : RtRun} {j : Bytes} (rid action : Bytes) (hdrains : drains profile env r = true)
    (hstop : drainStop env r.ledger.pending = some (.job j)) (hnoted : Noted r r1)
    (heq : r' = { r1 with
      waitingJobs := [j], phase := if rewindsOnWait profile r then 0 else r.phase
      state := .waitingJobs, wait := .action rid action })
  | agent (jobs : List Bytes) (stepId : Bytes) (hjobs : jobs.length ≤ 1)
    (hstep : (profile.steps[r.phase]?).any stepIsExplicitActionRunner = false)
    (heq : r' = { r with waitingJobs := jobs, phase := r.phase + 1, state := .waitingJobs, wait := .agent stepId })

theorem Noted.went {profile : RtProfile} {env : StepEnv} {r r' : RtRun} (h : Noted r r') : Advanced profile env r r' := by
  refine .went h r.phase (Nat.le_refl _) ?_
  obtain ⟨_, _, _, _, _, rfl⟩ := h
  rfl

section Step
variable (keep : Nat) (profile : RtProfile) (env : StepEnv) {r : RtRun} (d : Disk)

theorem Noted.advance {r1 : RtRun} (h : Noted r r1) (d1 : Disk) : Advanced profile env r (advancePhase profile r1 d1).1 := by
  refine .went h (r.phase + 1) (Nat.le_succ _) ?_
  obtain ⟨_, _, _, _, _, rfl⟩ := h
  rfl

theorem failStep_ended {r1 : RtRun} (step : RtStep) (h : Noted r r1) (hopen : r.terminalEmitted = false) :
    Ended r (failStep keep profile r1 d step).1 := by
  unfold failStep
  split
  · exact h.terminal hopen
  · exact h.terminal hopen

theorem startAgent_advanced (step : RtStep) (hopen : r.terminalEmitted = false) (hjobs : r.waitingJobs = [])
    (hstep : (profile.steps[r.phase]?).any stepIsExplicitActionRunner = false) :
    Advanced profile env r (startAgentStep keep profile env r d step).1 := by
  have hfailed : ∀ {r1 : RtRun} (d1 : Disk), Noted r r1 → Advanced profile env r
      (if step.nonCritical then
        ((advancePhase profile r1 d1).1, (advancePhase profile r1 d1).2, StepResult.advanced)
      else failStep keep profile r1 d1 step).1 := by
    intro r1 d1 hnoted
    split
    · exact hnoted.advance profile env d1
    · exact .ended (failStep_ended keep profile d1 step hnoted hopen)
  unfold startAgentStep
  dsimp only
  split
  · exact hfailed d (.refl r)
  · rename_i events _
    have happended := appendOutput_noted keep events r d
    generalize appendOutput keep events r d = a at happended
    obtain ⟨r1, d1, ok⟩ := a
    cases ok with
    | false => exact hfailed d1 happended
    | true =>
      have hnoted := happended.trans (applyOutputEvents_noted keep events r1 d1)
      dsimp only
      split
      · exact .ended (failStep_ended keep profile _ step hnoted hopen)
      · exact hnoted.advance profile env (rtRunApplyOutputEvents keep events r1 d1).2
  · rename_i jobId _
    by_cases hj : jobId = []
    · refine .agent [] step.id (by simp) hstep ?_
      simp [rtRunWaitingJobAdd, hj, advancePhase, rtRunSetPhaseIndex, waitFor, rtRunSetState, hjobs]
    · refine .agent [jobId] step.id (by simp) hstep ?_
      simp [rtRunWaitingJobAdd, hj, hjobs, rtMaxWaitingJobs, advancePhase, rtRunSetPhaseIndex, waitFor, rtRunSetState]

/-- A drain that stopped, explicit or not. -/
theorem Drained.stopped {implicit : Bool} {r' : RtRun} {result : StepResult}
    (h : Drained profile implicit r (drainStop env r.ledger.pending) r' result) (hdrains : drains profile env r = true)
    (hexplicit : (profile.steps[r.phase]?).any stepIsExplicitActionRunner = !implicit)
    (hresult : result ≠ .advanced ∧ result ≠ .done) : Advanced profile env r r' := by
  cases h with
  | emptied result hempty hnoted =>
    rcases hempty with rfl | rfl
    · exact absurd rfl hresult.1
    · exact absurd rfl hresult.2
  | parked rid action hstop hnoted heq => exact .parked rid action hdrains hstop hnoted heq
  | ended hended => exact .ended hended
  | waits rid action hstop hnoted heq =>
    refine .waits rid action hdrains hstop hnoted ?_
    obtain ⟨_, _, _, _, _, rfl⟩ := hnoted
    rw [heq, rewindsOnWait, hexplicit]

theorem implicitDrain_advanced (hopen : r.terminalEmitted = false) (hjobs : r.waitingJobs = [])
    (hstep : (profile.steps[r.phase]?).any stepIsExplicitActionRunner = false) :
    Advanced profile env r (drainPendingEffect keep profile env true false r.ledger.pending r d).1 := by
  have hdrains : drains profile env r = true := by
    unfold drains
    split
    · rfl
    · rename_i step hcursor
      rw [hcursor] at hstep
      simp [show stepIsExplicitActionRunner step = false from hstep]
  have hdrained := drain_drained keep profile env true false r.ledger.pending r d hopen hjobs
  generalize drainPendingEffect keep profile env true false r.ledger.pending r d = drained at hdrained
  obtain ⟨r', d', result⟩ := drained
  dsimp only at hdrained ⊢
  by_cases hresult : result ≠ .advanced ∧ result ≠ .done
  · exact hdrained.stopped profile env hdrains (by simp [hstep]) hresult
  · cases hdrained with
    | emptied result hempty hnoted => exact hnoted.went
    | parked rid action hstop hnoted heq => simp at hresult
    | ended hended => simp at hresult
    | waits rid action hstop hnoted heq => simp at hresult

theorem dispatch_advanced {step : RtStep} (hopen : r.terminalEmitted = false) (hjobs : r.waitingJobs = [])
    (hcursor : profile.steps[r.phase]? = some step) (hlookup : gateLookupError env step = none)
    (hgate : stepGateSkipReason env r step = none) :
    Advanced profile env r (dispatchStep keep profile env r d step).1 := by
  unfold dispatchStep
  dsimp only
  generalize d.wrote _ = d
  split
  · rename_i hagent
    have hstep : (profile.steps[r.phase]?).any stepIsExplicitActionRunner = false := by
      have hne : lit "agent" ≠ lit "builtin" := lit_ne (by decide)
      simp [hcursor, stepIsExplicitActionRunner, hagent, hne]
    exact startAgent_advanced keep profile env d step hopen hjobs hstep
  split
  · rename_i hexplicit
    have hdrains : drains profile env r = true := by simp [drains, hcursor, hlookup, hgate]
    have hdrained := drain_drained keep profile env false false r.ledger.pending r d hopen hjobs
    generalize drainPendingEffect keep profile env false false r.ledger.pending r d = drained at hdrained
    obtain ⟨r', d', result⟩ := drained
    have hstopped : result ≠ .advanced ∧ result ≠ .done → Advanced profile env r r' :=
      hdrained.stopped profile env hdrains (by simp [hcursor, hexplicit])
    cases hdrained with
    | emptied result hempty hnoted =>
      rcases hempty with rfl | rfl
      · exact hnoted.advance profile env d'
      · exact hnoted.advance profile env d'
    | parked rid action hstop hnoted heq => exact hstopped (by simp)
    | ended hended => exact hstopped (by simp)
    | waits rid action hstop hnoted heq => exact hstopped (by simp)
  · exact .ended ((append_noted keep r d _).terminal hopen)

theorem walk_advanced {step : RtStep} (hopen : r.terminalEmitted = false) (hjobs : r.waitingJobs = [])
    (hcursor : profile.steps[r.phase]? = some step) : Advanced profile env r (walkStep keep profile env r d step).1 := by
  unfold walkStep
  split
  · exact .ended ((append_noted keep r d _).terminal hopen)
  · rename_i hlookup
    split
    · exact (Noted.refl r).advance profile env d
    · rename_i hgate
      exact dispatch_advanced keep profile env d hopen hjobs hcursor hlookup hgate

theorem finishAdvance_advanced (hopen : r.terminalEmitted = false) (hjobs : r.waitingJobs = []) :
    Advanced profile env r (finishAdvance keep profile env r d).1 := by
  unfold finishAdvance
  rw [if_neg (by simp [hjobs])]
  split
  · exact .rewound rfl
  · exact .ended (terminal_ended keep profile d .done hopen)

theorem advanceRun_advanced (hopen : r.terminalEmitted = false) (hjobs : r.waitingJobs = []) :
    Advanced profile env r (advanceRun keep profile env r d).1 := by
  unfold advanceRun
  split
  · rename_i hcursor
    split
    · exact implicitDrain_advanced keep profile env d hopen hjobs (by simp [hcursor])
    · exact finishAdvance_advanced keep profile env d hopen hjobs
  · rename_i step hcursor
    split
    · rename_i hpending
      exact implicitDrain_advanced keep profile env d hopen hjobs (by simp [hcursor, hpending.2])
    · exact walk_advanced keep profile env d hopen hjobs hcursor

/-- The start of a pass, where the cursor stands at zero and the run is ready. -/
def begins (r : RtRun) : Bool := r.phase = 0 && r.state = .ready

/-- The run a pass goes on with: counted and cleared where it begins. -/
def begun (r : RtRun) : RtRun :=
  if begins r then { r with advance := r.advance + 1, deliveredMessage := false, workProgress := false, state := .running }
  else { r with state := .running }

theorem begin_capped (hbegins : begins r = true) (hcap : rtMaxProfilePasses ≤ r.advance) (hopen : r.terminalEmitted = false) :
    Ended r (beginAdvanceIfNeeded keep profile r d).1 ∧ (beginAdvanceIfNeeded keep profile r d).2.2 = false := by
  simp only [begins, Bool.and_eq_true, decide_eq_true_eq] at hbegins
  unfold beginAdvanceIfNeeded
  rw [if_pos ⟨hbegins.1, hbegins.2, hcap⟩]
  exact ⟨terminal_ended keep profile d .failed hopen, rfl⟩

theorem begin_begun (hstate : r.state = .ready ∨ r.state = .running)
    (hcap : begins r = true → r.advance < rtMaxProfilePasses) :
    (beginAdvanceIfNeeded keep profile r d).1 = begun r ∧ (beginAdvanceIfNeeded keep profile r d).2.2 = true := by
  simp only [begins, Bool.and_eq_true, decide_eq_true_eq] at hcap
  unfold beginAdvanceIfNeeded
  rw [if_neg fun h => absurd (hcap ⟨h.1, h.2.1⟩) (Nat.not_lt.mpr h.2.2)]
  refine ⟨?_, rfl⟩
  unfold begun begins
  by_cases hphase : r.phase = 0
  · rcases hstate with hready | hrunning
    · simp [hphase, hready, rtRunSetState]
    · cases r
      simp_all
  · rcases hstate with hready | hrunning
    · simp [hphase, hready, rtRunSetState]
    · cases r
      simp_all

/-- One step of a run: it ends, before or in place of its pass, or the pass it is in goes on. -/
theorem step_cases (hstate : r.state = .ready ∨ r.state = .running) (hopen : r.terminalEmitted = false)
    (hjobs : r.waitingJobs = []) :
    (Ended r (rtRunStepReady keep profile env r d).1 ∧
        (env.snapshot = false ∨ (begins r = true ∧ rtMaxProfilePasses ≤ r.advance))) ∨
      (env.snapshot = true ∧ (begins r = true → r.advance < rtMaxProfilePasses) ∧
        ∃ n, Advanced profile env (begun { r with nextEvent := n, runStarted := true })
          (rtRunStepReady keep profile env r d).1) := by
  obtain ⟨n, hstarted⟩ := emitRunStarted_run keep r d
  unfold rtRunStepReady
  generalize emitRunStarted keep r d = started at hstarted
  obtain ⟨r1, d1⟩ := started
  dsimp only at hstarted ⊢
  have hnoted : Noted r r1 := hstarted ▸ ((Noted.counter r n).trans (.started _))
  have hrun : (begun r1).waitingJobs = [] ∧ (begun r1).terminalEmitted = false := by
    unfold begun
    rw [hstarted]
    split
    · exact ⟨hjobs, hopen⟩
    · exact ⟨hjobs, hopen⟩
  have hbegins : begins r1 = begins r := by rw [hstarted]; rfl
  have hadvance : r1.advance = r.advance := by rw [hstarted]
  have hstate1 : r1.state = .ready ∨ r1.state = .running := by rw [hstarted]; exact hstate
  split
  · rename_i hsnapshot
    exact .inl ⟨hnoted.terminal hopen, .inl (by simpa using hsnapshot)⟩
  rename_i hsnapshot
  by_cases hcap : begins r = true → r.advance < rtMaxProfilePasses
  · right
    obtain ⟨hbegun, hok⟩ := begin_begun keep profile d1 hstate1 (by rw [hbegins, hadvance]; exact hcap)
    generalize beginAdvanceIfNeeded keep profile r1 d1 = b at hbegun hok
    obtain ⟨r2, d2, ok⟩ := b
    dsimp only at hbegun hok
    subst hbegun hok
    refine ⟨by simpa using hsnapshot, hcap, n, ?_⟩
    have hadvanced := advanceRun_advanced keep profile env d2 hrun.2 hrun.1
    subst hstarted
    exact hadvanced
  · left
    rw [Classical.not_imp, Nat.not_lt] at hcap
    obtain ⟨hended, hok⟩ := begin_capped keep profile d1 (hbegins ▸ hcap.1) (hadvance ▸ hcap.2) (hnoted.open hopen)
    generalize beginAdvanceIfNeeded keep profile r1 d1 = b at hended hok
    obtain ⟨r2, d2, ok⟩ := b
    dsimp only at hended hok
    subst hok
    exact ⟨hnoted.ended hended, .inr hcap⟩

end Step

/-! ## Wakes -/

/-- What a finished job makes of the run that waited for it. -/
inductive Pumped (r : RtRun) (jobId : Bytes) (agent : Bool) (r' : RtRun) : Prop
  | resumed {r1 : RtRun} (hagent : agent = true) (hnoted : Noted r r1) (phase : Nat)
    (heq : r' = { r1 with waitingJobs := r.waitingJobs.erase jobId, phase := phase, state := .running, wait := .none })
  | held {r1 : RtRun} (hagent : agent = true) (hnoted : Noted r r1) (phase : Nat)
    (hjobs : r.waitingJobs.erase jobId ≠ [])
    (heq : r' = { r1 with waitingJobs := r.waitingJobs.erase jobId, phase := phase, state := .waitingJobs, wait := .none })
  | rewound {r1 : RtRun} (hagent : agent = true) (hnoted : Noted r r1) (attempts : Nat)
    (heq : r' = { r1 with
      waitingJobs := r.waitingJobs.erase jobId, attempts := attempts, phase := 0, state := .ready, wait := .none })
  | woken {r1 : RtRun} (hagent : agent = false) (hnoted : Noted r r1)
    (heq : r' = { r1 with
      waitingJobs := r.waitingJobs.erase jobId
      state := if r.waitingJobs.erase jobId ≠ [] then .waitingJobs else .ready, wait := .none })
  | ended (phase : Nat) (hended : Ended { r with waitingJobs := r.waitingJobs.erase jobId, phase := phase } r')

section Pump
variable (keep : Nat) (profile : RtProfile)

/-- A completion notes the output of the agent, or takes the cursor back to its step. -/
theorem completeAgent_noted (r : RtRun) (d : Disk) (ending : AgentJobEnd) :
    ∃ r1 phase, Noted r r1 ∧ (completeAgentJob keep profile r d ending).1 = { r1 with phase := phase } := by
  unfold completeAgentJob
  split
  · exact ⟨r, r.phase, .refl r, rfl⟩
  · rename_i events
    have happended := appendOutput_noted keep events r d
    generalize appendOutput keep events r d = a at happended
    obtain ⟨r1, d1, ok⟩ := a
    cases ok with
    | false => exact ⟨r1, r1.phase, happended, rfl⟩
    | true => exact ⟨_, _, happended.trans (applyOutputEvents_noted keep events r1 d1), rfl⟩
  · split
    · exact ⟨r, r.phase, .refl r, rfl⟩
    · exact ⟨r, r.phase - 1, .refl r, rfl⟩

theorem agentFailure_pumped {r r1 : RtRun} (d : Disk) (stepId jobId : Bytes) (phase : Nat) (hnoted : Noted r r1)
    (hopen : r.terminalEmitted = false) :
    Pumped r jobId true
      (wakeAfterAgentFailure keep profile { r1 with waitingJobs := r.waitingJobs.erase jobId, phase := phase } d stepId).1 := by
  have hended : ∀ ending, Pumped r jobId true (applyRunTerminalEvent keep profile
      { r1 with waitingJobs := r.waitingJobs.erase jobId, phase := phase } d ending).1 := by
    intro ending
    refine .ended phase (Noted.terminal ?_ hopen)
    obtain ⟨n, l, a, b, c, rfl⟩ := hnoted
    exact ⟨n, l, a, b, c, rfl⟩
  unfold wakeAfterAgentFailure
  split
  · exact hended .done
  split
  · dsimp only
    by_cases hjobs : r.waitingJobs.erase jobId = []
    · refine .resumed rfl hnoted phase ?_
      simp [hjobs, rtRunSetState, waitClear]
    · refine .held rfl hnoted phase hjobs ?_
      simp [hjobs, rtRunSetState, waitClear]
  split
  · dsimp only
    generalize hm : Entry.error _ = entry
    have happended := append_noted keep
      { r1 with waitingJobs := r.waitingJobs.erase jobId, phase := phase, attempts := r1.attempts + 1 } d entry
    obtain ⟨n, l, a, b, c, heq⟩ := happended
    have hreported : Noted r { r1 with
        nextEvent := n, ledger := l, deliveredMessage := r1.deliveredMessage || a
        workProgress := r1.workProgress || b, runStarted := r1.runStarted || c } := hnoted.trans ⟨n, l, a, b, c, rfl⟩
    refine .rewound rfl hreported (r1.attempts + 1) ?_
    simp only [rtRunSetState, waitClear]
    rw [heq]
  · exact hended .failed

theorem pump_pumped {r r' : RtRun} {d d' : Disk} {jobId : Bytes} {job : JobEnd} (hopen : r.terminalEmitted = false)
    (h : pumpFinishedJob keep profile r d jobId job = some (r', d')) :
    r.state = .waitingJobs ∧ ((∃ stepId ending, job = .agent stepId ending ∧ r.wait = .agent stepId ∧ Pumped r jobId true r') ∨
      ((∃ rid t, job = .action rid t) ∧ Pumped r jobId false r')) := by
  unfold pumpFinishedJob at h
  split at h
  · cases h
  rename_i hstate
  refine ⟨by simpa using hstate, ?_⟩
  split at h
  · rename_i stepId ending
    split at h
    · cases h
    rename_i hwait
    refine .inl ⟨stepId, ending, rfl, by simpa using hwait, ?_⟩
    obtain ⟨r1, phase, hnoted, heq⟩ := completeAgent_noted keep profile r d ending
    generalize completeAgentJob keep profile r d ending = c at heq h
    obtain ⟨r2, d2, ok⟩ := c
    dsimp only at heq h
    have hjobs : r2.waitingJobs = r.waitingJobs := by
      obtain ⟨_, _, _, _, _, rfl⟩ := hnoted
      rw [heq]
    have hrun : { r2 with waitingJobs := r2.waitingJobs.erase jobId } =
        { r1 with waitingJobs := r.waitingJobs.erase jobId, phase := phase } := by
      rw [hjobs, heq]
    rw [hrun] at h
    split at h
    · cases h
      exact .resumed rfl hnoted phase rfl
    · have hfailure := agentFailure_pumped keep profile d2 stepId jobId phase hnoted hopen
      rw [Option.some.inj h] at hfailure
      exact hfailure
  · rename_i rid t
    split at h
    · cases h
    rename_i p _
    refine .inr ⟨⟨rid, t, rfl⟩, ?_⟩
    have hnoted := finishRequest_noted keep r d p.request t
    generalize finishRequest keep r d p.request t = f at hnoted h
    obtain ⟨r1, d1, ok⟩ := f
    dsimp only at hnoted h
    have hjobs : r1.waitingJobs = r.waitingJobs := by
      obtain ⟨_, _, _, _, _, rfl⟩ := hnoted
      rfl
    rw [hjobs] at h
    split at h
    · cases h
      exact .woken rfl hnoted rfl
    · have hended : Ended { r with waitingJobs := r.waitingJobs.erase jobId, phase := r.phase } r' := by
        rw [← show _ = r' from congrArg Prod.fst (Option.some.inj h)]
        refine Noted.terminal ?_ hopen
        obtain ⟨n, l, a, b, c, rfl⟩ := hnoted
        exact ⟨n, l, a, b, c, rfl⟩
      exact .ended r.phase hended

end Pump

/-! ## Intake -/

/-- The pass of a run is where it was: its counter, its flags, what it waits for, and that it goes on. -/
structure SamePass (r r' : RtRun) : Prop where
  number : r'.number = r.number
  advance : r'.advance = r.advance
  delivered : r.deliveredMessage = true → r'.deliveredMessage = true
  progress : r.workProgress = true → r'.workProgress = true
  jobs : r'.waitingJobs = r.waitingJobs
  wait : r'.wait = r.wait
  emitted : r'.terminalEmitted = r.terminalEmitted
  state : r'.state = r.state ∨ r'.state = .ready

theorem SamePass.refl (r : RtRun) : SamePass r r := ⟨rfl, rfl, id, id, rfl, rfl, rfl, .inl rfl⟩

theorem SamePass.trans {r r1 r2 : RtRun} (h : SamePass r r1) (h' : SamePass r1 r2) : SamePass r r2 := by
  refine ⟨h'.number.trans h.number, h'.advance.trans h.advance, h'.delivered ∘ h.delivered, h'.progress ∘ h.progress, h'.jobs.trans h.jobs,
    h'.wait.trans h.wait, h'.emitted.trans h.emitted, ?_⟩
  rcases h'.state with hs | hs
  · rw [hs]
    exact h.state
  · exact .inr hs

theorem Noted.samePass {r r' : RtRun} (h : Noted r r') : SamePass r r' := by
  obtain ⟨_, _, _, _, _, rfl⟩ := h
  exact ⟨rfl, rfl, fun h => by simp [h], fun h => by simp [h], rfl, rfl, rfl, .inl rfl⟩

theorem populate_samePass {host : Host} {ops : Operations.OperationStore} {r r' : RtRun} {e : Envelope}
    (h : populate host ops r e = some r') : SamePass r r' := by
  cases e with
  | ordinary env =>
    obtain ⟨inbound, -, rfl⟩ := Option.map_eq_some_iff.mp h
    exact ⟨rfl, rfl, id, id, rfl, rfl, rfl, .inl rfl⟩
  | claim claim =>
    simp only [populate, populateClaim] at h
    split at h
    · cases h
    split at h
    · cases h
      exact ⟨rfl, rfl, id, id, rfl, rfl, rfl, .inl rfl⟩
    · cases h

theorem commitEffects_noted (host : Host) (r : RtRun) (d : Disk) (e : Envelope) : Noted r (commitEffects host r d e).1 := by
  unfold commitEffects
  split
  · rename_i claim
    unfold rtOperationOnClaimCommitted
    dsimp only
    split
    · exact .refl r
    · exact append_noted _ r d _
  · split
    · unfold requestAction
      split
      · exact .refl r
      · split
        · rename_i heq
          exact append_noted_of heq
        · rename_i heq
          exact (append_noted_of heq).trans (applyOutputEvents_noted _ _ _ _)
    · unfold createInputTask
      split
      · exact .refl r
      · exact append_noted _ r d _
    · unfold createInputTask
      split
      · exact .refl r
      · exact append_noted _ r d _
    · exact .refl r
    · exact .refl r
    · exact .refl r

theorem commit_samePass (host : Host) (r : RtRun) (d : Disk) (e : Envelope) :
    SamePass r (Intake.commitInboundEvent host r d e).1 := by
  unfold Intake.commitInboundEvent
  split
  · exact .refl r
  rename_i r1 hpopulate
  have hpopulated := populate_samePass hpopulate
  split
  · rename_i heq
    exact hpopulated.trans (append_noted_of heq).samePass
  rename_i r2 d2 heq
  have happended := hpopulated.trans (append_noted_of heq).samePass
  have heffects := happended.trans (commitEffects_noted host r2 d2 e).samePass
  split
  · rename_i heq2
    rw [heq2] at heffects
    exact heffects
  · rename_i heq2
    rw [heq2] at heffects
    exact heffects.trans ⟨rfl, rfl, id, id, rfl, rfl, rfl, .inr rfl⟩

/-- A run that ends keeps its counter. -/
def EndedFrom (r r' : RtRun) : Prop := ∃ r1, SamePass r r1 ∧ Ended r1 r'

theorem retry_cases (host : Host) (readable : Bool) {r : RtRun} (d : Disk) (e : Envelope)
    (hopen : r.terminalEmitted = false) :
    SamePass r (retryWaitingInboundClaim host readable r d e).1 ∨
      EndedFrom r (retryWaitingInboundClaim host readable r d e).1 := by
  have hready : ∀ {r1 : RtRun} (d1 : Disk), SamePass r r1 → SamePass r (rtRunSetState host.profile r1 d1 .ready).1 :=
    fun d1 h => h.trans ⟨rfl, rfl, id, id, rfl, rfl, rfl, .inr rfl⟩
  have hfailed : ∀ {r1 : RtRun} (d1 : Disk), SamePass r r1 →
      EndedFrom r (applyRunTerminalEvent host.keepFinished host.profile r1 d1 .failed).1 :=
    fun {r1} d1 h => ⟨r1, h, terminal_ended _ _ d1 .failed (h.emitted.trans hopen)⟩
  unfold retryWaitingInboundClaim
  split
  · exact .inl (.refl r)
  split
  · exact .inl (hready d (.refl r))
  · exact .inr (hfailed d (.refl r))
  · have hcommitted : SamePass r (recommit host r (cutTail d) e).1 := by
      have hreset : SamePass r { r with nextEvent := 1 } := (Noted.counter r 1).samePass
      exact hreset.trans (commit_samePass host _ _ e)
    generalize recommit host r (cutTail d) e = c at hcommitted
    obtain ⟨r1, d1, ok⟩ := c
    dsimp only at hcommitted ⊢
    split
    · exact .inl (hready d1 hcommitted)
    · exact .inr (hfailed d1 hcommitted)
    · exact .inl hcommitted

/-! ## Recovery -/

theorem replayLine_noted (keep : Nat) (st : Replaying) (line : Runs.Line) : Noted st.run (Intake.replayLine keep st line).run := by
  unfold Intake.replayLine
  split
  · exact .refl _
  split
  · exact .refl _
  · rename_i number entry
    have hcounted := Noted.counter st.run (max st.run.nextEvent (number + 1))
    refine hcounted.trans ?_
    generalize { st.run with nextEvent := max st.run.nextEvent (number + 1) } = r1
    unfold replayEntry
    split
    · exact .started r1
    · exact .refl r1
    · unfold Intake.replayActionRecord
      split
      · exact noteRequest_noted keep r1 st.disk _
      · exact .ledger r1 _
      · exact (Noted.delivered r1 _).trans (.ledger _ _)
      · exact .ledger r1 _
      · exact .refl r1
      · exact .refl r1
    · exact .refl r1

theorem replayRunLog_noted (keep : Nat) (r : RtRun) (d : Disk) : Noted r (Intake.replayRunLog keep r d).run := by
  unfold Intake.replayRunLog
  have hlines : ∀ (log : List Runs.Line) (st : Replaying), Noted st.run (log.foldl (Intake.replayLine keep) st).run := by
    intro log
    induction log with
    | nil => exact fun st => .refl st.run
    | cons line log ih => exact fun st => (replayLine_noted keep st line).trans (ih _)
  exact (Noted.counter r 1).trans (hlines _ _)

theorem recoverStarted_noted (keep : Nat) (reconcile : Request → Reconciled) (ps : List Pending) (r : RtRun) (d : Disk) :
    Noted r (recoverStarted keep reconcile ps r d).1 := by
  induction ps generalizing r d with
  | nil => exact .refl r
  | cons p rest ih =>
    unfold recoverStarted
    split
    · exact ih r d
    split
    · exact .refl r
    · exact (Noted.ledger r _).trans (ih _ _)
    · split
      · rename_i heq
        exact ((append_noted_of heq).trans (.ledger _ _)).trans (ih _ _)
      · rename_i heq
        exact append_noted_of heq
    · rename_i t _
      have hfinished := finishRequest_noted keep r d p.request t
      generalize finishRequest keep r d p.request t = f at hfinished
      obtain ⟨r1, d1, ok⟩ := f
      cases ok with
      | true => exact hfinished.trans (ih _ _)
      | false => exact hfinished

/-! ## Identity -/

/-- The run is the same one, in the same conversation. -/
def SameRun (r r' : RtRun) : Prop := r'.number = r.number ∧ r'.contextId = r.contextId

theorem SameRun.refl (r : RtRun) : SameRun r r := ⟨rfl, rfl⟩

theorem SameRun.trans {r r1 r2 : RtRun} (h : SameRun r r1) (h' : SameRun r1 r2) : SameRun r r2 :=
  ⟨h'.1.trans h.1, h'.2.trans h.2⟩

theorem Noted.same {r r' : RtRun} (h : Noted r r') : SameRun r r' := by
  obtain ⟨_, _, _, _, _, rfl⟩ := h
  exact ⟨rfl, rfl⟩

section Same
variable (keep : Nat) (profile : RtProfile) (env : StepEnv) (r : RtRun) (d : Disk)

theorem terminal_same (ending : Ending) : SameRun r (applyRunTerminalEvent keep profile r d ending).1 := by
  unfold applyRunTerminalEvent
  split
  · exact .refl r
  · have hended := (endTasks_noted keep r d ending).trans (append_noted keep _ (endTasks keep r d ending).2
      (.runEnd (ending = .done)))
    exact hended.same

theorem waitingJobAdd_same (j : Bytes) : SameRun r (rtRunWaitingJobAdd profile r d j).1 := by
  unfold rtRunWaitingJobAdd
  split
  · exact .refl r
  · dsimp only
    split
    · exact .refl r
    · exact ⟨rfl, rfl⟩

theorem launch_same (request : Request) : SameRun r (rtActionRunnerLaunch keep profile env r d request).1 := by
  cases hlaunch : env.launch request with
  | busy =>
    rw [launch_busy keep profile r d hlaunch]
    exact .refl r
  | failed =>
    rw [launch_failed keep profile r d hlaunch]
    exact .refl r
  | finished started t =>
    obtain ⟨r', d', result, heq, hnoted, -⟩ := launch_finished keep profile r d hlaunch
    rw [heq]
    exact hnoted.same
  | job j =>
    simp only [rtActionRunnerLaunch, hlaunch]
    have hstarted := (emitStarted_noted keep r d request.requestId).same
    generalize emitStarted keep r d request.requestId = s at hstarted
    obtain ⟨r1, d1, ok⟩ := s
    cases ok with
    | false => exact hstarted
    | true => exact hstarted.trans (waitingJobAdd_same profile r1 d1 j)

theorem drain_same (implicit launchedAny : Bool) (ps : List Pending) :
    SameRun r (drainPendingEffect keep profile env implicit launchedAny ps r d).1 := by
  induction ps generalizing r d launchedAny with
  | nil => exact .refl r
  | cons p rest ih =>
    unfold drainPendingEffect
    split
    · exact ih r d launchedAny
    have hlaunched := launch_same keep profile env r d p.request
    generalize rtActionRunnerLaunch keep profile env r d p.request = l at hlaunched
    obtain ⟨r1, d1, result⟩ := l
    cases result with
    | busy => exact hlaunched.trans ⟨rfl, rfl⟩
    | error => exact hlaunched.trans (terminal_same keep profile r1 d1 .failed)
    | ok =>
      dsimp only
      split
      · refine hlaunched.trans ?_
        split
        · exact ⟨rfl, rfl⟩
        · exact ⟨rfl, rfl⟩
      · exact hlaunched.trans (ih r1 d1 true)

theorem failStep_same (step : RtStep) : SameRun r (failStep keep profile r d step).1 := by
  unfold failStep
  split
  · exact terminal_same keep profile r d .done
  · exact terminal_same keep profile r d .failed

theorem startAgent_same (step : RtStep) : SameRun r (startAgentStep keep profile env r d step).1 := by
  have hfailed : ∀ (r1 : RtRun) (d1 : Disk), SameRun r r1 → SameRun r
      (if step.nonCritical then
        ((advancePhase profile r1 d1).1, (advancePhase profile r1 d1).2, StepResult.advanced)
      else failStep keep profile r1 d1 step).1 := by
    intro r1 d1 hsame
    split
    · exact hsame.trans ⟨rfl, rfl⟩
    · exact hsame.trans (failStep_same keep profile r1 d1 step)
  unfold startAgentStep
  dsimp only
  split
  · exact hfailed r d (.refl r)
  · rename_i events _
    have happended := appendOutput_noted keep events r d
    generalize appendOutput keep events r d = a at happended
    obtain ⟨r1, d1, ok⟩ := a
    cases ok with
    | false => exact hfailed r1 d1 happended.same
    | true =>
      have hnoted := (happended.trans (applyOutputEvents_noted keep events r1 d1)).same
      dsimp only
      split
      · exact hnoted.trans (failStep_same keep profile _ _ step)
      · exact hnoted.trans ⟨rfl, rfl⟩
  · rename_i jobId _
    exact (waitingJobAdd_same profile r d jobId).trans ⟨rfl, rfl⟩

theorem dispatch_same (step : RtStep) : SameRun r (dispatchStep keep profile env r d step).1 := by
  unfold dispatchStep
  dsimp only
  split
  · exact startAgent_same keep profile env r _ step
  split
  · generalize d.wrote _ = d1
    have hdrained := drain_same keep profile env r d1 false false r.ledger.pending
    generalize drainPendingEffect keep profile env false false r.ledger.pending r d1 = drained at hdrained
    obtain ⟨r1, d2, result⟩ := drained
    cases result with
    | advanced => exact hdrained.trans ⟨rfl, rfl⟩
    | done => exact hdrained.trans ⟨rfl, rfl⟩
    | waitingJob => exact hdrained
    | waitingActionSlot => exact hdrained
    | failed => exact hdrained
  · exact (append_noted keep r _ _).same.trans (terminal_same keep profile _ _ .failed)

theorem walk_same (step : RtStep) : SameRun r (walkStep keep profile env r d step).1 := by
  unfold walkStep
  split
  · exact (append_noted keep r d _).same.trans (terminal_same keep profile _ _ .failed)
  · split
    · exact ⟨rfl, rfl⟩
    · exact dispatch_same keep profile env r d step

theorem finishAdvance_same : SameRun r (finishAdvance keep profile env r d).1 := by
  unfold finishAdvance
  split
  · exact ⟨rfl, rfl⟩
  split
  · exact ⟨rfl, rfl⟩
  · exact terminal_same keep profile r d .done

theorem advanceRun_same : SameRun r (advanceRun keep profile env r d).1 := by
  unfold advanceRun
  split
  · split
    · exact drain_same keep profile env r d true false _
    · exact finishAdvance_same keep profile env r d
  · rename_i step _
    split
    · exact drain_same keep profile env r d true false _
    · exact walk_same keep profile env r d step

theorem begin_same : SameRun r (beginAdvanceIfNeeded keep profile r d).1 := by
  unfold beginAdvanceIfNeeded
  split
  · exact terminal_same keep profile r d .failed
  · dsimp only
    split
    · split
      · exact ⟨rfl, rfl⟩
      · exact ⟨rfl, rfl⟩
    · split
      · exact ⟨rfl, rfl⟩
      · exact .refl r

theorem step_same : SameRun r (rtRunStepReady keep profile env r d).1 := by
  unfold rtRunStepReady
  have hstarted : SameRun r (emitRunStarted keep r d).1 := by
    obtain ⟨n, heq⟩ := emitRunStarted_run keep r d
    rw [heq]
    exact ⟨rfl, rfl⟩
  generalize emitRunStarted keep r d = started at hstarted
  obtain ⟨r1, d1⟩ := started
  dsimp only at hstarted ⊢
  split
  · exact hstarted.trans (terminal_same keep profile r1 d1 .failed)
  have hbegun := begin_same keep profile r1 d1
  generalize beginAdvanceIfNeeded keep profile r1 d1 = b at hbegun
  obtain ⟨r2, d2, ok⟩ := b
  cases ok with
  | false => exact hstarted.trans hbegun
  | true => exact (hstarted.trans hbegun).trans (advanceRun_same keep profile env r2 d2)

theorem agentFailure_number (stepId : Bytes) : (wakeAfterAgentFailure keep profile r d stepId).1.number = r.number := by
  unfold wakeAfterAgentFailure
  split
  · exact (terminal_same keep profile r d .done).1
  split
  · rfl
  split
  · dsimp only
    generalize Entry.error _ = entry
    exact (append_noted keep { r with attempts := r.attempts + 1 } d entry).same.1
  · exact (terminal_same keep profile r d .failed).1

theorem pump_number {r' : RtRun} {d' : Disk} {jobId : Bytes} {job : JobEnd}
    (h : pumpFinishedJob keep profile r d jobId job = some (r', d')) : r'.number = r.number := by
  unfold pumpFinishedJob at h
  split at h
  · cases h
  split at h
  · rename_i stepId ending
    split at h
    · cases h
    obtain ⟨r1, phase, hnoted, heq⟩ := completeAgent_noted keep profile r d ending
    have hnumber : (completeAgentJob keep profile r d ending).1.number = r.number := by
      rw [heq]
      exact hnoted.same.1
    generalize completeAgentJob keep profile r d ending = c at hnumber h
    obtain ⟨r2, d2, ok⟩ := c
    dsimp only at hnumber h
    split at h
    · cases h
      exact hnumber
    · have hfailure := agentFailure_number keep profile { r2 with waitingJobs := r2.waitingJobs.erase jobId } d2 stepId
      rw [Option.some.inj h] at hfailure
      exact hfailure.trans hnumber
  · rename_i rid t
    split at h
    · cases h
    rename_i p _
    have hnumber := (finishRequest_noted keep r d p.request t).same.1
    generalize finishRequest keep r d p.request t = f at hnumber h
    obtain ⟨r1, d1, ok⟩ := f
    dsimp only at hnumber h
    split at h
    · cases h
      exact hnumber
    · have hended := (terminal_same keep profile { r1 with waitingJobs := r1.waitingJobs.erase jobId } d1 .failed).1
      rw [Option.some.inj h] at hended
      exact hended.trans hnumber

end Same

theorem retry_number (host : Host) (readable : Bool) (r : RtRun) (d : Disk) (e : Envelope) :
    (retryWaitingInboundClaim host readable r d e).1.number = r.number := by
  unfold retryWaitingInboundClaim
  split
  · rfl
  split
  · rfl
  · exact (terminal_same _ _ r d .failed).1
  · have hcommitted : (recommit host r (cutTail d) e).1.number = r.number :=
      (commit_samePass host { r with nextEvent := 1 } (cutTail d) e).number
    generalize recommit host r (cutTail d) e = c at hcommitted
    obtain ⟨r1, d1, ok⟩ := c
    dsimp only at hcommitted ⊢
    split
    · exact hcommitted
    · exact (terminal_same _ _ r1 d1 .failed).1.trans hcommitted
    · exact hcommitted

theorem commitClaimed_number (host : Host) (adm : Admission) (deferred : Bool) (r : RtRun) (d : Disk) (e : Envelope) :
    (commitClaimedRun host adm deferred r d e).1.number = r.number := by
  unfold commitClaimedRun
  have hcommitted := (commit_samePass host r d e).number
  generalize Intake.commitInboundEvent host r d e = c at hcommitted
  obtain ⟨r1, d1, ok⟩ := c
  cases ok with
  | true => exact hcommitted
  | false =>
    dsimp only at hcommitted ⊢
    split
    · split
      · exact hcommitted
      · split
        · exact hcommitted
        · exact hcommitted
        · exact hcommitted
    · exact hcommitted

theorem created_number (host : Host) (adm : Admission) (number : Nat) (d : Disk) (e : Envelope) :
    (createRunFromEnvelope host adm number d e).1.number = number := by
  unfold createRunFromEnvelope
  dsimp only
  split
  · rfl
  split
  · rfl
  split
  · rfl
  rename_i r1 hpopulate
  have hpopulated : r1.number = number := (populate_samePass hpopulate).number
  split
  · exact hpopulated
  · exact (commitClaimed_number host adm _ _ _ e).trans hpopulated

theorem resumeRun_number (host : Host) (reconcile : Request → Reconciled) (r : RtRun) (d : Disk) :
    (resumeRun host reconcile r d).1.number = r.number := by
  unfold resumeRun
  have hrecovered := (recoverStarted_noted host.keepFinished reconcile r.ledger.pending r d).same.1
  generalize recoverStarted host.keepFinished reconcile r.ledger.pending r d = m at hrecovered
  obtain ⟨r1, d1, ok⟩ := m
  cases ok with
  | false => exact hrecovered
  | true =>
    have hresumed : (resumePosition { r1 with waitingJobs := [], wait := .none }).number = r.number := by
      unfold resumePosition
      split
      · exact hrecovered
      · exact hrecovered
    dsimp only
    split
    · exact hresumed
    · exact hresumed

theorem restored_number (host : Host) (reconcile : Request → Reconciled) (number : Nat) (d : Disk) (e : Envelope) :
    (restoreRunstate host reconcile number d e).1.number = number := by
  unfold restoreRunstate
  dsimp only
  split
  · rfl
  split
  · rfl
  split
  · rfl
  rename_i r1 hpopulate
  have hpopulated : r1.number = number := (populate_samePass hpopulate).number
  have hreplayed := (replayRunLog_noted host.keepFinished r1 d).same.1
  generalize Intake.replayRunLog host.keepFinished r1 d = st at hreplayed
  have hnumber : st.run.number = number := hreplayed.trans hpopulated
  split
  swap
  · exact hnumber
  unfold restoreReplayed
  split
  · exact hnumber
  · dsimp only
    split
    · exact hnumber
    · exact hnumber
  · exact (resumeRun_number host reconcile st.run st.disk).trans hnumber
  · have hcommitted := (commit_samePass host st.run st.disk e).number
    generalize Intake.commitInboundEvent host st.run st.disk e = m at hcommitted
    obtain ⟨r2, d2, ok⟩ := m
    dsimp only at hcommitted ⊢
    split
    · exact (resumeRun_number host reconcile r2 d2).trans (hcommitted.trans hnumber)
    · exact hcommitted.trans hnumber

/-- No operation changes which run it is. -/
theorem runOp_number {host : Host} {e : Envelope} {r r' : RtRun} {d d' : Disk} {op : RunOp}
    (h : runOp host e r d op = some (r', d')) : r'.number = r.number := by
  cases op with
  | step env =>
    simp only [runOp, Option.ite_none_right_eq_some, Option.some.injEq, Prod.mk.injEq] at h
    rw [← h.2.1]
    exact (step_same _ _ env r d).1
  | job jobId job => exact pump_number _ _ r d h
  | slot =>
    simp only [runOp, wakeActionSlotWaiter, Option.ite_none_right_eq_some, Option.some.injEq, Prod.mk.injEq] at h
    rw [← h.2.1]
    rfl
  | retry readable =>
    simp only [runOp, Option.ite_none_right_eq_some, Option.some.injEq] at h
    have hnumber := retry_number host readable r d e
    rw [h.2] at hnumber
    exact hnumber
  | cancel =>
    simp only [runOp, Option.some.injEq] at h
    have hnumber := (terminal_same host.keepFinished host.profile r d .canceled).1
    rw [h] at hnumber
    exact hnumber

end Floofclaw.Guarantees.RunFrames
