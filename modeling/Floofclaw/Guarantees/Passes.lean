import Floofclaw.Guarantees.RunFrames

/-!
# The pass budget

A run counts the passes it begins over its profile, and fails at its cap. That a
pass begins is read off the run standing ready at phase zero. A run that waits
there, for the action slot or for a job of its own queue, is ready at phase
zero again when it is woken, and the same pass is counted a second time. Where
no drain stops at phase zero, the counter is the number of walks that began.
-/

set_option autoImplicit false

namespace Floofclaw.Guarantees.Passes
open Floofclaw.Lib Floofclaw.Source Floofclaw.Source.Actions Floofclaw.Source.Runs Floofclaw.Source.RunSteps
open Floofclaw.Source.Intake Floofclaw.Source.RunLife Floofclaw.Guarantees.RunFrames

/-! ## Listing -/

/-- A run as a process lists it: created around an envelope, or put back by recovery. -/
inductive Listed (host : Host) (e : Envelope) (r : RtRun) : Prop
  | created {adm : Admission} {number : Nat} {d d' : Disk} {c : Created}
    (h : createRunFromEnvelope host adm number d e = (r, d', c)) (hc : c ≠ .rejected)
  | restored {reconcile : Request → Reconciled} {number : Nat} {d d' : Disk}
    (h : restoreRunstate host reconcile number d e = (r, d', .resumed))

/-- It waits for no job, has not ended, and stands in one of three states. -/
structure Fresh (r : RtRun) : Prop where
  jobs : r.waitingJobs = []
  emitted : r.terminalEmitted = false
  state : r.state = .ready ∨ r.state = .running ∨ r.state = .waitingEvent

theorem Fresh.samePass {r r' : RtRun} (h : Fresh r) (hsame : SamePass r r') : Fresh r' := by
  refine ⟨hsame.jobs.trans h.jobs, hsame.emitted.trans h.emitted, ?_⟩
  rcases hsame.state with hs | hs
  · rw [hs]
    exact h.state
  · exact .inl hs

theorem created_fresh {host : Host} {adm : Admission} {number : Nat} {d d' : Disk} {e : Envelope} {r : RtRun} {c : Created}
    (h : createRunFromEnvelope host adm number d e = (r, d', c)) (hc : c ≠ .rejected) : Fresh r := by
  unfold createRunFromEnvelope at h
  dsimp only at h
  split at h
  · cases h
    exact absurd rfl hc
  rename_i required _
  split at h
  · cases h
    exact absurd rfl hc
  split at h
  · cases h
    exact absurd rfl hc
  rename_i r1 hpopulate
  have hpopulated := populate_samePass hpopulate
  generalize (required || isClaim e) = deferred at h
  have hfresh : Fresh { r1 with phase := 0, state := if deferred then .waitingEvent else .ready } := by
    refine ⟨hpopulated.jobs, hpopulated.emitted, ?_⟩
    cases deferred
    · exact .inl rfl
    · exact .inr (.inr rfl)
  generalize { r1 with phase := 0, state := if deferred then RunState.waitingEvent else RunState.ready } = r2 at h hfresh
  split at h
  · cases h
    exact absurd rfl hc
  rename_i d1 _
  unfold commitClaimedRun at h
  have hcommitted := hfresh.samePass (commit_samePass host r2 d1 e)
  generalize Intake.commitInboundEvent host r2 d1 e = m at h hcommitted
  obtain ⟨r3, d3, ok⟩ := m
  dsimp only at hcommitted
  cases ok with
  | true =>
    cases h
    exact hcommitted
  | false =>
    dsimp only at h
    split at h
    · split at h
      · cases h
        exact hcommitted
      · split at h
        · cases h
          exact ⟨hcommitted.jobs, hcommitted.emitted, .inl rfl⟩
        · cases h
          exact hcommitted
        · cases h
          exact absurd rfl hc
    · cases h
      exact absurd rfl hc

theorem resumeRun_fresh {host : Host} {reconcile : Request → Reconciled} {r r' : RtRun} {d d' : Disk}
    (hemitted : r.terminalEmitted = false) (h : resumeRun host reconcile r d = (r', d', .resumed)) : Fresh r' := by
  unfold resumeRun at h
  have hrecovered := recoverStarted_noted host.keepFinished reconcile r.ledger.pending r d
  generalize recoverStarted host.keepFinished reconcile r.ledger.pending r d = m at h hrecovered
  obtain ⟨r1, d1, ok⟩ := m
  cases ok with
  | false => cases h
  | true =>
    dsimp only at h hrecovered
    have hopen := hrecovered.open hemitted
    split at h
    · cases h
      unfold resumePosition
      split
      · exact ⟨rfl, hopen, .inr (.inl rfl)⟩
      · exact ⟨rfl, hopen, .inl rfl⟩
    · cases h

theorem restored_fresh {host : Host} {reconcile : Request → Reconciled} {number : Nat} {d d' : Disk} {e : Envelope}
    {r : RtRun} (h : restoreRunstate host reconcile number d e = (r, d', .resumed)) : Fresh r := by
  unfold restoreRunstate at h
  dsimp only at h
  split at h
  · cases h
  split at h
  · cases h
  split at h
  · cases h
  rename_i r1 hpopulate
  have hpopulated := (populate_samePass hpopulate).emitted
  have hreplayed := replayRunLog_noted host.keepFinished r1 d
  generalize Intake.replayRunLog host.keepFinished r1 d = st at h hreplayed
  have hopen : st.run.terminalEmitted = false := hreplayed.open hpopulated
  split at h
  swap
  · cases h
  unfold restoreReplayed at h
  split at h
  · cases h
  · dsimp only at h
    split at h <;> cases h
  · exact resumeRun_fresh hopen h
  · have hcommitted := (commit_samePass host st.run st.disk e).emitted
    generalize Intake.commitInboundEvent host st.run st.disk e = m at h hcommitted
    obtain ⟨r2, d2, ok⟩ := m
    dsimp only at h hcommitted
    split at h
    · exact resumeRun_fresh (hcommitted.trans hopen) h
    · cases h

theorem Listed.fresh {host : Host} {e : Envelope} {r : RtRun} (h : Listed host e r) : Fresh r := by
  cases h with
  | created h hc => exact created_fresh h hc
  | restored h => exact restored_fresh h

/-! ## Walks -/

/-- A listed run, with the account of its walks: whether one is due to begin, and how many have begun. -/
structure PassState where
  run : RtRun
  disk : Durable
  due : Bool
  walks : Nat

/-- What the run does itself, with the fates of its writes, and what the other runs leave in the shared stores. -/
inductive PassInput
  | own (op : RunOp) (fates : List Fate)
  | others (stores : Stores)

/-- The operations that end a walk and put the cursor back: the quiescence check that goes on, the wait of an explicit
runner in a looping profile, and the retry of the event. -/
def rewinds (profile : RtProfile) (r r' : RtRun) : RunOp → Bool
  | .step _ => r'.state = .ready || (r'.state = .waitingJobs && rewindsOnWait profile r)
  | .job _ (.agent _ _) => r'.state = .ready
  | _ => false

def RunOp.isStep : RunOp → Bool
  | .step _ => true
  | _ => false

/-- A walk that is due begins with the next step from phase zero, unless the budget is spent. -/
def beginsWalk (s : PassState) : RunOp → Bool
  | .step env => env.snapshot && s.due && s.run.phase = 0 && s.run.advance < rtMaxProfilePasses
  | _ => false

def passStep (host : Host) (e : Envelope) (s : PassState) : PassInput → Option PassState
  | .own op fates =>
    match runOp host e s.run { now := s.disk, fates := fates } op with
    | none => none
    | some (r, d) =>
      some
        { run := r, disk := d.now
          due := rewinds host.profile s.run r op || (s.due && !RunOp.isStep op)
          walks := if beginsWalk s op then s.walks + 1 else s.walks }
  | .others stores => some { s with disk := { s.disk with stores := stores } }

/-- A run that recovery puts back in the middle of a walk goes on with it. -/
def passInit (r : RtRun) (disk : Durable) : PassState :=
  { run := r, disk := disk, due := r.state ≠ .running, walks := 0 }

/-- Whether the step of a run drains its queue at phase zero and stops there: for the slot, or for a job it does not
rewind for. -/
def stopsAtStart (profile : RtProfile) (env : StepEnv) (r : RtRun) : Bool :=
  r.phase = 0 && drains profile env (begun r) &&
    match drainStop env r.ledger.pending with
    | some .busy => true
    | some (.job _) => !rewindsOnWait profile r
    | _ => false

/-- The condition on a step: no drain stops at phase zero, and an agent's job that ends is one the run waits for. -/
def Unstopped (host : Host) (s : PassState) : PassInput → Prop
  | .own (.step env) _ => stopsAtStart host.profile env s.run = false
  | .own (.job jobId (.agent _ _)) _ => jobId ∈ s.run.waitingJobs
  | _ => True

instance (host : Host) (s : PassState) : (i : PassInput) → Decidable (Unstopped host s i)
  | .own (.step _) _ => inferInstanceAs (Decidable (_ = _))
  | .own (.job _ (.agent _ _)) _ => inferInstanceAs (Decidable (_ ∈ _))
  | .own (.job _ (.action _ _)) _ | .own .slot _ | .own (.retry _) _ | .own .cancel _ | .others _ => isTrue trivial

/-! ## The invariant -/

structure Counted (base : Nat) (s : PassState) : Prop where
  count : s.run.advance = base + s.walks
  emitted : s.run.state.terminal = false → s.run.terminalEmitted = false
  idle : s.run.state ≠ .waitingJobs → s.run.state.terminal = false → s.run.waitingJobs = []
  jobs : s.run.waitingJobs.length ≤ 1
  /-- Where the next step would begin a pass, a walk is due. -/
  start : s.run.phase = 0 → s.run.state = .ready ∨ s.run.state = .waitingJobs → s.due = true
  event : s.run.state = .waitingEvent → s.due = true
  slot : s.run.state = .waitingActionSlot → s.run.phase ≠ 0
  /-- A walk that is due has not been entered. -/
  notBegun : s.due = true → s.run.state ≠ .running ∧ (s.run.state = .waitingJobs → ∀ id, s.run.wait ≠ .agent id)

theorem Fresh.counted {r : RtRun} (h : Fresh r) (disk : Durable) : Counted r.advance (passInit r disk) := by
  have hnotwaiting : r.state ≠ .waitingJobs := by rcases h.state with hs | hs | hs <;> rw [hs] <;> simp
  refine ⟨rfl, fun _ => h.emitted, fun _ _ => h.jobs, by simp [passInit, h.jobs], fun _ hs => ?_, fun hs => ?_, fun hs => ?_,
    fun hdue => ⟨by simpa [passInit] using hdue, fun hs => absurd hs hnotwaiting⟩⟩
  · rcases hs with hs | hs
    · simp [passInit, show r.state = .ready from hs]
    · exact absurd hs hnotwaiting
  · simp [passInit, show r.state = .waitingEvent from hs]
  · rcases h.state with hstate | hstate | hstate <;> simp [passInit, hstate] at hs

/-- A run that is over keeps its count. -/
theorem ended_counted {r r' : RtRun} {base walks : Nat} {disk : Durable} {due : Bool} (h : Ended r r')
    (hcount : r.advance = base + walks) (hjobs : r.waitingJobs.length ≤ 1) :
    Counted base { run := r', disk := disk, due := due, walks := walks } := by
  obtain ⟨r1, state, hnoted, hterminal, rfl⟩ := h
  obtain ⟨_, _, _, _, _, rfl⟩ := hnoted
  have hstate : ∀ st : RunState, st.terminal = false → state ≠ st := by
    intro st hst heq
    rw [← heq, hterminal] at hst
    cases hst
  refine ⟨hcount, fun h => ?_, fun _ h => ?_, hjobs, fun _ h => ?_, fun h => ?_, fun h => ?_,
    fun _ => ⟨fun h => ?_, fun h => ?_⟩⟩
  · exact absurd (hterminal.symm.trans h) (by simp)
  · exact absurd (hterminal.symm.trans h) (by simp)
  · rcases h with h | h
    · exact absurd h (hstate _ rfl)
    · exact absurd h (hstate _ rfl)
  · exact absurd h (hstate _ rfl)
  · exact absurd h (hstate _ rfl)
  · exact absurd h (hstate _ rfl)
  · exact absurd h (hstate _ rfl)

/-! ## Steps -/

/-- What the walk reads of a run is not touched by the event that announces it. -/
theorem begun_started (profile : RtProfile) (env : StepEnv) (r : RtRun) (n : Nat) :
    drains profile env (begun { r with nextEvent := n, runStarted := true }) = drains profile env (begun r) ∧
      (begun { r with nextEvent := n, runStarted := true }).ledger = r.ledger ∧
      (begun { r with nextEvent := n, runStarted := true }).phase = r.phase ∧
      rewindsOnWait profile (begun { r with nextEvent := n, runStarted := true }) = rewindsOnWait profile r ∧
      (begun { r with nextEvent := n, runStarted := true }).state = .running ∧
      (begun { r with nextEvent := n, runStarted := true }).waitingJobs = r.waitingJobs ∧
      (begun { r with nextEvent := n, runStarted := true }).terminalEmitted = r.terminalEmitted ∧
      (begun { r with nextEvent := n, runStarted := true }).advance =
        if begins r then r.advance + 1 else r.advance := by
  unfold begun begins
  dsimp only
  split
  · exact ⟨rfl, rfl, rfl, rfl, rfl, rfl, rfl, rfl⟩
  · exact ⟨rfl, rfl, rfl, rfl, rfl, rfl, rfl, rfl⟩

theorem Counted.begins_iff {base : Nat} {s : PassState} (h : Counted base s)
    (hstate : s.run.state = .ready ∨ s.run.state = .running) : begins s.run = (s.due && decide (s.run.phase = 0)) := by
  unfold begins
  by_cases hphase : s.run.phase = 0
  · rcases hstate with hs | hs
    · simp [hphase, hs, h.start hphase (.inl hs)]
    · have hdue : s.due = false := by
        by_contra hdue
        exact (h.notBegun (by simpa using hdue)).1 hs
      simp [hphase, hs, hdue]
  · simp [hphase]

/-- A walk goes on, or ends, or waits: the counter moves with the walk that begins and no further. -/
theorem step_counted {host : Host} {base : Nat} {s : PassState} (h : Counted base s) (env : StepEnv) (d : Disk)
    (hstate : s.run.state = .ready ∨ s.run.state = .running) (hok : stopsAtStart host.profile env s.run = false) :
    let r' := (rtRunStepReady host.keepFinished host.profile env s.run d).1
    Counted base
      { run := r', disk := (rtRunStepReady host.keepFinished host.profile env s.run d).2.1.now
        due := rewinds host.profile s.run r' (.step env) || (s.due && !RunOp.isStep (.step env))
        walks := if beginsWalk s (.step env) then s.walks + 1 else s.walks } := by
  have hopen : s.run.terminalEmitted = false := h.emitted (by rcases hstate with hs | hs <;> rw [hs] <;> rfl)
  have hjobs : s.run.waitingJobs = [] := by
    apply h.idle
    · rcases hstate with hs | hs <;> rw [hs] <;> simp
    · rcases hstate with hs | hs <;> rw [hs] <;> rfl
  have hbegins := h.begins_iff hstate
  intro r'
  rcases step_cases host.keepFinished host.profile env d hstate hopen hjobs with ⟨hended, hwhy⟩ | ⟨hsnap, hcap, n, hadv⟩
  · have hnone : beginsWalk s (.step env) = false := by
      unfold beginsWalk
      rcases hwhy with hsnap | ⟨-, hspent⟩
      · simp [hsnap]
      · simp [Nat.not_lt.mpr hspent]
    simp only [hnone, Bool.false_eq_true, if_false]
    exact ended_counted hended h.count h.jobs
  obtain ⟨hdrains, hledger, hphase, hrewinds, hrunning, hbjobs, hbopen, hadvance⟩ :=
    begun_started host.profile env s.run n
  have hwalk : beginsWalk s (.step env) = begins s.run := by
    unfold beginsWalk
    cases hb : begins s.run with
    | false =>
      rw [hb] at hbegins
      simp [hsnap, ← hbegins]
    | true =>
      have hlt := hcap hb
      rw [hb] at hbegins
      simp [hsnap, ← hbegins, hlt]
  have hcount : (begun { s.run with nextEvent := n, runStarted := true }).advance =
      base + if beginsWalk s (.step env) then s.walks + 1 else s.walks := by
    rw [hadvance, hwalk, h.count]
    split
    · omega
    · rfl
  have hopen' := hbopen.trans hopen
  have hjobs' := hbjobs.trans hjobs
  generalize begun { s.run with nextEvent := n, runStarted := true } = b at *
  change Advanced host.profile env b r' at hadv
  generalize r' = r' at hadv
  have hsame : ∀ {r1 : RtRun}, Noted b r1 → r1.advance = b.advance ∧ r1.terminalEmitted = b.terminalEmitted ∧
      r1.waitingJobs = b.waitingJobs ∧ r1.state = b.state ∧ r1.phase = b.phase := by
    rintro r1 ⟨_, _, _, _, _, rfl⟩
    exact ⟨rfl, rfl, rfl, rfl, rfl⟩
  cases hadv with
  | went hnoted phase hle heq =>
    obtain ⟨ha, ho, hj, hs, -⟩ := hsame hnoted
    have hrun : r'.state = .running := by rw [heq]; exact hs.trans hrunning
    have hdue : rewinds host.profile s.run r' (.step env) = false := by simp [rewinds, hrun]
    refine ⟨by rw [heq]; exact ha.trans hcount, fun _ => by rw [heq]; exact ho.trans hopen',
      fun _ _ => by rw [heq]; exact hj.trans hjobs', ?_, fun _ hw => ?_, fun hw => ?_, fun hw => ?_, fun hw => ?_⟩
    · rw [heq]
      simp [hj, hjobs']
    · rcases hw with hw | hw <;> simp [hrun] at hw
    · simp [hrun] at hw
    · simp [hrun] at hw
    · simp [hdue, RunOp.isStep] at hw
  | rewound heq =>
    have hdue : rewinds host.profile s.run r' (.step env) = true := by simp [rewinds, heq]
    refine ⟨by rw [heq]; exact hcount, fun _ => by rw [heq]; exact hopen', fun _ _ => by rw [heq]; exact hjobs', ?_,
      fun _ _ => by simp [hdue], fun _ => by simp [hdue], fun hw => ?_, fun _ => ?_⟩
    · rw [heq]
      simp [hjobs']
    · simp [heq] at hw
    · simp [heq]
  | ended hended => exact ended_counted hended hcount (by simp [hjobs'])
  | parked rid action hd hstop hnoted heq =>
    obtain ⟨ha, ho, hj, -, hp⟩ := hsame hnoted
    have hphase0 : s.run.phase ≠ 0 := by
      intro hzero
      simp [stopsAtStart, hzero, ← hdrains, hd, ← hledger, hstop] at hok
    have hrun : r'.state = .waitingActionSlot := by rw [heq]
    have hdue : rewinds host.profile s.run r' (.step env) = false := by simp [rewinds, hrun]
    refine ⟨by rw [heq]; exact ha.trans hcount, fun _ => by rw [heq]; exact ho.trans hopen',
      fun _ _ => by rw [heq]; exact hj.trans hjobs', ?_, fun _ hw => ?_, fun hw => ?_, fun _ => ?_, fun hw => ?_⟩
    · rw [heq]
      simp [hj, hjobs']
    · rcases hw with hw | hw <;> simp [hrun] at hw
    · simp [hrun] at hw
    · rw [heq]
      simpa [hp, hphase] using hphase0
    · simp [hdue, RunOp.isStep] at hw
  | waits rid action hd hstop hnoted heq =>
    obtain ⟨ha, ho, hj, -, hp⟩ := hsame hnoted
    have hrun : r'.state = .waitingJobs := by rw [heq]
    have hdue : rewinds host.profile s.run r' (.step env) = rewindsOnWait host.profile s.run := by simp [rewinds, hrun]
    -- without a rewind the cursor is not at zero
    have hzero : r'.phase = 0 → rewindsOnWait host.profile s.run = true := by
      intro hz
      by_contra hno
      have hstay : r'.phase = s.run.phase := by
        rw [heq]
        simp [hrewinds, hno, hphase]
      have hstart : s.run.phase = 0 := hstay ▸ hz
      simp [stopsAtStart, hstart, ← hdrains, hd, ← hledger, hstop] at hok
      exact hno hok
    refine ⟨by rw [heq]; exact ha.trans hcount, fun _ => by rw [heq]; exact ho.trans hopen', fun hw => absurd hrun hw, ?_,
      fun hz _ => ?_, fun hw => ?_, fun hw => ?_, fun hw => ⟨?_, fun _ id => ?_⟩⟩
    · rw [heq]
      simp
    · simp [hdue, hzero hz]
    · simp [hrun] at hw
    · simp [hrun] at hw
    · simp [hrun]
    · simp [heq]
  | agent jobs stepId hlen hstep heq =>
    have hrun : r'.state = .waitingJobs := by rw [heq]
    have hdue : rewinds host.profile s.run r' (.step env) = false := by
      have hnot : rewindsOnWait host.profile s.run = false := by
        rw [← hrewinds]
        simp [rewindsOnWait, hstep]
      simp [rewinds, hrun, hnot]
    refine ⟨by rw [heq]; exact hcount, fun _ => by rw [heq]; exact hopen', fun hw => absurd hrun hw, ?_, fun hz => ?_,
      fun hw => ?_, fun hw => ?_, fun hw => ?_⟩
    · rw [heq]
      exact hlen
    · simp [heq] at hz
    · simp [hrun] at hw
    · simp [hrun] at hw
    · simp [hdue, RunOp.isStep] at hw

theorem erase_only {l : List Bytes} {x : Bytes} (hlen : l.length ≤ 1) (hx : x ∈ l) : l.erase x = [] := by
  match l with
  | [] => rfl
  | [y] => simp [List.mem_singleton.mp hx]
  | _ :: _ :: _ => simp at hlen

theorem job_counted {host : Host} {base : Nat} {s : PassState} {d d' : Disk} {jobId : Bytes} {job : JobEnd} {r' : RtRun}
    (h : Counted base s) (hpump : pumpFinishedJob host.keepFinished host.profile s.run d jobId job = some (r', d'))
    (hok : ∀ stepId ending, job = .agent stepId ending → jobId ∈ s.run.waitingJobs) (disk : Durable) :
    Counted base
      { run := r', disk := disk, due := rewinds host.profile s.run r' (.job jobId job) || s.due, walks := s.walks } := by
  have hwaiting : s.run.state = .waitingJobs := by
    by_contra hno
    simp [pumpFinishedJob, hno] at hpump
  have hopen : s.run.terminalEmitted = false := h.emitted (by rw [hwaiting]; rfl)
  have hlen : (s.run.waitingJobs.erase jobId).length ≤ 1 :=
    Nat.le_trans (List.length_erase_le) h.jobs
  have hsame : ∀ {r1 : RtRun}, Noted s.run r1 → r1.advance = s.run.advance ∧ r1.terminalEmitted = s.run.terminalEmitted ∧
      r1.phase = s.run.phase := by
    rintro r1 ⟨_, _, _, _, _, rfl⟩
    exact ⟨rfl, rfl, rfl⟩
  obtain ⟨-, ⟨stepId, ending, rfl, hwait, hpumped⟩ | ⟨⟨rid, t, rfl⟩, hpumped⟩⟩ := pump_pumped _ _ hopen hpump
  · have hnone : s.run.waitingJobs.erase jobId = [] := erase_only h.jobs (hok stepId ending rfl)
    have hnotdue : s.due = false := by
      by_contra hdue
      exact (h.notBegun (by simpa using hdue)).2 hwaiting stepId hwait
    cases hpumped with
    | resumed _ hnoted phase heq =>
      obtain ⟨ha, ho, -⟩ := hsame hnoted
      have hrun : r'.state = .running := by rw [heq]
      refine ⟨by rw [heq]; exact ha.trans h.count, fun _ => by rw [heq]; exact ho.trans hopen,
        fun _ _ => by rw [heq]; exact hnone, by rw [heq]; exact hlen, fun _ hw => ?_, fun hw => ?_, fun hw => ?_,
        fun hw => ?_⟩
      · rcases hw with hw | hw <;> simp [hrun] at hw
      · simp [hrun] at hw
      · simp [hrun] at hw
      · simp [rewinds, hrun, hnotdue] at hw
    | held _ hnoted phase hjobs heq => exact absurd hnone hjobs
    | rewound _ hnoted attempts heq =>
      obtain ⟨ha, ho, -⟩ := hsame hnoted
      have hrun : r'.state = .ready := by rw [heq]
      refine ⟨by rw [heq]; exact ha.trans h.count, fun _ => by rw [heq]; exact ho.trans hopen,
        fun _ _ => by rw [heq]; exact hnone, by rw [heq]; exact hlen, fun _ _ => by simp [rewinds, hrun], fun hw => ?_,
        fun hw => ?_, fun _ => by simp [hrun]⟩
      · simp [hrun] at hw
      · simp [hrun] at hw
    | woken hagent hnoted heq => cases hagent
    | ended phase hended => exact ended_counted hended h.count hlen
  · cases hpumped with
    | resumed hagent hnoted phase heq => cases hagent
    | held hagent hnoted phase hjobs heq => cases hagent
    | rewound hagent hnoted attempts heq => cases hagent
    | woken _ hnoted heq =>
      obtain ⟨ha, ho, hp⟩ := hsame hnoted
      have hdue : (rewinds host.profile s.run r' (.job jobId (.action rid t)) || s.due) = s.due := rfl
      refine ⟨by rw [heq]; exact ha.trans h.count, fun _ => by rw [heq]; exact ho.trans hopen, fun hw _ => ?_,
        by rw [heq]; exact hlen, fun hz _ => ?_, fun hw => ?_, fun hw => ?_, fun _ => ⟨?_, fun _ id => by simp [heq]⟩⟩
      · by_contra hne
        rw [heq] at hw hne
        exact hw (if_pos hne)
      · rw [hdue]
        exact h.start (hp ▸ (by rw [heq] at hz; exact hz)) (.inr hwaiting)
      · rw [heq] at hw
        dsimp only at hw
        split at hw <;> cases hw
      · rw [heq] at hw
        dsimp only at hw
        split at hw <;> cases hw
      · rw [heq]
        dsimp only
        split <;> simp
    | ended phase hended => exact ended_counted hended h.count hlen

theorem retry_counted (host : Host) {base : Nat} {s : PassState} (h : Counted base s) (hwaiting : s.run.state = .waitingEvent)
    (readable : Bool) (d : Disk) (e : Envelope) (disk : Durable) :
    Counted base
      { run := (retryWaitingInboundClaim host readable s.run d e).1, disk := disk, due := s.due, walks := s.walks } := by
  have hopen : s.run.terminalEmitted = false := h.emitted (by rw [hwaiting]; rfl)
  have hjobs : s.run.waitingJobs = [] := h.idle (by simp [hwaiting]) (by rw [hwaiting]; rfl)
  have hdue := h.event hwaiting
  rcases retry_cases host readable d e hopen with hsame | ⟨r1, hsame, hended⟩
  · generalize (retryWaitingInboundClaim host readable s.run d e).1 = r' at hsame
    have hstate : r'.state = .waitingEvent ∨ r'.state = .ready := by
      rw [← hwaiting]
      exact hsame.state
    refine ⟨hsame.advance.trans h.count, fun _ => hsame.emitted.trans hopen, fun _ _ => hsame.jobs.trans hjobs,
      by simp [hsame.jobs, hjobs], fun _ _ => hdue, fun _ => hdue, fun hw => ?_, fun _ => ?_⟩
    · rcases hstate with hs | hs <;> simp [hs] at hw
    · rcases hstate with hs | hs <;> simp [hs]
  · exact ended_counted hended (hsame.advance.trans h.count) (by simp [hsame.jobs, hjobs])

/-- One input keeps the account. -/
theorem pass_counted {host : Host} {e : Envelope} {base : Nat} {s s' : PassState} {i : PassInput} (h : Counted base s)
    (hok : Unstopped host s i) (hstep : passStep host e s i = some s') : Counted base s' := by
  cases i with
  | others stores =>
    cases hstep
    exact ⟨h.count, h.emitted, h.idle, h.jobs, h.start, h.event, h.slot, h.notBegun⟩
  | own op fates =>
    simp only [passStep] at hstep
    cases op with
    | step env =>
      simp only [runOp] at hstep
      by_cases hstate : s.run.state = .ready ∨ s.run.state = .running
      · rw [if_pos hstate] at hstep
        cases hstep
        exact step_counted h env _ hstate hok
      · rw [if_neg hstate] at hstep
        cases hstep
    | job jobId job =>
      simp only [runOp] at hstep
      cases hpump : pumpFinishedJob host.keepFinished host.profile s.run { now := s.disk, fates := fates } jobId job with
      | none =>
        rw [hpump] at hstep
        cases hstep
      | some m =>
        rw [hpump] at hstep
        cases hstep
        have hcounted := job_counted h hpump (fun stepId ending heq => by subst heq; exact hok) m.2.now
        simpa [RunOp.isStep, beginsWalk] using hcounted
    | slot =>
      simp only [runOp, wakeActionSlotWaiter] at hstep
      by_cases hslot : s.run.state = .waitingActionSlot
      · rw [if_pos hslot] at hstep
        cases hstep
        have hopen := h.emitted (by rw [hslot]; rfl)
        have hjobs := h.idle (by simp [hslot]) (by rw [hslot]; rfl)
        refine ⟨h.count, fun _ => hopen, fun _ _ => hjobs, h.jobs, fun hz => absurd hz (h.slot hslot), fun hw => ?_,
          fun hw => ?_, fun _ => ?_⟩
        · simp [rtRunSetState, waitClear] at hw
        · simp [rtRunSetState, waitClear] at hw
        · simp [rtRunSetState, waitClear]
      · rw [if_neg hslot] at hstep
        cases hstep
    | retry readable =>
      simp only [runOp] at hstep
      by_cases hevent : s.run.state = .waitingEvent
      · rw [if_pos hevent] at hstep
        have hcounted := retry_counted host h hevent readable { now := s.disk, fates := fates } e
        generalize retryWaitingInboundClaim host readable s.run { now := s.disk, fates := fates } e = m at hstep hcounted
        obtain ⟨r1, d1⟩ := m
        cases hstep
        simpa [rewinds, RunOp.isStep, beginsWalk] using hcounted d1.now
      · rw [if_neg hevent] at hstep
        cases hstep
    | cancel =>
      simp only [runOp] at hstep
      cases hstep
      simp only [rewinds, RunOp.isStep, beginsWalk, Bool.false_or, Bool.not_false, Bool.and_true, Bool.false_eq_true,
        if_false]
      cases hemitted : s.run.terminalEmitted with
      | false => exact ended_counted (terminal_ended _ _ _ _ hemitted) h.count h.jobs
      | true =>
        unfold applyRunTerminalEvent
        rw [if_pos hemitted]
        exact ⟨h.count, h.emitted, h.idle, h.jobs, h.start, h.event, h.slot, h.notBegun⟩

/-! ## The claim -/

/-- The flags of a pass are kept. -/
def FlagsKept (r r' : RtRun) : Prop :=
  (r.deliveredMessage = true → r'.deliveredMessage = true) ∧ (r.workProgress = true → r'.workProgress = true)

theorem noted_flags {r r1 r' : RtRun} (h : Noted r r1) (hdelivered : r'.deliveredMessage = r1.deliveredMessage)
    (hprogress : r'.workProgress = r1.workProgress) : FlagsKept r r' := by
  rw [FlagsKept, hdelivered, hprogress]
  exact ⟨h.samePass.delivered, h.samePass.progress⟩

theorem ended_flags {r r' : RtRun} (h : Ended r r') : FlagsKept r r' := by
  obtain ⟨r1, state, hnoted, -, heq⟩ := h
  exact noted_flags hnoted (by rw [heq]) (by rw [heq])

theorem advanced_flags {profile : RtProfile} {env : StepEnv} {r r' : RtRun} (h : Advanced profile env r r') :
    FlagsKept r r' := by
  cases h with
  | went hnoted phase hle heq => exact noted_flags hnoted (by rw [heq]) (by rw [heq])
  | rewound heq => exact heq ▸ ⟨id, id⟩
  | ended hended => exact ended_flags hended
  | parked rid action hd hstop hnoted heq => exact noted_flags hnoted (by rw [heq]) (by rw [heq])
  | waits rid action hd hstop hnoted heq => exact noted_flags hnoted (by rw [heq]) (by rw [heq])
  | agent jobs stepId hlen hstep heq => exact heq ▸ ⟨id, id⟩

theorem pumped_flags {r r' : RtRun} {jobId : Bytes} {agent : Bool} (h : Pumped r jobId agent r') : FlagsKept r r' := by
  cases h with
  | resumed hagent hnoted phase heq => exact noted_flags hnoted (by rw [heq]) (by rw [heq])
  | held hagent hnoted phase hjobs heq => exact noted_flags hnoted (by rw [heq]) (by rw [heq])
  | rewound hagent hnoted attempts heq => exact noted_flags hnoted (by rw [heq]) (by rw [heq])
  | woken hagent hnoted heq => exact noted_flags hnoted (by rw [heq]) (by rw [heq])
  | ended phase hended =>
    have hkept := ended_flags hended
    exact ⟨hkept.1, hkept.2⟩

/-- A step that begins no walk clears nothing, and one that parks begins none. -/
theorem step_flags {host : Host} {base : Nat} {s : PassState} (h : Counted base s) (env : StepEnv) (d : Disk)
    (hstate : s.run.state = .ready ∨ s.run.state = .running) (hok : stopsAtStart host.profile env s.run = false) :
    (beginsWalk s (.step env) = false →
      FlagsKept s.run (rtRunStepReady host.keepFinished host.profile env s.run d).1) ∧
    ((rtRunStepReady host.keepFinished host.profile env s.run d).1.state = .waitingActionSlot →
      beginsWalk s (.step env) = false) := by
  have hopen : s.run.terminalEmitted = false := h.emitted (by rcases hstate with hs | hs <;> rw [hs] <;> rfl)
  have hjobs : s.run.waitingJobs = [] := by
    apply h.idle
    · rcases hstate with hs | hs <;> rw [hs] <;> simp
    · rcases hstate with hs | hs <;> rw [hs] <;> rfl
  rcases step_cases host.keepFinished host.profile env d hstate hopen hjobs with ⟨hended, -⟩ | ⟨hsnap, hcap, n, hadv⟩
  · refine ⟨fun _ => ended_flags hended, fun hslot => ?_⟩
    obtain ⟨r1, state, -, hterminal, heq⟩ := hended
    rw [heq] at hslot
    dsimp only at hslot
    rw [hslot] at hterminal
    cases hterminal
  obtain ⟨hdrains, hledger, hphase, -, hrunning, -⟩ := begun_started host.profile env s.run n
  refine ⟨fun hnone => ?_, fun hslot => ?_⟩
  · have hbegins : begins s.run = false := by
      by_contra hb
      rw [Bool.not_eq_false] at hb
      have hdue := (h.begins_iff hstate).symm.trans hb
      rw [Bool.and_eq_true] at hdue
      simp [beginsWalk, hsnap, hdue.1, hcap hb, of_decide_eq_true hdue.2] at hnone
    have hbegun : FlagsKept s.run (begun { s.run with nextEvent := n, runStarted := true }) := by
      have hno : begins { s.run with nextEvent := n, runStarted := true } = false := hbegins
      rw [begun, hno]
      exact ⟨id, id⟩
    have hkept := advanced_flags hadv
    exact ⟨hkept.1 ∘ hbegun.1, hkept.2 ∘ hbegun.2⟩
  · have hzero : s.run.phase ≠ 0 := by
      intro hz
      generalize begun { s.run with nextEvent := n, runStarted := true } = b at *
      generalize (rtRunStepReady host.keepFinished host.profile env s.run d).1 = r' at *
      cases hadv with
      | went hnoted phase hle heq =>
        obtain ⟨_, _, _, _, _, rfl⟩ := hnoted
        rw [heq] at hslot
        cases hrunning.symm.trans hslot
      | rewound heq =>
        rw [heq] at hslot
        cases hslot
      | ended hended =>
        obtain ⟨r1, state, -, hterminal, heq⟩ := hended
        rw [heq] at hslot
        dsimp only at hslot
        rw [hslot] at hterminal
        cases hterminal
      | parked rid action hd hstop hnoted heq => simp [stopsAtStart, hz, ← hdrains, hd, ← hledger, hstop] at hok
      | waits rid action hd hstop hnoted heq =>
        rw [heq] at hslot
        cases hslot
      | agent jobs stepId hlen hstep heq =>
        rw [heq] at hslot
        cases hslot
    simp [beginsWalk, hzero]

theorem pass_flags {host : Host} {e : Envelope} {base : Nat} {s s' : PassState} {i : PassInput} (h : Counted base s)
    (hok : Unstopped host s i) (hstep : passStep host e s i = some s') :
    (s'.walks = s.walks → FlagsKept s.run s'.run) ∧
      (s'.run.state = .waitingActionSlot ∨ (∃ fates, i = .own .slot fates) → s'.walks = s.walks) := by
  cases i with
  | others stores =>
    cases hstep
    exact ⟨fun _ => ⟨id, id⟩, fun _ => rfl⟩
  | own op fates =>
    simp only [passStep] at hstep
    cases op with
    | step env =>
      simp only [runOp] at hstep
      by_cases hstate : s.run.state = .ready ∨ s.run.state = .running
      · rw [if_pos hstate] at hstep
        cases hstep
        obtain ⟨hkept, hpark⟩ := step_flags h env { now := s.disk, fates := fates } hstate hok
        refine ⟨fun hwalks => hkept ?_, fun hslot => ?_⟩
        · by_contra hb
          rw [Bool.not_eq_false] at hb
          simp [hb] at hwalks
        · have hparked := hpark (hslot.resolve_right (by simp))
          simp [hparked]
      · rw [if_neg hstate] at hstep
        cases hstep
    | job jobId job =>
      simp only [runOp] at hstep
      have hwaiting : s.run.state = .waitingJobs := by
        by_contra hno
        simp [pumpFinishedJob, hno] at hstep
      have hopen : s.run.terminalEmitted = false := h.emitted (by rw [hwaiting]; rfl)
      cases hpump : pumpFinishedJob host.keepFinished host.profile s.run { now := s.disk, fates := fates } jobId job with
      | none =>
        rw [hpump] at hstep
        cases hstep
      | some m =>
        rw [hpump] at hstep
        cases hstep
        refine ⟨fun _ => ?_, fun _ => rfl⟩
        obtain ⟨-, ⟨_, _, _, _, hpumped⟩ | ⟨_, hpumped⟩⟩ := pump_pumped _ _ hopen hpump
        · exact pumped_flags hpumped
        · exact pumped_flags hpumped
    | slot =>
      simp only [runOp, wakeActionSlotWaiter] at hstep
      by_cases hslot : s.run.state = .waitingActionSlot
      · rw [if_pos hslot] at hstep
        cases hstep
        exact ⟨fun _ => ⟨id, id⟩, fun _ => rfl⟩
      · rw [if_neg hslot] at hstep
        cases hstep
    | retry readable =>
      simp only [runOp] at hstep
      by_cases hevent : s.run.state = .waitingEvent
      · rw [if_pos hevent] at hstep
        have hopen : s.run.terminalEmitted = false := h.emitted (by rw [hevent]; rfl)
        have hcases := retry_cases host readable { now := s.disk, fates := fates } e hopen
        generalize retryWaitingInboundClaim host readable s.run { now := s.disk, fates := fates } e = m at hstep hcases
        obtain ⟨r1, d1⟩ := m
        cases hstep
        refine ⟨fun _ => ?_, fun _ => rfl⟩
        rcases hcases with hsame | ⟨r2, hsame, hended⟩
        · exact ⟨hsame.delivered, hsame.progress⟩
        · have hkept := ended_flags hended
          exact ⟨hkept.1 ∘ hsame.delivered, hkept.2 ∘ hsame.progress⟩
      · rw [if_neg hevent] at hstep
        cases hstep
    | cancel =>
      simp only [runOp] at hstep
      cases hstep
      refine ⟨fun _ => ?_, fun _ => rfl⟩
      cases hemitted : s.run.terminalEmitted with
      | false => exact ended_flags (terminal_ended _ _ _ _ hemitted)
      | true =>
        unfold applyRunTerminalEvent
        rw [if_pos hemitted]
        exact ⟨id, id⟩

/-- Where no drain stops at phase zero, the counter of a run is the number of walks it began. What begins no walk leaves
the counter and the flags alone, and neither a park nor a wake begins one; the cap is met by walks only; and two
executions with as many walks count the same. -/
theorem passes_count_walks {host : Host} {e : Envelope} {r : RtRun} {disk : Durable} {inputs : List PassInput}
    {s : PassState} (hlisted : Listed host e r)
    (hrun : Run (passStep host e) (Unstopped host) (passInit r disk) inputs s) :
    s.run.advance = r.advance + s.walks ∧
    (∀ i s', Unstopped host s i → passStep host e s i = some s' →
      (s'.walks = s.walks → s'.run.advance = s.run.advance ∧ FlagsKept s.run s'.run) ∧
      (s'.run.state = .waitingActionSlot ∨ (∃ fates, i = .own .slot fates) → s'.walks = s.walks)) ∧
    (begins s.run = true → rtMaxProfilePasses ≤ s.run.advance →
      s.due = true ∧ rtMaxProfilePasses ≤ r.advance + s.walks) ∧
    ∀ disk' inputs' s', Run (passStep host e) (Unstopped host) (passInit r disk') inputs' s' → s'.walks = s.walks →
      s'.run.advance = s.run.advance := by
  have h : Counted r.advance s := hrun.invariant (hlisted.fresh.counted disk) fun _ _ _ => pass_counted
  refine ⟨h.count, fun i s' hok hstep => ?_, fun hbegins hspent => ?_, fun disk' inputs' s' hrun' hwalks => ?_⟩
  · have h' := pass_counted h hok hstep
    obtain ⟨hkept, hpark⟩ := pass_flags h hok hstep
    refine ⟨fun hwalks => ⟨?_, hkept hwalks⟩, hpark⟩
    rw [h'.count, h.count, hwalks]
  · simp only [begins, Bool.and_eq_true, decide_eq_true_eq] at hbegins
    exact ⟨h.start hbegins.1 (.inl hbegins.2), h.count ▸ hspent⟩
  · have h' : Counted r.advance s' := hrun'.invariant (hlisted.fresh.counted disk') fun _ _ _ => pass_counted
    rw [h'.count, h.count, hwalks]

/-- A looping profile: an agent plans, and an explicit runner acts. -/
def loopHost : Host :=
  { keepFinished := 100
    profile :=
      { name := lit "default"
        steps := [{ id := lit "plan", type := lit "agent", target := lit "planner" },
          { id := lit "act", type := lit "builtin", target := lit "action_runner" }] } }

def pingEnvelope : Envelope :=
  .ordinary
    { kind := .custom, envelopeId := lit "bus_000001", originEventId := [], type := lit "ping", channel := lit "cli"
      userText := [], adapterId := [], contextId := lit "chat:cli", ref := none, affairId := [], action := []
      actionTaskId := [], actionArgs := [], payload := lit "\x7b\x7d", mediaRef := none, operationId := []
      completionToken := [], claimCause := [] }

def pinged : RtRun × Disk × Created := createRunFromEnvelope loopHost {} 1 { now := {} } pingEnvelope

theorem pinged_listed : Listed loopHost pingEnvelope pinged.1 := by
  have hcreated : createRunFromEnvelope loopHost {} 1 { now := {} } pingEnvelope = (pinged.1, pinged.2.1, pinged.2.2) := rfl
  exact .created hcreated (by decide)

def buildRequest (rid target : Bytes) : Request :=
  { requestId := rid
    call := { source := lit "planner", action := lit "build", args := target, taskId := [], workRev := 0 } }

/-- The agent asks for two builds. -/
def planBuilds : PassInput :=
  .own (.step { launch := fun _ => .failed
                agent := .native [.action (.request (buildRequest (lit "1") (lit "a"))),
                  .action (.request (buildRequest (lit "2") (lit "b")))] }) []

def stepSlotFree : PassInput := .own (.step { launch := fun _ => .job (lit "job_1") }) []

def stepSlotTaken : PassInput := .own (.step { launch := fun _ => .busy }) []

def firstBuilt : PassInput :=
  .own (.job (lit "job_1") (.action (lit "1")
    { kind := .succeeded, requestId := lit "1", action := lit "build", reason := [], result := lit "\x7b\x7d"
      error := lit "null" })) []

/-- The run parks at its runner, is woken, and acts: one walk begun, one pass counted. -/
theorem park_at_runner_free : ∃ s,
    Run (passStep loopHost pingEnvelope) (Unstopped loopHost) (passInit pinged.1 pinged.2.1.now)
      [planBuilds, stepSlotTaken, .own .slot [], stepSlotFree] s ∧
    s.walks = 1 ∧ s.run.advance = pinged.1.advance + 1 := by
  have hcheck : (checkRun (passStep loopHost pingEnvelope) (Unstopped loopHost) (passInit pinged.1 pinged.2.1.now)
      [planBuilds, stepSlotTaken, .own .slot [], stepSlotFree]).any (fun s => decide (s.walks = 1)) = true := by
    decide +kernel
  obtain ⟨s, hs, hwalks⟩ := (Option.any_eq_true _ _).mp hcheck
  have hone : s.walks = 1 := of_decide_eq_true hwalks
  exact ⟨s, .of_check hs, hone, hone ▸ (passes_count_walks pinged_listed (.of_check hs)).1⟩

/-- The second build finds the slot taken at phase zero. Every wake counts another pass, and after thirty-one of them
the run has failed at its cap, two walks begun. -/
theorem contention_spends_budget : ∃ s,
    exec (passStep loopHost pingEnvelope) (passInit pinged.1 pinged.2.1.now)
      ([planBuilds, stepSlotFree, firstBuilt, stepSlotTaken] ++
        (List.replicate 31 [.own .slot [], stepSlotTaken]).flatten) = some s ∧
    s.run.state = .failed ∧ s.run.advance = rtMaxProfilePasses ∧ s.walks = 2 ∧
    ¬ s.run.advance = pinged.1.advance + s.walks := by
  have hexec : (exec (passStep loopHost pingEnvelope) (passInit pinged.1 pinged.2.1.now)
      ([planBuilds, stepSlotFree, firstBuilt, stepSlotTaken] ++
        (List.replicate 31 [.own .slot [], stepSlotTaken]).flatten)).any (fun s =>
          decide (s.run.state = .failed ∧ s.run.advance = rtMaxProfilePasses ∧ s.walks = 2 ∧
            ¬ s.run.advance = pinged.1.advance + s.walks)) = true := by decide +kernel
  obtain ⟨s, hs, hspent⟩ := (Option.any_eq_true _ _).mp hexec
  exact ⟨s, hs, of_decide_eq_true hspent⟩

end Floofclaw.Guarantees.Passes
