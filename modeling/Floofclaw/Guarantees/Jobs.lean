import Floofclaw.Source.JobRunner

/-!
# Jobs end once

Every call on a child happens while its job is running, a child is reaped at
most once, and a tick leaves a job running exactly while its child, a pipe or
its private channel is still open. The verdict is read off the exit status and
off what fired. A pipe that another process holds open keeps a reaped job
running: deadline and grace go on signalling its process.
-/

set_option autoImplicit false

namespace Floofclaw.Guarantees.Jobs
open Floofclaw.Lib Floofclaw.Source.JobRunner

def isReaped : Call → Bool
  | .reaped _ => true
  | _ => false

/-- The output cap has fired. -/
def OverCap (job : RtJob) : Prop := job.stdoutCap < job.stdoutDrained ∨ job.stderrCap < job.stderrDrained

/-! ## The account of a job -/

/-- What the fields of a job say about the calls on its process. -/
structure Account (job : RtJob) : Prop where
  once : job.calls.countP isReaped = if job.exited then 1 else 0
  status : job.exited = true → ∃ status, .reaped status ∈ job.calls ∧ job.exitStatus = status.exitStatus
  timeout : job.killedForTimeout = true ↔ .kill .sigterm .deadline ∈ job.calls
  limit : job.killedForOutputLimit = true ↔ OverCap job
  caps : 0 < job.stdoutCap ∧ 0 < job.stderrCap

/-- A job that still runs. -/
structure Runs (job : RtJob) : Prop where
  account : Account job
  state : job.state = .running
  stays : .left ∉ job.calls

/-- A job that left: nothing was called on its process since, and its verdict is the one of its account. -/
structure Left (job : RtJob) : Prop where
  account : Account job
  state : job.state ≠ .running
  ended : ended job = true
  last : ∃ before, job.calls = before ++ [Call.left] ∧ .left ∉ before
  verdict : job.state = .finished ↔ job.exitStatus = 0 ∧ job.killedForTimeout = false ∧ job.killedForOutputLimit = false

def JobOk (job : RtJob) : Prop := Runs job ∨ Left job

/-! ## One call at a time -/

section Pieces
variable {job : RtJob} {nowMs killGraceMs : Nat}

/-- Any signal but the deadline's leaves the account as it is. -/
theorem Account.signal (h : Account job) {signal : Signal} {cause : Cause} (hcause : cause ≠ .deadline) (at' : Nat) :
    Account { job with calls := job.calls ++ [Call.kill signal cause], sigtermAtMs := at' } where
  once := by simpa [isReaped] using h.once
  status hexited := by
    obtain ⟨status, hmem, hstatus⟩ := h.status hexited
    exact ⟨status, List.mem_append_left _ hmem, hstatus⟩
  timeout := by
    rw [h.timeout]
    simp [Ne.symm hcause]
  limit := h.limit
  caps := h.caps

theorem Account.deadline (h : Account job) (at' : Nat) :
    Account { job with
      killedForTimeout := true, calls := job.calls ++ [Call.kill .sigterm .deadline], sigtermAtMs := at' } where
  once := by simpa [isReaped] using h.once
  status hexited := by
    obtain ⟨status, hmem, hstatus⟩ := h.status hexited
    exact ⟨status, List.mem_append_left _ hmem, hstatus⟩
  timeout := by simp
  limit := h.limit
  caps := h.caps

theorem sendSigterm_runs (h : Runs job) {cause : Cause} (hcause : cause ≠ .deadline) : Runs (sendSigterm nowMs cause job) := by
  unfold sendSigterm
  split
  · exact h
  · exact ⟨h.account.signal hcause nowMs, h.state, by simpa using h.stays⟩

theorem deadline_runs (h : Runs job) (hfirst : job.sigtermAtMs = 0) :
    Runs (sendSigterm nowMs .deadline { job with killedForTimeout := true }) := by
  unfold sendSigterm
  rw [if_neg (not_not.mpr hfirst)]
  exact ⟨h.account.deadline nowMs, h.state, by simpa using h.stays⟩

theorem enforce_runs (h : Runs job) : Runs (enforce nowMs killGraceMs job) := by
  have hdeadline : Runs (if 0 < job.deadlineMs ∧ job.deadlineMs ≤ nowMs ∧ job.sigtermAtMs = 0 then
      sendSigterm nowMs .deadline { job with killedForTimeout := true } else job) := by
    split
    · rename_i hdue
      exact deadline_runs h hdue.2.2
    · exact h
  unfold enforce
  generalize (if 0 < job.deadlineMs ∧ job.deadlineMs ≤ nowMs ∧ job.sigtermAtMs = 0 then
    sendSigterm nowMs .deadline { job with killedForTimeout := true } else job) = timed at hdeadline
  have hcap : Runs (if timed.killedForOutputLimit ∧ timed.sigtermAtMs = 0 then sendSigterm nowMs .outputCap timed else timed) := by
    split
    · exact sendSigterm_runs hdeadline (by decide)
    · exact hdeadline
  dsimp only
  generalize (if timed.killedForOutputLimit ∧ timed.sigtermAtMs = 0 then sendSigterm nowMs .outputCap timed else timed) = capped
    at hcap
  split
  · exact ⟨hcap.account.signal (by decide) capped.sigtermAtMs, hcap.state, by simpa using hcap.stays⟩
  · exact hcap

theorem drainStdout_runs (h : Runs job) (p : PipeRead) : Runs (drainStdout p job) := by
  unfold drainStdout
  split
  · exact h
  · refine ⟨⟨h.account.once, h.account.status, h.account.timeout, ?_, h.account.caps⟩, h.state, h.stays⟩
    have hlimit := h.account.limit
    have hcap := h.account.caps.1
    rw [OverCap] at hlimit ⊢
    simp only [Bool.or_eq_true, decide_eq_true_eq, hlimit]
    omega

theorem drainStderr_runs (h : Runs job) (p : PipeRead) : Runs (drainStderr p job) := by
  unfold drainStderr
  split
  · exact h
  · refine ⟨⟨h.account.once, h.account.status, h.account.timeout, ?_, h.account.caps⟩, h.state, h.stays⟩
    have hlimit := h.account.limit
    have hcap := h.account.caps.2
    rw [OverCap] at hlimit ⊢
    simp only [Bool.or_eq_true, decide_eq_true_eq, hlimit]
    omega

theorem drainPending_runs (h : Runs job) (p : Pipes) : Runs (drainPending p job) := by
  obtain ⟨haccount, hstate, hstays⟩ := drainStderr_runs (drainStdout_runs h p.stdout) p.stderr
  exact ⟨⟨haccount.once, haccount.status, haccount.timeout, haccount.limit, haccount.caps⟩, hstate, hstays⟩

theorem reap_runs (h : Runs job) (m : Meets) : Runs (reap m job) := by
  unfold reap
  split
  · exact h
  · rename_i hexited
    split
    · exact h
    · rename_i status hwaited
      have hreaped : Account { job with
          exitStatus := status.exitStatus, exited := true, calls := job.calls ++ [Call.reaped status] } := by
        refine ⟨?_, fun _ => ⟨status, by simp, rfl⟩, by simpa using h.account.timeout, h.account.limit, h.account.caps⟩
        have honce := h.account.once
        rw [if_neg hexited] at honce
        simp [isReaped, honce]
      exact drainPending_runs ⟨hreaped, h.state, by simpa using h.stays⟩ _

theorem settle_ok (h : Runs job) : JobOk (settle job) := by
  unfold settle
  split
  · rename_i hended
    have hcalls : ∀ call : Call, call ≠ .left → (call ∈ job.calls ++ [Call.left] ↔ call ∈ job.calls) := by
      intro call hcall
      simp [hcall]
    refine .inr ⟨⟨?_, ?_, ?_, h.account.limit, h.account.caps⟩, ?_, hended, ⟨job.calls, rfl, h.stays⟩, ?_⟩
    · simpa [isReaped] using h.account.once
    · intro hexited
      obtain ⟨status, hmem, hstatus⟩ := h.account.status hexited
      exact ⟨status, List.mem_append_left _ hmem, hstatus⟩
    · rw [hcalls _ (by decide)]
      exact h.account.timeout
    · dsimp only
      split <;> decide
    · dsimp only
      split
      · rename_i hgood
        simpa using hgood
      · rename_i hbad
        simpa using hbad
  · exact .inl h

theorem settle_running (job : RtJob) (h : job.state = .running) : (settle job).state = .running ↔ ended (settle job) = false := by
  unfold settle
  split
  · rename_i hended
    have hsame : ∀ state calls, ended { job with state := state, calls := calls } = true := fun _ _ => hended
    simp only [hsame, Bool.true_eq_false, iff_false]
    split <;> decide
  · rename_i hopen
    exact iff_of_true h (Bool.eq_false_iff.mpr hopen)

end Pieces

/-! ## Every step -/

theorem launched_ok (jobId : Nat) (l : Launch) : JobOk (launched jobId l) := by
  refine .inl ⟨⟨rfl, nofun, ?_, ?_, ?_, ?_⟩, rfl, by simp [launched]⟩
  · simp [launched]
  · simp [launched, OverCap]
  · unfold launched
    dsimp only
    split
    · assumption
    · decide
  · unfold launched
    dsimp only
    split
    · assumption
    · decide

theorem tickJob_ok {job : RtJob} (h : JobOk job) (nowMs killGraceMs : Nat) (m : Meets) :
    JobOk (tickJob nowMs killGraceMs m job) := by
  unfold tickJob
  rcases h with hruns | hleft
  · rw [if_neg (not_not.mpr hruns.state)]
    have hopen : Runs { job with brokerOpen := job.brokerOpen && !m.brokerCloses } :=
      ⟨⟨hruns.account.once, hruns.account.status, hruns.account.timeout, hruns.account.limit, hruns.account.caps⟩,
        hruns.state, hruns.stays⟩
    exact settle_ok (reap_runs (enforce_runs (drainPending_runs hopen m.pipes)) m)
  · rw [if_pos hleft.state]
    exact .inr hleft

/-- A job that left has nothing left to drain. -/
theorem drainPending_left {job : RtJob} (h : Left job) (p : Pipes) : drainPending p job = job := by
  have hended := h.ended
  simp only [ended, Bool.and_eq_true] at hended
  obtain ⟨⟨⟨⟨-, hout⟩, herr⟩, hprogress⟩, -⟩ := hended
  simp only [drainPending, drainStdout, drainStderr, hout, herr, hprogress, if_true, Bool.true_or]
  cases job
  simp_all

theorem closeBroker_left {job : RtJob} (h : Left job) (closes : Bool) :
    { job with brokerOpen := job.brokerOpen && !closes } = job := by
  have hended := h.ended
  simp only [ended, Bool.and_eq_true, Bool.not_eq_true'] at hended
  rw [hended.2, Bool.false_and]
  cases job
  simp_all

theorem onJob_ok {job : RtJob} (h : JobOk job) (jobId : Nat) {f : RtJob → RtJob} (hf : JobOk (f job)) :
    JobOk (onJob jobId f job) := by
  unfold onJob
  split
  · exact hf
  · exact h

theorem pipeReady_ok {job : RtJob} (h : JobOk job) (p : Pipes) : JobOk (drainPending p job) := by
  rcases h with hruns | hleft
  · exact .inl (drainPending_runs hruns p)
  · rw [drainPending_left hleft]
    exact .inr hleft

theorem brokerReady_ok {job : RtJob} (h : JobOk job) (closes : Bool) :
    JobOk { job with brokerOpen := job.brokerOpen && !closes } := by
  rcases h with hruns | hleft
  · exact .inl ⟨⟨hruns.account.once, hruns.account.status, hruns.account.timeout, hruns.account.limit, hruns.account.caps⟩,
      hruns.state, hruns.stays⟩
  · rw [closeBroker_left hleft]
    exact .inr hleft

theorem cancelJob_ok {job : RtJob} (h : JobOk job) (nowMs : Nat) (runId : Bytes) : JobOk (cancelJob nowMs runId job) := by
  unfold cancelJob
  split
  · exact h
  · rename_i hother
    rcases h with hruns | hleft
    · exact .inl (sendSigterm_runs hruns (by decide))
    · exact absurd (.inl hleft.state) hother

theorem shutdownTerm_ok {job : RtJob} (h : JobOk job) (nowMs : Nat) : JobOk (shutdownTerm nowMs job) := by
  unfold shutdownTerm
  rcases h with hruns | hleft
  · rw [if_neg (not_not.mpr hruns.state)]
    exact .inl ⟨hruns.account.signal (by decide) nowMs, hruns.state, by simpa using hruns.stays⟩
  · rw [if_pos hleft.state]
    exact .inr hleft

theorem shutdownKill_ok {job : RtJob} (h : JobOk job) : JobOk (shutdownKill job) := by
  unfold shutdownKill
  rcases h with hruns | hleft
  · rw [if_neg (not_not.mpr hruns.state)]
    exact .inl ⟨hruns.account.signal (by decide) job.sigtermAtMs, hruns.state, by simpa using hruns.stays⟩
  · rw [if_pos hleft.state]
    exact .inr hleft

def JobsOk (r : RtJobRunner) : Prop := ∀ job ∈ r.jobs, JobOk job

theorem map_ok {jobs : List RtJob} (h : ∀ job ∈ jobs, JobOk job) {f : RtJob → RtJob} (hf : ∀ job, JobOk job → JobOk (f job)) :
    ∀ job ∈ jobs.map f, JobOk job :=
  List.forall_mem_map.mpr fun job hjob => hf job (h job hjob)

theorem step_ok {r r' : RtJobRunner} {i : Step} (h : JobsOk r) (hstep : step r i = some r') : JobsOk r' := by
  cases i with
  | launch l forks =>
    obtain rfl := Option.some.inj hstep
    intro job hjob
    dsimp only at hjob
    split at hjob
    · rcases List.mem_cons.mp hjob with rfl | hjob
      · exact launched_ok r.nextJobId l
      · exact h job hjob
    · exact h job hjob
  | tick nowMs meets =>
    rw [step] at hstep
    split at hstep
    · cases hstep
    · obtain rfl := Option.some.inj hstep
      exact map_ok h fun job hjob => tickJob_ok hjob nowMs r.killGraceMs (meets job.jobId)
  | pipeReady jobId pipes =>
    obtain rfl := Option.some.inj hstep
    exact map_ok h fun job hjob => onJob_ok hjob jobId (pipeReady_ok hjob pipes)
  | brokerReady jobId closes =>
    obtain rfl := Option.some.inj hstep
    exact map_ok h fun job hjob => onJob_ok hjob jobId (brokerReady_ok hjob closes)
  | cancelRun runId nowMs =>
    rw [step] at hstep
    split at hstep
    · cases hstep
    · split at hstep
      · obtain rfl := Option.some.inj hstep
        exact h
      · obtain rfl := Option.some.inj hstep
        exact map_ok h fun job hjob => cancelJob_ok hjob nowMs runId
  | terminate nowMs =>
    rw [step] at hstep
    split at hstep
    · cases hstep
    · obtain rfl := Option.some.inj hstep
      exact map_ok h fun job hjob => shutdownTerm_ok hjob nowMs
  | kill =>
    obtain rfl := Option.some.inj hstep
    exact map_ok h fun job hjob => shutdownKill_ok hjob
  | popFinished =>
    obtain rfl := Option.some.inj hstep
    exact fun job hjob => h job (List.mem_of_mem_eraseP hjob)

/-! ## Whole runs -/

theorem run_ok {steps : List Step} {r : RtJobRunner} (h : exec step rtJobrunnerInit steps = some r) : JobsOk r :=
  exec_invariant h (fun _ hjob => absurd hjob List.not_mem_nil) fun _ _ _ => step_ok

/-- A job left the runner exactly when its last call says so, and nothing follows. -/
theorem JobOk.left {job : RtJob} (h : JobOk job) :
    (.left ∈ job.calls ↔ job.state ≠ .running) ∧ ∀ before after, job.calls = before ++ .left :: after → after = [] := by
  rcases h with hruns | hleft
  · refine ⟨iff_of_false hruns.stays (not_not.mpr hruns.state), fun before after hcalls => absurd ?_ hruns.stays⟩
    rw [hcalls]
    exact List.mem_append_right _ List.mem_cons_self
  · obtain ⟨calls, hcalls, hfirst⟩ := hleft.last
    refine ⟨iff_of_true (by rw [hcalls]; simp) hleft.state, fun before after hsplit => ?_⟩
    rcases List.eq_nil_or_concat after with hnil | ⟨init, call, hafter⟩
    · exact hnil
    · rw [hcalls, hafter, List.concat_eq_append, ← List.cons_append, ← List.append_assoc] at hsplit
      obtain ⟨hinit, -⟩ := List.append_inj' hsplit rfl
      exact absurd (hinit ▸ List.mem_append_right _ List.mem_cons_self) hfirst

theorem JobOk.account {job : RtJob} (h : JobOk job) : Account job := h.elim Runs.account Left.account

/-- The verdict, said of the calls and of the octets. -/
theorem JobOk.verdict {job : RtJob} (h : JobOk job) (hstate : job.state ≠ .running) :
    ∃ status, .reaped status ∈ job.calls ∧
      (job.state = .finished ↔ status.exitStatus = 0 ∧ .kill .sigterm .deadline ∉ job.calls ∧ ¬ OverCap job) := by
  rcases h with hruns | hleft
  · exact absurd hruns.state hstate
  · have hended := hleft.ended
    simp only [ended, Bool.and_eq_true] at hended
    obtain ⟨status, hmem, hstatus⟩ := hleft.account.status hended.1.1.1.1
    refine ⟨status, hmem, ?_⟩
    rw [hleft.verdict, hstatus, ← hleft.account.timeout, ← hleft.account.limit, Bool.not_eq_true, Bool.not_eq_true]

/-- In every run a signal goes to a running job only and never follows the job's end, a child is reaped at most once,
the verdict is that of the exit status and of what fired, and a tick leaves a job running exactly while its child, a
pipe or its private channel is open. -/
theorem jobs_end_once {steps : List Step} {r : RtJobRunner} (h : exec step rtJobrunnerInit steps = some r) :
    (∀ job ∈ r.jobs,
      (.left ∈ job.calls ↔ job.state ≠ .running) ∧ (∀ before after, job.calls = before ++ .left :: after → after = []) ∧
      job.calls.countP isReaped ≤ 1 ∧
      (job.state ≠ .running → ∃ status, .reaped status ∈ job.calls ∧
        (job.state = .finished ↔ status.exitStatus = 0 ∧ .kill .sigterm .deadline ∉ job.calls ∧ ¬ OverCap job))) ∧
    ∀ nowMs meets r', step r (.tick nowMs meets) = some r' →
      ∀ job ∈ r'.jobs, job.state = .running ↔ ended job = false := by
  have hok := run_ok h
  refine ⟨fun job hjob => ?_, fun nowMs meets r' hstep job hjob => ?_⟩
  · have hjobOk := hok job hjob
    obtain ⟨hleft, hlast⟩ := hjobOk.left
    refine ⟨hleft, hlast, ?_, hjobOk.verdict⟩
    rw [hjobOk.account.once]
    split <;> decide
  · have hok' : JobOk job := step_ok hok hstep job hjob
    rw [step] at hstep
    split at hstep
    · cases hstep
    · obtain rfl := Option.some.inj hstep
      obtain ⟨old, hold, rfl⟩ := List.mem_map.mp hjob
      rcases hok old hold with hruns | hleft
      · unfold tickJob
        rw [if_neg (not_not.mpr hruns.state)]
        refine settle_running _ ?_
        have hopen : Runs { old with brokerOpen := old.brokerOpen && !(meets old.jobId).brokerCloses } :=
          ⟨⟨hruns.account.once, hruns.account.status, hruns.account.timeout, hruns.account.limit, hruns.account.caps⟩,
            hruns.state, hruns.stays⟩
        exact (reap_runs (enforce_runs (drainPending_runs hopen _)) _).state
      · unfold tickJob
        rw [if_pos hleft.state]
        exact iff_of_false hleft.state (Bool.not_eq_false _ ▸ hleft.ended)

/-! ## A job that is signalled after it was reaped -/

def nothing : Pipes := ⟨⟨0, false⟩, ⟨0, false⟩, false⟩

def everything : Pipes := ⟨⟨5, true⟩, ⟨0, true⟩, true⟩

def someAction : Launch := ⟨.action, lit "run_001", 100, 0, 0, false⟩

/-- A child exits with its pipes closed: one tick ends the job. -/
theorem job_ends_once : ∃ r, exec step rtJobrunnerInit
      [.launch someAction true, .tick 10 fun _ => ⟨false, nothing, some (.exited 0), everything⟩] = some r ∧
    ∀ job ∈ r.jobs, job.state = .finished ∧ job.calls.countP isReaped ≤ 1 := by
  have hstate : (exec step rtJobrunnerInit
      [.launch someAction true, .tick 10 fun _ => ⟨false, nothing, some (.exited 0), everything⟩]).map
      (fun r => r.jobs.map RtJob.state) = some [.finished] := by decide +kernel
  obtain ⟨r, hr, hjobs⟩ := Option.map_eq_some_iff.mp hstate
  refine ⟨r, hr, fun job hjob => ⟨?_, ((jobs_end_once hr).1 job hjob).2.2.1⟩⟩
  have hmem := List.mem_map_of_mem (f := RtJob.state) hjob
  rw [hjobs] at hmem
  exact List.mem_singleton.mp hmem

/-- The child exits at once and another process keeps its stdout open: the deadline and the grace signal a process that
was reaped, and the job is running long after. -/
theorem reaped_job_signalled : (exec step rtJobrunnerInit
      [.launch someAction true, .tick 10 fun _ => ⟨false, nothing, some (.exited 0), nothing⟩,
        .tick 100 fun _ => ⟨false, nothing, none, nothing⟩, .tick 5000 fun _ => ⟨false, nothing, none, nothing⟩]).map
      (fun r => r.jobs.map fun job => (job.state, job.exited, job.sigtermAtMs, job.calls)) =
    some [(.running, true, 100, [.reaped (.exited 0), .kill .sigterm .deadline, .kill .sigkill .grace])] := by
  decide +kernel

end Floofclaw.Guarantees.Jobs
