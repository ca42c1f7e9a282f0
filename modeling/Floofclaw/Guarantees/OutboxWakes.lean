import Mathlib.Data.List.Nodup
import Floofclaw.Source.Outbox

/-!
# Wakes

A pass of the outbox publishes a wake only on committed truth, and only until a
run claims it. The steps of prepare, append, reconcile, intake, termination,
release and pruning interleave in any order, and a crash may fall between any
two of them.
-/

set_option autoImplicit false

namespace Floofclaw.Guarantees.OutboxWakes
open Floofclaw.Lib Floofclaw.Source.Json Floofclaw.Source.Outbox

/-! ## Source truth -/

/-- Exactly one newline-terminated line of the log has the reserved id, and it is the record's event. -/
def SourceOwned (record : PublicationRecord) (text : Bytes) : Prop :=
  ∃ line, (completeLines text).filter (fun l => lineEventId l = some record.sourceEventId) = [line] ∧
    ownsSource record line = true

theorem sourceLoop_exact {record : PublicationRecord} {found : Nat} {result : SourceState} {lines : List Bytes}
    (h : sourceLoop record found result lines = .exact) :
    (lines.filter (fun l => lineEventId l = some record.sourceEventId) = [] ∧ result = .exact) ∨
      (found = 0 ∧ ∃ line, lines.filter (fun l => lineEventId l = some record.sourceEventId) = [line] ∧
        ownsSource record line = true) := by
  induction lines generalizing found result with
  | nil =>
    rw [sourceLoop] at h
    exact .inl ⟨rfl, h⟩
  | cons line rest ih =>
    rw [sourceLoop] at h
    split at h
    · cases h
    rename_i eventId hid
    split at h
    · rename_i heq
      split at h
      · cases h
      rename_i howns
      have hzero : found = 0 := by
        by_contra hne
        exact howns (.inl (Nat.one_le_iff_ne_zero.mpr hne))
      have hline : ownsSource record line = true := by
        by_contra hne
        exact howns (.inr (by simpa using hne))
      have hkeep : (line :: rest).filter (fun l => lineEventId l = some record.sourceEventId) =
          line :: rest.filter (fun l => lineEventId l = some record.sourceEventId) := by
        simp [hid, heq]
      rcases ih h with ⟨hrest, -⟩ | ⟨hpos, -⟩
      · exact .inr ⟨hzero, line, by rw [hkeep, hrest], hline⟩
      · cases hpos
    · rename_i hne
      have hdrop : (line :: rest).filter (fun l => lineEventId l = some record.sourceEventId) =
          rest.filter (fun l => lineEventId l = some record.sourceEventId) := by
        simp [hid, hne]
      rw [hdrop]
      exact ih h

theorem sourceState_exact {record : PublicationRecord} {log : Option Bytes} (h : sourceState record log = .exact) :
    ∃ text, log = some text ∧ SourceOwned record text := by
  cases log with
  | none => cases h
  | some text =>
    rcases sourceLoop_exact h with ⟨-, hresult⟩ | ⟨-, howned⟩
    · cases hresult
    · exact ⟨text, rfl, howned⟩

/-! ## Verdicts -/

/-- A verdict reads control states and logs only. -/
theorem runClaimState_congr {s s' : OutboxState} (hruns : s'.runs = s.runs) (hlogs : s'.logs = s.logs)
    (record : PublicationRecord) : runClaimState s' record = runClaimState s record := by
  simp only [runClaimState, runClaimScan, runClaimStateBound, claimStateOfRun, hruns, hlogs]

theorem claimStateOfRun_terminal {s : OutboxState} {record : PublicationRecord} {ctl : RunControl}
    (h : claimStateOfRun s record ctl = .terminal) : ctl.status = .terminal := by
  unfold claimStateOfRun at h
  split at h
  · cases h
  split at h
  · cases h
  · cases h
  · split at h
    · assumption
    · cases h

theorem claimStateOfRun_claimed {s : OutboxState} {record : PublicationRecord} {ctl : RunControl} :
    claimStateOfRun s record ctl ≠ .unclaimed := by
  unfold claimStateOfRun
  split
  · simp
  split
  · simp
  · simp
  · split <;> simp

theorem runClaimStateBound_terminal {s : OutboxState} {runId : Bytes} {record : PublicationRecord}
    (h : runClaimStateBound s runId record = .terminal) :
    ∃ ctl ∈ s.runs, ctl.eventId = record.wakeId ∧ ctl.status = .terminal := by
  unfold runClaimStateBound at h
  split at h
  · cases h
  rename_i ctl hctl
  split at h
  · cases h
  rename_i hevent
  exact ⟨ctl, List.mem_of_find?_eq_some hctl, by simpa using hevent, claimStateOfRun_terminal h⟩

/-- An unclaimed wake has an unbound record and no run. -/
theorem runClaimState_unclaimed {s : OutboxState} {record : PublicationRecord}
    (h : runClaimState s record = .unclaimed) :
    record.claimedRunId = [] ∧ ∀ ctl ∈ s.runs, ctl.eventId ≠ record.wakeId := by
  unfold runClaimState at h
  split at h
  · rename_i hunbound
    refine ⟨hunbound, ?_⟩
    unfold runClaimScan at h
    split at h
    · rename_i hnone
      rw [List.filter_eq_nil_iff] at hnone
      intro ctl hctl
      simpa using hnone ctl hctl
    · exact absurd h claimStateOfRun_claimed
    · cases h
  · split at h
    · cases h
    · rename_i hne
      exact absurd h hne

/-! ## The invariant -/

structure Served (s : OutboxState) : Prop where
  inbox : ∀ e ∈ s.inbox, ∀ ctl ∈ s.runs, ctl.eventId ≠ e.id
  renamed : ∀ env, s.pc = .renamed env →
    (∀ ctl ∈ s.runs, ctl.eventId ≠ env.id) ∧ (∀ e ∈ s.inbox, e.id ≠ env.id) ∧ env ∈ s.processed
  events : (s.runs.map RunControl.eventId).Nodup
  names : (s.runs.map RunControl.runId).Nodup
  bound : ∀ r ∈ s.records, r.claimedRunId ≠ [] →
    ∃ ctl ∈ s.runs, ctl.runId = r.claimedRunId ∧ ctl.eventId = r.wakeId
  persisted : ∀ env runId, s.pc = .persisted env runId → ∃ ctl ∈ s.runs, ctl.runId = runId ∧ ctl.eventId = env.id

/-- The run a terminal verdict speaks of is there, also behind a binding. -/
theorem terminal_claim {s : OutboxState} {record : PublicationRecord} (h : Served s) (hmem : record ∈ s.records)
    (hterminal : runClaimState s record = .terminal) :
    ∃ ctl ∈ s.runs, ctl.eventId = record.wakeId ∧ ctl.status = .terminal := by
  unfold runClaimState at hterminal
  split at hterminal
  · unfold runClaimScan at hterminal
    split at hterminal
    · cases hterminal
    · rename_i ctl hctl
      have hin : ctl ∈ s.runs.filter fun ctl => ctl.eventId = record.wakeId := by rw [hctl]; simp
      rw [List.mem_filter] at hin
      exact ⟨ctl, hin.1, by simpa using hin.2, claimStateOfRun_terminal hterminal⟩
    · cases hterminal
  · rename_i hbound
    split at hterminal
    · rename_i hgone
      -- a record in the outbox keeps its run from the janitor, so the run is still there
      obtain ⟨ctl, hctl, hname, -⟩ := h.bound record hmem hbound
      unfold runClaimStateBound at hgone
      split at hgone
      · rename_i hnone
        rw [List.find?_eq_none] at hnone
        exact absurd hname (by simpa using hnone ctl hctl)
      · split at hgone
        · cases hgone
        · exact absurd hgone claimStateOfRun_claimed
    · exact runClaimStateBound_terminal hterminal

/-! ## A pass -/

/-- What a publication rests on. -/
def Publishable (s : OutboxState) (record : PublicationRecord) : Prop :=
  record.claimedRunId = [] ∧ sourceState record (s.logs record.sourceRunId) = .exact ∧
    ∀ ctl ∈ s.runs, ctl.eventId ≠ record.wakeId

/-- What one record, or a whole pass, may change: it removes records with a terminal claim and adds wakes that
are publishable. -/
structure PassEffect (s s' : OutboxState) (handled : List PublicationRecord) : Prop where
  runs : s'.runs = s.runs
  logs : s'.logs = s.logs
  pc : s'.pc = s.pc
  records : s'.records ⊆ s.records
  removed : ∀ r ∈ s.records, r ∉ s'.records → r ∈ handled ∧ runClaimState s r = .terminal
  inbox : ∀ e ∈ s'.inbox, e ∈ s.inbox ∨ ∃ r ∈ handled, e = wakeEnvelope r ∧ Publishable s r

theorem PassEffect.refl (s : OutboxState) (handled : List PublicationRecord) : PassEffect s s handled :=
  ⟨rfl, rfl, rfl, List.Subset.refl _, fun _ h hn => absurd h hn, fun _ h => .inl h⟩

theorem publishWake_effect {s : OutboxState} {record : PublicationRecord} {busOk : Bool} (h : Publishable s record) :
    PassEffect s (publishWake s record busOk).1 [record] := by
  have hadd : ∀ processed, PassEffect s { s with processed := processed, inbox := s.inbox ++ [wakeEnvelope record] }
      [record] := by
    intro processed
    refine ⟨rfl, rfl, rfl, List.Subset.refl _, fun _ h hn => absurd h hn, fun e he => ?_⟩
    rcases List.mem_append.mp he with he | he
    · exact .inl he
    · exact .inr ⟨record, by simp, List.mem_singleton.mp he, h⟩
  unfold publishWake
  dsimp only
  split
  · exact .refl s _
  · exact .refl s _
  · split
    · exact hadd _
    · exact .refl s _
  · split
    · exact hadd s.processed
    · exact .refl s _

theorem reconcileRecord_effect (s : OutboxState) (record : PublicationRecord) (io : RecordIo) :
    PassEffect s (reconcileRecord s record io).1 [record] := by
  unfold reconcileRecord
  split
  · exact .refl s _
  split
  · exact .refl s _
  rename_i hgate
  split
  · exact .refl s _
  split
  · exact .refl s _
  · rename_i hterminal
    split
    · refine ⟨rfl, rfl, rfl, fun _ hr => (List.mem_filter.mp hr).1, fun r hr hgone => ?_, fun _ h => .inl h⟩
      have heq : r = record := by
        by_contra hne
        exact hgone (List.mem_filter.mpr ⟨hr, by simpa using hne⟩)
      exact ⟨by simp [heq], heq ▸ hterminal⟩
    · exact .refl s _
  · exact .refl s _
  · exact .refl s _
  · rename_i hunclaimed
    obtain ⟨hunbound, hnone⟩ := runClaimState_unclaimed hunclaimed
    refine publishWake_effect ⟨hunbound, ?_, hnone⟩
    unfold sourceGate at hgate
    rw [if_neg (by simp [hunbound])] at hgate
    split at hgate
    · cases hgate
    split at hgate
    · cases hgate
    · cases hgate
    · assumption

theorem Publishable.congr {s s' : OutboxState} {record : PublicationRecord} (h : Publishable s' record)
    (hruns : s'.runs = s.runs) (hlogs : s'.logs = s.logs) : Publishable s record := by
  unfold Publishable at h ⊢
  rwa [hruns, hlogs] at h

theorem PassEffect.trans {s s1 s2 : OutboxState} {l1 l2 : List PublicationRecord} (h1 : PassEffect s s1 l1)
    (h2 : PassEffect s1 s2 l2) : PassEffect s s2 (l1 ++ l2) := by
  refine ⟨h2.runs.trans h1.runs, h2.logs.trans h1.logs, h2.pc.trans h1.pc,
    fun _ h => h1.records (h2.records h), fun r hr hgone => ?_, fun e he => ?_⟩
  · by_cases hmem : r ∈ s1.records
    · obtain ⟨hin, hterminal⟩ := h2.removed r hmem hgone
      exact ⟨List.mem_append_right _ hin, by rwa [runClaimState_congr h1.runs h1.logs] at hterminal⟩
    · obtain ⟨hin, hterminal⟩ := h1.removed r hr hmem
      exact ⟨List.mem_append_left _ hin, hterminal⟩
  · rcases h2.inbox e he with he | ⟨r, hr, heq, hpub⟩
    · rcases h1.inbox e he with he | ⟨r, hr, heq, hpub⟩
      · exact .inl he
      · exact .inr ⟨r, List.mem_append_left _ hr, heq, hpub⟩
    · exact .inr ⟨r, List.mem_append_right _ hr, heq, hpub.congr h1.runs h1.logs⟩

theorem reconcilePass_effect (s : OutboxState) (handled : List (PublicationRecord × RecordIo)) :
    PassEffect s (reconcilePass s handled).1 (handled.map Prod.fst) := by
  induction handled generalizing s with
  | nil => exact .refl s _
  | cons x rest ih =>
    obtain ⟨record, io⟩ := x
    exact (reconcileRecord_effect s record io).trans (ih _)

/-! ## Steps -/

/-- A pass keeps the invariant: what it publishes no run has claimed, and it runs outside a rename. -/
theorem Served.pass {s s' : OutboxState} {handled : List PublicationRecord} (h : Served s) (he : PassEffect s s' handled)
    (hpc : ∀ env, s.pc ≠ .renamed env) : Served s' := by
  refine ⟨fun e hmem ctl hctl => ?_, fun env henv => absurd (he.pc ▸ henv) (hpc env), ?_, ?_, fun r hr hb => ?_,
    fun env runId henv => ?_⟩
  · rw [he.runs] at hctl
    rcases he.inbox e hmem with hmem | ⟨r, -, rfl, hpub⟩
    · exact h.inbox e hmem ctl hctl
    · exact hpub.2.2 ctl hctl
  · rw [he.runs]
    exact h.events
  · rw [he.runs]
    exact h.names
  · rw [he.runs]
    exact h.bound r (he.records hr) hb
  · rw [he.runs]
    exact h.persisted env runId (he.pc ▸ henv)

/-- Steps that leave the runs alone, end or keep the intake, and only shrink the inbox and the bound records. -/
theorem Served.shrink {s s' : OutboxState} (h : Served s) (hruns : s'.runs = s.runs)
    (hpc : (s'.pc = s.pc ∧ s'.processed = s.processed) ∨ s'.pc = .idle) (hinbox : ∀ e ∈ s'.inbox, e ∈ s.inbox)
    (hrecords : ∀ r ∈ s'.records, r.claimedRunId ≠ [] → r ∈ s.records) : Served s' := by
  refine ⟨fun e he ctl hctl => h.inbox e (hinbox e he) ctl (hruns ▸ hctl), fun env henv => ?_, hruns ▸ h.events,
    hruns ▸ h.names, fun r hr hb => hruns ▸ h.bound r (hrecords r hr hb) hb, fun env runId henv => ?_⟩
  · rcases hpc with ⟨hpc, hproc⟩ | hpc
    · obtain ⟨hfree, hin, hmem⟩ := h.renamed env (hpc ▸ henv)
      exact ⟨hruns ▸ hfree, fun e he => hin e (hinbox e he), hproc ▸ hmem⟩
    · rw [hpc] at henv
      cases henv
  · rcases hpc with ⟨hpc, -⟩ | hpc
    · exact hruns ▸ h.persisted env runId (hpc ▸ henv)
    · rw [hpc] at henv
      cases henv

theorem unusedId_free {s : OutboxState} {id : Bytes} (h : unusedId s id = true) :
    (∀ e ∈ s.processed, e.id ≠ id) ∧ (∀ r ∈ s.records, r.wakeId ≠ id) ∧ ∀ ctl ∈ s.runs, ctl.eventId ≠ id := by
  simp only [unusedId, inProcessed, Bool.and_eq_true, Bool.not_eq_true', List.any_eq_false, List.all_eq_true] at h
  obtain ⟨⟨⟨-, hp⟩, hr⟩, hruns⟩ := h
  exact ⟨fun e he => by simpa using hp e he, fun r hmem => by simpa using hr r hmem,
    fun ctl hctl => by simpa using hruns ctl hctl⟩

theorem Served.publishOther {s : OutboxState} {env : WakeEnvelope} (h : Served s) (hfree : unusedId s env.id = true) :
    Served { s with inbox := s.inbox ++ [env] } := by
  obtain ⟨hproc, -, hruns⟩ := unusedId_free hfree
  refine ⟨fun e he ctl hctl => ?_, fun env' henv => ?_, h.events, h.names, h.bound, h.persisted⟩
  · rcases List.mem_append.mp he with he | he
    · exact h.inbox e he ctl hctl
    · rw [List.mem_singleton.mp he]
      exact hruns ctl hctl
  · obtain ⟨hnone, hin, hmem⟩ := h.renamed env' henv
    refine ⟨hnone, fun e he => ?_, hmem⟩
    rcases List.mem_append.mp he with he | he
    · exact hin e he
    · rw [List.mem_singleton.mp he]
      exact (hproc env' hmem).symm

theorem Served.rename {s : OutboxState} {env : WakeEnvelope} {id : Bytes} {processed : List WakeEnvelope} (h : Served s)
    (hmem : env ∈ s.inbox) (hid : env.id = id) :
    Served { s with inbox := s.inbox.filter fun e => e.id ≠ id, processed := processed ++ [env], pc := .renamed env } := by
  refine ⟨fun e he => h.inbox e (List.mem_filter.mp he).1, fun env' henv => ?_, h.events, h.names, h.bound, ?_⟩
  · obtain rfl : env = env' := by simpa using henv
    refine ⟨h.inbox env hmem, fun e he => ?_, by simp⟩
    have := (List.mem_filter.mp he).2
    rw [hid]
    simpa using this
  · intro env' runId henv
    cases henv

theorem Served.persist {s : OutboxState} {env : WakeEnvelope} {runId : Bytes} (h : Served s) (hpc : s.pc = .renamed env)
    (hfresh : ∀ ctl ∈ s.runs, ctl.runId ≠ runId) :
    Served { s with runs := s.runs ++ [{ runId := runId, status := .live, eventId := env.id, createdType := env.type }]
                    pc := .persisted env runId } := by
  obtain ⟨hnone, hin, -⟩ := h.renamed env hpc
  refine ⟨fun e he ctl hctl => ?_, fun env' henv => (by cases henv), ?_, ?_, fun r hr hb => ?_, fun env' runId' henv => ?_⟩
  · rcases List.mem_append.mp hctl with hctl | hctl
    · exact h.inbox e he ctl hctl
    · rw [List.mem_singleton.mp hctl]
      exact (hin e he).symm
  · rw [List.map_append, List.nodup_append]
    refine ⟨h.events, by simp, ?_⟩
    intro a ha b hb
    obtain ⟨ctl, hctl, rfl⟩ := List.mem_map.mp ha
    rw [List.map_singleton, List.mem_singleton] at hb
    exact hb ▸ hnone ctl hctl
  · rw [List.map_append, List.nodup_append]
    refine ⟨h.names, by simp, ?_⟩
    intro a ha b hb
    obtain ⟨ctl, hctl, rfl⟩ := List.mem_map.mp ha
    rw [List.map_singleton, List.mem_singleton] at hb
    exact hb ▸ hfresh ctl hctl
  · obtain ⟨ctl, hctl, hrest⟩ := h.bound r hr hb
    exact ⟨ctl, List.mem_append_left _ hctl, hrest⟩
  · simp only [IntakePc.persisted.injEq] at henv
    obtain ⟨rfl, rfl⟩ := henv
    exact ⟨_, List.mem_append_right _ (List.mem_singleton.mpr rfl), rfl, rfl⟩

theorem Served.bind {s : OutboxState} {env : WakeEnvelope} {runId : Bytes} (h : Served s)
    (hpc : s.pc = .persisted env runId) : Served (rtPublicationOutboxClaim s env.id runId) := by
  refine ⟨h.inbox, h.renamed, h.events, h.names, fun r hr hb => ?_, h.persisted⟩
  obtain ⟨r0, hr0, rfl⟩ := List.mem_map.mp hr
  split at hb
  · rename_i hwake
    rw [if_pos hwake]
    obtain ⟨ctl, hctl, hname, hevent⟩ := h.persisted env runId hpc
    exact ⟨ctl, hctl, hname, hevent.trans hwake.1.symm⟩
  · rename_i hother
    rw [if_neg hother]
    exact h.bound r0 hr0 hb

theorem terminated_eventId (runId : Bytes) (ctl : RunControl) : (terminated runId ctl).eventId = ctl.eventId := by
  unfold terminated
  split <;> rfl

theorem terminated_runId (runId : Bytes) (ctl : RunControl) : (terminated runId ctl).runId = ctl.runId := by
  unfold terminated
  split <;> rfl

theorem Served.terminate {s : OutboxState} {runId : Bytes} (h : Served s) :
    Served { s with runs := s.runs.map (terminated runId) } := by
  refine ⟨fun e he ctl hctl => ?_, fun env henv => ?_, ?_, ?_, fun r hr hb => ?_, fun env runId' henv => ?_⟩
  · obtain ⟨ctl0, hctl0, rfl⟩ := List.mem_map.mp hctl
    rw [terminated_eventId]
    exact h.inbox e he ctl0 hctl0
  · obtain ⟨hnone, hrest⟩ := h.renamed env henv
    refine ⟨fun ctl hctl => ?_, hrest⟩
    obtain ⟨ctl0, hctl0, rfl⟩ := List.mem_map.mp hctl
    rw [terminated_eventId]
    exact hnone ctl0 hctl0
  · rw [List.map_map, show RunControl.eventId ∘ terminated runId = RunControl.eventId from funext (terminated_eventId runId)]
    exact h.events
  · rw [List.map_map, show RunControl.runId ∘ terminated runId = RunControl.runId from funext (terminated_runId runId)]
    exact h.names
  · obtain ⟨ctl, hctl, h1, h2⟩ := h.bound r hr hb
    exact ⟨_, List.mem_map_of_mem hctl, (terminated_runId runId ctl).trans h1, (terminated_eventId runId ctl).trans h2⟩
  · obtain ⟨ctl, hctl, h1, h2⟩ := h.persisted env runId' henv
    exact ⟨_, List.mem_map_of_mem hctl, (terminated_runId runId ctl).trans h1, (terminated_eventId runId ctl).trans h2⟩

theorem Served.prune {s : OutboxState} {ctl : RunControl} {logs : Bytes → Option Bytes} (h : Served s) (hpc : s.pc = .idle)
    (hpending : rtPublicationOutboxRunPending s ctl = false) :
    Served { s with runs := s.runs.filter fun x => x ≠ ctl, logs := logs } := by
  have hsub : (s.runs.filter fun x => x ≠ ctl).Sublist s.runs := List.filter_sublist
  refine ⟨fun e he x hx => h.inbox e he x (hsub.subset hx), fun env henv => ?_, h.events.sublist (hsub.map _),
    h.names.sublist (hsub.map _), fun r hr hb => ?_, fun env runId henv => ?_⟩
  · rw [hpc] at henv
    cases henv
  · obtain ⟨x, hx, hname, hevent⟩ := h.bound r hr hb
    refine ⟨x, List.mem_filter.mpr ⟨hx, ?_⟩, hname, hevent⟩
    simp only [rtPublicationOutboxRunPending, List.any_eq_false, Bool.or_eq_true, decide_eq_true_eq, not_or] at hpending
    have := (hpending r hr).2
    simp only [ne_eq, decide_eq_true_eq]
    intro heq
    exact this (heq ▸ hevent.symm)
  · rw [hpc] at henv
    cases henv

theorem prepare_records {s : OutboxState} {wanted : PublicationRecord} {written : Bool} {r : PublicationRecord}
    (hr : r ∈ (rtPublicationOutboxPrepare s wanted written).1.records) (hb : r.claimedRunId ≠ []) : r ∈ s.records := by
  unfold rtPublicationOutboxPrepare at hr
  split at hr
  · exact hr
  · exact hr
  split at hr
  · exact hr
  · rcases List.mem_append.mp hr with hr | hr
    · exact hr
    · rw [List.mem_singleton.mp hr] at hb
      exact absurd rfl hb

theorem prepare_frame (s : OutboxState) (wanted : PublicationRecord) (written : Bool) :
    (rtPublicationOutboxPrepare s wanted written).1 =
      { s with records := (rtPublicationOutboxPrepare s wanted written).1.records } := by
  unfold rtPublicationOutboxPrepare
  split
  · rfl
  · rfl
  split <;> rfl

/-- A released record has a terminal claim. -/
theorem release_effect (s : OutboxState) (wakeId runId : Bytes) (unlinked : Bool) :
    (rtPublicationOutboxRelease s wakeId runId unlinked).1 = s ∨
      ∃ record, (rtPublicationOutboxRelease s wakeId runId unlinked).1 = removeRecord s record ∧
        ∃ ctl ∈ s.runs, ctl.eventId = record.wakeId ∧ ctl.status = .terminal := by
  unfold rtPublicationOutboxRelease
  split
  · exact .inl rfl
  rename_i record _
  split
  · exact .inl rfl
  split
  · rename_i hterminal
    simp only [Bool.and_eq_true, decide_eq_true_eq] at hterminal
    exact .inr ⟨record, rfl, runClaimStateBound_terminal hterminal.1⟩
  · exact .inl rfl

theorem Served.remove {s : OutboxState} (h : Served s) (record : PublicationRecord) : Served (removeRecord s record) :=
  h.shrink rfl (.inl ⟨rfl, rfl⟩) (fun _ he => he) fun _ hr _ => (List.mem_filter.mp hr).1

/-- One step keeps the invariant. -/
theorem step_served {s s' : OutboxState} {i : OutboxInput} (h : Served s) (hstep : outboxStep s i = some s') :
    Served s' := by
  cases i with
  | prepare wanted written =>
    simp only [outboxStep, Option.ite_none_right_eq_some, Option.some.injEq] at hstep
    obtain ⟨-, rfl⟩ := hstep
    rw [prepare_frame]
    exact h.shrink rfl (.inl ⟨rfl, rfl⟩) (fun _ he => he) fun _ hr hb => prepare_records hr hb
  | append runId text =>
    cases hstep
    exact h.shrink rfl (.inl ⟨rfl, rfl⟩) (fun _ he => he) fun _ hr _ => hr
  | truncate runId =>
    cases hstep
    exact h.shrink rfl (.inl ⟨rfl, rfl⟩) (fun _ he => he) fun _ hr _ => hr
  | publishOther env =>
    simp only [outboxStep, Option.ite_none_right_eq_some, Option.some.injEq] at hstep
    exact hstep.2 ▸ h.publishOther hstep.1
  | reconcile handled =>
    simp only [outboxStep] at hstep
    split at hstep
    · cases hstep
    rename_i hpc
    simp only [Option.ite_none_right_eq_some, Option.some.injEq] at hstep
    exact hstep.2 ▸ h.pass (reconcilePass_effect s handled) fun env henv => hpc env henv
  | rename id =>
    simp only [outboxStep] at hstep
    split at hstep
    · rename_i env hpc hfind
      cases hstep
      exact h.rename (List.mem_of_find?_eq_some hfind) (by simpa using List.find?_some hfind)
    · cases hstep
  | reject =>
    simp only [outboxStep] at hstep
    split at hstep
    · cases hstep
      exact h.shrink rfl (.inr rfl) (fun _ he => he) fun _ hr _ => hr
    · cases hstep
  | persist runId =>
    simp only [outboxStep] at hstep
    split at hstep
    · rename_i env hpc
      simp only [Option.ite_none_right_eq_some, Option.some.injEq] at hstep
      obtain ⟨⟨-, hfresh, -⟩, rfl⟩ := hstep
      rw [List.all_eq_true] at hfresh
      exact h.persist hpc fun ctl hctl => by simpa using hfresh ctl hctl
    · cases hstep
  | bind written =>
    simp only [outboxStep] at hstep
    split at hstep
    · rename_i env runId hpc
      split at hstep
      · cases hstep
        exact h.bind hpc
      · cases hstep
        exact h
    · cases hstep
  | finish =>
    simp only [outboxStep] at hstep
    split at hstep
    · cases hstep
      exact h.shrink rfl (.inr rfl) (fun _ he => he) fun _ hr _ => hr
    · cases hstep
  | terminate runId =>
    cases hstep
    exact h.terminate
  | release wakeId runId unlinked =>
    cases hstep
    rcases release_effect s wakeId runId unlinked with heq | ⟨record, heq, -⟩
    · rw [heq]
      exact h
    · rw [heq]
      exact h.remove record
  | prune runId =>
    simp only [outboxStep] at hstep
    split at hstep
    · rename_i ctl hpc hfind
      simp only [Option.ite_none_right_eq_some, Option.some.injEq] at hstep
      obtain ⟨⟨-, hpending⟩, rfl⟩ := hstep
      exact h.prune hpc hpending
    · cases hstep
  | discard id =>
    simp only [outboxStep, Option.ite_none_right_eq_some, Option.some.injEq] at hstep
    obtain ⟨⟨hpc, -⟩, rfl⟩ := hstep
    exact h.shrink rfl (.inr hpc) (fun _ he => he) fun _ hr _ => hr
  | crash =>
    cases hstep
    exact h.shrink rfl (.inr rfl) (fun _ he => he) fun _ hr _ => hr

theorem init_served : Served outboxInit :=
  ⟨by simp [outboxInit], by simp [outboxInit], by simp [outboxInit], by simp [outboxInit], by simp [outboxInit],
    by simp [outboxInit]⟩

/-! ## The claim -/

/-- A record that a step removes has a terminal run that claims it. -/
theorem removed_terminal {s s' : OutboxState} {i : OutboxInput} (h : Served s) (hstep : outboxStep s i = some s')
    {record : PublicationRecord} (hmem : record ∈ s.records) (hgone : ∀ r ∈ s'.records, r.wakeId ≠ record.wakeId) :
    ∃ ctl ∈ s.runs, ctl.eventId = record.wakeId ∧ ctl.status = .terminal := by
  have hkept : s'.records = s.records → ∃ ctl ∈ s.runs, ctl.eventId = record.wakeId ∧ ctl.status = .terminal :=
    fun heq => absurd rfl (hgone record (heq ▸ hmem))
  cases i with
  | prepare wanted written =>
    simp only [outboxStep, Option.ite_none_right_eq_some, Option.some.injEq] at hstep
    obtain ⟨-, rfl⟩ := hstep
    refine absurd rfl (hgone record ?_)
    unfold rtPublicationOutboxPrepare
    split
    · exact hmem
    · exact hmem
    split
    · exact hmem
    · exact List.mem_append_left _ hmem
  | reconcile handled =>
    simp only [outboxStep] at hstep
    split at hstep
    · cases hstep
    simp only [Option.ite_none_right_eq_some, Option.some.injEq] at hstep
    obtain ⟨-, rfl⟩ := hstep
    have hremoved := (reconcilePass_effect s handled).removed record hmem fun hr => hgone record hr rfl
    exact terminal_claim h hmem hremoved.2
  | bind written =>
    simp only [outboxStep] at hstep
    split at hstep
    · split at hstep
      · cases hstep
        refine absurd ?_ (hgone _ (List.mem_map_of_mem hmem))
        split <;> rfl
      · cases hstep
        exact hkept rfl
    · cases hstep
  | release wakeId runId unlinked =>
    cases hstep
    rcases release_effect s wakeId runId unlinked with heq | ⟨r, heq, hterminal⟩
    · rw [heq] at hgone
      exact absurd rfl (hgone record hmem)
    · rw [heq] at hgone
      by_cases hr : record = r
      · exact hr ▸ hterminal
      · exact absurd rfl (hgone record (List.mem_filter.mpr ⟨hmem, by simpa using hr⟩))
  | append runId text =>
    cases hstep
    exact hkept rfl
  | truncate runId =>
    cases hstep
    exact hkept rfl
  | terminate runId =>
    cases hstep
    exact hkept rfl
  | crash =>
    cases hstep
    exact hkept rfl
  | publishOther env =>
    simp only [outboxStep, Option.ite_none_right_eq_some, Option.some.injEq] at hstep
    exact hkept (hstep.2 ▸ rfl)
  | discard id =>
    simp only [outboxStep, Option.ite_none_right_eq_some, Option.some.injEq] at hstep
    exact hkept (hstep.2 ▸ rfl)
  | rename id =>
    simp only [outboxStep] at hstep
    split at hstep
    · cases hstep
      exact hkept rfl
    · cases hstep
  | reject =>
    simp only [outboxStep] at hstep
    split at hstep
    · cases hstep
      exact hkept rfl
    · cases hstep
  | persist runId =>
    simp only [outboxStep] at hstep
    split at hstep
    · simp only [Option.ite_none_right_eq_some, Option.some.injEq] at hstep
      exact hkept (hstep.2 ▸ rfl)
    · cases hstep
  | finish =>
    simp only [outboxStep] at hstep
    split at hstep
    · cases hstep
      exact hkept rfl
    · cases hstep
  | prune runId =>
    simp only [outboxStep] at hstep
    split at hstep
    · simp only [Option.ite_none_right_eq_some, Option.some.injEq] at hstep
      exact hkept (hstep.2 ▸ rfl)
    · cases hstep

/-- In every state of every run: a pass writes or requeues a wake only for an unbound record whose source is
committed exactly once and exactly; no two runs come from one envelope; and a record goes only with a terminal
claiming run. -/
theorem outbox_publishes_committed_truth {inputs : List OutboxInput} {s : OutboxState}
    (hrun : Run outboxStep (fun _ _ => True) outboxInit inputs s) :
    (∀ handled s', outboxStep s (.reconcile handled) = some s' → ∀ e ∈ s'.inbox, e ∉ s.inbox →
      ∃ record ∈ s.records, e = wakeEnvelope record ∧ ∃ text, s.logs record.sourceRunId = some text ∧
        SourceOwned record text) ∧
    (∀ ctl ∈ s.runs, ∀ ctl' ∈ s.runs, ctl.eventId = ctl'.eventId → ctl = ctl') ∧
    ∀ i s', outboxStep s i = some s' → ∀ record ∈ s.records, (∀ r ∈ s'.records, r.wakeId ≠ record.wakeId) →
      ∃ ctl ∈ s.runs, ctl.eventId = record.wakeId ∧ ctl.status = .terminal := by
  have h : Served s := hrun.invariant init_served fun _ _ _ hs _ hstep => step_served hs hstep
  refine ⟨fun handled s' hstep e he hnew => ?_, fun ctl hctl ctl' hctl' heq => ?_,
    fun i s' hstep record hmem hgone => removed_terminal h hstep hmem hgone⟩
  · simp only [outboxStep] at hstep
    split at hstep
    · cases hstep
    simp only [Option.ite_none_right_eq_some, Option.some.injEq] at hstep
    obtain ⟨hextends, rfl⟩ := hstep
    rcases (reconcilePass_effect s handled).inbox e he with he | ⟨record, hmem, heq, hpub⟩
    · exact absurd he hnew
    · obtain ⟨text, hlog, howned⟩ := sourceState_exact hpub.2.1
      exact ⟨record, hextends.subset hmem, heq, text, hlog, howned⟩
  · exact List.inj_on_of_nodup_map h.events hctl hctl' heq

/-- The wake of a finished step. -/
def stepRecord : PublicationRecord :=
  { wakeId := lit "bus_7", sourceRunId := lit "run_001", sourceEventId := lit "evt_run_001_000004"
    sourceType := lit "action_succeeded", channel := lit "cli", wakeType := lit "work_step_result"
    sourcePayload := lit "\x7b\"ok\":1\x7d", wakePayload := lit "\x7b\"step\":1\x7d" }

/-- The line its producer appends. -/
def stepLine : Bytes :=
  lit "\x7b\"event_id\":\"evt_run_001_000004\",\"type\":\"action_succeeded\",\"run_id\":\"run_001\",\"payload\":\x7b\"ok\": 1\x7d\x7d\n"

/-- The committed wake is published, and by the theorem its source is owned. -/
theorem committed_wake_published : ∃ s s',
    Run outboxStep (fun _ _ => True) outboxInit [.prepare stepRecord true, .append (lit "run_001") stepLine, .crash] s ∧
      outboxStep s (.reconcile [(stepRecord, {})]) = some s' ∧ wakeEnvelope stepRecord ∈ s'.inbox ∧
      ∃ record ∈ s.records, wakeEnvelope stepRecord = wakeEnvelope record ∧
        ∃ text, s.logs record.sourceRunId = some text ∧ SourceOwned record text := by
  have hcheck : (checkRun outboxStep (fun _ _ => True) outboxInit
      [.prepare stepRecord true, .append (lit "run_001") stepLine, .crash]).map (fun s =>
        (s.inbox, (outboxStep s (.reconcile [(stepRecord, {})])).map OutboxState.inbox)) =
      some ([], some [wakeEnvelope stepRecord]) := by
    unfold stepRecord stepLine
    repeat rw [lit_ofList]
    decide +kernel
  obtain ⟨s, hs, hpair⟩ := Option.map_eq_some_iff.mp hcheck
  obtain ⟨hinbox, hstep⟩ := Prod.mk.inj hpair
  obtain ⟨s', hs', hinbox'⟩ := Option.map_eq_some_iff.mp hstep
  have hin : wakeEnvelope stepRecord ∈ s'.inbox := by rw [hinbox']; simp
  exact ⟨s, s', .of_check hs, hs', hin,
    (outbox_publishes_committed_truth (Run.of_check hs)).1 _ s' hs' _ hin (by rw [hinbox]; simp)⟩

end Floofclaw.Guarantees.OutboxWakes
