import Floofclaw.Guarantees.RunReplay

/-!
# Request ids in every state

Every step of a run keeps its request ids sound, a recovery included: it
settles the started requests one after the other, and what it writes speaks of
requests that the log knows.
-/

set_option autoImplicit false

namespace Floofclaw.Guarantees.RunSound
open Floofclaw.Lib Floofclaw.Source.Json Floofclaw.Source.Actions Floofclaw.Source.Runner
open Floofclaw.Guarantees.RunnerSteps Floofclaw.Guarantees.Replay Floofclaw.Guarantees.Ledger
open Floofclaw.Guarantees.RequestIds Floofclaw.Guarantees.RunIds Floofclaw.Guarantees.RunReplay

/-! ## Recovery -/

/-- What recovery keeps from entry to entry. -/
structure Settling (run : RunIdentity) (s : RunnerState) : Prop where
  log : LogSound run s.log.lines
  live : LiveSound run s.log.lines s.log.nextEvent [] s.ledger
  unanswered : Unanswered s.log.lines [] s.ledger

theorem Settling.of_eq {run : RunIdentity} {s s' : RunnerState} (h : Settling run s) (hlog : s'.log = s.log)
    (hpending : pendingIds s'.ledger = pendingIds s.ledger) (hcompleted : s'.ledger.completedIds = s.ledger.completedIds) :
    Settling run s' := by
  refine ⟨hlog ▸ h.log, ?_, ?_⟩
  · rw [hlog]
    refine h.live.moved (fun rid hrid => ?_) ?_ nofun nofun
    · rw [Held, hpending, hcompleted] at hrid
      exact hrid
    · rw [waiting, hpending]
      exact h.live.unique
  · rw [hlog]
    intro rid hrid
    rw [waiting, hpending] at hrid
    exact h.unanswered rid hrid

/-- The request is settled by a line and its note. -/
theorem Settling.settled {run : RunIdentity} {s : RunnerState} {body : Body} {fate : Fate} {rid : Bytes} (h : Settling run s)
    (hrid : rid ∈ pendingIds s.ledger) (hrequest : requestOf body = none) (hbody : bodyIds body = [rid])
    (hterminal : ∀ rid', terminalOf body = some rid' → rid' = rid) :
    LogSound run (s.log.append body fate).1.lines ∧
      Settling run { s with log := (s.log.append body fate).1, ledger := noteTerminal s.ledger rid } := by
  have hheld : ∀ rid' ∈ bodyIds body, Held [] s.ledger rid' := by
    intro rid' hrid'
    rw [hbody, List.mem_singleton] at hrid'
    exact hrid' ▸ held_pending hrid
  have hsound : LogSound run (s.log.append body fate).1.lines :=
    h.log.append hrequest fun hwhole rid' hrid' => h.live.backed hwhole rid' (hheld rid' hrid')
  have hwritten : LiveSound run (s.log.append body fate).1.lines (s.log.append body fate).1.nextEvent [] s.ledger :=
    h.live.write fun rid' hrid' => (h.live.issued rid' (.inr (hheld rid' hrid'))).mono (Nat.le_succ _)
  refine ⟨hsound, hsound, ?_, ?_⟩
  · have hnote : LiveSound run _ _ [.terminal rid] s.ledger := hwritten.note nofun (held_pending hrid)
    exact hnote.notedTerminal
  · refine .of_none fun rid' hrid' hmem => ?_
    have hold : rid' ∈ pendingIds s.ledger := pendingIds_noteTerminal hrid'
    rcases mem_idsOf_append hmem with hmem | hkind
    · exact h.unanswered.none nofun hold hmem
    · rw [hterminal rid' hkind] at hrid'
      exact noteTerminal_gone h.live.unique hrid'

theorem recoverTerminal_sound {run : RunIdentity} {disk : Nat → Fate} {s : RunnerState} {t : Terminal} (h : Settling run s)
    (hrid : t.requestId ∈ pendingIds s.ledger) :
    LogSound run (recoverTerminal disk s t).1.log.lines ∧
      ((recoverTerminal disk s t).2 = true → Settling run (recoverTerminal disk s t).1 ∧
        (recoverTerminal disk s t).1.ledger = noteTerminal s.ledger t.requestId) := by
  obtain ⟨hsound, hsettled⟩ : LogSound run (s.log.append (.terminal t) (disk s.log.nextEvent)).1.lines ∧ _ :=
    h.settled hrid rfl rfl fun rid' heq => (Option.some.inj heq).symm
  unfold recoverTerminal emitTerminal
  split
  · rename_i w L ok hemit
    split at hemit
    · rename_i w' hw
      cases hemit
      rw [hw] at hsound hsettled
      exact ⟨hsound, fun _ => ⟨hsettled, rfl⟩⟩
    · rename_i w' hw
      cases hemit
      rw [hw] at hsound
      exact ⟨hsound, fun hok => by cases hok⟩

theorem recoverBlocker_sound {run : RunIdentity} {disk : Nat → Fate} {s : RunnerState} {rid : Bytes} (h : Settling run s)
    (hrid : rid ∈ pendingIds s.ledger) :
    LogSound run (recoverBlocker disk s rid).1.log.lines ∧
      ((recoverBlocker disk s rid).2 = true → Settling run (recoverBlocker disk s rid).1 ∧
        (recoverBlocker disk s rid).1.ledger = noteTerminal s.ledger rid) := by
  obtain ⟨hsound, hsettled⟩ : LogSound run (s.log.append (.work true rid) (disk s.log.nextEvent)).1.lines ∧ _ :=
    h.settled hrid rfl rfl nofun
  unfold recoverBlocker
  split
  · rename_i w hw
    rw [hw] at hsound hsettled
    exact ⟨hsound, fun _ => ⟨hsettled, rfl⟩⟩
  · rename_i w hw
    rw [hw] at hsound
    exact ⟨hsound, fun hok => by cases hok⟩

theorem recoverAmbiguous_sound {run : RunIdentity} (env : Restart) {s : RunnerState} {r : Request} (h : Settling run s)
    (hrid : r.requestId ∈ pendingIds s.ledger) :
    LogSound run (recoverAmbiguous env s r).1.log.lines ∧
      ((recoverAmbiguous env s r).2 = true → Settling run (recoverAmbiguous env s r).1 ∧
        (recoverAmbiguous env s r).1.ledger = noteTerminal s.ledger r.requestId) := by
  have hclosed : ∀ b : Bool, Settling run (if b then closeOperation s r.requestId else s) ∧
      (if b then closeOperation s r.requestId else s).ledger = s.ledger := by
    intro b
    cases b
    · exact ⟨h, rfl⟩
    · exact ⟨h.of_eq rfl rfl rfl, rfl⟩
  unfold recoverAmbiguous
  dsimp only
  generalize (((rtActionRegistryFind env.registry r.call.action).any ActionDef.managedOperation) && env.closes r.requestId) = b
  obtain ⟨hsettling, hledger⟩ := hclosed b
  rw [← hledger] at hrid ⊢
  split
  · exact recoverBlocker_sound hsettling hrid
  · exact recoverTerminal_sound hsettling hrid

/-- One entry: the request is settled, or its start is taken back, or it was not started. -/
theorem recoverEntry_sound {run : RunIdentity} (env : Restart) {s : RunnerState} {p : Pending} (h : Settling run s)
    (hrid : p.request.requestId ∈ pendingIds s.ledger) :
    LogSound run (recoverEntry env s p).1.log.lines ∧
      ((recoverEntry env s p).2 = true → Settling run (recoverEntry env s p).1 ∧
        ∀ rid ∈ pendingIds s.ledger, rid ≠ p.request.requestId → rid ∈ pendingIds (recoverEntry env s p).1.ledger) := by
  have hfound : Settling run { s with recovered := s.recovered ++ [p.request.requestId] } := h.of_eq rfl rfl rfl
  have hcleared : pendingIds (clearStarted { s with recovered := s.recovered ++ [p.request.requestId] } p.request.requestId).ledger =
      pendingIds s.ledger := by
    have heq := congrArg (List.map Request.requestId) (setStarted_request false p.request.requestId s.ledger.pending)
    rwa [List.map_map, List.map_map] at heq
  have hothers : ∀ L : Ledger, L = noteTerminal s.ledger p.request.requestId →
      ∀ rid ∈ pendingIds s.ledger, rid ≠ p.request.requestId → rid ∈ pendingIds L := by
    rintro L rfl rid hmem hne
    exact noteTerminal_mem hmem hne
  have hambiguous := recoverAmbiguous_sound env (r := p.request) hfound hrid
  have hback : LogSound run s.log.lines ∧ (true = true →
      Settling run (clearStarted { s with recovered := s.recovered ++ [p.request.requestId] } p.request.requestId) ∧
        ∀ rid ∈ pendingIds s.ledger, rid ≠ p.request.requestId →
          rid ∈ pendingIds (clearStarted { s with recovered := s.recovered ++ [p.request.requestId] } p.request.requestId).ledger) := by
    refine ⟨h.log, fun _ => ⟨h.of_eq rfl hcleared rfl, fun rid hmem _ => ?_⟩⟩
    rw [hcleared]
    exact hmem
  unfold recoverEntry
  dsimp only
  split
  · exact ⟨h.log, fun _ => ⟨h, fun rid hmem _ => hmem⟩⟩
  · split
    · split
      · split
        · obtain ⟨hsound, hok⟩ : LogSound run (recoverTerminal env.disk
              { s with recovered := s.recovered ++ [p.request.requestId] } (recoveredTerminal p.request)).1.log.lines ∧ _ :=
            recoverTerminal_sound hfound hrid
          exact ⟨hsound, fun h' => ⟨(hok h').1, hothers _ (hok h').2⟩⟩
        · exact ⟨h.log, fun h' => by cases h'⟩
      · exact hback
    · split
      · exact ⟨hambiguous.1, fun h' => ⟨(hambiguous.2 h').1, hothers _ (hambiguous.2 h').2⟩⟩
      · split
        · exact ⟨hambiguous.1, fun h' => ⟨(hambiguous.2 h').1, hothers _ (hambiguous.2 h').2⟩⟩
        · exact hback

theorem recoverStarted_sound {run : RunIdentity} {env : Restart} {s : RunnerState} {pending : List Pending} (h : Settling run s)
    (hunique : (pending.map fun p => p.request.requestId).Nodup)
    (hpending : ∀ p ∈ pending, p.request.requestId ∈ pendingIds s.ledger) :
    LogSound run (recoverStarted env s pending).1.log.lines ∧
      ((recoverStarted env s pending).2 = true → Settling run (recoverStarted env s pending).1) := by
  induction pending generalizing s with
  | nil => exact ⟨h.log, fun _ => h⟩
  | cons p rest ih =>
    rw [List.map_cons, List.nodup_cons] at hunique
    obtain ⟨hsound, hnext⟩ := recoverEntry_sound env h (hpending p (List.mem_cons_self ..))
    rcases recoverStarted_cons env s p rest with ⟨hok, heq⟩ | ⟨-, heq⟩
    · rw [heq]
      obtain ⟨hsettling, hothers⟩ := hnext hok
      refine ih hsettling hunique.2 fun q hq => ?_
      refine hothers _ (hpending q (List.mem_cons_of_mem _ hq)) fun hsame => hunique.1 ?_
      exact List.mem_map.mpr ⟨q, hq, hsame⟩
    · rw [heq]
      exact ⟨hsound, fun hok => by cases hok⟩

theorem recoverRun_sound {run : RunIdentity} {env : Restart} {s : RunnerState} (h : LogSound run s.log.lines) :
    Sound run (recoverRun env s) := by
  have hlog : LogSound run (replayRunLog env.disk s.log).log.lines := by
    unfold replayRunLog
    apply replay_log
    · exact h
    · exact fun _ hmem => hmem
  rcases recoverRun_cases env s with ⟨-, heq⟩ | ⟨hok, status, heq, hstatus⟩
  · rw [heq]
    exact ⟨hlog, fun hup => absurd rfl hup, fun hup => by rcases hup with hup | hup <;> cases hup⟩
  · obtain ⟨hlive, hopen⟩ := replayRunLog_live h hok
    have hstart : Settling run (afterReplay env s) := ⟨hlog, hlive, hopen⟩
    obtain ⟨hsound, hnext⟩ : LogSound run (recoveredEntries env s).1.log.lines ∧
        ((recoveredEntries env s).2 = true → Settling run (recoveredEntries env s).1) :=
      recoverStarted_sound hstart hlive.unique fun p hp => List.mem_map.mpr ⟨p, hp, rfl⟩
    have htodo : (recoveredEntries env s).1.todo = [] := (recoverStarted_kept env (afterReplay env s) _).todo
    rw [heq]
    rcases hstatus with ⟨hdone, rfl⟩ | ⟨-, rfl⟩
    · obtain ⟨-, hlive', hopen'⟩ := hnext hdone
      rw [← htodo] at hlive' hopen'
      exact ⟨hsound, fun _ => hlive', fun _ => hopen'⟩
    · exact ⟨hsound, fun hup => absurd rfl hup, fun hup => by rcases hup with hup | hup <;> cases hup⟩

/-! ## Runs -/

theorem closes_no_terminal {run : RunIdentity} {s : RunnerState} {i : RunnerInput} {t : Terminal} {fate : Fate}
    (hc : Closes run s i t fate) (rid : Bytes) : .terminal rid ∉ s.todo := by
  rcases closes_todo hc with heq | heq <;> simp [heq]

theorem step_sound {run : RunIdentity} {s s' : RunnerState} {i : RunnerInput} (h : Sound run s)
    (hstep : runnerStep run s i = some s') : Sound run s' := by
  have hlive : s.status = .up → LiveSound run s.log.lines s.log.nextEvent s.todo s.ledger := fun hup => h.live (by simp [hup])
  have hopen : s.status = .up → Unanswered s.log.lines s.todo s.ledger := fun hup => h.unanswered (.inl hup)
  have hnew : ∀ call, s.status = .up → (nextRequest run s call).requestId ∉ mentioned s.log.lines := by
    intro call hup hmem
    exact not_issued run _ ((hlive hup).issued _ (.inl hmem))
  cases step_effect hstep with
  | @requested call hup htodo =>
    refine ⟨h.log.appendRequest rfl (hnew call hup), fun _ => (hlive hup).request rfl htodo, fun _ => .of_none ?_⟩
    intro rid hrid hmem
    have hold : rid ∈ terminalIds s.log.lines := (mem_idsOf_append hmem).resolve_right fun hkind => by cases hkind
    have hwaiting : rid ∈ (nextRequest run s call).requestId :: waiting s.todo s.ledger := by
      rw [waiting, todoRequests, List.filterMap_append, List.append_assoc] at hrid
      exact List.perm_middle.mem_iff.mp hrid
    rcases List.mem_cons.mp hwaiting with rfl | hwaiting
    · exact hnew call hup (terminalIds_mentioned hold)
    · exact (hopen hup).none (requestsOnly_terminal htodo) hwaiting hold
  | @requestFailed call fate hup _ _ htodo =>
    refine ⟨h.log.appendRequest rfl (hnew call hup), fun _ => ?_, fun _ => ?_⟩
    · refine ((hlive hup).write fun rid hrid => ?_).forget
      rw [List.mem_singleton.mp hrid]
      exact ⟨s.log.nextEvent, Nat.lt_succ_self _, rfl⟩
    · refine Unanswered.write (.of_none fun rid hrid => ?_) rfl
      exact (hopen hup).none (requestsOnly_terminal htodo) (List.mem_append_right _ hrid)
  | refused hup _ htodo =>
    refine ⟨h.log, fun _ => (hlive hup).forget, fun _ => .of_none fun rid hrid => ?_⟩
    exact (hopen hup).none (requestsOnly_terminal htodo) (List.mem_append_right _ hrid)
  | notedRequest hup htodo => exact h.notedRequest hup htodo
  | @notedStarted rid rest fate hup htodo =>
    have hnoted := hlive hup
    have hunanswered := hopen hup
    rw [htodo] at hnoted hunanswered
    refine ⟨h.log, fun _ => hnoted.notedStarted, fun _ => .of_none fun rid' hrid' hmem => ?_⟩
    rw [waiting, noteStarted_ids] at hrid'
    have hterminal := hunanswered rid' hrid' hmem
    have hsingle := hnoted.closing rid' hterminal
    rw [List.cons_eq_cons] at hsingle
    cases hsingle.1
  | @notedTerminal rid rest fate hup htodo =>
    have hnoted := hlive hup
    have hunanswered := hopen hup
    rw [htodo] at hnoted hunanswered
    have hrest : rest = [] := (List.cons_eq_cons.mp (hnoted.closing rid (List.mem_cons_self ..))).2
    subst hrest
    refine ⟨h.log, fun _ => hnoted.notedTerminal, fun _ => .of_none fun rid' hrid' hmem => ?_⟩
    have hterminal := hunanswered rid' (pendingIds_noteTerminal hrid') hmem
    have heq : rid' = rid := by simpa using hterminal
    rw [heq] at hrid'
    exact noteTerminal_gone hnoted.unique hrid'
  | @other delivery fate hup =>
    obtain ⟨hlog, hwritten⟩ := h.write hup (.other delivery) fate rfl fun _ hrid => absurd hrid List.not_mem_nil
    exact ⟨hlog, fun _ => hwritten, fun _ => (hopen hup).write rfl⟩
  | @closed i t hup hc =>
    have hpending : t.requestId ∈ pendingIds s.ledger := closes_pending hc
    obtain ⟨hlog, hwritten⟩ := h.write hup (.terminal t) .done rfl fun rid hrid => by
      rw [List.mem_singleton.mp hrid]
      exact held_pending hpending
    refine ⟨hlog, fun _ => hwritten.note (fun _ hnote => by cases hnote) (held_pending hpending), fun _ rid hrid hmem => ?_⟩
    rcases mem_idsOf_append hmem with hmem | hkind
    · exact absurd hmem ((hopen hup).none (closes_no_terminal hc) (List.mem_append_right _ hrid))
    · rw [← Option.some.inj hkind]
      exact List.mem_singleton.mpr rfl
  | @closeFailed i t fate hup hc =>
    obtain ⟨hlog, hwritten⟩ := h.write hup (.terminal t) fate rfl fun rid hrid => by
      rw [List.mem_singleton.mp hrid]
      exact held_pending (closes_pending hc)
    exact ⟨hlog, fun _ => hwritten.forget, fun hup => by rcases hup with hup | hup <;> cases hup⟩
  | @started p hup htodo _ hp =>
    have hpending : p.request.requestId ∈ pendingIds s.ledger := List.mem_map.mpr ⟨p, (peekNext_mem hp).1, rfl⟩
    obtain ⟨hlog, hwritten⟩ := h.write hup (.started p.request.requestId) .done rfl fun rid hrid => by
      rw [List.mem_singleton.mp hrid]
      exact held_pending hpending
    refine ⟨hlog, fun _ => hwritten.note (fun _ hnote => by cases hnote) (held_pending hpending), fun _ => Unanswered.write (.of_none fun rid hrid => ?_) rfl⟩
    exact (hopen hup).none (by simp [htodo]) (List.mem_append_right _ hrid)
  | @startFailed p fate hup _ _ hp =>
    have hpending : p.request.requestId ∈ pendingIds s.ledger := List.mem_map.mpr ⟨p, (peekNext_mem hp).1, rfl⟩
    obtain ⟨hlog, hwritten⟩ := h.write hup (.started p.request.requestId) fate rfl fun rid hrid => by
      rw [List.mem_singleton.mp hrid]
      exact held_pending hpending
    exact ⟨hlog, fun _ => hwritten, fun hup => by rcases hup with hup | hup <;> cases hup⟩
  | @worked rid p blocked hl =>
    have hpending : rid ∈ pendingIds s.ledger := List.mem_map.mpr ⟨p, find_mem hl.find⟩
    obtain ⟨hlog, hwritten⟩ := h.write hl.up (.work blocked rid) .done rfl fun rid' hrid => by
      rw [List.mem_singleton.mp hrid]
      exact held_pending hpending
    refine ⟨hlog, fun _ => hwritten.note (fun _ hnote => by cases hnote) (held_pending hpending), fun _ => Unanswered.write (.of_none fun rid hrid => ?_) rfl⟩
    exact (hopen hl.up).none (by simp [hl.todo]) (List.mem_append_right _ hrid)
  | @workFailed rid p blocked fate hl =>
    have hpending : rid ∈ pendingIds s.ledger := List.mem_map.mpr ⟨p, find_mem hl.find⟩
    obtain ⟨hlog, hwritten⟩ := h.write hl.up (.work blocked rid) fate rfl fun rid' hrid => by
      rw [List.mem_singleton.mp hrid]
      exact held_pending hpending
    exact ⟨hlog, fun _ => hwritten, fun _ => (hopen hl.up).write rfl⟩
  | @finished fate status hup =>
    obtain ⟨hlog, hwritten⟩ := h.write hup (.other false) fate rfl fun _ hrid => absurd hrid List.not_mem_nil
    exact ⟨hlog, fun _ => hwritten, fun _ => (hopen hup).write rfl⟩
  | allocated hl => exact ⟨h.log, fun _ => hlive hl.up, fun _ => hopen hl.up⟩
  | launched hl => exact ⟨h.log, fun _ => hlive hl.up, fun _ => hopen hl.up⟩
  | delivered hl => exact ⟨h.log, fun _ => hlive hl.up, fun _ => hopen hl.up⟩
  | retried hup hlines =>
    have hidle := hlive hup
    have hnone : ∀ rid, ¬ Held s.todo s.ledger rid := by
      intro rid hrid
      have hmem := hidle.backed (by simp [hlines]) rid hrid
      simp [hlines, idsOf] at hmem
    refine ⟨h.log, fun _ => ⟨?_, ?_, hidle.backed, hidle.unique, hidle.fresh, hidle.closing⟩, fun _ => hopen hup⟩
    · intro n hn
      simp [hlines, numbers] at hn
    · rintro rid (hrid | hrid)
      · simp [hlines, mentioned] at hrid
      · exact absurd hrid (hnone rid)
  | crashed => exact ⟨h.log, fun hup => absurd rfl hup, fun hup => by rcases hup with hup | hup <;> cases hup⟩
  | recovered => exact recoverRun_sound h.log

theorem init_sound (run : RunIdentity) (registry : Registry) : Sound run (runnerInit registry) := by
  refine ⟨⟨nofun, fun _ => nofun, List.Pairwise.nil⟩, fun _ => ⟨nofun, ?_, ?_, List.nodup_nil, nofun, nofun⟩, fun _ => nofun⟩
  · rintro rid (hrid | hrid | hrid | hrid) <;> cases hrid
  · rintro - rid (hrid | hrid | hrid) <;> cases hrid

/-! ## The log only grows -/

theorem append_extends (w : RunLog) (body : Body) (fate : Fate) : w.lines <+: (w.append body fate).1.lines := by
  cases fate with
  | done | reported => exact List.prefix_append _ _
  | lost | torn => exact List.prefix_refl _

theorem noteRequest_extends (w : RunLog) (L : Ledger) (r : Request) (fate : Fate) :
    w.lines <+: (noteRequest w L r fate).1.lines := by
  rcases noteRequest_cases w L r fate with ⟨heq, -⟩ | ⟨hlog, -, -⟩ | ⟨hlog, -⟩ | ⟨t, -, hlog, -⟩
  · simp only [heq, List.prefix_refl]
  · simp only [hlog, List.prefix_refl]
  · rw [hlog]
    exact append_extends _ _ _
  · rw [hlog]
    exact append_extends _ _ _

theorem replayLine_extends (disk : Nat → Fate) (st : Replayed) (line : Line) :
    st.log.lines <+: (replayLine disk st line).log.lines := by
  cases line with
  | corrupt => exact List.prefix_refl _
  | event number body =>
    by_cases hok : st.ok = true
    · rw [replayLine_event hok]
      cases body with
      | request r =>
        exact noteRequest_extends { st.log with nextEvent := counted st.log.nextEvent (.event number (.request r)) } _ _ _
      | started | terminal | work | overflow | other => exact List.prefix_refl _
    · simp only [replayLine_stopped (show st.ok = false by simpa using hok), List.prefix_refl]

theorem replay_extends (disk : Nat → Fate) (st : Replayed) (lines : List Line) :
    st.log.lines <+: (lines.foldl (replayLine disk) st).log.lines := by
  induction lines generalizing st with
  | nil => exact List.prefix_refl _
  | cons line rest ih => exact (replayLine_extends disk st line).trans (ih _)

theorem recoverTerminal_extends (disk : Nat → Fate) (s : RunnerState) (t : Terminal) :
    s.log.lines <+: (recoverTerminal disk s t).1.log.lines := by
  have hlog := (emitTerminal_cases s.log s.ledger t (disk s.log.nextEvent)).1
  have hlines : (recoverTerminal disk s t).1.log = (s.log.append (.terminal t) (disk s.log.nextEvent)).1 := hlog
  rw [hlines]
  exact append_extends _ _ _

theorem recoverBlocker_extends (disk : Nat → Fate) (s : RunnerState) (rid : Bytes) :
    s.log.lines <+: (recoverBlocker disk s rid).1.log.lines := by
  have happend := append_extends s.log (.work true rid) (disk s.log.nextEvent)
  unfold recoverBlocker
  split
  · rename_i w hw
    rw [hw] at happend
    exact happend
  · rename_i w hw
    rw [hw] at happend
    exact happend

theorem recoverAmbiguous_extends (env : Restart) (s : RunnerState) (r : Request) :
    s.log.lines <+: (recoverAmbiguous env s r).1.log.lines := by
  have hclosed : ∀ b : Bool, (if b then closeOperation s r.requestId else s).log = s.log := by
    intro b
    cases b <;> rfl
  unfold recoverAmbiguous
  dsimp only
  generalize (((rtActionRegistryFind env.registry r.call.action).any ActionDef.managedOperation) && env.closes r.requestId) = b
  rw [← hclosed b]
  generalize (if b then closeOperation s r.requestId else s) = s'
  split
  · exact recoverBlocker_extends _ _ _
  · exact recoverTerminal_extends _ _ _

theorem recoverEntry_extends (env : Restart) (s : RunnerState) (p : Pending) :
    s.log.lines <+: (recoverEntry env s p).1.log.lines := by
  have hambiguous := recoverAmbiguous_extends env { s with recovered := s.recovered ++ [p.request.requestId] } p.request
  unfold recoverEntry
  dsimp only
  split
  · exact List.prefix_refl _
  · split
    · split
      · split
        · exact recoverTerminal_extends _ { s with recovered := s.recovered ++ [p.request.requestId] } _
        · exact List.prefix_refl _
      · exact List.prefix_refl _
    · split
      · exact hambiguous
      · split
        · exact hambiguous
        · exact List.prefix_refl _

theorem recoverStarted_extends (env : Restart) (s : RunnerState) (pending : List Pending) :
    s.log.lines <+: (recoverStarted env s pending).1.log.lines := by
  induction pending generalizing s with
  | nil => exact List.prefix_refl _
  | cons p rest ih =>
    rcases recoverStarted_cons env s p rest with ⟨-, heq⟩ | ⟨-, heq⟩
    · rw [heq]
      exact (recoverEntry_extends env s p).trans (ih _)
    · rw [heq]
      exact recoverEntry_extends env s p

/-- A recovery only adds to the log. -/
theorem recoverRun_extends (env : Restart) (s : RunnerState) : s.log.lines <+: (recoverRun env s).log.lines := by
  have hreplay : s.log.lines <+: (replayRunLog env.disk s.log).log.lines :=
    replay_extends env.disk { log := { s.log with torn := false, nextEvent := 1 } } s.log.lines
  rcases recoverRun_cases env s with ⟨-, heq⟩ | ⟨-, status, heq, -⟩
  · rw [heq]
    exact hreplay
  · rw [heq]
    exact hreplay.trans (recoverStarted_extends env (afterReplay env s) _)

end Floofclaw.Guarantees.RunSound
