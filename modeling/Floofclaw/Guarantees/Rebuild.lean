import Floofclaw.Guarantees.EventNumbers
import Floofclaw.Guarantees.Ledger

/-!
# What a replay rebuilds

The ledger of a live run against the one its log replays to. The two agree once
the lines that are committed are noted, and the replay writes nothing, as long
as every request was one that its note accepts without an answer.
-/

set_option autoImplicit false

namespace Floofclaw.Guarantees.Rebuild
open Floofclaw.Lib Floofclaw.Source.Json Floofclaw.Source.Actions Floofclaw.Source.Runner
open Floofclaw.Guarantees.RunnerSteps Floofclaw.Guarantees.Replay Floofclaw.Guarantees.Ledger
open Floofclaw.Guarantees.EventNumbers (WholeWrite wholeWrite_clean plainRestart listCall listRegistry repeatedCall)

def noteOf (L : Ledger) : Note → Ledger
  | .request r => if noteVerdict L r = .accepted then accept L r else L
  | .started rid => noteStarted L rid
  | .terminal rid | .work rid => noteTerminal L rid

/-- The ledger of a live run once the lines it has committed are noted. -/
def settle (L : Ledger) (todo : List Note) : Ledger := todo.foldl noteOf L

/-- What the replay of a log makes of the run it belongs to. -/
structure Rebuilt (s : RunnerState) (disk : Nat → Fate) : Prop where
  ok : (replayRunLog disk s.log).ok = true
  lines : (replayRunLog disk s.log).log.lines = s.log.lines
  ledger : (replayRunLog disk s.log).ledger = settle s.ledger s.todo
  counter : ∀ n ∈ numbers s.log.lines, n < (replayRunLog disk s.log).log.nextEvent

/-- Recoveries in a row, each with a disk of its own. -/
def replays (disks : List (Nat → Fate)) (w : RunLog) : RunLog := disks.foldl (fun w disk => (replayRunLog disk w).log) w

/-! ## The condition -/

/-- A line of the ledger is in the file exactly when the run knows of it. -/
def KnownWrite (w : RunLog) (fate : Fate) : Prop := fate ≠ .reported ∧ (fate = .done → w.torn = false)

/-- Recovery takes the start of this request back. -/
def relaunches (env : Restart) (s : RunnerState) (r : Request) : Bool :=
  if r.call.action = lit "message" then !deliveryExists s r.requestId
  else (rtActionRegistryFind env.registry r.call.action).any fun d => !d.outsideWorld

def Steady (run : RunIdentity) (s : RunnerState) : RunnerInput → Prop
  | .request call fate =>
    KnownWrite s.log fate ∧ (fate ≠ .done → s.todo = []) ∧
      (fate = .done → noteVerdict (settle s.ledger s.todo) (nextRequest run s call) = .accepted)
  | .refuse => s.todo = []
  | .other _ fate | .finishRun fate => WholeWrite s.log fate
  | .reject _ fate | .start fate | .work _ fate | .messageDone fate => KnownWrite s.log fate
  | .finishAction _ _ _ _ _ fate => KnownWrite s.log fate ∧ (s.todo ≠ [] → fate = .done)
  | .recover env =>
    ∀ p ∈ (s.log.lines.foldl noteLine {}).pending, p.started = true → relaunches env s p.request = false
  | .note _ | .allocate _ | .launch | .deliver _ | .retryInbound | .crash => True

instance (w : RunLog) (fate : Fate) : Decidable (KnownWrite w fate) := inferInstanceAs (Decidable (_ ∧ (_ → _)))

instance (run : RunIdentity) (s : RunnerState) : (i : RunnerInput) → Decidable (Steady run s i)
  | .request _ _ => inferInstanceAs (Decidable (_ ∧ (_ → _) ∧ (_ → _)))
  | .refuse => inferInstanceAs (Decidable (_ = _))
  | .other _ fate | .finishRun fate => inferInstanceAs (Decidable (WholeWrite s.log fate))
  | .reject _ fate | .start fate | .work _ fate | .messageDone fate => inferInstanceAs (Decidable (KnownWrite s.log fate))
  | .finishAction _ _ _ _ _ _ => inferInstanceAs (Decidable (_ ∧ (_ → _)))
  | .recover _ => inferInstanceAs (Decidable (∀ p ∈ _, _ → _))
  | .note _ | .allocate _ | .launch | .deliver _ | .retryInbound | .crash => isTrue trivial

/-! ## Lines -/

theorem lines_failed {w : RunLog} {body : Body} {fate : Fate} (hdone : fate ≠ .done) (hreported : fate ≠ .reported) :
    (w.append body fate).1.lines = w.lines := by
  cases fate with
  | done => exact absurd rfl hdone
  | reported => exact absurd rfl hreported
  | lost | torn => rfl

theorem lines_written {w : RunLog} {body : Body} {fate : Fate} (htorn : w.torn = false)
    (hfate : fate = .done ∨ fate = .reported) : (w.append body fate).1.lines = w.lines ++ [Line.event w.nextEvent body] := by
  have hline : w.lineOf body = .event w.nextEvent body := by simp [RunLog.lineOf, htorn]
  rcases hfate with rfl | rfl <;> simp only [RunLog.append, hline]

theorem written_clean {w : RunLog} {fate : Fate} (h : WholeWrite w fate) (hfate : fate = .done ∨ fate = .reported) :
    w.torn = false := by
  by_contra htorn
  rcases h (by simpa using htorn) with rfl | rfl <;> rcases hfate with hfate | hfate <;> cases hfate

/-- Either way of ending: the file is as before, or holds one more line. -/
theorem append_lines {w : RunLog} {fate : Fate} (body : Body) (h : WholeWrite w fate) :
    (w.append body fate).1.lines = w.lines ∨ (w.append body fate).1.lines = w.lines ++ [Line.event w.nextEvent body] := by
  by_cases hfate : fate = .done ∨ fate = .reported
  · exact .inr (lines_written (written_clean h hfate) hfate)
  · rw [not_or] at hfate
    exact .inl (lines_failed hfate.1 hfate.2)

theorem knownWrite_whole {w : RunLog} {fate : Fate} (h : KnownWrite w fate) : WholeWrite w fate := by
  intro htorn
  cases fate with
  | done => exact absurd (h.2 rfl) (by simp [htorn])
  | reported => exact absurd rfl h.1
  | lost => exact .inl rfl
  | torn => exact .inr rfl

theorem quiet_append {w : RunLog} {body : Body} {fate : Fate} (hquiet : quietFrom {} w.lines = true)
    (hbody : quietBody (w.lines.foldl noteLine {}) body = true) (hfate : WholeWrite w fate) :
    quietFrom {} (w.append body fate).1.lines = true := by
  rcases append_lines body hfate with heq | heq
  · rw [heq]
    exact hquiet
  · rw [heq, quietFrom_append, hquiet, Bool.true_and]
    simp [quietFrom, quietLine, hbody]

theorem noted_done {w : RunLog} {body : Body} (htorn : w.torn = false) :
    (w.append body .done).1.lines.foldl noteLine {} = noteBody (w.lines.foldl noteLine {}) body := by
  rw [lines_written htorn (.inl rfl), List.foldl_append]
  rfl

theorem noted_other {w : RunLog} {delivery : Bool} {fate : Fate} (hfate : WholeWrite w fate) :
    (w.append (.other delivery) fate).1.lines.foldl noteLine {} = w.lines.foldl noteLine {} := by
  rcases append_lines (.other delivery) hfate with heq | heq
  · rw [heq]
  · rw [heq, List.foldl_append]
    rfl

/-! ## The invariant -/

/-- Every request that waits for its note will be accepted by it. -/
def Ready (L : Ledger) : List Note → Prop
  | [] => True
  | note :: rest => (∀ r, note = .request r → noteVerdict L r = .accepted) ∧ Ready (noteOf L note) rest

theorem ready_snoc {L : Ledger} {todo : List Note} {note : Note} (h : Ready L todo)
    (hnote : ∀ r, note = .request r → noteVerdict (settle L todo) r = .accepted) : Ready L (todo ++ [note]) := by
  induction todo generalizing L with
  | nil => exact ⟨hnote, trivial⟩
  | cons first rest ih => exact ⟨h.1, ih h.2 hnote⟩

structure Live (s : RunnerState) : Prop where
  ledger : s.log.lines.foldl noteLine {} = settle s.ledger s.todo
  nodup : (pendingIds s.ledger).Nodup
  ready : Ready s.ledger s.todo

structure Tracked (s : RunnerState) : Prop where
  quiet : quietFrom {} s.log.lines = true
  live : s.status ≠ .down → Live s

/-- A terminal settles its request whether or not its work is settled already. -/
theorem settle_closed {L : Ledger} {todo : List Note} {rid : Bytes} (hnodup : (pendingIds L).Nodup)
    (htodo : todo = [] ∨ todo = [.work rid]) : noteTerminal (settle L todo) rid = settle L [.terminal rid] := by
  rcases htodo with rfl | rfl
  · rfl
  · exact noteTerminal_twice hnodup

theorem closes_known {run : RunIdentity} {s : RunnerState} {i : RunnerInput} {t : Terminal} {fate : Fate}
    (hc : Closes run s i t fate) (hok : Steady run s i) : KnownWrite s.log fate ∧ (s.todo ≠ [] → fate = .done) := by
  cases hc with
  | reject htodo | message htodo => exact ⟨hok, fun h => absurd htodo h⟩
  | action => exact hok

/-! ## Recovery -/

/-- What recovery keeps from entry to entry. -/
structure Rebuilding (s : RunnerState) : Prop where
  quiet : quietFrom {} s.log.lines = true
  untorn : s.log.torn = false
  ledger : s.log.lines.foldl noteLine {} = s.ledger
  nodup : (pendingIds s.ledger).Nodup

theorem recoverTerminal_rebuilding {disk : Nat → Fate} {s : RunnerState} {t : Terminal} (h : Rebuilding s) :
    quietFrom {} (recoverTerminal disk s t).1.log.lines = true ∧
      ((recoverTerminal disk s t).2 = true → Rebuilding (recoverTerminal disk s t).1) := by
  have hquiet : quietFrom {} (s.log.append (.terminal t) (disk s.log.nextEvent)).1.lines = true :=
    quiet_append h.quiet rfl (wholeWrite_clean h.untorn)
  unfold recoverTerminal emitTerminal
  split
  · rename_i w L ok hemit
    split at hemit
    · rename_i w' hw
      cases hemit
      rw [hw] at hquiet
      obtain ⟨-, rfl⟩ := append_done hw
      refine ⟨hquiet, fun _ => ⟨hquiet, rfl, ?_, noteTerminal_nodup h.nodup⟩⟩
      dsimp only
      rw [noted_done h.untorn, h.ledger]
      rfl
    · rename_i w' hw
      cases hemit
      rw [hw] at hquiet
      exact ⟨hquiet, fun hok => by cases hok⟩

theorem recoverBlocker_rebuilding {disk : Nat → Fate} {s : RunnerState} {rid : Bytes} (h : Rebuilding s) :
    quietFrom {} (recoverBlocker disk s rid).1.log.lines = true ∧
      ((recoverBlocker disk s rid).2 = true → Rebuilding (recoverBlocker disk s rid).1) := by
  have hquiet : quietFrom {} (s.log.append (.work true rid) (disk s.log.nextEvent)).1.lines = true :=
    quiet_append h.quiet rfl (wholeWrite_clean h.untorn)
  unfold recoverBlocker
  split
  · rename_i w hw
    rw [hw] at hquiet
    obtain ⟨-, rfl⟩ := append_done hw
    refine ⟨hquiet, fun _ => ⟨hquiet, rfl, ?_, noteTerminal_nodup h.nodup⟩⟩
    dsimp only
    rw [noted_done h.untorn, h.ledger]
    rfl
  · rename_i w hw
    rw [hw] at hquiet
    exact ⟨hquiet, fun hok => by cases hok⟩

/-- The log and the ledger are all that matters here. -/
theorem Rebuilding.of_eq {s s' : RunnerState} (h : Rebuilding s) (hlog : s'.log = s.log) (hledger : s'.ledger = s.ledger) :
    Rebuilding s' := by
  obtain ⟨hquiet, huntorn, heq, hnodup⟩ := h
  rw [← hlog] at hquiet huntorn heq
  rw [← hledger] at heq hnodup
  exact ⟨hquiet, huntorn, heq, hnodup⟩

theorem recoverAmbiguous_rebuilding {env : Restart} {s : RunnerState} {r : Request} (h : Rebuilding s) :
    quietFrom {} (recoverAmbiguous env s r).1.log.lines = true ∧
      ((recoverAmbiguous env s r).2 = true → Rebuilding (recoverAmbiguous env s r).1) := by
  have hclosed : ∀ b : Bool, Rebuilding (if b then closeOperation s r.requestId else s) := by
    intro b
    cases b
    · exact h
    · exact h.of_eq rfl rfl
  unfold recoverAmbiguous
  dsimp only
  split
  · exact recoverBlocker_rebuilding (hclosed _)
  · exact recoverTerminal_rebuilding (hclosed _)

theorem recoverEntry_rebuilding {env : Restart} {s : RunnerState} {p : Pending} (h : Rebuilding s)
    (hkeeps : p.started = true → relaunches env s p.request = false) :
    quietFrom {} (recoverEntry env s p).1.log.lines = true ∧
      ((recoverEntry env s p).2 = true → Rebuilding (recoverEntry env s p).1) := by
  unfold recoverEntry
  dsimp only
  by_cases hstarted : p.started = true
  · have hkeep := hkeeps hstarted
    rw [if_neg (by simp [hstarted])]
    unfold relaunches at hkeep
    by_cases hmessage : p.request.call.action = lit "message"
    · rw [if_pos hmessage, Bool.not_eq_false'] at hkeep
      have hexists : deliveryExists { s with recovered := s.recovered ++ [p.request.requestId] } p.request.requestId = true :=
        hkeep
      rw [if_pos hmessage, if_pos hexists]
      split
      · exact recoverTerminal_rebuilding (h.of_eq rfl rfl)
      · exact ⟨h.quiet, fun hok => by cases hok⟩
    · rw [if_neg hmessage] at hkeep
      rw [if_neg hmessage]
      split
      · exact recoverAmbiguous_rebuilding (h.of_eq rfl rfl)
      · rename_i d hd
        rw [hd] at hkeep
        have houtside : d.outsideWorld = true := by simpa using hkeep
        rw [if_pos houtside]
        exact recoverAmbiguous_rebuilding (h.of_eq rfl rfl)
  · rw [if_pos (by simp [hstarted])]
    exact ⟨h.quiet, fun _ => h⟩

/-- All entries: the log stays quiet, and the ledger is the one it replays to unless a write failed. -/
theorem recoverStarted_rebuilding {env : Restart} {s : RunnerState} {pending : List Pending} (h : Rebuilding s)
    (hkeeps : ∀ p ∈ pending, p.started = true → relaunches env s p.request = false) :
    quietFrom {} (recoverStarted env s pending).1.log.lines = true ∧
      ((recoverStarted env s pending).2 = true → Rebuilding (recoverStarted env s pending).1) := by
  induction pending generalizing s with
  | nil => exact ⟨h.quiet, fun _ => h⟩
  | cons p rest ih =>
    obtain ⟨hquiet, hnext⟩ := recoverEntry_rebuilding h (hkeeps p (List.mem_cons_self ..))
    rcases recoverStarted_cons env s p rest with ⟨hok, heq⟩ | ⟨-, heq⟩
    · rw [heq]
      apply ih (hnext hok)
      intro q hq hstarted
      have hkeep := hkeeps q (List.mem_cons_of_mem _ hq) hstarted
      have hdeliveries := (recoverEntry_kept env s p).deliveries
      unfold relaunches deliveryExists at hkeep ⊢
      rw [hdeliveries]
      exact hkeep
    · rw [heq]
      exact ⟨hquiet, fun hok => by cases hok⟩

theorem noteLine_nodup {L : Ledger} {line : Line} (h : (pendingIds L).Nodup) : (pendingIds (noteLine L line)).Nodup := by
  cases line with
  | corrupt => exact h
  | event number body =>
    cases body with
    | request r =>
      simp only [noteLine, noteBody]
      split
      · rename_i haccepted
        exact accept_nodup h (accepted_fresh haccepted)
      · exact h
    | started rid =>
      simp only [noteLine, noteBody, noteStarted_ids]
      exact h
    | terminal t => exact noteTerminal_nodup h
    | work blocked rid => exact noteTerminal_nodup h
    | overflow rid => exact h
    | other delivery => exact h

theorem noted_nodup {L : Ledger} {lines : List Line} (h : (pendingIds L).Nodup) :
    (pendingIds (lines.foldl noteLine L)).Nodup := by
  induction lines generalizing L with
  | nil => exact h
  | cons line rest ih => exact ih (noteLine_nodup h)

/-- The replay of a quiet log. -/
theorem replayRunLog_quiet {disk : Nat → Fate} {w : RunLog} (h : quietFrom {} w.lines = true) :
    replayRunLog disk w =
      { log := { lines := w.lines, torn := false, nextEvent := w.lines.foldl counted 1 }
        ledger := w.lines.foldl noteLine {}
        nextDelivery := w.lines.foldl (fun n line => n + deliveriesIn line) 1, ok := true } := by
  have hread : w.lines.foldl (replayLine disk) { log := { w with torn := false, nextEvent := 1 } } = _ := replay_quiet rfl h
  rw [replayRunLog, hread]

theorem recoverRun_tracked {env : Restart} {s : RunnerState} (h : quietFrom {} s.log.lines = true)
    (hkeeps : ∀ p ∈ (s.log.lines.foldl noteLine {}).pending, p.started = true → relaunches env s p.request = false) :
    Tracked (recoverRun env s) := by
  have hreplay : replayRunLog env.disk s.log = _ := replayRunLog_quiet h
  have hstart : Rebuilding (afterReplay env s) := by
    unfold afterReplay
    rw [hreplay]
    exact ⟨h, rfl, rfl, noted_nodup List.nodup_nil⟩
  obtain ⟨hquiet, hnext⟩ : quietFrom {} (recoveredEntries env s).1.log.lines = true ∧
      ((recoveredEntries env s).2 = true → Rebuilding (recoveredEntries env s).1) := by
    apply recoverStarted_rebuilding hstart
    rw [hreplay]
    exact hkeeps
  rcases recoverRun_cases env s with ⟨hok, -⟩ | ⟨-, status, heq, hstatus⟩
  · rw [hreplay] at hok
    cases hok
  · rw [heq]
    refine ⟨hquiet, fun hup => ?_⟩
    rcases hstatus with ⟨hok, rfl⟩ | ⟨-, rfl⟩
    · obtain ⟨-, -, hledger, hnodup⟩ := hnext hok
      have htodo : (recoveredEntries env s).1.todo = [] := (recoverStarted_kept env (afterReplay env s) _).todo
      refine ⟨?_, hnodup, ?_⟩
      · dsimp only
        rw [htodo]
        exact hledger
      · dsimp only
        rw [htodo]
        trivial
    · exact absurd rfl hup

/-! ## Runs -/

/-- A line that the ledger keeps, and the note that is to follow it. -/
theorem Tracked.written {s s' : RunnerState} {body : Body} {note : Note} (h : Tracked s) (hup : s.status = .up)
    (htorn : s.log.torn = false) (hlog : s'.log = (s.log.append body .done).1) (hledger : s'.ledger = s.ledger)
    (htodo : s'.todo = s.todo ++ [note]) (hquiet : quietBody (settle s.ledger s.todo) body = true)
    (hnote : noteBody (settle s.ledger s.todo) body = noteOf (settle s.ledger s.todo) note)
    (hready : ∀ r, note = .request r → noteVerdict (settle s.ledger s.todo) r = .accepted) : Tracked s' := by
  obtain ⟨hlive, hnodup, htodoReady⟩ := h.live (by simp [hup])
  refine ⟨?_, fun _ => ⟨?_, ?_, ?_⟩⟩
  · rw [hlog]
    exact quiet_append h.quiet (hlive ▸ hquiet) (wholeWrite_clean htorn)
  · rw [hlog, noted_done htorn, hlive, hledger, htodo, settle, settle, List.foldl_append]
    exact hnote
  · rw [hledger]
    exact hnodup
  · rw [hledger, htodo]
    exact ready_snoc htodoReady hready

/-- Nothing of the log or the ledger moves. -/
theorem Tracked.same {s s' : RunnerState} (h : Tracked s) (hup : s.status = .up) (hlines : s'.log.lines = s.log.lines)
    (hledger : s'.ledger = s.ledger) (htodo : s'.todo = s.todo) : Tracked s' := by
  obtain ⟨hlive, hnodup, hready⟩ := h.live (by simp [hup])
  refine ⟨hlines ▸ h.quiet, fun _ => ⟨?_, ?_, ?_⟩⟩
  · rw [hlines, hledger, htodo]
    exact hlive
  · rw [hledger]
    exact hnodup
  · rw [hledger, htodo]
    exact hready

theorem Tracked.other {s s' : RunnerState} {delivery : Bool} {fate : Fate} (h : Tracked s) (hup : s.status = .up)
    (hfate : WholeWrite s.log fate) (hlog : s'.log = (s.log.append (.other delivery) fate).1)
    (hledger : s'.ledger = s.ledger) (htodo : s'.todo = s.todo) : Tracked s' := by
  obtain ⟨hlive, hnodup, hready⟩ := h.live (by simp [hup])
  refine ⟨?_, fun _ => ⟨?_, ?_, ?_⟩⟩
  · rw [hlog]
    exact quiet_append h.quiet rfl hfate
  · rw [hlog, noted_other hfate, hledger, htodo]
    exact hlive
  · rw [hledger]
    exact hnodup
  · rw [hledger, htodo]
    exact hready

/-- The note of a committed line is done. -/
theorem Tracked.noted {s s' : RunnerState} {note : Note} {rest : List Note} (h : Tracked s) (hup : s.status = .up)
    (htodo : s.todo = note :: rest) (hlines : s'.log.lines = s.log.lines) (hledger : s'.ledger = noteOf s.ledger note)
    (htodo' : s'.todo = rest) (hnodup : (pendingIds (noteOf s.ledger note)).Nodup) : Tracked s' := by
  obtain ⟨hlive, -, hready⟩ := h.live (by simp [hup])
  rw [htodo] at hlive hready
  refine ⟨hlines ▸ h.quiet, fun _ => ⟨?_, ?_, ?_⟩⟩
  · rw [hlines, hledger, htodo']
    exact hlive
  · rw [hledger]
    exact hnodup
  · rw [hledger, htodo']
    exact hready.2

theorem step_tracked {run : RunIdentity} {s s' : RunnerState} {i : RunnerInput} (h : Tracked s) (hok : Steady run s i)
    (hstep : runnerStep run s i = some s') : Tracked s' := by
  cases step_effect hstep with
  | requested hup =>
    have haccepted := hok.2.2 rfl
    refine h.written hup (hok.1.2 rfl) rfl rfl rfl ?_ rfl ?_
    · simp [quietBody, quietRequest, haccepted]
    · intro r hr
      cases hr
      exact haccepted
  | requestFailed hup _ hfate =>
    exact h.same hup (lines_failed hfate hok.1.1) rfl (hok.2.1 hfate).symm
  | refused hup => exact h.same hup rfl rfl (show [] = s.todo from (show s.todo = [] from hok).symm)
  | @notedRequest r rest fate hup htodo =>
    obtain ⟨-, hnodup, hready⟩ := h.live (by simp [hup])
    rw [htodo] at hready
    have haccepted : noteVerdict s.ledger r = .accepted := hready.1 r rfl
    have hnote : noteRequest s.log s.ledger r fate = (s.log, accept s.ledger r, true) := by
      unfold noteRequest
      rw [haccepted]
    have hof : noteOf s.ledger (.request r) = accept s.ledger r := by simp [noteOf, haccepted]
    rw [hnote]
    refine h.noted hup htodo rfl hof.symm rfl ?_
    rw [hof]
    exact accept_nodup hnodup (accepted_fresh haccepted)
  | @notedStarted rid rest fate hup htodo =>
    obtain ⟨-, hnodup, -⟩ := h.live (by simp [hup])
    exact h.noted hup htodo rfl rfl rfl ((noteStarted_ids s.ledger rid).symm ▸ hnodup)
  | notedTerminal hup htodo =>
    obtain ⟨-, hnodup, -⟩ := h.live (by simp [hup])
    exact h.noted hup htodo rfl rfl rfl (noteTerminal_nodup hnodup)
  | other hup => exact h.other hup hok rfl rfl rfl
  | closed hup hc =>
    obtain ⟨hknown, -⟩ := closes_known hc hok
    obtain ⟨hlive, hnodup, -⟩ := h.live (by simp [hup])
    refine ⟨quiet_append h.quiet rfl (knownWrite_whole hknown), fun _ => ⟨?_, hnodup, ?_⟩⟩
    · dsimp only
      rw [noted_done (hknown.2 rfl), hlive]
      exact settle_closed hnodup (closes_todo hc)
    · exact ⟨(by intros; contradiction), trivial⟩
  | closeFailed hup hc hfate =>
    obtain ⟨hknown, htodo⟩ := closes_known hc hok
    have hempty : s.todo = [] := by
      by_contra hne
      exact hfate (htodo hne)
    exact h.same hup (lines_failed hfate hknown.1) rfl hempty.symm
  | started hup htodo =>
    exact h.written hup (hok.2 rfl) rfl rfl (by rw [htodo]; rfl) rfl rfl fun r hr => by cases hr
  | startFailed hup _ _ _ hfate => exact h.same hup (lines_failed hfate hok.1) rfl rfl
  | worked hl =>
    exact h.written hl.up (hok.2 rfl) rfl rfl (by rw [hl.todo]; rfl) rfl rfl fun r hr => by cases hr
  | workFailed hl hfate => exact h.same hl.up (lines_failed hfate hok.1) rfl rfl
  | finished hup => exact h.other hup hok rfl rfl rfl
  | allocated hl => exact h.same hl.up rfl rfl rfl
  | launched hl => exact h.same hl.up rfl rfl rfl
  | delivered hl => exact h.same hl.up rfl rfl rfl
  | retried hup => exact h.same hup rfl rfl rfl
  | crashed => exact ⟨h.quiet, fun hup => absurd rfl hup⟩
  | recovered => exact recoverRun_tracked h.quiet hok

theorem replays_lines {w : RunLog} (h : quietFrom {} w.lines = true) (disks : List (Nat → Fate)) :
    (replays disks w).lines = w.lines := by
  induction disks generalizing w with
  | nil => rfl
  | cons disk rest ih =>
    have hlines : (replayRunLog disk w).log.lines = w.lines := by rw [replayRunLog_quiet h]
    rw [replays, List.foldl_cons]
    exact (ih (hlines.symm ▸ h)).trans hlines

end Floofclaw.Guarantees.Rebuild
