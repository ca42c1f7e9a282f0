import Floofclaw.Source.Runner

/-!
# What a step of a run does

Inversion of the step function, once for every invariant of the run: each input
as the change it makes, with what was checked before it.
-/

set_option autoImplicit false

namespace Floofclaw.Guarantees.RunnerSteps
open Floofclaw.Lib Floofclaw.Source.Json Floofclaw.Source.Actions Floofclaw.Source.Runner

/-- The input ends a pending request with this terminal. -/
inductive Closes (run : RunIdentity) (s : RunnerState) : RunnerInput → Terminal → Fate → Prop
  | reject {p : Pending} {reason : Bytes} {fate : Fate} (htodo : s.todo = []) (hactive : s.active = .none)
    (hp : peekNext s.ledger = some p) : Closes run s (.reject reason fate) (rejection p.request reason) fate
  | message {rid text : Bytes} {p : Pending} {fate : Fate} (htodo : s.todo = []) (hactive : s.active = .delivered rid)
    (hp : s.ledger.find rid = some p) (htext : fcMessage p.request.call.args = some text) :
    Closes run s (.messageDone fate)
      { kind := .succeeded, requestId := rid, action := lit "message", reason := [], result := messageResult text
        error := lit "null", delivery := true } fate
  | action {rid reason result error : Bytes} {kind : TerminalKind} {p : Pending} {fate : Fate}
    (htodo : s.todo = [] ∨ s.todo = [.work rid]) (hactive : s.active = .none ∨ s.active = .launching rid)
    (hp : s.ledger.find rid = some p)
    (hmessage : ¬(p.request.call.action = lit "message" ∧ kind = .succeeded ∧ run.channel = true)) :
    Closes run s (.finishAction rid kind reason result error fate)
      { kind := kind, requestId := rid, action := p.request.call.action, reason := reason, result := result
        error := error } fate

theorem closes_todo {run : RunIdentity} {s : RunnerState} {i : RunnerInput} {t : Terminal} {fate : Fate}
    (hc : Closes run s i t fate) : s.todo = [] ∨ s.todo = [.work t.requestId] := by
  cases hc with
  | reject htodo | message htodo => exact .inl htodo
  | action htodo => exact htodo

/-- The request a launch has reached. -/
structure Launching (s : RunnerState) (rid : Bytes) (p : Pending) : Prop where
  up : s.status = .up
  active : s.active = .launching rid
  todo : s.todo = []
  find : s.ledger.find rid = some p

def nextRequest (run : RunIdentity) (s : RunnerState) (call : Call) : Request :=
  { requestId := requestIdText run.runId s.log.nextEvent, call := call }

inductive Effect (run : RunIdentity) (s : RunnerState) : RunnerInput → RunnerState → Prop
  | requested {call : Call} (hup : s.status = .up) (htodo : requestsOnly s.todo = true) (hactive : s.active = .none) :
    Effect run s (.request call .done)
      { s with log := (s.log.append (.request (nextRequest run s call)) .done).1
               todo := s.todo ++ [Note.request (nextRequest run s call)] }
  | requestFailed {call : Call} {fate : Fate} (hup : s.status = .up) (hactive : s.active = .none) (hfate : fate ≠ .done)
    (htodo : requestsOnly s.todo = true) :
    Effect run s (.request call fate)
      { s with log := (s.log.append (.request (nextRequest run s call)) fate).1, todo := [] }
  | refused (hup : s.status = .up) (hactive : s.active = .none) (htodo : requestsOnly s.todo = true) :
    Effect run s .refuse { s with todo := [] }
  | notedRequest {r : Request} {rest : List Note} {fate : Fate} (hup : s.status = .up) (htodo : s.todo = .request r :: rest) :
    Effect run s (.note fate)
      { s with log := (noteRequest s.log s.ledger r fate).1, ledger := (noteRequest s.log s.ledger r fate).2.1, todo := rest }
  | notedStarted {rid : Bytes} {rest : List Note} {fate : Fate} (hup : s.status = .up) (htodo : s.todo = .started rid :: rest) :
    Effect run s (.note fate) { s with ledger := noteStarted s.ledger rid, todo := rest }
  | notedTerminal {rid : Bytes} {rest : List Note} {fate : Fate} (hup : s.status = .up)
    (htodo : s.todo = .terminal rid :: rest) :
    Effect run s (.note fate) { s with ledger := noteTerminal s.ledger rid, todo := rest }
  | other {delivery : Bool} {fate : Fate} (hup : s.status = .up) :
    Effect run s (.other delivery fate) { s with log := (s.log.append (.other delivery) fate).1 }
  | closed {i : RunnerInput} {t : Terminal} (hup : s.status = .up) (hc : Closes run s i t .done) :
    Effect run s i { s with log := (s.log.append (.terminal t) .done).1, todo := [.terminal t.requestId], active := .none }
  | closeFailed {i : RunnerInput} {t : Terminal} {fate : Fate} (hup : s.status = .up) (hc : Closes run s i t fate)
    (hfate : fate ≠ .done) :
    Effect run s i
      { s with log := (s.log.append (.terminal t) fate).1, todo := [], active := .none, status := .failed }
  | started {p : Pending} (hup : s.status = .up) (htodo : s.todo = []) (hactive : s.active = .none)
    (hp : peekNext s.ledger = some p) :
    Effect run s (.start .done)
      { s with log := (s.log.append (.started p.request.requestId) .done).1, todo := [.started p.request.requestId]
               active := .launching p.request.requestId }
  | startFailed {p : Pending} {fate : Fate} (hup : s.status = .up) (htodo : s.todo = []) (hactive : s.active = .none)
    (hp : peekNext s.ledger = some p) (hfate : fate ≠ .done) :
    Effect run s (.start fate) { s with log := (s.log.append (.started p.request.requestId) fate).1, status := .failed }
  | allocated {rid : Bytes} {p : Pending} {written : Bool} {ops : List (Bytes × Bool)} (hl : Launching s rid p)
    (hops : ops = s.ops ∨ (ops = s.ops ++ [(rid, true)] ∧ ∀ op ∈ s.ops, op.1 ≠ rid)) :
    Effect run s (.allocate written) { s with ops := ops }
  | launched {rid : Bytes} {p : Pending} (hl : Launching s rid p) (hmessage : p.request.call.action ≠ lit "message") :
    Effect run s .launch { s with launched := s.launched ++ [rid], active := .none }
  | delivered {rid text : Bytes} {p : Pending} {fate : DeliveryFate} {deliveries : List Delivery} {torn : Bool}
    (hl : Launching s rid p) (hmessage : p.request.call.action = lit "message") (hchannel : run.channel = true)
    (htext : fcMessage p.request.call.args = some text)
    (hlines : deliveries = s.deliveries ∨
      (fate = .done ∧ s.deliveryTorn = false ∧
        deliveries = s.deliveries ++ [{ number := s.nextDelivery, requestId := rid, text := text }]))
    (htorn : fate ≠ .torn → s.deliveryTorn = false → torn = false) :
    Effect run s (.deliver fate)
      { s with deliveries := deliveries, deliveryTorn := torn, nextDelivery := s.nextDelivery + 1, active := .delivered rid }
  | worked {rid : Bytes} {p : Pending} {blocked : Bool} (hl : Launching s rid p)
    (hwork : (rtActionRegistryFind s.registry p.request.call.action).any ActionDef.workTerminal = true) :
    Effect run s (.work blocked .done) { s with log := (s.log.append (.work blocked rid) .done).1, todo := [.work rid] }
  | workFailed {rid : Bytes} {p : Pending} {blocked : Bool} {fate : Fate} (hl : Launching s rid p) (hfate : fate ≠ .done)
    (hwork : (rtActionRegistryFind s.registry p.request.call.action).any ActionDef.workTerminal = true) :
    Effect run s (.work blocked fate) { s with log := (s.log.append (.work blocked rid) fate).1 }
  | finished {fate : Fate} {status : RunStatus} (hup : s.status = .up) (htodo : s.todo = []) (hactive : s.active = .none)
    (hpending : s.ledger.pending = []) (hstatus : (fate = .done ∧ status = .done) ∨ (fate ≠ .done ∧ status = .failed)) :
    Effect run s (.finishRun fate) { s with log := (s.log.append (.other false) fate).1, status := status }
  | retried (hup : s.status = .up) (hlines : s.log.lines = []) :
    Effect run s .retryInbound { s with log := { s.log with torn := false, nextEvent := 1 } }
  | crashed (hup : s.status = .up ∨ s.status = .failed) :
    Effect run s .crash { s with ledger := {}, todo := [], active := .none, status := .down }
  | recovered {env : Restart} (hdown : s.status = .down) : Effect run s (.recover env) (recoverRun env s)

theorem append_ok {w : RunLog} {body : Body} {fate : Fate} : (w.append body fate).2 = true ↔ fate = .done := by
  cases fate <;> simp [RunLog.append]

theorem append_done {w w' : RunLog} {body : Body} {fate : Fate} (h : w.append body fate = (w', true)) :
    fate = .done ∧ w' = (w.append body .done).1 := by
  have hfate : fate = .done := append_ok.mp (congrArg Prod.snd h)
  exact ⟨hfate, by rw [← hfate, h]⟩

theorem append_failed {w w' : RunLog} {body : Body} {fate : Fate} (h : w.append body fate = (w', false)) :
    fate ≠ .done ∧ w' = (w.append body fate).1 := by
  refine ⟨fun hfate => ?_, by rw [h]⟩
  have hok : (w.append body fate).2 = true := append_ok.mpr hfate
  rw [h] at hok
  cases hok

theorem settled_iff {s : RunnerState} : settled s = true ↔ s.todo = [] ∧ s.active = .none := by
  simp [settled]

theorem commitTerminal_effect {run : RunIdentity} {s s' : RunnerState} {i : RunnerInput} {t : Terminal} {fate : Fate}
    (hup : s.status = .up) (hc : Closes run s i t fate) (hs : commitTerminal s t fate = s') : Effect run s i s' := by
  subst hs
  by_cases hfate : fate = .done
  · subst hfate
    exact .closed hup hc
  · have hcommit : commitTerminal s t fate =
        { s with log := (s.log.append (.terminal t) fate).1, todo := [], active := .none, status := .failed } := by
      unfold commitTerminal
      cases fate with
      | done => exact absurd rfl hfate
      | lost | torn | reported => rfl
    rw [hcommit]
    exact .closeFailed hup hc hfate

/-- Every step is one of the effects. -/
theorem step_effect {run : RunIdentity} {s s' : RunnerState} {i : RunnerInput} (h : runnerStep run s i = some s') :
    Effect run s i s' := by
  unfold runnerStep at h
  split at h
  · rename_i call fate hup
    split at h
    · rename_i hguard
      simp only [Bool.and_eq_true, decide_eq_true_eq] at hguard
      dsimp only at h
      split at h
      · rename_i w hw
        obtain ⟨rfl, rfl⟩ := append_done hw
        cases h
        exact .requested hup hguard.1 hguard.2
      · rename_i w hw
        obtain ⟨hfate, rfl⟩ := append_failed hw
        cases h
        exact .requestFailed hup hguard.2 hfate hguard.1
    · cases h
  · rename_i hup
    split at h
    · rename_i hguard
      simp only [Bool.and_eq_true, decide_eq_true_eq] at hguard
      cases h
      exact .refused hup hguard.2 hguard.1
    · cases h
  · rename_i fate hup
    split at h
    · cases h
    · cases h
    · rename_i note rest hnote htodo
      cases note with
      | request r =>
        cases h
        exact .notedRequest hup htodo
      | started rid =>
        cases h
        exact .notedStarted hup htodo
      | terminal rid =>
        cases h
        exact .notedTerminal hup htodo
      | work rid => exact absurd rfl (hnote rid)
  · rename_i delivery fate hup
    cases h
    exact .other hup
  · rename_i reason fate hup
    split at h
    · rename_i p hsettled hp
      obtain ⟨htodo, hactive⟩ := settled_iff.mp hsettled
      exact commitTerminal_effect hup (.reject htodo hactive hp) (Option.some.inj h)
    · cases h
  · rename_i fate hup
    split at h
    · rename_i p hsettled hp
      obtain ⟨htodo, hactive⟩ := settled_iff.mp hsettled
      split at h
      · rename_i w hw
        obtain ⟨rfl, rfl⟩ := append_done hw
        cases h
        exact .started hup htodo hactive hp
      · rename_i w hw
        obtain ⟨hfate, rfl⟩ := append_failed hw
        cases h
        exact .startFailed hup htodo hactive hp hfate
    · cases h
  · rename_i written hup
    split at h
    · rename_i rid hactive htodo
      split at h
      · cases h
      · rename_i p hp
        split at h
        · rename_i hguard
          simp only [Bool.and_eq_true, List.all_eq_true, decide_eq_true_eq] at hguard
          cases h
          exact .allocated ⟨hup, hactive, htodo, hp⟩ (.inr ⟨rfl, fun op hop => by simpa using hguard.2 op hop⟩)
        · cases h
          exact .allocated ⟨hup, hactive, htodo, hp⟩ (.inl rfl)
    · cases h
  · rename_i hup
    split at h
    · rename_i rid hactive htodo
      split at h
      · cases h
      · rename_i p hp
        split at h
        · cases h
        · rename_i hmessage
          cases h
          exact .launched ⟨hup, hactive, htodo, hp⟩ hmessage
    · cases h
  · rename_i fate hup
    split at h
    · rename_i rid hactive htodo
      split at h
      · cases h
      · rename_i p hp
        split at h
        · cases h
        · rename_i text htext
          split at htext
          · rename_i hmessage
            have hl : Launching s rid p := ⟨hup, hactive, htodo, hp⟩
            dsimp only at h
            split at h
            · split at h
              · cases h
                exact .delivered hl hmessage.1 hmessage.2 htext (.inl rfl) fun _ _ => rfl
              · rename_i htorn
                cases h
                exact .delivered hl hmessage.1 hmessage.2 htext (.inr ⟨rfl, by simpa using htorn, rfl⟩) fun _ h => h
            · cases h
              exact .delivered hl hmessage.1 hmessage.2 htext (.inl rfl) fun _ h => h
            · cases h
              exact .delivered hl hmessage.1 hmessage.2 htext (.inl rfl) fun h => absurd rfl h
          · cases htext
    · cases h
  · rename_i fate hup
    split at h
    · rename_i rid hactive htodo
      split at h
      · cases h
      · rename_i p hp
        split at h
        · cases h
        · rename_i text htext
          exact commitTerminal_effect hup (.message htodo hactive hp htext) (Option.some.inj h)
    · cases h
  · rename_i blocked fate hup
    split at h
    · rename_i rid hactive htodo
      split at h
      · cases h
      · rename_i p hp
        have hl : Launching s rid p := ⟨hup, hactive, htodo, hp⟩
        split at h
        · rename_i hwork
          split at h
          · rename_i w hw
            obtain ⟨rfl, rfl⟩ := append_done hw
            cases h
            exact .worked hl hwork
          · rename_i w hw
            obtain ⟨hfate, rfl⟩ := append_failed hw
            cases h
            exact .workFailed hl hfate hwork
        · cases h
    · cases h
  · rename_i rid kind reason result error fate hup
    split at h
    · rename_i hguard
      split at h
      · cases h
      · rename_i p hp
        split at h
        · cases h
        · rename_i hmessage
          exact commitTerminal_effect hup (.action hguard.1 hguard.2 hp hmessage) (Option.some.inj h)
    · cases h
  · rename_i fate hup
    split at h
    · rename_i hguard
      rw [Bool.and_eq_true, settled_iff, List.isEmpty_iff] at hguard
      obtain ⟨⟨htodo, hactive⟩, hpending⟩ := hguard
      split at h
      · rename_i w hw
        obtain ⟨rfl, rfl⟩ := append_done hw
        cases h
        exact .finished hup htodo hactive hpending (.inl ⟨rfl, rfl⟩)
      · rename_i w hw
        obtain ⟨hfate, rfl⟩ := append_failed hw
        cases h
        exact .finished hup htodo hactive hpending (.inr ⟨hfate, rfl⟩)
    · cases h
  · rename_i hup
    split at h
    · rename_i hlines
      cases h
      exact .retried hup hlines
    · cases h
  · rename_i hup
    cases h
    exact .crashed (.inl hup)
  · rename_i hfailed
    cases h
    exact .crashed (.inr hfailed)
  · rename_i env hdown
    cases h
    exact .recovered hdown
  · cases h

/-! ## Recovery -/

/-- The state between the replay and the started requests. -/
def afterReplay (env : Restart) (s : RunnerState) : RunnerState :=
  { s with
    log := (replayRunLog env.disk s.log).log, ledger := (replayRunLog env.disk s.log).ledger
    nextDelivery := (replayRunLog env.disk s.log).nextDelivery, registry := env.registry, todo := [], active := .none }

def recoveredEntries (env : Restart) (s : RunnerState) : RunnerState × Bool :=
  recoverStarted env (afterReplay env s) (replayRunLog env.disk s.log).ledger.pending

/-- A runner is up when all the started requests were settled. -/
def recoveredUp : RunnerState × Bool → RunnerState
  | (s, true) => { s with status := .up }
  | (s, false) => { s with status := .down }

/-- A recovery stops at the replay, or goes on with the started requests and comes up when all of them are settled. -/
theorem recoverRun_cases (env : Restart) (s : RunnerState) :
    ((replayRunLog env.disk s.log).ok = false ∧ recoverRun env s = { afterReplay env s with status := .down }) ∨
      ((replayRunLog env.disk s.log).ok = true ∧ ∃ status,
        recoverRun env s = { (recoveredEntries env s).1 with status := status } ∧
          ((recoveredEntries env s).2 = true ∧ status = .up ∨ (recoveredEntries env s).2 = false ∧ status = .down)) := by
  by_cases hok : (replayRunLog env.disk s.log).ok = true
  · right
    refine ⟨hok, ?_⟩
    have hrun : recoverRun env s = recoveredUp (recoveredEntries env s) := by
      have hgoes : ¬ (!(replayRunLog env.disk s.log).ok) = true := by simp [hok]
      exact if_neg hgoes
    rw [hrun]
    unfold recoveredUp
    split
    · rename_i s' hrest
      exact ⟨.up, by rw [hrest], .inl ⟨by rw [hrest], rfl⟩⟩
    · rename_i s' hrest
      exact ⟨.down, by rw [hrest], .inr ⟨by rw [hrest], rfl⟩⟩
  · left
    rw [Bool.not_eq_true] at hok
    refine ⟨hok, ?_⟩
    unfold recoverRun afterReplay
    simp only [hok, Bool.not_false, if_true]

/-- What recovery leaves alone while it settles the started requests. -/
structure Kept (s s' : RunnerState) : Prop where
  deliveries : s'.deliveries = s.deliveries
  deliveryTorn : s'.deliveryTorn = s.deliveryTorn
  nextDelivery : s'.nextDelivery = s.nextDelivery
  launched : s'.launched = s.launched
  todo : s'.todo = s.todo
  active : s'.active = s.active

theorem Kept.trans {s s' s'' : RunnerState} (h : Kept s s') (h' : Kept s' s'') : Kept s s'' :=
  ⟨h'.deliveries.trans h.deliveries, h'.deliveryTorn.trans h.deliveryTorn, h'.nextDelivery.trans h.nextDelivery,
    h'.launched.trans h.launched, h'.todo.trans h.todo, h'.active.trans h.active⟩

theorem recoverBlocker_kept (disk : Nat → Fate) (s : RunnerState) (rid : Bytes) : Kept s (recoverBlocker disk s rid).1 := by
  unfold recoverBlocker
  split <;> exact ⟨rfl, rfl, rfl, rfl, rfl, rfl⟩

theorem recoverAmbiguous_kept (env : Restart) (s : RunnerState) (r : Request) : Kept s (recoverAmbiguous env s r).1 := by
  have hclosed : ∀ b : Bool, Kept s (if b then closeOperation s r.requestId else s) := by
    intro b
    cases b <;> exact ⟨rfl, rfl, rfl, rfl, rfl, rfl⟩
  unfold recoverAmbiguous
  dsimp only
  split
  · exact (hclosed _).trans (recoverBlocker_kept _ _ _)
  · exact (hclosed _).trans ⟨rfl, rfl, rfl, rfl, rfl, rfl⟩

theorem recoverEntry_kept (env : Restart) (s : RunnerState) (p : Pending) : Kept s (recoverEntry env s p).1 := by
  have hfound : Kept s { s with recovered := s.recovered ++ [p.request.requestId] } := ⟨rfl, rfl, rfl, rfl, rfl, rfl⟩
  unfold recoverEntry
  dsimp only
  split
  · exact ⟨rfl, rfl, rfl, rfl, rfl, rfl⟩
  · split
    · split
      · split <;> exact ⟨rfl, rfl, rfl, rfl, rfl, rfl⟩
      · exact ⟨rfl, rfl, rfl, rfl, rfl, rfl⟩
    · split
      · exact hfound.trans (recoverAmbiguous_kept _ _ _)
      · split
        · exact hfound.trans (recoverAmbiguous_kept _ _ _)
        · exact ⟨rfl, rfl, rfl, rfl, rfl, rfl⟩

theorem recoverTerminal_ledger (disk : Nat → Fate) (s : RunnerState) (t : Terminal) :
    (recoverTerminal disk s t).1.ledger = s.ledger ∨ (recoverTerminal disk s t).1.ledger = noteTerminal s.ledger t.requestId := by
  unfold recoverTerminal emitTerminal
  split
  · rename_i w L ok hemit
    split at hemit
    · cases hemit
      exact .inr rfl
    · cases hemit
      exact .inl rfl

theorem recoverAmbiguous_ledger (env : Restart) (s : RunnerState) (r : Request) :
    (recoverAmbiguous env s r).1.ledger = s.ledger ∨ (recoverAmbiguous env s r).1.ledger = noteTerminal s.ledger r.requestId := by
  have hclosed : ∀ b : Bool, (if b then closeOperation s r.requestId else s).ledger = s.ledger := by
    intro b
    cases b <;> rfl
  unfold recoverAmbiguous
  dsimp only
  rw [← hclosed (((rtActionRegistryFind env.registry r.call.action).any ActionDef.managedOperation) && env.closes r.requestId)]
  split
  · unfold recoverBlocker
    split
    · exact .inr rfl
    · exact .inl rfl
  · exact recoverTerminal_ledger _ _ _

/-- What an entry does to the ledger: nothing, or its request is settled, or its start is taken back. -/
theorem recoverEntry_ledger (env : Restart) (s : RunnerState) (p : Pending) :
    (recoverEntry env s p).1.ledger = s.ledger ∨ (p.started = true ∧
      ((recoverEntry env s p).1.ledger = noteTerminal s.ledger p.request.requestId ∨
        (recoverEntry env s p).1.ledger =
          { s.ledger with pending := setStarted false p.request.requestId s.ledger.pending })) := by
  have hambiguous := recoverAmbiguous_ledger env { s with recovered := s.recovered ++ [p.request.requestId] } p.request
  unfold recoverEntry
  dsimp only
  by_cases hstarted : p.started = true
  · rw [if_neg (by simp [hstarted])]
    split
    · split
      · split
        · exact (recoverTerminal_ledger _ _ _).imp_right fun heq => ⟨hstarted, .inl heq⟩
        · exact .inl rfl
      · exact .inr ⟨hstarted, .inr rfl⟩
    · split
      · exact hambiguous.imp_right fun heq => ⟨hstarted, .inl heq⟩
      · split
        · exact hambiguous.imp_right fun heq => ⟨hstarted, .inl heq⟩
        · exact .inr ⟨hstarted, .inr rfl⟩
  · rw [if_pos (by simp [hstarted])]
    exact .inl rfl

/-- Entries are settled one after the other until one fails. -/
theorem recoverStarted_cons (env : Restart) (s : RunnerState) (p : Pending) (rest : List Pending) :
    ((recoverEntry env s p).2 = true ∧ recoverStarted env s (p :: rest) = recoverStarted env (recoverEntry env s p).1 rest) ∨
      ((recoverEntry env s p).2 = false ∧ recoverStarted env s (p :: rest) = ((recoverEntry env s p).1, false)) := by
  rw [recoverStarted]
  split
  · rename_i s' hentry
    exact .inl ⟨by rw [hentry], by rw [hentry]⟩
  · rename_i s' hentry
    exact .inr ⟨by rw [hentry], by rw [hentry]⟩

theorem recoverStarted_kept (env : Restart) (s : RunnerState) (pending : List Pending) :
    Kept s (recoverStarted env s pending).1 := by
  induction pending generalizing s with
  | nil => exact ⟨rfl, rfl, rfl, rfl, rfl, rfl⟩
  | cons p rest ih =>
    rcases recoverStarted_cons env s p rest with ⟨-, heq⟩ | ⟨-, heq⟩
    · rw [heq]
      exact (recoverEntry_kept env s p).trans (ih _)
    · rw [heq]
      exact recoverEntry_kept env s p

end Floofclaw.Guarantees.RunnerSteps
