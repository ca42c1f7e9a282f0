import Mathlib.Data.List.Induction
import Mathlib.Data.List.Nodup
import Floofclaw.Guarantees.RunSound
import Floofclaw.Guarantees.EventNumbers

/-!
# One launch for each distinct call

The memory of a run for its calls: the signatures of the pending requests and
the table of the completed ones. While the table has room, a call that reached
its launch is known for the rest of the run, and its repetition is answered
instead of launched.
-/

set_option autoImplicit false

namespace Floofclaw.Guarantees.DistinctCalls
open Floofclaw.Lib Floofclaw.Source.Json Floofclaw.Source.EventLog Floofclaw.Source.Actions Floofclaw.Source.Runner
open Floofclaw.Guarantees.RunnerSteps Floofclaw.Guarantees.Replay Floofclaw.Guarantees.Ledger
open Floofclaw.Guarantees.RequestIds Floofclaw.Guarantees.RunIds Floofclaw.Guarantees.RunSound
open Floofclaw.Guarantees.EventNumbers (plainRestart listCall listRegistry)

/-! ## Equivalent calls -/

/-- The arguments as the signature takes them. -/
def compactArgs (c : Call) : Bytes := if c.args = [] then lit "\x7b\x7d" else c.args

structure Equivalent (c d : Call) : Prop where
  source : c.source = d.source
  action : c.action = d.action
  args : compactArgs c = compactArgs d
  taskId : c.taskId = d.taskId
  workRev : c.workRev = d.workRev

theorem Equivalent.signature {c d : Call} (h : Equivalent c d) : rtActionSignature c = rtActionSignature d := by
  have hargs : (if c.args = [] then lit "\x7b\x7d" else c.args) = if d.args = [] then lit "\x7b\x7d" else d.args := h.args
  unfold rtActionSignature callHash
  rw [h.source, h.action, hargs, h.taskId, h.workRev]

theorem signature_ne_nil (c : Call) : rtActionSignature c ≠ [] := by
  intro h
  have hlength := congrArg List.length h
  simp [rtActionSignature, clip, lit, rtMed] at hlength

/-! ## The memory of a run -/

structure Keyed (L : Ledger) : Prop where
  sig : ∀ p ∈ L.pending, p.sig = rtActionSignature p.request.call
  pending : (L.pending.map Pending.sig).Nodup
  completed : (L.completedSigs.map Prod.fst).Nodup
  apart : ∀ p ∈ L.pending, p.sig ∉ L.completedSigs.map Prod.fst

/-- The call of the request waits in the queue or is in the table of the completed ones. -/
def Knows (L : Ledger) (r : Request) : Prop :=
  (∃ p ∈ L.pending, p.request = r) ∨ (rtActionSignature r.call, r.requestId) ∈ L.completedSigs

/-- A terminal takes one entry out of the queue, and that entry is the one it records. -/
theorem noteTerminal_split {L : Ledger} {rid : Bytes} {p : Pending} (h : L.find rid = some p) :
    ∃ before after, L.pending = before ++ p :: after ∧ (noteTerminal L rid).pending = before ++ after ∧
      (noteTerminal L rid).completedSigs = completedSigAdd L.completedSigs p.sig p.request.requestId := by
  obtain ⟨hp, before, after, hsplit, hbefore⟩ := List.find?_eq_some_iff_append.mp h
  refine ⟨before, after, hsplit, ?_, ?_⟩
  · unfold noteTerminal
    dsimp only
    rw [hsplit, List.eraseP_append_right _ (by simpa using hbefore), List.eraseP_cons_of_pos (p := fun q : Pending => decide (q.request.requestId = rid)) hp]
  · unfold noteTerminal
    rw [h]

theorem noteTerminal_unmatched {L : Ledger} {rid : Bytes} (h : L.find rid = none) :
    (noteTerminal L rid).pending = L.pending ∧ (noteTerminal L rid).completedSigs = L.completedSigs := by
  refine ⟨noteTerminal_absent (find_none.mp h), ?_⟩
  unfold noteTerminal
  rw [h]

theorem completedSigAdd_cases (sigs : List (Bytes × Bytes)) (sig rid : Bytes) :
    completedSigAdd sigs sig rid = sigs ∨
      (completedSigAdd sigs sig rid = sigs ++ [(sig, rid)] ∧ sig ∉ sigs.map Prod.fst) := by
  unfold completedSigAdd
  split
  · exact .inl rfl
  · rename_i h
    rw [not_or, not_or] at h
    exact .inr ⟨rfl, h.2.1⟩

theorem Keyed.noteTerminal {L : Ledger} (h : Keyed L) (rid : Bytes) : Keyed (noteTerminal L rid) := by
  cases hfind : L.find rid with
  | none =>
    obtain ⟨hpending, hcompleted⟩ := noteTerminal_unmatched hfind
    exact ⟨hpending ▸ h.sig, hpending ▸ h.pending, hcompleted ▸ h.completed, hpending ▸ hcompleted ▸ h.apart⟩
  | some p =>
    obtain ⟨before, after, hsplit, hpending, hcompleted⟩ := noteTerminal_split hfind
    have hrest : ∀ q ∈ before ++ after, q ∈ L.pending ∧ q.sig ≠ p.sig := by
      intro q hq
      have hunique := h.pending
      rw [hsplit, List.map_append, List.map_cons, List.perm_middle.nodup_iff, List.nodup_cons] at hunique
      refine ⟨?_, fun heq => hunique.1 ?_⟩
      · rw [hsplit]
        rcases List.mem_append.mp hq with hq | hq
        · exact List.mem_append_left _ hq
        · exact List.mem_append_right _ (List.mem_cons_of_mem _ hq)
      · rw [← List.map_append]
        exact List.mem_map.mpr ⟨q, hq, heq⟩
    refine ⟨?_, ?_, ?_, ?_⟩
    · rw [hpending]
      exact fun q hq => h.sig q (hrest q hq).1
    · exact h.pending.sublist ((noteTerminal_sublist L rid).map _)
    · rw [hcompleted]
      rcases completedSigAdd_cases L.completedSigs p.sig p.request.requestId with heq | ⟨heq, hnew⟩
      · rw [heq]
        exact h.completed
      · rw [heq, List.map_append, List.nodup_append]
        refine ⟨h.completed, List.pairwise_singleton _ _, fun a ha b hb hab => ?_⟩
        rw [List.map_cons, List.map_nil, List.mem_singleton] at hb
        rw [hab, hb] at ha
        exact hnew ha
    · rw [hpending, hcompleted]
      intro q hq
      obtain ⟨hmem, hne⟩ := hrest q hq
      rcases completedSigAdd_cases L.completedSigs p.sig p.request.requestId with heq | ⟨heq, -⟩
      · rw [heq]
        exact h.apart q hmem
      · rw [heq, List.map_append, List.mem_append]
        rintro (hkey | hkey)
        · exact h.apart q hmem hkey
        · exact hne (List.mem_singleton.mp hkey)

/-- A call that is known stays known through a terminal, while the table has room. -/
theorem Knows.noteTerminal {L : Ledger} {r : Request} (h : Knows L r) (hkeyed : Keyed L) (rid : Bytes)
    (hroom : rid ∈ pendingIds L → L.completedSigs.length < rtMaxCompletedActions) : Knows (noteTerminal L rid) r := by
  cases hfind : L.find rid with
  | none =>
    obtain ⟨hpending, hcompleted⟩ := noteTerminal_unmatched hfind
    unfold Knows
    rw [hpending, hcompleted]
    exact h
  | some p =>
    obtain ⟨before, after, hsplit, hpending, hcompleted⟩ := noteTerminal_split hfind
    have hp : p ∈ L.pending := (find_mem hfind).1
    have hadded : completedSigAdd L.completedSigs p.sig p.request.requestId =
        L.completedSigs ++ [(p.sig, p.request.requestId)] := by
      unfold completedSigAdd
      rw [if_neg]
      rintro (hempty | hkey | hfull)
      · exact signature_ne_nil p.request.call ((hkeyed.sig p hp).symm.trans hempty)
      · exact hkeyed.apart p hp hkey
      · exact absurd (hroom (List.mem_map.mpr ⟨p, find_mem hfind⟩)) (by omega)
    unfold Knows
    rw [hpending, hcompleted, hadded]
    rcases h with ⟨q, hq, rfl⟩ | hkey
    · rw [hsplit] at hq
      rcases List.mem_append.mp hq with hq | hq
      · exact .inl ⟨q, List.mem_append_left _ hq, rfl⟩
      · rcases List.mem_cons.mp hq with rfl | hq
        · right
          rw [← hkeyed.sig q hp]
          exact List.mem_append_right _ (List.mem_singleton.mpr rfl)
        · exact .inl ⟨q, List.mem_append_right _ hq, rfl⟩
    · exact .inr (List.mem_append_left _ hkey)

theorem mem_setStarted {b : Bool} {rid : Bytes} {ps : List Pending} {q : Pending} (h : q ∈ setStarted b rid ps) :
    ∃ p ∈ ps, q.request = p.request ∧ q.sig = p.sig := by
  induction ps with
  | nil => cases h
  | cons p rest ih =>
    rw [setStarted] at h
    split at h
    · rcases List.mem_cons.mp h with rfl | h
      · exact ⟨p, List.mem_cons_self .., rfl, rfl⟩
      · exact ⟨q, List.mem_cons_of_mem _ h, rfl, rfl⟩
    · rcases List.mem_cons.mp h with rfl | h
      · exact ⟨_, List.mem_cons_self .., rfl, rfl⟩
      · obtain ⟨p', hp', heq⟩ := ih h
        exact ⟨p', List.mem_cons_of_mem _ hp', heq⟩

theorem Keyed.setStarted {L : Ledger} (h : Keyed L) (b : Bool) (rid : Bytes) :
    Keyed { L with pending := setStarted b rid L.pending } := by
  refine ⟨fun q hq => ?_, ?_, h.completed, fun q hq => ?_⟩
  · obtain ⟨p, hp, hrequest, hsig⟩ := mem_setStarted hq
    rw [hsig, hrequest]
    exact h.sig p hp
  · dsimp only
    rw [setStarted_sig]
    exact h.pending
  · obtain ⟨p, hp, -, hsig⟩ := mem_setStarted hq
    rw [hsig]
    exact h.apart p hp

theorem Knows.setStarted {L : Ledger} {r : Request} (h : Knows L r) (b : Bool) (rid : Bytes) :
    Knows { L with pending := setStarted b rid L.pending } r := by
  refine h.imp_left ?_
  rintro ⟨p, hp, rfl⟩
  have hmem : p.request ∈ (Source.Actions.setStarted b rid L.pending).map Pending.request := by
    rw [setStarted_request]
    exact List.mem_map.mpr ⟨p, hp, rfl⟩
  exact List.mem_map.mp hmem

/-- An accepted call was not known. -/
theorem accepted_new {L : Ledger} {r : Request} (h : noteVerdict L r = .accepted) :
    rtActionSignature r.call ∉ L.pending.map Pending.sig ∧ rtActionSignature r.call ∉ L.completedSigs.map Prod.fst := by
  have hne := signature_ne_nil r.call
  unfold noteVerdict at h
  dsimp only at h
  split at h
  · cases h
  · split at h
    · cases h
    · split at h
      · cases h
      · split at h
        · cases h
        · rename_i hpending
          split at h
          · cases h
          · rename_i hcompleted
            refine ⟨fun hmem => hpending ⟨hne, hmem⟩, fun hmem => ?_⟩
            obtain ⟨entry, hentry, hkey⟩ := List.mem_map.mp hmem
            exact absurd (List.find?_eq_none.mp hcompleted entry hentry) (by simpa using hkey)

theorem Keyed.accept {L : Ledger} {r : Request} (h : Keyed L) (haccepted : noteVerdict L r = .accepted) : Keyed (accept L r) := by
  obtain ⟨hpending, hcompleted⟩ := accepted_new haccepted
  refine ⟨fun q hq => ?_, ?_, h.completed, fun q hq => ?_⟩
  · rcases List.mem_append.mp hq with hq | hq
    · exact h.sig q hq
    · rw [List.mem_singleton.mp hq]
  · unfold Source.Actions.accept
    dsimp only
    rw [List.map_append, List.nodup_append]
    refine ⟨h.pending, List.pairwise_singleton _ _, fun a ha b hb hab => ?_⟩
    rw [List.map_cons, List.map_nil, List.mem_singleton] at hb
    rw [hab, hb] at ha
    exact hpending ha
  · rcases List.mem_append.mp hq with hq | hq
    · exact h.apart q hq
    · rw [List.mem_singleton.mp hq]
      exact hcompleted

theorem Knows.accept {L : Ledger} {r : Request} (h : Knows L r) (r' : Request) : Knows (accept L r') r :=
  h.imp_left fun ⟨p, hp, heq⟩ => ⟨p, List.mem_append_left _ hp, heq⟩

/-- The note of a request keeps the memory. -/
theorem Keyed.noteRequest {w : RunLog} {L : Ledger} {r : Request} {fate : Fate} (h : Keyed L) :
    Keyed (noteRequest w L r fate).2.1 := by
  rcases noteRequest_cases w L r fate with ⟨heq, haccepted⟩ | ⟨-, hledger, -⟩ | ⟨-, hledger⟩ | ⟨t, -, -, hledger⟩
  · rw [heq]
    exact h.accept haccepted
  · rw [hledger]
    exact h
  · rw [hledger]
    exact h
  · rcases hledger with hledger | hledger
    · rw [hledger]
      exact h
    · rw [hledger]
      exact h.noteTerminal _

/-- A request that is answered by its note is not in the queue, so its terminal records nothing. -/
theorem Knows.noteRequest {w : RunLog} {L : Ledger} {r r' : Request} {fate : Fate} (h : Knows L r) (hkeyed : Keyed L)
    (hnew : r'.requestId ∉ pendingIds L) : Knows (noteRequest w L r' fate).2.1 r := by
  rcases noteRequest_cases w L r' fate with ⟨heq, -⟩ | ⟨-, hledger, -⟩ | ⟨-, hledger⟩ | ⟨t, -, -, hledger⟩
  · rw [heq]
    exact h.accept r'
  · rw [hledger]
    exact h
  · rw [hledger]
    exact h
  · rcases hledger with hledger | hledger
    · rw [hledger]
      exact h
    · rw [hledger]
      exact h.noteTerminal hkeyed _ fun hmem => absurd hmem hnew

theorem replay_keyed {disk : Nat → Fate} {st : Replayed} {lines : List Line} (h : Keyed st.ledger) :
    Keyed (lines.foldl (replayLine disk) st).ledger := by
  induction lines generalizing st with
  | nil => exact h
  | cons line rest ih =>
    apply ih
    cases line with
    | corrupt => exact h
    | event number body =>
      by_cases hok : st.ok = true
      · rw [replayLine_event hok]
        cases body with
        | request r => exact h.noteRequest
        | started rid => exact h.setStarted true rid
        | terminal t => exact h.noteTerminal t.requestId
        | work blocked rid => exact h.noteTerminal rid
        | overflow | other => exact h
      · rw [RunReplay.replayLine_stopped (by simpa using hok)]
        exact h

theorem noteTerminal_length (L : Ledger) (rid : Bytes) :
    (noteTerminal L rid).completedSigs.length ≤ L.completedSigs.length + 1 := by
  cases hfind : L.find rid with
  | none =>
    rw [(noteTerminal_unmatched hfind).2]
    exact Nat.le_succ _
  | some p =>
    obtain ⟨_, _, -, -, hcompleted⟩ := noteTerminal_split hfind
    rw [hcompleted]
    rcases completedSigAdd_cases L.completedSigs p.sig p.request.requestId with heq | ⟨heq, -⟩
    · rw [heq]
      exact Nat.le_succ _
    · rw [heq, List.length_append, List.length_singleton]

/-- A recovery with room for every started request forgets nothing. -/
theorem recoverStarted_memory {env : Restart} {s : RunnerState} {pending : List Pending} (h : Keyed s.ledger)
    (hroom : s.ledger.completedSigs.length + pending.countP (fun p => p.started) ≤ rtMaxCompletedActions) :
    Keyed (recoverStarted env s pending).1.ledger ∧
      ∀ r, Knows s.ledger r → Knows (recoverStarted env s pending).1.ledger r := by
  induction pending generalizing s with
  | nil => exact ⟨h, fun _ hr => hr⟩
  | cons p rest ih =>
    have hentry : Keyed (recoverEntry env s p).1.ledger ∧
        (∀ r, Knows s.ledger r → Knows (recoverEntry env s p).1.ledger r) ∧
        (recoverEntry env s p).1.ledger.completedSigs.length + rest.countP (fun p => p.started) ≤ rtMaxCompletedActions := by
      rw [List.countP_cons] at hroom
      rcases recoverEntry_ledger env s p with heq | ⟨hstarted, heq | heq⟩
      · rw [heq]
        exact ⟨h, fun _ hr => hr, by omega⟩
      · rw [if_pos hstarted] at hroom
        have hlength := noteTerminal_length s.ledger p.request.requestId
        rw [heq]
        exact ⟨h.noteTerminal _, fun r hr => hr.noteTerminal h _ fun _ => by omega, by omega⟩
      · rw [heq]
        exact ⟨h.setStarted _ _, fun r hr => hr.setStarted _ _, by dsimp only; omega⟩
    obtain ⟨hkeyed, hknows, hrest⟩ := hentry
    rcases recoverStarted_cons env s p rest with ⟨-, heq⟩ | ⟨-, heq⟩
    · rw [heq]
      obtain ⟨hkeyed', hknows'⟩ := ih hkeyed hrest
      exact ⟨hkeyed', fun r hr => hknows' r (hknows r hr)⟩
    · rw [heq]
      exact ⟨hkeyed, hknows⟩

/-! ## Launches -/

/-- The request that reaches its launch in this step. -/
def launches (s : RunnerState) : RunnerInput → List Request
  | .start .done => (peekNext s.ledger).toList.map Pending.request
  | _ => []

/-- The run with the history of its launches. -/
def launchStep (run : RunIdentity) (x : RunnerState × List Request) (i : RunnerInput) : Option (RunnerState × List Request) :=
  (runnerStep run x.1 i).map fun s' => (s', x.2 ++ launches x.1 i)

/-- The table has room for the call whose terminal is noted next. -/
def RoomFor (L : Ledger) : List Note → Prop
  | .terminal _ :: _ => L.completedSigs.length < rtMaxCompletedActions
  | _ => True

/-- The replayed ledger knows every call that reached its launch, and has room for those it finds started. -/
def ReplayKnows (L : Ledger) (launched : List Request) : Prop :=
  (∀ r ∈ launched, Knows L r) ∧ L.completedSigs.length + L.pending.countP (fun p => p.started) ≤ rtMaxCompletedActions

def Remembering (x : RunnerState × List Request) : RunnerInput → Prop
  | .note _ => RoomFor x.1.ledger x.1.todo
  | .recover env => ReplayKnows (replayRunLog env.disk x.1.log).ledger x.2
  | _ => True

instance (L : Ledger) (r : Request) : Decidable (Knows L r) := inferInstanceAs (Decidable (_ ∨ _))

instance (L : Ledger) : (todo : List Note) → Decidable (RoomFor L todo)
  | .terminal _ :: _ => inferInstanceAs (Decidable (_ < _))
  | [] | .request _ :: _ | .started _ :: _ | .work _ :: _ => isTrue trivial

instance (L : Ledger) (launched : List Request) : Decidable (ReplayKnows L launched) :=
  inferInstanceAs (Decidable ((∀ r ∈ _, _) ∧ _ ≤ _))

instance (x : RunnerState × List Request) : (i : RunnerInput) → Decidable (Remembering x i)
  | .note _ => inferInstanceAs (Decidable (RoomFor x.1.ledger x.1.todo))
  | .recover env => inferInstanceAs (Decidable (ReplayKnows (replayRunLog env.disk x.1.log).ledger x.2))
  | .request _ _ | .refuse | .other _ _ | .reject _ _ | .start _ | .allocate _ | .launch | .deliver _ | .work _ _
  | .messageDone _ | .finishAction _ _ _ _ _ _ | .finishRun _ | .retryInbound | .crash => isTrue trivial

structure Remembered (run : RunIdentity) (x : RunnerState × List Request) : Prop where
  sound : Sound run x.1
  keyed : x.1.status ≠ .down → Keyed x.1.ledger
  known : x.1.status ≠ .down → ∀ r ∈ x.2, Knows x.1.ledger r
  once : ∀ r ∈ x.2, ∀ r' ∈ x.2, Equivalent r.call r'.call → r.requestId = r'.requestId

/-- A pending call that is known from a launch was launched by its own request. -/
theorem known_pending {L : Ledger} {r : Request} {p : Pending} (hkeyed : Keyed L) (hknown : Knows L r) (hp : p ∈ L.pending)
    (heq : Equivalent r.call p.request.call) : p.request = r := by
  have hsig : rtActionSignature r.call = p.sig := heq.signature.trans (hkeyed.sig p hp).symm
  rcases hknown with ⟨q, hq, rfl⟩ | hkey
  · have hsame : q.sig = p.sig := (hkeyed.sig q hq).trans hsig
    rw [List.inj_on_of_nodup_map hkeyed.pending hq hp hsame]
  · refine absurd (List.mem_map.mpr ⟨_, hkey, ?_⟩) (hkeyed.apart p hp)
    exact hsig

theorem closes_launches {run : RunIdentity} {s : RunnerState} {i : RunnerInput} {t : Terminal} {fate : Fate}
    (hc : Closes run s i t fate) : launches s i = [] := by
  cases hc <;> rfl

theorem step_remembered {run : RunIdentity} {x x' : RunnerState × List Request} {i : RunnerInput} (h : Remembered run x)
    (hok : Remembering x i) (hstep : launchStep run x i = some x') : Remembered run x' := by
  obtain ⟨s, launched⟩ := x
  obtain ⟨s', hs', rfl⟩ := Option.map_eq_some_iff.mp hstep
  dsimp only at hs'
  have hsound : Sound run s' := step_sound h.sound hs'
  have hkeyed : s.status = .up → Keyed s.ledger := fun hup => h.keyed (by simp [hup])
  have hknown : s.status = .up → ∀ r ∈ launched, Knows s.ledger r := fun hup => h.known (by simp [hup])
  -- a step that launches nothing and keeps the ledger
  have hsame : s.status = .up → launches s i = [] → s'.ledger = s.ledger → Remembered run (s', launched ++ launches s i) := by
    intro hup hnone hledger
    rw [hnone, List.append_nil]
    refine ⟨hsound, fun _ => ?_, fun _ => ?_, h.once⟩
    · dsimp only
      rw [hledger]
      exact hkeyed hup
    · dsimp only
      rw [hledger]
      exact hknown hup
  cases step_effect hs' with
  | requested hup | requestFailed hup | refused hup | other hup | finished hup | retried hup => exact hsame hup rfl rfl
  | closed hup hc | closeFailed hup hc => exact hsame hup (closes_launches hc) rfl
  | allocated hl | launched hl | delivered hl | worked hl | workFailed hl => exact hsame hl.up rfl rfl
  | @startFailed p fate hup _ _ _ hfate =>
    refine hsame hup ?_ rfl
    cases fate with
    | done => exact absurd rfl hfate
    | lost | torn | reported => rfl
  | @notedRequest r rest fate hup htodo =>
    have hnone : launched ++ launches s (.note fate) = launched := List.append_nil _
    have hnew : r.requestId ∉ pendingIds s.ledger := by
      have hlive := h.sound.live (by simp [hup])
      rw [htodo] at hlive
      exact fun hmem => hlive.head_new (List.mem_append_right _ hmem)
    rw [hnone]
    exact ⟨hsound, fun _ => (hkeyed hup).noteRequest, fun _ r' hr' => (hknown hup r' hr').noteRequest (hkeyed hup) hnew, h.once⟩
  | @notedStarted rid rest fate hup =>
    have hnone : launched ++ launches s (.note fate) = launched := List.append_nil _
    rw [hnone]
    exact ⟨hsound, fun _ => (hkeyed hup).setStarted true rid, fun _ r hr => (hknown hup r hr).setStarted true rid, h.once⟩
  | @notedTerminal rid rest fate hup htodo =>
    have hnone : launched ++ launches s (.note fate) = launched := List.append_nil _
    have hroom : RoomFor s.ledger s.todo := hok
    rw [htodo] at hroom
    rw [hnone]
    exact ⟨hsound, fun _ => (hkeyed hup).noteTerminal rid,
      fun _ r hr => (hknown hup r hr).noteTerminal (hkeyed hup) rid fun _ => hroom, h.once⟩
  | @started p hup _ _ hp =>
    have hlaunches : launches s (.start .done) = [p.request] := by rw [launches, hp]; rfl
    have hpending : p ∈ s.ledger.pending := (peekNext_mem hp).1
    -- a launched call that is equivalent is this very request
    have hlaunched : ∀ r ∈ launched, Equivalent r.call p.request.call → p.request = r := fun r hr heq =>
      known_pending (hkeyed hup) (hknown hup r hr) hpending heq
    rw [hlaunches]
    refine ⟨hsound, fun _ => hkeyed hup, fun _ r hr => ?_, ?_⟩
    · rcases List.mem_append.mp hr with hr | hr
      · exact hknown hup r hr
      · rw [List.mem_singleton.mp hr]
        exact .inl ⟨p, hpending, rfl⟩
    · intro r hr r' hr' heq
      rcases List.mem_append.mp hr with hr | hr
      · rcases List.mem_append.mp hr' with hr' | hr'
        · exact h.once r hr r' hr' heq
        · rw [List.mem_singleton.mp hr'] at heq ⊢
          rw [hlaunched r hr heq]
      · rcases List.mem_append.mp hr' with hr' | hr'
        · rw [List.mem_singleton.mp hr] at heq ⊢
          rw [hlaunched r' hr' ⟨heq.source.symm, heq.action.symm, heq.args.symm, heq.taskId.symm, heq.workRev.symm⟩]
        · rw [List.mem_singleton.mp hr, List.mem_singleton.mp hr']
  | crashed =>
    have hnone : launched ++ launches s .crash = launched := List.append_nil _
    rw [hnone]
    exact ⟨hsound, fun hup => absurd rfl hup, fun hup => absurd rfl hup, h.once⟩
  | @recovered env =>
    have hnone : launched ++ launches s (.recover env) = launched := List.append_nil _
    obtain ⟨hreplay, hroom⟩ : ReplayKnows (replayRunLog env.disk s.log).ledger launched := hok
    have hstart : Keyed (replayRunLog env.disk s.log).ledger := replay_keyed ⟨nofun, List.nodup_nil, List.nodup_nil, nofun⟩
    obtain ⟨hkeyed', hknows'⟩ : Keyed (recoveredEntries env s).1.ledger ∧
        ∀ r, Knows (replayRunLog env.disk s.log).ledger r → Knows (recoveredEntries env s).1.ledger r :=
      recoverStarted_memory hstart hroom
    rw [hnone]
    rcases recoverRun_cases env s with ⟨-, heq⟩ | ⟨-, status, heq, -⟩
    · rw [heq] at hsound ⊢
      exact ⟨hsound, fun hup => absurd rfl hup, fun hup => absurd rfl hup, h.once⟩
    · rw [heq] at hsound ⊢
      exact ⟨hsound, fun _ => hkeyed', fun _ r hr => hknows' r (hreplay r hr), h.once⟩

theorem run_remembered {run : RunIdentity} {registry : Registry} {inputs : List RunnerInput} {x : RunnerState × List Request}
    (hrun : Run (launchStep run) Remembering (runnerInit registry, []) inputs x) : Remembered run x := by
  refine hrun.invariant ⟨init_sound run registry, fun _ => ?_, fun _ => nofun, nofun⟩ ?_
  · exact ⟨nofun, List.nodup_nil, List.nodup_nil, nofun⟩
  · intro x i x' h hok hstep
    exact step_remembered h hok hstep

/-! ## Answers -/

/-- The last action_succeeded or action_failed of a request. -/
def recordedOutcome (lines : List Line) (rid : Bytes) : Option Terminal :=
  (lines.filterMap fun line =>
    match line with
    | .event _ (.terminal t) => if t.kind ≠ .rejected ∧ t.requestId = rid then some t else none
    | _ => none).getLast?

/-- What the memo reads is the recorded outcome, with what it has no room for replaced. -/
theorem memoReadOutcomeByRid_eq (lines : List Line) (rid : Bytes) :
    memoReadOutcomeByRid lines rid = (recordedOutcome lines rid).map fun t =>
      { t with
        result := if t.result.length < rtXl then t.result else lit "\x7b\x7d"
        error := if t.error.length < rtLarge then t.error else lit "null" } := by
  unfold memoReadOutcomeByRid recordedOutcome
  induction lines using List.reverseRecOn with
  | nil => rfl
  | append_singleton lines line ih =>
    rw [List.foldl_append, List.foldl_cons, List.foldl_nil, List.filterMap_append, ih]
    cases line with
    | corrupt => simp
    | event number body =>
      cases body with
      | terminal t =>
        by_cases h : t.kind ≠ .rejected ∧ t.requestId = rid
        · simp [h]
        · simp [h]
      | request | started | work | overflow | other => simp

/-- The request is in the queue. -/
def InFlight (L : Ledger) (r : Request) : Prop := ∃ p ∈ L.pending, p.request = r

instance (L : Ledger) (r : Request) : Decidable (InFlight L r) := inferInstanceAs (Decidable (∃ p ∈ L.pending, p.request = r))

/-- The answer to a request whose call was launched before: its terminal repeats the recorded outcome, or rejects. -/
structure Repeats (s : RunnerState) (first r : Request) (t : Terminal) : Prop where
  requestId : t.requestId = r.requestId
  inFlight : InFlight s.ledger first → t = rejection r (lit "duplicate_equivalent_action_call")
  completed : ¬ InFlight s.ledger first →
    match recordedOutcome s.log.lines first.requestId with
    | none => t = rejection r (lit "duplicate_equivalent_action_call")
    | some outcome => t.kind = outcome.kind ∧ (outcome.result.length < rtXl → t.result = outcome.result)

theorem memoTerminal_repeats {s : RunnerState} {first r : Request} (hcompleted : ¬ InFlight s.ledger first) :
    Repeats s first r (memoTerminal s.log.lines r first.requestId) := by
  refine ⟨memoTerminal_requestId _ _ _, fun hmem => absurd hmem hcompleted, fun _ => ?_⟩
  unfold memoTerminal
  rw [memoReadOutcomeByRid_eq]
  cases recordedOutcome s.log.lines first.requestId with
  | none => rfl
  | some outcome => exact ⟨rfl, fun hlength => if_pos hlength⟩

theorem note_repeated {run : RunIdentity} {x : RunnerState × List Request} (h : Remembered run x) (hup : x.1.status = .up)
    {first r : Request} {rest : List Note} (hfirst : first ∈ x.2) (htodo : x.1.todo = .request r :: rest)
    (heq : Equivalent first.call r.call) :
    ∃ t, Repeats x.1 first r t ∧ ∀ fate, noteRequest x.1.log x.1.ledger r fate = emitTerminal x.1.log x.1.ledger t fate := by
  obtain ⟨s, launched⟩ := x
  dsimp only at hup htodo ⊢
  have halive : s.status ≠ .down := by simp [hup]
  have hlive := h.sound.live halive
  have hkeyed : Keyed s.ledger := h.keyed halive
  have hknown : Knows s.ledger first := h.known halive first hfirst
  dsimp only at hlive
  rw [htodo] at hlive
  -- the request is new: neither its id nor an earlier request under it is known
  have hne : r.requestId ≠ [] := (hlive.issued r.requestId (.inr (.inl (List.mem_cons_self ..)))).ne_nil
  have hpending : s.ledger.isPending r.requestId = false := by
    rw [← Bool.not_eq_true, isPending_iff]
    exact fun hmem => hlive.head_new (List.mem_append_right _ hmem)
  have hfresh : r.requestId ∉ s.ledger.completedIds := hlive.fresh r.requestId (List.mem_cons_self ..)
  have hsig : rtActionSignature first.call = rtActionSignature r.call := heq.signature
  have hsigNe := signature_ne_nil r.call
  rcases hknown with ⟨p, hp, rfl⟩ | hkey
  · have hmem : InFlight s.ledger p.request := ⟨p, hp, rfl⟩
    have hverdict : noteVerdict s.ledger r = .rejected (lit "duplicate_equivalent_action_call") := by
      unfold noteVerdict
      dsimp only
      rw [if_neg hne, if_neg (by simp [hpending]), if_neg hfresh, if_pos]
      exact ⟨hsigNe, List.mem_map.mpr ⟨p, hp, (hkeyed.sig p hp).trans hsig⟩⟩
    refine ⟨rejection r (lit "duplicate_equivalent_action_call"), ⟨rfl, fun _ => rfl, fun hnot => absurd hmem hnot⟩, fun fate => ?_⟩
    unfold noteRequest
    rw [hverdict]
  · rw [hsig] at hkey
    have hnotPending : rtActionSignature r.call ∉ s.ledger.pending.map Pending.sig := by
      intro hmem
      obtain ⟨p, hp, hpsig⟩ := List.mem_map.mp hmem
      refine hkeyed.apart p hp (List.mem_map.mpr ⟨_, hkey, hpsig.symm⟩)
    have hfind : s.ledger.completedSigs.find? (fun entry => entry.1 = rtActionSignature r.call) =
        some (rtActionSignature r.call, first.requestId) := by
      obtain ⟨entry, hentry⟩ : ∃ entry, s.ledger.completedSigs.find? (fun entry => entry.1 = rtActionSignature r.call) = some entry := by
        rw [← Option.isSome_iff_exists, List.find?_isSome]
        exact ⟨_, hkey, by simp⟩
      have hmatch : entry.1 = rtActionSignature r.call := by simpa using List.find?_some hentry
      rw [hentry, List.inj_on_of_nodup_map hkeyed.completed (List.mem_of_find?_eq_some hentry) hkey hmatch]
    have hverdict : noteVerdict s.ledger r = .repeated first.requestId := by
      unfold noteVerdict
      dsimp only
      rw [if_neg hne, if_neg (by simp [hpending]), if_neg hfresh, if_neg (fun hboth => hnotPending hboth.2), if_neg hsigNe, hfind]
    have hcompleted : ¬ InFlight s.ledger first := by
      rintro ⟨p, hp, rfl⟩
      exact hnotPending (List.mem_map.mpr ⟨p, hp, (hkeyed.sig p hp).trans hsig⟩)
    refine ⟨_, memoTerminal_repeats hcompleted, fun fate => ?_⟩
    unfold noteRequest
    rw [hverdict]

/-- Calls that differ in the revision of the work, each launched and finished. -/
def finishedCalls (count : Nat) : List RunnerInput :=
  ((List.range count).map fun n : Nat =>
    -- each call takes three event numbers
    [RunnerInput.request { listCall with workRev := (n : Int) } .done, .note .done, .start .done, .note .done,
      .finishAction (requestIdText (lit "run_001") (3 * n + 1)) .succeeded [] (lit "\x7b\x7d") (lit "null") .done, .note .done]).flatten

end Floofclaw.Guarantees.DistinctCalls
