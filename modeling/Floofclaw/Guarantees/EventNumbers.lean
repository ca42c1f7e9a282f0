import Floofclaw.Guarantees.Replay

/-!
# Event numbers

The counter of a run moves before each write, starts again at one when the
first line is retried, and is recomputed from the log on recovery. The numbers
of the committed lines stay in order as long as no line is written behind a
torn one and replay writes nothing while it still reads.
-/

set_option autoImplicit false

namespace Floofclaw.Guarantees.EventNumbers
open Floofclaw.Lib Floofclaw.Source.Json Floofclaw.Source.Actions Floofclaw.Source.Runner
open Floofclaw.Guarantees.RunnerSteps Floofclaw.Guarantees.Replay

/-- Every line is an event, their numbers increase in file order, and the counter is past them. -/
structure Numbered (w : RunLog) : Prop where
  whole : Line.corrupt ∉ w.lines
  increasing : (numbers w.lines).Pairwise (· < ·)
  below : ∀ n ∈ numbers w.lines, n < w.nextEvent

/-! ## The condition -/

/-- The line does not land behind a torn one. -/
def WholeWrite (w : RunLog) (fate : Fate) : Prop := w.torn = true → fate = .lost ∨ fate = .torn

/-- The queue is full for the request on this line. -/
def overflows (L : Ledger) : Option Line → Bool
  | some (.event _ (.request r)) => noteVerdict L r = .overflow
  | _ => false

/-- While lines are still to be read the replay writes nothing; at the last one an error about a full queue is not torn,
since recovery goes on after it. -/
def QuietReplay (env : Restart) (w : RunLog) : Prop :=
  quietFrom {} w.lines.dropLast = true ∧
    (overflows (w.lines.dropLast.foldl noteLine {}) w.lines.getLast? = true → env.disk (w.lines.foldl counted 1) ≠ .torn)

def InOrder (s : RunnerState) : RunnerInput → Prop
  | .request _ fate | .note fate | .other _ fate | .reject _ fate | .start fate | .work _ fate | .messageDone fate
  | .finishAction _ _ _ _ _ fate | .finishRun fate => WholeWrite s.log fate
  | .recover env => QuietReplay env s.log
  | .refuse | .allocate _ | .launch | .deliver _ | .retryInbound | .crash => True

instance (w : RunLog) (fate : Fate) : Decidable (WholeWrite w fate) := inferInstanceAs (Decidable (_ → _))

instance (env : Restart) (w : RunLog) : Decidable (QuietReplay env w) := inferInstanceAs (Decidable (_ ∧ (_ → _)))

instance (s : RunnerState) : (i : RunnerInput) → Decidable (InOrder s i)
  | .request _ fate | .note fate | .other _ fate | .reject _ fate | .start fate | .work _ fate | .messageDone fate
  | .finishAction _ _ _ _ _ fate | .finishRun fate => inferInstanceAs (Decidable (WholeWrite s.log fate))
  | .recover env => inferInstanceAs (Decidable (QuietReplay env s.log))
  | .refuse | .allocate _ | .launch | .deliver _ | .retryInbound | .crash => isTrue trivial

/-! ## Writes -/

theorem numbered_snoc {w : RunLog} {body : Body} (h : Numbered w) (htorn : w.torn = false) :
    Numbered { lines := w.lines ++ [w.lineOf body], torn := false, nextEvent := w.nextEvent + 1 } := by
  have hline : w.lineOf body = .event w.nextEvent body := by simp [RunLog.lineOf, htorn]
  rw [hline]
  refine ⟨?_, ?_, ?_⟩
  · simpa using h.whole
  · rw [numbers_append, List.pairwise_append]
    refine ⟨h.increasing, List.pairwise_singleton _ _, fun a ha b hb => ?_⟩
    obtain rfl : b = w.nextEvent := List.mem_singleton.mp hb
    exact h.below a ha
  · intro n hn
    rw [numbers_append] at hn
    rcases List.mem_append.mp hn with hn | hn
    · exact (h.below n hn).trans (Nat.lt_succ_self _)
    · obtain rfl : n = w.nextEvent := List.mem_singleton.mp hn
      exact Nat.lt_succ_self _

theorem numbered_append {w : RunLog} {body : Body} {fate : Fate} (h : Numbered w) (hfate : WholeWrite w fate) :
    Numbered (w.append body fate).1 := by
  have hlater : Numbered { w with nextEvent := w.nextEvent + 1 } :=
    ⟨h.whole, h.increasing, fun n hn => (h.below n hn).trans (Nat.lt_succ_self _)⟩
  have hclean : fate = .done ∨ fate = .reported → w.torn = false := by
    intro hwritten
    by_contra htorn
    rcases hfate (by simpa using htorn) with heq | heq <;> rcases hwritten with h' | h' <;> simp [h'] at heq
  cases fate with
  | done => exact numbered_snoc h (hclean (.inl rfl))
  | reported => exact numbered_snoc h (hclean (.inr rfl))
  | torn => exact ⟨hlater.whole, hlater.increasing, hlater.below⟩
  | lost => exact hlater

theorem wholeWrite_clean {w : RunLog} {fate : Fate} (h : w.torn = false) : WholeWrite w fate := fun ht => by
  rw [h] at ht
  cases ht

theorem numbered_emit {w : RunLog} {L : Ledger} {t : Terminal} {fate : Fate} (h : Numbered w) (hfate : WholeWrite w fate) :
    Numbered (emitTerminal w L t fate).1 := by
  have happend : Numbered (w.append (.terminal t) fate).1 := numbered_append h hfate
  unfold emitTerminal
  split
  · rename_i w' hw
    rw [hw] at happend
    exact happend
  · rename_i w' hw
    rw [hw] at happend
    exact happend

theorem numbered_noteRequest {w : RunLog} {L : Ledger} {r : Request} {fate : Fate} (h : Numbered w)
    (hfate : WholeWrite w fate) : Numbered (noteRequest w L r fate).1 := by
  unfold noteRequest
  split
  · exact h
  · exact numbered_emit h hfate
  · exact numbered_emit h hfate
  · exact numbered_append h hfate
  · exact h

/-! ## Recovery -/

/-- A log that is in order and not torn, as recovery keeps it between its writes. -/
structure Clean (w : RunLog) : Prop where
  numbered : Numbered w
  untorn : w.torn = false

theorem clean_append {w : RunLog} {body : Body} {fate : Fate} (h : Clean w) (hfate : fate ≠ .torn) :
    Clean (w.append body fate).1 := by
  refine ⟨numbered_append h.numbered (wholeWrite_clean h.untorn), ?_⟩
  cases fate with
  | done | reported => rfl
  | lost => exact h.untorn
  | torn => exact absurd rfl hfate

theorem clean_emit {w : RunLog} {L : Ledger} {t : Terminal} {fate : Fate} (h : Clean w)
    (hok : (emitTerminal w L t fate).2.2 = true) : Clean (emitTerminal w L t fate).1 := by
  refine ⟨numbered_emit h.numbered (wholeWrite_clean h.untorn), ?_⟩
  unfold emitTerminal at hok ⊢
  split
  · rename_i w' hw
    obtain ⟨rfl, rfl⟩ := append_done hw
    rfl
  · rename_i w' hw
    rw [hw] at hok
    cases hok

/-- One entry leaves the log in order, and clean when it goes on. -/
theorem recoverEntry_numbered {env : Restart} {s : RunnerState} {p : Pending} (h : Clean s.log) :
    Numbered (recoverEntry env s p).1.log ∧ ((recoverEntry env s p).2 = true → Clean (recoverEntry env s p).1.log) := by
  have hterminal : ∀ s' t, s'.log = s.log →
      Numbered (recoverTerminal env.disk s' t).1.log ∧
        ((recoverTerminal env.disk s' t).2 = true → Clean (recoverTerminal env.disk s' t).1.log) := by
    intro s' t hlog
    rw [← hlog] at h
    exact ⟨numbered_emit h.numbered (wholeWrite_clean h.untorn), fun hok => clean_emit h hok⟩
  have hblocker : ∀ s' rid, s'.log = s.log →
      Numbered (recoverBlocker env.disk s' rid).1.log ∧
        ((recoverBlocker env.disk s' rid).2 = true → Clean (recoverBlocker env.disk s' rid).1.log) := by
    intro s' rid hlog
    rw [← hlog] at h
    have happend : Numbered (s'.log.append (.work true rid) (env.disk s'.log.nextEvent)).1 :=
      numbered_append h.numbered (wholeWrite_clean h.untorn)
    unfold recoverBlocker
    split
    · rename_i w hw
      rw [hw] at happend
      obtain ⟨-, rfl⟩ := append_done hw
      exact ⟨happend, fun _ => ⟨happend, rfl⟩⟩
    · rename_i w hw
      rw [hw] at happend
      exact ⟨happend, fun hok => by cases hok⟩
  have hambiguous : ∀ s' r, s'.log = s.log →
      Numbered (recoverAmbiguous env s' r).1.log ∧
        ((recoverAmbiguous env s' r).2 = true → Clean (recoverAmbiguous env s' r).1.log) := by
    intro s' r hlog
    unfold recoverAmbiguous
    dsimp only
    have hclosed : ∀ b : Bool, (if b then closeOperation s' r.requestId else s').log = s.log := by
      intro b
      cases b <;> exact hlog
    split
    · exact hblocker _ _ (hclosed _)
    · exact hterminal _ _ (hclosed _)
  unfold recoverEntry
  dsimp only
  split
  · exact ⟨h.numbered, fun _ => h⟩
  split
  · split
    · split
      · exact hterminal _ _ rfl
      · exact ⟨h.numbered, fun hok => by cases hok⟩
    · exact ⟨h.numbered, fun _ => h⟩
  · split
    · exact hambiguous _ _ rfl
    · split
      · exact hambiguous _ _ rfl
      · exact ⟨h.numbered, fun _ => h⟩

theorem recoverStarted_numbered {env : Restart} {s : RunnerState} {pending : List Pending} (h : Clean s.log) :
    Numbered (recoverStarted env s pending).1.log := by
  induction pending generalizing s with
  | nil => exact h.numbered
  | cons p rest ih =>
    have hentry : Numbered (recoverEntry env s p).1.log ∧ _ := recoverEntry_numbered h
    rcases recoverStarted_cons env s p rest with ⟨hok, heq⟩ | ⟨-, heq⟩
    · rw [heq]
      exact ih (hentry.2 hok)
    · rw [heq]
      exact hentry.1

/-- The replay of a log in order leaves it in order, and clean unless it stopped at its last line. -/
theorem replayRunLog_numbered {env : Restart} {w : RunLog} (h : Numbered w) (hquiet : QuietReplay env w) :
    Numbered (replayRunLog env.disk w).log ∧
      ((replayRunLog env.disk w).ok = true → Clean (replayRunLog env.disk w).log) := by
  obtain ⟨lines, torn, nextEvent⟩ := w
  unfold replayRunLog
  dsimp only
  rcases List.eq_nil_or_concat lines with rfl | ⟨front, last, rfl⟩
  · have hnil : Numbered {} := ⟨List.not_mem_nil, List.Pairwise.nil, fun n hn => absurd hn List.not_mem_nil⟩
    exact ⟨hnil, fun _ => ⟨hnil, rfl⟩⟩
  rw [List.concat_eq_append] at h hquiet ⊢
  obtain ⟨hquietFront, htorn⟩ := hquiet
  dsimp only at hquietFront htorn
  rw [List.dropLast_concat] at hquietFront htorn
  rw [List.getLast?_concat, List.foldl_append, List.foldl_cons, List.foldl_nil] at htorn
  have hread : front.foldl (replayLine env.disk) { log := { lines := front ++ [last] } } = _ := replay_quiet rfl hquietFront
  rw [List.foldl_append, List.foldl_cons, List.foldl_nil, hread]
  cases last with
  | corrupt => exact absurd (List.mem_append_right _ (List.mem_singleton.mpr rfl)) h.whole
  | event number body =>
    -- the counter stands right behind the last line before its note writes anything
    have hw : Numbered { lines := front ++ [Line.event number body], torn := false
                         nextEvent := counted (front.foldl counted 1) (.event number body) } := by
      refine ⟨h.whole, h.increasing, fun n hn => ?_⟩
      have hlt : n < (front ++ [Line.event number body]).foldl counted 1 := lt_foldl_counted hn
      rwa [List.foldl_append] at hlt
    have hclean : Clean { lines := front ++ [Line.event number body], torn := false
                          nextEvent := counted (front.foldl counted 1) (.event number body) } := ⟨hw, rfl⟩
    rw [replayLine_event rfl]
    dsimp only
    cases body with
    | request r =>
      unfold replayActionRecord noteRequest
      dsimp only
      split
      · exact ⟨hw, fun _ => hclean⟩
      · exact ⟨numbered_emit hw (wholeWrite_clean rfl), fun hok => clean_emit hclean hok⟩
      · exact ⟨numbered_emit hw (wholeWrite_clean rfl), fun hok => clean_emit hclean hok⟩
      · rename_i hverdict
        exact ⟨numbered_append hw (wholeWrite_clean rfl), fun _ => clean_append hclean (htorn (by simp [overflows, hverdict]))⟩
      · exact ⟨hw, fun _ => hclean⟩
    | started | terminal | work | overflow | other => exact ⟨hw, fun _ => hclean⟩

theorem recoverRun_numbered {env : Restart} {s : RunnerState} (h : Numbered s.log) (hquiet : QuietReplay env s.log) :
    Numbered (recoverRun env s).log := by
  obtain ⟨hnumbered, hclean⟩ := replayRunLog_numbered h hquiet
  rcases recoverRun_cases env s with ⟨-, heq⟩ | ⟨hok, status, heq, -⟩
  · rw [heq]
    exact hnumbered
  · rw [heq]
    exact recoverStarted_numbered (hclean hok)

/-! ## Runs -/

theorem closes_inOrder {run : RunIdentity} {s : RunnerState} {i : RunnerInput} {t : Terminal} {fate : Fate}
    (hc : Closes run s i t fate) (hok : InOrder s i) : WholeWrite s.log fate := by
  cases hc <;> exact hok

theorem step_numbered {run : RunIdentity} {s s' : RunnerState} {i : RunnerInput} (h : Numbered s.log) (hok : InOrder s i)
    (hstep : runnerStep run s i = some s') : Numbered s'.log := by
  cases step_effect hstep with
  | requested | requestFailed | other | started | startFailed | worked | workFailed | finished => exact numbered_append h hok
  | notedRequest => exact numbered_noteRequest h hok
  | closed _ hc | closeFailed _ hc => exact numbered_append h (closes_inOrder hc hok)
  | retried _ hlines => exact ⟨h.whole, h.increasing, fun _ hn => absurd hn (by simp [hlines, numbers])⟩
  | recovered => exact recoverRun_numbered h hok
  | refused | notedStarted | notedTerminal | allocated | launched | delivered | crashed => exact h

/-- In every run whose steps meet the condition, in every state reached, the lines carry increasing numbers and the
counter is past all of them. -/
theorem event_numbers_in_order (run : RunIdentity) (registry : Registry) (inputs : List RunnerInput) (s : RunnerState)
    (hrun : Run (runnerStep run) InOrder (runnerInit registry) inputs s) : Numbered s.log :=
  hrun.invariant ⟨List.not_mem_nil, List.Pairwise.nil, fun _ hn => absurd hn List.not_mem_nil⟩
    fun _ _ _ h hok hstep => step_numbered h hok hstep

/-! ## A replay that writes -/

/-- A restart that meets no failure. -/
def plainRestart (registry : Registry) : Restart :=
  { registry := registry, disk := fun _ => .done, blocks := fun _ => false, closes := fun _ => true }

def listCall : Call :=
  { source := lit "agent", action := lit "list_directory", args := lit "\x7b\"path\":\".\"\x7d", taskId := [], workRev := 0 }

def listRegistry : Registry := [(lit "list_directory", { outsideWorld := false })]

/-- The same call twice, the second rejected while the first waits; one more event, a crash and a recovery. -/
def repeatedCall : List RunnerInput :=
  [.request listCall .done, .note .done, .request listCall .done, .note .done, .other false .done, .crash,
    .recover (plainRestart listRegistry)]

/-- The replay rejects the second request again, with a number that is taken. -/
theorem event_number_taken : ∃ s,
    exec (runnerStep { runId := lit "run_001" }) (runnerInit listRegistry) repeatedCall = some s ∧
      numbers s.log.lines = [1, 2, 3, 4, 3] ∧ ¬ Numbered s.log := by
  have hexec : (exec (runnerStep { runId := lit "run_001" }) (runnerInit listRegistry) repeatedCall).any
      (fun s => numbers s.log.lines = [1, 2, 3, 4, 3]) = true := by decide +kernel
  rw [Option.any_eq_true] at hexec
  obtain ⟨s, hs, hnumbers⟩ := hexec
  rw [decide_eq_true_eq] at hnumbers
  refine ⟨s, hs, hnumbers, fun h => ?_⟩
  have hincreasing := h.increasing
  rw [hnumbers] at hincreasing
  exact absurd hincreasing (by decide)

/-- A launch and a torn write, a crash, and a recovery that finds the started request. -/
theorem event_numbers_after_crash : ∃ s,
    exec (runnerStep { runId := lit "run_001" }) (runnerInit listRegistry)
        [.request listCall .done, .note .done, .start .done, .note .done, .other false .torn, .crash,
          .recover (plainRestart []), .other false .done] = some s ∧
      numbers s.log.lines = [1, 2, 3, 4] ∧ Numbered s.log := by
  have hcheck : (checkRun (runnerStep { runId := lit "run_001" }) InOrder (runnerInit listRegistry)
      [.request listCall .done, .note .done, .start .done, .note .done, .other false .torn, .crash,
          .recover (plainRestart []), .other false .done]).any fun s => 
      numbers s.log.lines = [1, 2, 3, 4] := by decide +kernel
  rw [Option.any_eq_true] at hcheck
  obtain ⟨s, hs, hnumbers⟩ := hcheck
  rw [decide_eq_true_eq] at hnumbers
  exact ⟨s, exec_of_check hs, hnumbers, event_numbers_in_order _ _ _ _ (.of_check hs)⟩

end Floofclaw.Guarantees.EventNumbers
