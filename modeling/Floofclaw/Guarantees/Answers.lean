import Floofclaw.Guarantees.EventNumbers
import Floofclaw.Guarantees.RequestIds

/-!
# Every request is answered

A run without crashes, from its requests to its end. A request waits for its
note, then in the queue, and leaves it through its terminal; the run ends when
nothing waits. What is lost on the way was never noted, or fell off the queue.
-/

set_option autoImplicit false

namespace Floofclaw.Guarantees.Answers
open Floofclaw.Lib Floofclaw.Source.Json Floofclaw.Source.Actions Floofclaw.Source.Runner
open Floofclaw.Guarantees.RunnerSteps Floofclaw.Guarantees.Ledger Floofclaw.Guarantees.RequestIds
open Floofclaw.Guarantees.EventNumbers (listCall listRegistry)

/-! ## The condition -/

/-- The line is in the file, whole. -/
def Lands (w : RunLog) (fate : Fate) : Prop := w.torn = false ∧ (fate = .done ∨ fate = .reported)

/-- The note of the request accepts it, or its answer is written. -/
def NoteAnswers (s : RunnerState) (r : Request) (fate : Fate) : Prop :=
  match noteVerdict s.ledger r with
  | .ignored | .accepted => True
  | .rejected _ | .repeated _ => Lands s.log fate
  | .overflow => False

def NextAnswers (s : RunnerState) (fate : Fate) : List Note → Prop
  | .request r :: _ => NoteAnswers s r fate
  | _ => True

def Unbroken (s : RunnerState) : RunnerInput → Prop
  | .request _ fate => (fate ≠ .done → s.todo = []) ∧ (fate = .reported → s.log.torn = true)
  | .refuse => s.todo = []
  | .note fate => NextAnswers s fate s.todo
  | .reject _ fate | .messageDone fate | .finishAction _ _ _ _ _ fate => fate = .done → s.log.torn = false
  | .other _ _ | .start _ | .allocate _ | .launch | .deliver _ | .work _ _ | .finishRun _ | .retryInbound => True
  | .crash | .recover _ => False

instance (w : RunLog) (fate : Fate) : Decidable (Lands w fate) := inferInstanceAs (Decidable (_ ∧ (_ ∨ _)))

instance (s : RunnerState) (r : Request) (fate : Fate) : Decidable (NoteAnswers s r fate) :=
  match h : noteVerdict s.ledger r with
  | .ignored | .accepted => isTrue (by simp [NoteAnswers, h])
  | .rejected _ | .repeated _ => decidable_of_iff (Lands s.log fate) (by simp [NoteAnswers, h])
  | .overflow => isFalse (by simp [NoteAnswers, h])

instance (s : RunnerState) (fate : Fate) : (todo : List Note) → Decidable (NextAnswers s fate todo)
  | .request r :: _ => inferInstanceAs (Decidable (NoteAnswers s r fate))
  | [] | .started _ :: _ | .terminal _ :: _ | .work _ :: _ => isTrue trivial

instance (s : RunnerState) : (i : RunnerInput) → Decidable (Unbroken s i)
  | .request _ _ => inferInstanceAs (Decidable ((_ → _) ∧ (_ → _)))
  | .refuse => inferInstanceAs (Decidable (_ = _))
  | .note fate => inferInstanceAs (Decidable (NextAnswers s fate s.todo))
  | .reject _ _ | .messageDone _ | .finishAction _ _ _ _ _ _ => inferInstanceAs (Decidable (_ → _))
  | .other _ _ | .start _ | .allocate _ | .launch | .deliver _ | .work _ _ | .finishRun _ | .retryInbound => isTrue trivial
  | .crash | .recover _ => isFalse id

/-! ## The invariant -/

structure Answering (run : RunIdentity) (lines : List Line) (next : Nat) (todo : List Note) (L : Ledger) : Prop where
  issued : ∀ rid, rid ∈ requestIds lines ∨ rid ∈ terminalIds lines ∨ rid ∈ waiting todo L → Issued run next rid
  empty : lines = [] → waiting todo L = []
  unique : (waiting todo L).Nodup
  closing : ∀ rid, .terminal rid ∈ todo → todo = [.terminal rid]
  unanswered : ∀ rid ∈ waiting todo L, (terminalIds lines).count rid = if .terminal rid ∈ todo then 1 else 0
  answered : ∀ rid ∈ requestIds lines, rid ∈ waiting todo L ∨ (terminalIds lines).count rid = 1

/-- Other lines, and a counter that moved. -/
theorem Answering.later {run : RunIdentity} {lines lines' : List Line} {next next' : Nat} {todo : List Note} {L : Ledger}
    (h : Answering run lines next todo L) (hrequests : requestIds lines' = requestIds lines)
    (hterminals : terminalIds lines' = terminalIds lines) (hempty : lines' = [] → lines = []) (hnext : next ≤ next') :
    Answering run lines' next' todo L := by
  refine ⟨fun rid hrid => ?_, fun hnil => h.empty (hempty hnil), h.unique, h.closing, ?_, ?_⟩
  · rw [hrequests, hterminals] at hrid
    exact (h.issued rid hrid).mono hnext
  · rw [hterminals]
    exact h.unanswered
  · rw [hrequests, hterminals]
    exact h.answered

theorem Answering.append {run : RunIdentity} {w : RunLog} {todo : List Note} {L : Ledger} {body : Body} (fate : Fate)
    (h : Answering run w.lines w.nextEvent todo L) (hrequest : requestOf body = none) (hterminal : terminalOf body = none) :
    Answering run (w.append body fate).1.lines (w.append body fate).1.nextEvent todo L := by
  refine h.later (idsOf_unwritten hrequest) (idsOf_unwritten hterminal) append_nil ?_
  rw [append_nextEvent]
  exact Nat.le_succ _

/-- Other notes and another ledger under which the same requests wait. -/
theorem Answering.moved {run : RunIdentity} {lines : List Line} {next : Nat} {todo todo' : List Note} {L L' : Ledger}
    (h : Answering run lines next todo L) (hwaiting : (waiting todo' L').Perm (waiting todo L))
    (hterminals : ∀ rid, .terminal rid ∉ todo) (hterminals' : ∀ rid, .terminal rid ∉ todo') :
    Answering run lines next todo' L' := by
  refine ⟨fun rid hrid => ?_, fun hnil => ?_, hwaiting.nodup_iff.mpr h.unique, fun rid hrid => absurd hrid (hterminals' rid), ?_, ?_⟩
  · rw [hwaiting.mem_iff] at hrid
    exact h.issued rid hrid
  · have hnone := h.empty hnil
    rw [hnone] at hwaiting
    exact hwaiting.eq_nil
  · intro rid hrid
    have hcount := h.unanswered rid (hwaiting.mem_iff.mp hrid)
    rw [if_neg (hterminals rid)] at hcount
    rw [if_neg (hterminals' rid), hcount]
  · intro rid hrid
    rw [hwaiting.mem_iff]
    exact h.answered rid hrid

/-- A request is committed under a new id. -/
theorem Answering.requested {run : RunIdentity} {w : RunLog} {todo : List Note} {L : Ledger} {r : Request}
    (h : Answering run w.lines w.nextEvent todo L) (hid : r.requestId = requestIdText run.runId w.nextEvent)
    (hterminals : ∀ rid, .terminal rid ∉ todo) :
    Answering run (w.append (.request r) .done).1.lines (w.append (.request r) .done).1.nextEvent (todo ++ [Note.request r]) L := by
  have hnew : ∀ rid, Issued run w.nextEvent rid → rid ≠ r.requestId := by
    rintro rid hissued rfl
    exact not_issued run w.nextEvent (hid ▸ hissued)
  have hwaiting : (waiting (todo ++ [Note.request r]) L).Perm (r.requestId :: waiting todo L) := by
    simp only [waiting, todoRequests, List.filterMap_append, List.append_assoc]
    exact List.perm_middle
  have hterminal : terminalIds (w.append (.request r) .done).1.lines = terminalIds w.lines := idsOf_unwritten rfl
  have hrequest : ∀ rid, rid ∈ requestIds (w.append (.request r) .done).1.lines → rid ∈ requestIds w.lines ∨ rid = r.requestId := by
    intro rid hrid
    exact (mem_idsOf_append hrid).imp_right fun hkind => (Option.some.inj hkind).symm
  have hterminals' : ∀ rid, .terminal rid ∉ todo ++ [Note.request r] := by
    intro rid hmem
    rcases List.mem_append.mp hmem with hmem | hmem
    · exact hterminals rid hmem
    · simp at hmem
  refine ⟨fun rid hrid => ?_, fun hnil => absurd hnil (by simp [RunLog.append]), ?_, fun rid hrid => absurd hrid (hterminals' rid), ?_, ?_⟩
  · rw [append_nextEvent]
    have hnumber : Issued run (w.nextEvent + 1) r.requestId := ⟨w.nextEvent, Nat.lt_succ_self _, hid⟩
    rw [hterminal, hwaiting.mem_iff, List.mem_cons] at hrid
    rcases hrid with hrid | hrid | rfl | hrid
    · rcases hrequest rid hrid with hrid | rfl
      · exact (h.issued rid (.inl hrid)).mono (Nat.le_succ _)
      · exact hnumber
    · exact (h.issued rid (.inr (.inl hrid))).mono (Nat.le_succ _)
    · exact hnumber
    · exact (h.issued rid (.inr (.inr hrid))).mono (Nat.le_succ _)
  · rw [hwaiting.nodup_iff, List.nodup_cons]
    exact ⟨fun hmem => hnew _ (h.issued _ (.inr (.inr hmem))) rfl, h.unique⟩
  · intro rid hrid
    rw [hterminal, if_neg (hterminals' rid)]
    rw [hwaiting.mem_iff, List.mem_cons] at hrid
    rcases hrid with rfl | hrid
    · exact List.count_eq_zero.mpr fun hmem => hnew _ (h.issued _ (.inr (.inl hmem))) rfl
    · rw [h.unanswered rid hrid, if_neg (hterminals rid)]
  · intro rid hrid
    rw [hterminal, hwaiting.mem_iff, List.mem_cons]
    rcases hrequest rid hrid with hrid | rfl
    · exact (h.answered rid hrid).imp_left .inr
    · exact .inl (.inl rfl)

/-- The note of a request answers it. -/
theorem Answering.noteAnswered {run : RunIdentity} {lines lines' : List Line} {next next' : Nat} {rest : List Note}
    {L L' : Ledger} {r : Request} (h : Answering run lines next (.request r :: rest) L) (hnext : next ≤ next')
    (hrequests : requestIds lines' = requestIds lines) (hterminals : terminalIds lines' = terminalIds lines ++ [r.requestId])
    (hempty : lines' ≠ []) (hpending : pendingIds L' = pendingIds L) : Answering run lines' next' rest L' := by
  obtain ⟨hgone, hunique⟩ := List.nodup_cons.mp (waiting_cons_request r rest L ▸ h.unique)
  have hwaiting : waiting rest L' = waiting rest L := by rw [waiting, hpending, waiting]
  have hnote : ∀ rid, .terminal rid ∉ rest := by
    intro rid hmem
    have hsingle := h.closing rid (List.mem_cons_of_mem _ hmem)
    rw [List.cons_eq_cons] at hsingle
    cases hsingle.1
  have hcount : ∀ rid, rid ≠ r.requestId → (terminalIds lines').count rid = (terminalIds lines).count rid := by
    intro rid hne
    rw [hterminals, List.count_append, List.count_singleton, if_neg (by simpa using hne.symm), Nat.add_zero]
  have hopen : (terminalIds lines).count r.requestId = 0 := by
    have hzero := h.unanswered r.requestId (List.mem_cons_self ..)
    rwa [if_neg] at hzero
    intro hmem
    rcases List.mem_cons.mp hmem with heq | hmem
    · cases heq
    · exact hnote _ hmem
  refine ⟨fun rid hrid => ?_, fun hnil => absurd hnil hempty, hwaiting ▸ hunique, fun rid hrid => absurd hrid (hnote rid), ?_, ?_⟩
  · rw [hrequests, hterminals, hwaiting, List.mem_append, List.mem_singleton] at hrid
    refine Issued.mono ?_ hnext
    rcases hrid with hrid | (hrid | rfl) | hrid
    · exact h.issued rid (.inl hrid)
    · exact h.issued rid (.inr (.inl hrid))
    · exact h.issued _ (.inr (.inr (List.mem_cons_self ..)))
    · exact h.issued rid (.inr (.inr (List.mem_cons_of_mem _ hrid)))
  · intro rid hrid
    rw [hwaiting] at hrid
    have hne : rid ≠ r.requestId := fun heq => hgone (heq ▸ hrid)
    rw [hcount rid hne, h.unanswered rid (List.mem_cons_of_mem _ hrid), if_neg (hnote rid), if_neg]
    intro hmem
    rcases List.mem_cons.mp hmem with heq | hmem
    · cases heq
    · exact hnote rid hmem
  · intro rid hrid
    rw [hrequests] at hrid
    rw [hwaiting]
    by_cases heq : rid = r.requestId
    · right
      rw [heq, hterminals, List.count_append, hopen, List.count_singleton_self]
    · rw [hcount rid heq]
      rcases h.answered rid hrid with hmem | hone
      · rcases List.mem_cons.mp hmem with rfl | hmem
        · exact absurd rfl heq
        · exact .inl hmem
      · exact .inr hone

/-- The terminal of a pending request is committed. -/
theorem Answering.closed {run : RunIdentity} {lines lines' : List Line} {next next' : Nat} {todo : List Note} {L : Ledger}
    {rid : Bytes} (h : Answering run lines next todo L) (hnext : next ≤ next') (hrequests : requestIds lines' = requestIds lines)
    (hterminals : terminalIds lines' = terminalIds lines ++ [rid]) (hempty : lines' ≠ []) (hpending : rid ∈ pendingIds L)
    (htodo : todo = [] ∨ todo = [.work rid]) : Answering run lines' next' [.terminal rid] L := by
  have hwaiting : waiting [.terminal rid] L = waiting todo L := by rcases htodo with rfl | rfl <;> rfl
  have hnote : ∀ rid', .terminal rid' ∉ todo := by
    intro rid'
    rcases htodo with rfl | rfl <;> simp
  have hmem : rid ∈ waiting todo L := List.mem_append_right _ hpending
  have hzero : ∀ rid' ∈ waiting todo L, (terminalIds lines).count rid' = 0 := by
    intro rid' hrid'
    rw [h.unanswered rid' hrid', if_neg (hnote rid')]
  refine ⟨fun rid' hrid' => ?_, fun hnil => absurd hnil hempty, hwaiting ▸ h.unique, ?_, ?_, ?_⟩
  · rw [hrequests, hterminals, hwaiting, List.mem_append, List.mem_singleton] at hrid'
    refine Issued.mono ?_ hnext
    rcases hrid' with hrid' | (hrid' | rfl) | hrid'
    · exact h.issued rid' (.inl hrid')
    · exact h.issued rid' (.inr (.inl hrid'))
    · exact h.issued _ (.inr (.inr hmem))
    · exact h.issued rid' (.inr (.inr hrid'))
  · intro rid' hrid'
    rw [List.mem_singleton] at hrid'
    rw [hrid']
  · intro rid' hrid'
    rw [hwaiting] at hrid'
    rw [hterminals, List.count_append, hzero rid' hrid', Nat.zero_add]
    by_cases heq : rid' = rid
    · rw [heq, List.count_singleton_self, if_pos (List.mem_singleton.mpr rfl)]
    · rw [List.count_singleton, if_neg (by simpa using fun h => heq h.symm), if_neg (by simpa using heq)]
  · intro rid' hrid'
    rw [hrequests] at hrid'
    rw [hwaiting]
    rcases h.answered rid' hrid' with hmem' | hone
    · exact .inl hmem'
    · right
      have hne : rid ≠ rid' := by
        rintro rfl
        rw [hzero _ hmem] at hone
        cases hone
      rw [hterminals, List.count_append, hone, List.count_singleton, if_neg (by simpa using hne)]

/-- The terminal is noted: its request waits no more. -/
theorem Answering.noted {run : RunIdentity} {lines : List Line} {next : Nat} {rest : List Note} {L : Ledger} {rid : Bytes}
    (h : Answering run lines next (.terminal rid :: rest) L) : Answering run lines next rest (noteTerminal L rid) := by
  have hrest : rest = [] := by
    have hsingle := h.closing rid (List.mem_cons_self ..)
    exact (List.cons_eq_cons.mp hsingle).2
  subst hrest
  have hunique : (pendingIds L).Nodup := h.unique
  have hsub : ∀ rid', rid' ∈ pendingIds (noteTerminal L rid) → rid' ∈ pendingIds L := fun rid' hrid' =>
    ((noteTerminal_sublist L rid).map _).subset hrid'
  refine ⟨fun rid' hrid' => ?_, fun hnil => ?_, noteTerminal_nodup hunique, nofun, ?_, ?_⟩
  · rcases hrid' with hrid' | hrid' | hrid'
    · exact h.issued rid' (.inl hrid')
    · exact h.issued rid' (.inr (.inl hrid'))
    · exact h.issued rid' (.inr (.inr (hsub rid' hrid')))
  · have hnone : pendingIds L = [] := h.empty hnil
    exact List.eq_nil_iff_forall_not_mem.mpr fun rid' hrid' => by simpa [hnone] using hsub rid' hrid'
  · intro rid' hrid'
    have hne : rid' ≠ rid := by
      rintro rfl
      exact noteTerminal_gone hunique hrid'
    rw [h.unanswered rid' (hsub rid' hrid'), if_neg (by simpa using hne)]
    simp
  · intro rid' hrid'
    by_cases heq : rid' = rid
    · right
      subst heq
      rcases h.answered rid' hrid' with hmem | hone
      · rw [h.unanswered rid' hmem, if_pos (List.mem_singleton.mpr rfl)]
      · exact hone
    · exact (h.answered rid' hrid').imp_left fun hmem => noteTerminal_mem hmem heq

/-! ## Runs -/

theorem Answering.emitted {run : RunIdentity} {w : RunLog} {rest : List Note} {L : Ledger} {r : Request} {t : Terminal}
    {fate : Fate} (h : Answering run w.lines w.nextEvent (.request r :: rest) L) (hfate : Lands w fate)
    (ht : t.requestId = r.requestId) :
    Answering run (emitTerminal w L t fate).1.lines (emitTerminal w L t fate).1.nextEvent rest (emitTerminal w L t fate).2.1 := by
  obtain ⟨hlog, hledger⟩ := emitTerminal_cases w L t fate
  have hfresh : r.requestId ∉ pendingIds L := by
    have hunique := (List.nodup_cons.mp (waiting_cons_request r rest L ▸ h.unique)).1
    exact fun hmem => hunique (List.mem_append_right _ hmem)
  rw [hlog]
  refine h.noteAnswered ?_ (idsOf_unwritten rfl) ?_ ?_ ?_
  · rw [append_nextEvent]
    exact Nat.le_succ _
  · refine (idsOf_landed hfate.1 hfate.2).trans ?_
    rw [terminalOf, ht]
    rfl
  · rcases hfate.2 with rfl | rfl <;> simp [RunLog.append]
  · rcases hledger with heq | heq
    · rw [heq]
    · rw [heq, ht, pendingIds, noteTerminal_absent hfresh, pendingIds]

theorem Answering.notedRequest {run : RunIdentity} {s : RunnerState} {rest : List Note} {r : Request} {fate : Fate}
    (h : Answering run s.log.lines s.log.nextEvent (.request r :: rest) s.ledger) (hok : NoteAnswers s r fate) :
    Answering run (noteRequest s.log s.ledger r fate).1.lines (noteRequest s.log s.ledger r fate).1.nextEvent rest
      (noteRequest s.log s.ledger r fate).2.1 := by
  have hgone := (List.nodup_cons.mp (waiting_cons_request r rest s.ledger ▸ h.unique)).1
  have hissued : Issued run s.log.nextEvent r.requestId := h.issued _ (.inr (.inr (List.mem_cons_self ..)))
  have hnote : ∀ rid, .terminal rid ∉ Note.request r :: rest := by
    intro rid hmem
    have hsingle := h.closing rid hmem
    rw [List.cons_eq_cons] at hsingle
    cases hsingle.1
  unfold NoteAnswers at hok
  unfold noteRequest
  cases hverdict : noteVerdict s.ledger r with
  | ignored =>
    -- a new request is not in the queue, and its id is not empty
    unfold noteVerdict at hverdict
    dsimp only at hverdict
    have hpending : s.ledger.isPending r.requestId = false := by
      rw [← Bool.not_eq_true, isPending_iff]
      exact fun hmem => hgone (List.mem_append_right _ hmem)
    rw [if_neg hissued.ne_nil, if_neg (by simp [hpending])] at hverdict
    split at hverdict
    · cases hverdict
    · split at hverdict
      · cases hverdict
      · split at hverdict
        · cases hverdict
        · split at hverdict <;> cases hverdict
  | rejected reason =>
    rw [hverdict] at hok
    exact h.emitted hok rfl
  | repeated prior =>
    rw [hverdict] at hok
    exact h.emitted hok (memoTerminal_requestId _ r prior)
  | overflow =>
    rw [hverdict] at hok
    exact absurd hok id
  | accepted =>
    refine h.moved ?_ hnote fun rid hmem => hnote rid (List.mem_cons_of_mem _ hmem)
    rw [waiting_cons_request, waiting, waiting, accept_ids, ← List.append_assoc]
    exact List.perm_append_singleton _ _

/-- A run that has not failed keeps account of every request. -/
structure Accounted (run : RunIdentity) (s : RunnerState) : Prop where
  answering : s.status ≠ .failed → Answering run s.log.lines s.log.nextEvent s.todo s.ledger
  finished : s.status = .done → waiting s.todo s.ledger = []

theorem closes_unbroken {run : RunIdentity} {s : RunnerState} {i : RunnerInput} {t : Terminal} {fate : Fate}
    (hc : Closes run s i t fate) (hok : Unbroken s i) : fate = .done → s.log.torn = false := by
  cases hc <;> exact hok

theorem step_accounted {run : RunIdentity} {s s' : RunnerState} {i : RunnerInput} (h : Accounted run s) (hok : Unbroken s i)
    (hstep : runnerStep run s i = some s') : Accounted run s' := by
  have hlive : s.status = .up → Answering run s.log.lines s.log.nextEvent s.todo s.ledger := fun hup => h.answering (by simp [hup])
  have hrunning : ∀ {q : Prop}, s.status = .up → s.status = .done → q := fun hup hdone => by rw [hup] at hdone; cases hdone
  cases step_effect hstep with
  | requested hup htodo =>
    exact ⟨fun _ => (hlive hup).requested rfl (requestsOnly_terminal htodo), fun hdone => hrunning hup hdone⟩
  | @requestFailed call fate hup _ hfate =>
    have hempty : s.todo = [] := hok.1 hfate
    refine ⟨fun _ => ?_, fun hdone => hrunning hup hdone⟩
    have hids : requestIds (s.log.append (.request (nextRequest run s call)) fate).1.lines = requestIds s.log.lines := by
      cases fate with
      | done => exact absurd rfl hfate
      | lost | torn => rfl
      | reported =>
        have htorn : s.log.torn = true := hok.2 rfl
        simp only [RunLog.append, RunLog.lineOf, htorn, if_true]
        exact idsOf_corrupt _ _
    rw [← hempty]
    refine (hlive hup).later hids (idsOf_unwritten rfl) append_nil ?_
    rw [append_nextEvent]
    exact Nat.le_succ _
  | refused hup =>
    have hempty : s.todo = [] := hok
    rw [← hempty]
    exact ⟨fun _ => hlive hup, fun hdone => hrunning hup hdone⟩
  | notedRequest hup htodo =>
    have hnote : NextAnswers s _ s.todo := hok
    rw [htodo] at hnote
    refine ⟨fun _ => Answering.notedRequest ?_ hnote, fun hdone => hrunning hup hdone⟩
    rw [← htodo]
    exact hlive hup
  | @notedStarted rid rest fate hup htodo =>
    have hanswering := hlive hup
    rw [htodo] at hanswering
    refine ⟨fun _ => hanswering.moved ?_ ?_ ?_, fun hdone => hrunning hup hdone⟩
    · rw [waiting, noteStarted_ids]
      exact List.Perm.refl _
    all_goals
      intro rid' hmem
      first
      | have hsingle := hanswering.closing rid' hmem
      | have hsingle := hanswering.closing rid' (List.mem_cons_of_mem _ hmem)
      rw [List.cons_eq_cons] at hsingle
      cases hsingle.1
  | notedTerminal hup htodo =>
    have hanswering := hlive hup
    rw [htodo] at hanswering
    exact ⟨fun _ => hanswering.noted, fun hdone => hrunning hup hdone⟩
  | other hup => exact ⟨fun _ => (hlive hup).append _ rfl rfl, fun hdone => hrunning hup hdone⟩
  | closed hup hc =>
    refine ⟨fun _ => (hlive hup).closed ?_ (idsOf_unwritten rfl) ?_ ?_ (closes_pending hc) (closes_todo hc),
      fun hdone => hrunning hup hdone⟩
    · exact Nat.le_succ _
    · exact idsOf_landed (closes_unbroken hc hok rfl) (.inl rfl)
    · simp [RunLog.append]
  | closeFailed => exact ⟨fun hup => absurd rfl hup, fun hdone => by cases hdone⟩
  | started hup htodo =>
    have hidle := hlive hup
    rw [htodo] at hidle
    refine ⟨fun _ => Answering.moved (hidle.append .done ?_ ?_) (List.Perm.refl _) (by simp) (by simp),
      fun hdone => hrunning hup hdone⟩
    all_goals rfl
  | startFailed => exact ⟨fun hup => absurd rfl hup, fun hdone => by cases hdone⟩
  | worked hl =>
    have hidle := hlive hl.up
    rw [hl.todo] at hidle
    refine ⟨fun _ => Answering.moved (hidle.append .done ?_ ?_) (List.Perm.refl _) (by simp) (by simp),
      fun hdone => hrunning hl.up hdone⟩
    all_goals rfl
  | workFailed hl => exact ⟨fun _ => (hlive hl.up).append _ rfl rfl, fun hdone => hrunning hl.up hdone⟩
  | finished hup htodo _ hpending hstatus =>
    refine ⟨fun _ => (hlive hup).append _ rfl rfl, fun _ => ?_⟩
    dsimp only
    rw [waiting, htodo, pendingIds, hpending]
    rfl
  | allocated hl => exact ⟨fun _ => hlive hl.up, fun hdone => hrunning hl.up hdone⟩
  | launched hl => exact ⟨fun _ => hlive hl.up, fun hdone => hrunning hl.up hdone⟩
  | delivered hl => exact ⟨fun _ => hlive hl.up, fun hdone => hrunning hl.up hdone⟩
  | retried hup hlines =>
    have hanswering := hlive hup
    have hnone : waiting s.todo s.ledger = [] := hanswering.empty hlines
    refine ⟨fun _ => ⟨fun rid hrid => ?_, hanswering.empty, hanswering.unique, hanswering.closing, hanswering.unanswered,
      hanswering.answered⟩, fun hdone => hrunning hup hdone⟩
    simp [hlines, hnone, idsOf] at hrid
  | crashed => exact absurd hok id
  | recovered => exact absurd hok id

/-- One call for each revision of the work. -/
def revisionCalls (count : Nat) : List RunnerInput :=
  (List.range count).map fun rev : Nat => .request { listCall with workRev := (rev : Int) } .done

/-- Every pending request is rejected, and the run ends. -/
def rejectAll (count : Nat) : List RunnerInput :=
  (List.replicate count [RunnerInput.reject (lit "unknown_action") .done, .note .done]).flatten ++ [RunnerInput.finishRun .done]

end Floofclaw.Guarantees.Answers
