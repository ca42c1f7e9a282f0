import Floofclaw.Guarantees.Replay
import Floofclaw.Guarantees.RequestIds

/-!
# Requests over a whole run

What holds of request ids in every state of a run, crashes and recoveries
included, with no condition on its steps. A request line has an id no earlier
line speaks of; whatever the process keeps belongs to a number it has given
away; and a request whose terminal is in the log is in no queue.
-/

set_option autoImplicit false

namespace Floofclaw.Guarantees.RunIds
open Floofclaw.Lib Floofclaw.Source.Json Floofclaw.Source.Actions Floofclaw.Source.Runner
open Floofclaw.Guarantees.RunnerSteps Floofclaw.Guarantees.Replay Floofclaw.Guarantees.Ledger
open Floofclaw.Guarantees.RequestIds

/-! ## Ids -/

def bodyIds : Body → List Bytes
  | .request r => [r.requestId]
  | .started rid | .work _ rid => [rid]
  | .terminal t => [t.requestId]
  | .overflow _ | .other _ => []

def lineIds : Line → List Bytes
  | .corrupt => []
  | .event _ body => bodyIds body

def mentioned (lines : List Line) : List Bytes := lines.flatMap lineIds

theorem mentioned_append (xs ys : List Line) : mentioned (xs ++ ys) = mentioned xs ++ mentioned ys := List.flatMap_append

theorem mentioned_snoc (xs : List Line) (line : Line) : mentioned (xs ++ [line]) = mentioned xs ++ lineIds line := by
  rw [mentioned_append]
  exact congrArg _ (List.append_nil _)

theorem terminalIds_mentioned {lines : List Line} {rid : Bytes} (h : rid ∈ terminalIds lines) : rid ∈ mentioned lines := by
  obtain ⟨number, body, hline, hkind⟩ := mem_idsOf.mp h
  refine List.mem_flatMap.mpr ⟨_, hline, ?_⟩
  cases body with
  | terminal t => exact List.mem_singleton.mpr (Option.some.inj hkind).symm
  | request | started | work | overflow | other => cases hkind

def noteId : Note → Bytes
  | .request r => r.requestId
  | .started rid | .terminal rid | .work rid => rid

/-- The requests the process keeps something about. -/
def Held (todo : List Note) (L : Ledger) (rid : Bytes) : Prop :=
  rid ∈ todo.map noteId ∨ rid ∈ pendingIds L ∨ rid ∈ L.completedIds

/-! ## The log -/

def Follows (a b : Line) : Prop := ∀ number r, b = .event number (.request r) → r.requestId ∉ lineIds a

structure LogSound (run : RunIdentity) (lines : List Line) : Prop where
  named : ∀ number r, .event number (.request r) ∈ lines → r.requestId = requestIdText run.runId number
  known : .corrupt ∉ lines → ∀ rid ∈ mentioned lines, rid ∈ requestIds lines
  ordered : lines.Pairwise Follows

theorem LogSound.corrupt {run : RunIdentity} {lines : List Line} (h : LogSound run lines) :
    LogSound run (lines ++ [Line.corrupt]) := by
  refine ⟨fun number r hmem => ?_, fun hwhole => absurd (by simp) hwhole, ?_⟩
  · simp only [List.mem_append, List.mem_singleton, reduceCtorEq, or_false] at hmem
    exact h.named number r hmem
  · rw [List.pairwise_append]
    exact ⟨h.ordered, List.pairwise_singleton _ _, fun a _ b hb number r heq => by simp_all⟩

/-- A line that speaks of a request the log knows. -/
theorem LogSound.event {run : RunIdentity} {lines : List Line} {number : Nat} {body : Body} (h : LogSound run lines)
    (hbody : requestOf body = none) (hids : .corrupt ∉ lines → ∀ rid ∈ bodyIds body, rid ∈ requestIds lines) :
    LogSound run (lines ++ [Line.event number body]) := by
  have hno : ∀ r, body ≠ .request r := by
    rintro r rfl
    cases hbody
  have hrequests : requestIds (lines ++ [Line.event number body]) = requestIds lines := by
    refine (idsOf_snoc _ _ _ _).trans ?_
    rw [hbody]
    exact List.append_nil _
  refine ⟨fun n r hmem => ?_, fun hwhole rid hrid => ?_, ?_⟩
  · rcases List.mem_append.mp hmem with hmem | hmem
    · exact h.named n r hmem
    · rw [List.mem_singleton, Line.event.injEq] at hmem
      exact absurd hmem.2.symm (hno r)
  · have hwhole' : .corrupt ∉ lines := fun hmem => hwhole (List.mem_append_left _ hmem)
    rw [hrequests]
    rw [mentioned_snoc, List.mem_append] at hrid
    rcases hrid with hrid | hrid
    · exact h.known hwhole' rid hrid
    · exact hids hwhole' rid hrid
  · rw [List.pairwise_append]
    refine ⟨h.ordered, List.pairwise_singleton _ _, fun a _ b hb n r heq => ?_⟩
    rw [List.mem_singleton.mp hb, Line.event.injEq] at heq
    exact absurd heq.2 (hno r)

/-- A new request. -/
theorem LogSound.request {run : RunIdentity} {lines : List Line} {number : Nat} {r : Request} (h : LogSound run lines)
    (hid : r.requestId = requestIdText run.runId number) (hnew : r.requestId ∉ mentioned lines) :
    LogSound run (lines ++ [Line.event number (.request r)]) := by
  have hrequests : requestIds (lines ++ [Line.event number (.request r)]) = requestIds lines ++ [r.requestId] := idsOf_snoc _ _ _ _
  refine ⟨fun n r' hmem => ?_, fun hwhole rid hrid => ?_, ?_⟩
  · rcases List.mem_append.mp hmem with hmem | hmem
    · exact h.named n r' hmem
    · rw [List.mem_singleton, Line.event.injEq, Body.request.injEq] at hmem
      rw [hmem.1, hmem.2]
      exact hid
  · have hwhole' : .corrupt ∉ lines := fun hmem => hwhole (List.mem_append_left _ hmem)
    rw [hrequests, List.mem_append]
    rw [mentioned_snoc, List.mem_append] at hrid
    exact hrid.imp_left (h.known hwhole' rid)
  · rw [List.pairwise_append]
    refine ⟨h.ordered, List.pairwise_singleton _ _, fun a ha b hb n r' heq hmem => ?_⟩
    rw [List.mem_singleton.mp hb, Line.event.injEq, Body.request.injEq] at heq
    rw [← heq.2] at hmem
    exact hnew (List.mem_flatMap.mpr ⟨a, ha, hmem⟩)

theorem LogSound.append {run : RunIdentity} {w : RunLog} {body : Body} {fate : Fate} (h : LogSound run w.lines)
    (hbody : requestOf body = none) (hids : .corrupt ∉ w.lines → ∀ rid ∈ bodyIds body, rid ∈ requestIds w.lines) :
    LogSound run (w.append body fate).1.lines := by
  have hline : LogSound run (w.lines ++ [w.lineOf body]) := by
    unfold RunLog.lineOf
    split
    · exact h.corrupt
    · exact h.event hbody hids
  cases fate with
  | done | reported => exact hline
  | lost | torn => exact h

theorem LogSound.appendRequest {run : RunIdentity} {w : RunLog} {r : Request} {fate : Fate} (h : LogSound run w.lines)
    (hid : r.requestId = requestIdText run.runId w.nextEvent) (hnew : r.requestId ∉ mentioned w.lines) :
    LogSound run (w.append (.request r) fate).1.lines := by
  have hline : LogSound run (w.lines ++ [w.lineOf (.request r)]) := by
    unfold RunLog.lineOf
    split
    · exact h.corrupt
    · exact h.request hid hnew
  cases fate with
  | done | reported => exact hline
  | lost | torn => exact h

/-! ## The process -/

structure LiveSound (run : RunIdentity) (lines : List Line) (next : Nat) (todo : List Note) (L : Ledger) : Prop where
  below : ∀ n ∈ numbers lines, n < next
  issued : ∀ rid, rid ∈ mentioned lines ∨ Held todo L rid → Issued run next rid
  backed : .corrupt ∉ lines → ∀ rid, Held todo L rid → rid ∈ requestIds lines
  unique : (waiting todo L).Nodup
  fresh : ∀ rid ∈ todoRequests todo, rid ∉ L.completedIds
  closing : ∀ rid, .terminal rid ∈ todo → todo = [.terminal rid]

/-- A request that waits has no terminal in the log, unless that is about to be noted. -/
def Unanswered (lines : List Line) (todo : List Note) (L : Ledger) : Prop :=
  ∀ rid ∈ waiting todo L, rid ∈ terminalIds lines → .terminal rid ∈ todo

theorem append_cases (w : RunLog) (body : Body) (fate : Fate) :
    (w.append body fate).1.lines = w.lines ∨
      ((fate = .done ∨ fate = .reported) ∧ w.torn = true ∧ (w.append body fate).1.lines = w.lines ++ [Line.corrupt]) ∨
      ((fate = .done ∨ fate = .reported) ∧ w.torn = false ∧
        (w.append body fate).1.lines = w.lines ++ [Line.event w.nextEvent body]) := by
  cases htorn : w.torn <;> cases fate <;> simp [RunLog.append, RunLog.lineOf, htorn]

/-- A write, seen from the process: the counter moves past whatever the line speaks of. -/
theorem LiveSound.write {run : RunIdentity} {w : RunLog} {todo : List Note} {L : Ledger} {body : Body} {fate : Fate}
    (h : LiveSound run w.lines w.nextEvent todo L) (hids : ∀ rid ∈ bodyIds body, Issued run (w.nextEvent + 1) rid) :
    LiveSound run (w.append body fate).1.lines (w.append body fate).1.nextEvent todo L := by
  have hle : w.nextEvent ≤ w.nextEvent + 1 := Nat.le_succ _
  have hold : ∀ rid, rid ∈ mentioned w.lines ∨ Held todo L rid → Issued run (w.nextEvent + 1) rid := fun rid hrid =>
    (h.issued rid hrid).mono hle
  rw [append_nextEvent]
  rcases append_cases w body fate with heq | ⟨-, -, heq⟩ | ⟨-, -, heq⟩
  · rw [heq]
    exact ⟨fun n hn => (h.below n hn).trans_le hle, hold, h.backed, h.unique, h.fresh, h.closing⟩
  · rw [heq]
    refine ⟨fun n hn => ?_, fun rid hrid => ?_, fun hwhole => absurd (by simp) hwhole, h.unique, h.fresh, h.closing⟩
    · rw [numbers_append] at hn
      rcases List.mem_append.mp hn with hn | hn
      · exact (h.below n hn).trans_le hle
      · cases hn
    · rw [mentioned_snoc, List.mem_append] at hrid
      rcases hrid with (hrid | hrid) | hrid
      · exact hold rid (.inl hrid)
      · cases hrid
      · exact hold rid (.inr hrid)
  · rw [heq]
    refine ⟨fun n hn => ?_, fun rid hrid => ?_, fun hwhole rid hheld => ?_, h.unique, h.fresh, h.closing⟩
    · rw [numbers_append] at hn
      rcases List.mem_append.mp hn with hn | hn
      · exact (h.below n hn).trans_le hle
      · obtain rfl : n = w.nextEvent := List.mem_singleton.mp hn
        exact Nat.lt_succ_self _
    · rw [mentioned_snoc, List.mem_append] at hrid
      rcases hrid with (hrid | hrid) | hrid
      · exact hold rid (.inl hrid)
      · exact hids rid hrid
      · exact hold rid (.inr hrid)
    · rw [requestIds, idsOf_append, List.mem_append]
      exact .inl (h.backed (fun hmem => hwhole (List.mem_append_left _ hmem)) rid hheld)

/-- The process lets go of some requests, or keeps them elsewhere. -/
theorem LiveSound.moved {run : RunIdentity} {lines : List Line} {next : Nat} {todo todo' : List Note} {L L' : Ledger}
    (h : LiveSound run lines next todo L) (hheld : ∀ rid, Held todo' L' rid → Held todo L rid)
    (hunique : (waiting todo' L').Nodup) (hfresh : ∀ rid ∈ todoRequests todo', rid ∉ L'.completedIds)
    (hclosing : ∀ rid, .terminal rid ∈ todo' → todo' = [.terminal rid]) : LiveSound run lines next todo' L' :=
  ⟨h.below, fun rid hrid => h.issued rid (hrid.imp_right (hheld rid)), fun hwhole rid hrid => h.backed hwhole rid (hheld rid hrid),
    hunique, hfresh, hclosing⟩

/-- No note is left. -/
theorem LiveSound.forget {run : RunIdentity} {lines : List Line} {next : Nat} {todo : List Note} {L : Ledger}
    (h : LiveSound run lines next todo L) : LiveSound run lines next [] L := by
  refine h.moved (fun rid hrid => ?_) ?_ nofun nofun
  · rcases hrid with hrid | hrid
    · cases hrid
    · exact .inr hrid
  · exact h.unique.sublist (List.sublist_append_right _ _)

/-- One note of a request that is held already takes the place of all others. -/
theorem LiveSound.note {run : RunIdentity} {lines : List Line} {next : Nat} {todo : List Note} {L : Ledger} {note : Note}
    (h : LiveSound run lines next todo L) (hnote : ∀ r, note ≠ .request r) (hheld : Held todo L (noteId note)) :
    LiveSound run lines next [note] L := by
  have hnone : todoRequests [note] = [] := by
    cases note with
    | request r => exact absurd rfl (hnote r)
    | started | terminal | work => rfl
  refine h.moved (fun rid hrid => ?_) ?_ ?_ ?_
  · rcases hrid with hrid | hrid
    · rw [List.map_cons, List.map_nil, List.mem_singleton] at hrid
      exact hrid ▸ hheld
    · exact .inr hrid
  · rw [waiting, hnone]
    exact h.unique.sublist (List.sublist_append_right _ _)
  · rw [hnone]
    exact nofun
  · intro rid hrid
    rw [List.mem_singleton.mp hrid]

theorem held_pending {todo : List Note} {L : Ledger} {rid : Bytes} (h : rid ∈ pendingIds L) : Held todo L rid := .inr (.inl h)

/-- A request is committed under a new id. -/
theorem LiveSound.request {run : RunIdentity} {w : RunLog} {todo : List Note} {L : Ledger} {r : Request}
    (h : LiveSound run w.lines w.nextEvent todo L) (hid : r.requestId = requestIdText run.runId w.nextEvent)
    (htodo : requestsOnly todo = true) :
    LiveSound run (w.append (.request r) .done).1.lines (w.append (.request r) .done).1.nextEvent (todo ++ [Note.request r]) L := by
  have hnumber : Issued run (w.nextEvent + 1) r.requestId := ⟨w.nextEvent, Nat.lt_succ_self _, hid⟩
  have hnew : ¬ Held todo L r.requestId := fun hheld => not_issued run w.nextEvent (hid ▸ h.issued _ (.inr hheld))
  have hwritten : LiveSound run (w.append (.request r) .done).1.lines (w.append (.request r) .done).1.nextEvent todo L := by
    refine h.write fun rid hrid => ?_
    rw [List.mem_singleton.mp hrid]
    exact hnumber
  have hheld : ∀ rid, Held (todo ++ [Note.request r]) L rid → Held todo L rid ∨ rid = r.requestId := by
    intro rid hrid
    rcases hrid with hrid | hrid
    · rw [List.map_append, List.mem_append] at hrid
      rcases hrid with hrid | hrid
      · exact .inl (.inl hrid)
      · exact .inr (List.mem_singleton.mp hrid)
    · exact .inl (.inr hrid)
  have hrequests : todoRequests (todo ++ [Note.request r]) = todoRequests todo ++ [r.requestId] := List.filterMap_append
  refine ⟨hwritten.below, fun rid hrid => ?_, fun hwhole rid hrid => ?_, ?_, ?_, ?_⟩
  · rcases hrid with hrid | hrid
    · exact hwritten.issued rid (.inl hrid)
    · rcases hheld rid hrid with hrid | rfl
      · exact hwritten.issued rid (.inr hrid)
      · exact hnumber
  · rcases hheld rid hrid with hrid | rfl
    · exact hwritten.backed hwhole rid hrid
    · rcases append_cases w (.request r) .done with heq | ⟨-, -, heq⟩ | ⟨-, htorn, -⟩
      · exact absurd heq (by simp [RunLog.append])
      · exact absurd (heq ▸ List.mem_append_right _ (List.mem_singleton.mpr rfl)) hwhole
      · have hids : requestIds (w.append (.request r) .done).1.lines = requestIds w.lines ++ [r.requestId] :=
          idsOf_landed htorn (.inl rfl)
        rw [hids]
        exact List.mem_append_right _ (List.mem_singleton.mpr rfl)
  · rw [waiting, hrequests, List.append_assoc, List.singleton_append, List.perm_middle.nodup_iff, List.nodup_cons]
    refine ⟨fun hmem => hnew ?_, h.unique⟩
    rcases List.mem_append.mp hmem with hmem | hmem
    · refine .inl ?_
      obtain ⟨note, hnote, hkind⟩ := List.mem_filterMap.mp hmem
      cases note with
      | request r' => exact List.mem_map.mpr ⟨_, hnote, Option.some.inj hkind⟩
      | started | terminal | work => cases hkind
    · exact .inr (.inl hmem)
  · rw [hrequests]
    intro rid hrid
    rcases List.mem_append.mp hrid with hrid | hrid
    · exact h.fresh rid hrid
    · rw [List.mem_singleton.mp hrid]
      exact fun hmem => hnew (.inr (.inr hmem))
  · intro rid hrid
    rcases List.mem_append.mp hrid with hrid | hrid
    · exact absurd hrid (requestsOnly_terminal htodo rid)
    · simp at hrid

/-! ## Notes -/

theorem mem_terminalAdd {ids : List Bytes} {rid rid' : Bytes} (h : rid' ∈ terminalAdd ids rid) : rid' ∈ ids ∨ rid' = rid := by
  unfold terminalAdd at h
  split at h
  · exact .inl h
  · exact (List.mem_append.mp h).imp_right List.mem_singleton.mp

theorem pendingIds_noteTerminal {L : Ledger} {rid rid' : Bytes} (h : rid' ∈ pendingIds (noteTerminal L rid)) :
    rid' ∈ pendingIds L := ((noteTerminal_sublist L rid).map _).subset h

theorem LiveSound.notedTerminal {run : RunIdentity} {lines : List Line} {next : Nat} {rest : List Note} {L : Ledger} {rid : Bytes}
    (h : LiveSound run lines next (.terminal rid :: rest) L) : LiveSound run lines next rest (noteTerminal L rid) := by
  have hrest : rest = [] := (List.cons_eq_cons.mp (h.closing rid (List.mem_cons_self ..))).2
  subst hrest
  refine h.moved (fun rid' hrid' => ?_) (noteTerminal_nodup h.unique) nofun nofun
  rcases hrid' with hrid' | hrid' | hrid'
  · cases hrid'
  · exact .inr (.inl (pendingIds_noteTerminal hrid'))
  · rcases mem_terminalAdd hrid' with hrid' | rfl
    · exact .inr (.inr hrid')
    · exact .inl (List.mem_singleton.mpr rfl)

theorem LiveSound.notedStarted {run : RunIdentity} {lines : List Line} {next : Nat} {rest : List Note} {L : Ledger} {rid : Bytes}
    (h : LiveSound run lines next (.started rid :: rest) L) : LiveSound run lines next rest (noteStarted L rid) := by
  refine h.moved (fun rid' hrid' => ?_) ?_ h.fresh fun rid' hrid' => ?_
  · rcases hrid' with hrid' | hrid' | hrid'
    · exact .inl (List.mem_cons_of_mem _ hrid')
    · exact .inr (.inl (noteStarted_ids L rid ▸ hrid'))
    · exact .inr (.inr hrid')
  · rw [waiting, noteStarted_ids]
    exact h.unique
  · have hsingle := h.closing rid' (List.mem_cons_of_mem _ hrid')
    rw [List.cons_eq_cons] at hsingle
    cases hsingle.1

section NotedRequest

variable {run : RunIdentity} {lines : List Line} {next : Nat} {rest : List Note} {L : Ledger} {r : Request}

theorem LiveSound.head_new (h : LiveSound run lines next (.request r :: rest) L) : r.requestId ∉ waiting rest L :=
  (List.nodup_cons.mp (waiting_cons_request r rest L ▸ h.unique)).1

theorem LiveSound.no_terminal (h : LiveSound run lines next (.request r :: rest) L) (rid : Bytes) : .terminal rid ∉ rest := by
  intro hmem
  have hsingle := h.closing rid (List.mem_cons_of_mem _ hmem)
  rw [List.cons_eq_cons] at hsingle
  cases hsingle.1

/-- The request is off the list, whatever becomes of it. -/
theorem LiveSound.dropped (h : LiveSound run lines next (.request r :: rest) L) : LiveSound run lines next rest L := by
  refine h.moved (fun rid hrid => ?_) ?_ (fun rid hrid => h.fresh rid (List.mem_cons_of_mem _ hrid))
    fun rid hrid => absurd hrid (h.no_terminal rid)
  · exact hrid.imp_left (List.mem_cons_of_mem _)
  · exact (List.nodup_cons.mp (waiting_cons_request r rest L ▸ h.unique)).2

theorem LiveSound.accepted (h : LiveSound run lines next (.request r :: rest) L) : LiveSound run lines next rest (accept L r) := by
  refine h.moved (fun rid hrid => ?_) ?_ (fun rid hrid => h.fresh rid (List.mem_cons_of_mem _ hrid))
    fun rid hrid => absurd hrid (h.no_terminal rid)
  · rcases hrid with hrid | hrid | hrid
    · exact .inl (List.mem_cons_of_mem _ hrid)
    · rw [accept_ids, List.mem_append, List.mem_singleton] at hrid
      rcases hrid with hrid | rfl
      · exact .inr (.inl hrid)
      · exact .inl (List.mem_cons_self ..)
    · exact .inr (.inr hrid)
  · have hperm : (waiting rest (accept L r)).Perm (waiting (.request r :: rest) L) := by
      rw [waiting_cons_request, waiting, waiting, accept_ids, ← List.append_assoc]
      exact List.perm_append_singleton _ _
    exact hperm.nodup_iff.mpr h.unique

/-- The request is answered by a terminal that is noted. -/
theorem LiveSound.answered (h : LiveSound run lines next (.request r :: rest) L) :
    LiveSound run lines next rest (noteTerminal L r.requestId) := by
  have hpending : pendingIds (noteTerminal L r.requestId) = pendingIds L := by
    rw [pendingIds, noteTerminal_absent fun hmem => h.head_new (List.mem_append_right _ hmem), pendingIds]
  refine h.moved (fun rid hrid => ?_) ?_ (fun rid hrid hmem => ?_) fun rid hrid => absurd hrid (h.no_terminal rid)
  · rcases hrid with hrid | hrid | hrid
    · exact .inl (List.mem_cons_of_mem _ hrid)
    · exact .inr (.inl (hpending ▸ hrid))
    · rcases mem_terminalAdd hrid with hrid | rfl
      · exact .inr (.inr hrid)
      · exact .inl (List.mem_cons_self ..)
  · rw [waiting, hpending]
    exact h.dropped.unique
  · rcases mem_terminalAdd hmem with hmem | rfl
    · exact h.fresh rid (List.mem_cons_of_mem _ hrid) hmem
    · exact h.head_new (List.mem_append_left _ hrid)

end NotedRequest

/-- What noting a request does: it leaves the list and is accepted, answered by a terminal, or neither. -/
theorem noteRequest_cases (w : RunLog) (L : Ledger) (r : Request) (fate : Fate) :
    (noteRequest w L r fate = (w, accept L r, true) ∧ noteVerdict L r = .accepted) ∨
      ((noteRequest w L r fate).1 = w ∧ (noteRequest w L r fate).2.1 = L ∧ noteVerdict L r = .ignored) ∨
      ((noteRequest w L r fate).1 = (w.append (.overflow r.requestId) fate).1 ∧ (noteRequest w L r fate).2.1 = L) ∨
      ∃ t : Terminal, t.requestId = r.requestId ∧ (noteRequest w L r fate).1 = (w.append (.terminal t) fate).1 ∧
        ((noteRequest w L r fate).2.1 = L ∨ (noteRequest w L r fate).2.1 = noteTerminal L r.requestId) := by
  unfold noteRequest
  cases hverdict : noteVerdict L r with
  | ignored => exact .inr (.inl ⟨rfl, rfl, rfl⟩)
  | rejected reason => exact .inr (.inr (.inr ⟨rejection r reason, rfl, emitTerminal_cases w L (rejection r reason) fate⟩))
  | repeated prior =>
    have hid : (memoTerminal w.lines r prior).requestId = r.requestId := memoTerminal_requestId w.lines r prior
    obtain ⟨hlog, hledger⟩ := emitTerminal_cases w L (memoTerminal w.lines r prior) fate
    rw [hid] at hledger
    exact .inr (.inr (.inr ⟨_, hid, hlog, hledger⟩))
  | overflow => exact .inr (.inr (.inl ⟨rfl, rfl⟩))
  | accepted => exact .inl ⟨rfl, rfl⟩

/-! ## Steps -/

structure Sound (run : RunIdentity) (s : RunnerState) : Prop where
  log : LogSound run s.log.lines
  live : s.status ≠ .down → LiveSound run s.log.lines s.log.nextEvent s.todo s.ledger
  unanswered : s.status = .up ∨ s.status = .done → Unanswered s.log.lines s.todo s.ledger

/-- A line about requests the process holds. -/
theorem Sound.write {run : RunIdentity} {s : RunnerState} (h : Sound run s) (hup : s.status = .up) (body : Body) (fate : Fate)
    (hbody : requestOf body = none) (hids : ∀ rid ∈ bodyIds body, Held s.todo s.ledger rid) :
    LogSound run (s.log.append body fate).1.lines ∧
      LiveSound run (s.log.append body fate).1.lines (s.log.append body fate).1.nextEvent s.todo s.ledger := by
  have hlive := h.live (by simp [hup])
  refine ⟨h.log.append hbody fun hwhole rid hrid => hlive.backed hwhole rid (hids rid hrid), ?_⟩
  exact hlive.write fun rid hrid => (hlive.issued rid (.inr (hids rid hrid))).mono (Nat.le_succ _)

theorem Unanswered.write {w : RunLog} {todo : List Note} {L : Ledger} {body : Body} {fate : Fate} (h : Unanswered w.lines todo L)
    (hbody : terminalOf body = none) : Unanswered (w.append body fate).1.lines todo L := by
  have hids : terminalIds (w.append body fate).1.lines = terminalIds w.lines := idsOf_unwritten hbody
  unfold Unanswered
  rw [hids]
  exact h

/-- Nothing that waits is answered while no terminal is to be noted. -/
theorem Unanswered.none {lines : List Line} {todo : List Note} {L : Ledger} {rid : Bytes} (h : Unanswered lines todo L)
    (htodo : ∀ rid, .terminal rid ∉ todo) (hrid : rid ∈ waiting todo L) : rid ∉ terminalIds lines := fun hmem =>
  htodo rid (h rid hrid hmem)

theorem Unanswered.of_none {lines : List Line} {todo : List Note} {L : Ledger}
    (h : ∀ rid ∈ waiting todo L, rid ∉ terminalIds lines) : Unanswered lines todo L := fun rid hrid hmem =>
  absurd hmem (h rid hrid)

theorem Sound.notedRequest {run : RunIdentity} {s : RunnerState} {r : Request} {rest : List Note} {fate : Fate}
    (h : Sound run s) (hup : s.status = .up) (htodo : s.todo = .request r :: rest) :
    Sound run { s with
      log := (noteRequest s.log s.ledger r fate).1, ledger := (noteRequest s.log s.ledger r fate).2.1, todo := rest } := by
  have hlive := h.live (by simp [hup])
  have hopen := h.unanswered (.inl hup)
  have hheld : Held s.todo s.ledger r.requestId := .inl (htodo ▸ List.mem_cons_self ..)
  rw [htodo] at hlive hopen
  have hnote : ∀ rid, .terminal rid ∉ Note.request r :: rest := by
    intro rid hmem
    rcases List.mem_cons.mp hmem with heq | hmem
    · cases heq
    · exact hlive.no_terminal rid hmem
  have hnone : ∀ rid ∈ waiting rest s.ledger, rid ∉ terminalIds s.log.lines := fun rid hrid =>
    hopen.none hnote (List.mem_cons_of_mem _ hrid)
  rcases noteRequest_cases s.log s.ledger r fate with ⟨heq, -⟩ | ⟨hlog, hledger, -⟩ | ⟨hlog, hledger⟩ | ⟨t, ht, hlog, hledger⟩
  · rw [heq]
    refine ⟨h.log, fun _ => hlive.accepted, fun _ => .of_none fun rid hrid => ?_⟩
    apply hopen.none hnote
    have hperm : (waiting rest (accept s.ledger r)).Perm (waiting (.request r :: rest) s.ledger) := by
      rw [waiting_cons_request, waiting, waiting, accept_ids, ← List.append_assoc]
      exact List.perm_append_singleton _ _
    exact hperm.mem_iff.mp hrid
  · rw [hlog, hledger]
    exact ⟨h.log, fun _ => hlive.dropped, fun _ => .of_none hnone⟩
  · obtain ⟨hsound, hwritten⟩ := h.write hup (.overflow r.requestId) fate rfl nofun
    rw [htodo] at hwritten
    rw [hlog, hledger]
    exact ⟨hsound, fun _ => hwritten.dropped, fun _ => Unanswered.write (.of_none hnone) rfl⟩
  · obtain ⟨hsound, hwritten⟩ := h.write hup (.terminal t) fate rfl fun rid hrid => by
      rw [List.mem_singleton.mp hrid, ht]
      exact hheld
    rw [htodo] at hwritten
    have hids : ∀ rid ∈ waiting rest s.ledger, rid ∉ terminalIds (s.log.append (.terminal t) fate).1.lines := by
      intro rid hrid hmem
      rcases mem_idsOf_append hmem with hmem | hkind
      · exact hnone rid hrid hmem
      · rw [← Option.some.inj hkind, ht] at hrid
        exact hlive.head_new hrid
    have hanswered := hwritten.answered
    have hpending : waiting rest (noteTerminal s.ledger r.requestId) = waiting rest s.ledger := by
      have habsent : r.requestId ∉ pendingIds s.ledger := fun hmem => hlive.head_new (List.mem_append_right _ hmem)
      rw [waiting, pendingIds, noteTerminal_absent habsent, waiting, pendingIds]
    rcases hledger with hledger | hledger
    · rw [hlog, hledger]
      exact ⟨hsound, fun _ => hwritten.dropped, fun _ => .of_none hids⟩
    · rw [hlog, hledger]
      refine ⟨hsound, fun _ => hanswered, fun _ => .of_none ?_⟩
      dsimp only
      rw [hpending]
      exact hids

end Floofclaw.Guarantees.RunIds
