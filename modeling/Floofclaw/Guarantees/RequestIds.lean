import Floofclaw.Guarantees.Ledger
import Floofclaw.Guarantees.RunnerSteps

/-!
# Request ids in the log

Which requests the lines of a log speak of. The id of a request carries the
number of its event, so a request under a number not yet given is a new one.
-/

set_option autoImplicit false

namespace Floofclaw.Guarantees.RequestIds
open Floofclaw.Lib Floofclaw.Source.Json Floofclaw.Source.Actions Floofclaw.Source.Runner
open Floofclaw.Guarantees.Ledger Floofclaw.Guarantees.RunnerSteps

/-! ## Lines by kind -/

def requestOf : Body → Option Bytes
  | .request r => some r.requestId
  | _ => none

def terminalOf : Body → Option Bytes
  | .terminal t => some t.requestId
  | _ => none

def workOf : Body → Option Bytes
  | .work _ rid => some rid
  | _ => none

def idsOf (kind : Body → Option Bytes) (lines : List Line) : List Bytes := lines.filterMap fun line =>
  match line with
  | .event _ body => kind body
  | .corrupt => none

theorem idsOf_append (kind : Body → Option Bytes) (xs ys : List Line) : idsOf kind (xs ++ ys) = idsOf kind xs ++ idsOf kind ys :=
  List.filterMap_append

theorem idsOf_snoc (kind : Body → Option Bytes) (xs : List Line) (number : Nat) (body : Body) :
    idsOf kind (xs ++ [Line.event number body]) = idsOf kind xs ++ (kind body).toList := by
  rw [idsOf_append]
  cases h : kind body <;> simp [idsOf, h]

theorem idsOf_corrupt (kind : Body → Option Bytes) (xs : List Line) : idsOf kind (xs ++ [Line.corrupt]) = idsOf kind xs := by
  rw [idsOf_append]
  exact List.append_nil _

theorem mem_idsOf {kind : Body → Option Bytes} {lines : List Line} {rid : Bytes} :
    rid ∈ idsOf kind lines ↔ ∃ number body, .event number body ∈ lines ∧ kind body = some rid := by
  unfold idsOf
  rw [List.mem_filterMap]
  constructor
  · rintro ⟨line, hline, hkind⟩
    cases line with
    | corrupt => cases hkind
    | event number body => exact ⟨number, body, hline, hkind⟩
  · rintro ⟨number, body, hline, hkind⟩
    exact ⟨.event number body, hline, hkind⟩

abbrev requestIds : List Line → List Bytes := idsOf requestOf
abbrev terminalIds : List Line → List Bytes := idsOf terminalOf
abbrev workIds : List Line → List Bytes := idsOf workOf

/-- A line of another kind leaves the ids of this one. -/
theorem idsOf_unwritten {kind : Body → Option Bytes} {w : RunLog} {body : Body} {fate : Fate} (h : kind body = none) :
    idsOf kind (w.append body fate).1.lines = idsOf kind w.lines := by
  have hline : idsOf kind (w.lines ++ [w.lineOf body]) = idsOf kind w.lines := by
    unfold RunLog.lineOf
    split
    · exact idsOf_corrupt kind w.lines
    · rw [idsOf_snoc, h]
      exact List.append_nil _
  cases fate with
  | done | reported => exact hline
  | lost | torn => rfl

/-- A write that lands whole adds its id. -/
theorem idsOf_landed {kind : Body → Option Bytes} {w : RunLog} {body : Body} {fate : Fate} (htorn : w.torn = false)
    (hfate : fate = .done ∨ fate = .reported) :
    idsOf kind (w.append body fate).1.lines = idsOf kind w.lines ++ (kind body).toList := by
  have hline : w.lineOf body = .event w.nextEvent body := by simp [RunLog.lineOf, htorn]
  rcases hfate with rfl | rfl <;> simp only [RunLog.append, hline, idsOf_snoc]

theorem mem_idsOf_append {kind : Body → Option Bytes} {w : RunLog} {body : Body} {fate : Fate} {rid : Bytes}
    (h : rid ∈ idsOf kind (w.append body fate).1.lines) : rid ∈ idsOf kind w.lines ∨ kind body = some rid := by
  by_cases hlanded : w.torn = false ∧ (fate = .done ∨ fate = .reported)
  · rw [idsOf_landed hlanded.1 hlanded.2, List.mem_append, Option.mem_toList] at h
    exact h
  · left
    cases fate with
    | lost | torn => exact h
    | done | reported =>
      have htorn : w.torn = true := by simpa using hlanded
      simp only [RunLog.append, RunLog.lineOf, htorn, if_true, idsOf_corrupt] at h
      exact h

theorem append_nextEvent (w : RunLog) (body : Body) (fate : Fate) : (w.append body fate).1.nextEvent = w.nextEvent + 1 := by
  cases fate <;> rfl

theorem append_nil {w : RunLog} {body : Body} {fate : Fate} (h : (w.append body fate).1.lines = []) : w.lines = [] := by
  cases fate with
  | done | reported => exact absurd h (by simp [RunLog.append])
  | lost | torn => exact h

theorem peekNext_mem {L : Ledger} {p : Pending} (h : peekNext L = some p) : p ∈ L.pending ∧ p.started = false :=
  ⟨List.mem_of_find?_eq_some h, by simpa using List.find?_some h⟩

/-- Only a pending request is closed. -/
theorem closes_pending {run : RunIdentity} {s : RunnerState} {i : RunnerInput} {t : Terminal} {fate : Fate}
    (hc : Closes run s i t fate) : t.requestId ∈ pendingIds s.ledger := by
  cases hc with
  | reject _ _ hp => exact List.mem_map.mpr ⟨_, (peekNext_mem hp).1, rfl⟩
  | message _ _ hp => exact List.mem_map.mpr ⟨_, (find_mem hp).1, (find_mem hp).2⟩
  | action _ _ hp => exact List.mem_map.mpr ⟨_, (find_mem hp).1, (find_mem hp).2⟩

/-! ## Requests that wait -/

def todoRequests (todo : List Note) : List Bytes := todo.filterMap fun note =>
  match note with
  | .request r => some r.requestId
  | _ => none

/-- The requests without an answer. -/
def waiting (todo : List Note) (L : Ledger) : List Bytes := todoRequests todo ++ pendingIds L

theorem waiting_cons_request (r : Request) (rest : List Note) (L : Ledger) :
    waiting (.request r :: rest) L = r.requestId :: waiting rest L := rfl

theorem requestsOnly_terminal {todo : List Note} (h : requestsOnly todo = true) (rid : Bytes) : .terminal rid ∉ todo := by
  intro hmem
  unfold requestsOnly at h
  exact absurd (List.all_eq_true.mp h _ hmem) (by simp)

/-- The terminal of a note is written in any case, and noted when that is reported done. -/
theorem emitTerminal_cases (w : RunLog) (L : Ledger) (t : Terminal) (fate : Fate) :
    (emitTerminal w L t fate).1 = (w.append (.terminal t) fate).1 ∧
      ((emitTerminal w L t fate).2.1 = L ∨ (emitTerminal w L t fate).2.1 = noteTerminal L t.requestId) := by
  unfold emitTerminal
  split
  · rename_i w' hw
    exact ⟨by rw [hw], .inr rfl⟩
  · rename_i w' hw
    exact ⟨by rw [hw], .inl rfl⟩

theorem memoTerminal_requestId (lines : List Line) (r : Request) (prior : Bytes) :
    (memoTerminal lines r prior).requestId = r.requestId := by
  unfold memoTerminal
  split <;> rfl

/-! ## Numbers in ids -/

theorem requestIdText_inj {runId : Bytes} {n m : Nat} (h : requestIdText runId n = requestIdText runId m) : n = m := by
  have hnumeral : decPadded 6 n = decPadded 6 m := List.append_cancel_left h
  rw [← decValue_decPadded 6 n, hnumeral, decValue_decPadded]

theorem requestIdText_ne_nil (runId : Bytes) (n : Nat) : requestIdText runId n ≠ [] := by
  intro h
  have hlength := congrArg List.length h
  simp [requestIdText, lit] at hlength

/-- The id belongs to a number that is given away. -/
def Issued (run : RunIdentity) (next : Nat) (rid : Bytes) : Prop := ∃ n, n < next ∧ rid = requestIdText run.runId n

theorem Issued.mono {run : RunIdentity} {next next' : Nat} {rid : Bytes} (h : Issued run next rid) (hle : next ≤ next') :
    Issued run next' rid := by
  obtain ⟨n, hn, rfl⟩ := h
  exact ⟨n, hn.trans_le hle, rfl⟩

theorem not_issued (run : RunIdentity) (next : Nat) : ¬ Issued run next (requestIdText run.runId next) := by
  rintro ⟨n, hn, heq⟩
  exact absurd (requestIdText_inj heq) (by omega)

theorem Issued.ne_nil {run : RunIdentity} {next : Nat} {rid : Bytes} (h : Issued run next rid) : rid ≠ [] := by
  obtain ⟨n, -, rfl⟩ := h
  exact requestIdText_ne_nil _ _

end Floofclaw.Guarantees.RequestIds
