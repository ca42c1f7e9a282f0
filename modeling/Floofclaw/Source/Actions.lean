import Floofclaw.Source.EventLog

/-!
# The action ledger

Model of the bookkeeping of `action_runner.c`: the queue of pending requests,
the two tables of completed ones, and what noting a request, a start or a
terminal does to them. The event log is decoded: a line is an event with its
number, or text that does not parse. How a write ends is decided by the disk.
-/

set_option autoImplicit false

namespace Floofclaw.Source.Actions
open Floofclaw.Lib Floofclaw.Source.Json Floofclaw.Source.EventLog

def rtMaxPendingActions : Nat := 16
def rtMaxCompletedActions : Nat := 32

/-- What an agent asks for. -/
structure Call where
  source : Bytes
  action : Bytes
  args : Bytes
  taskId : Bytes
  workRev : Int
  trigger : Bytes := []
  deriving DecidableEq

/-- A call under the id the runtime gave it. -/
structure Request where
  requestId : Bytes
  call : Call
  deriving DecidableEq

/-! ## Signatures -/

/-- FNV-1a, 64 bits. -/
def sigHashAdd (h : UInt64) (s : Bytes) : UInt64 := s.foldl (fun h c => (h ^^^ c.toUInt64) * 1099511628211) h

def hexDigit (d : Nat) : Byte := if d < 10 then UInt8.ofNat (48 + d) else UInt8.ofNat (87 + d)

/-- `%016llx`. -/
def hex16 (h : UInt64) : Bytes := (List.range 16).reverse.map fun i => hexDigit (h.toNat / 16 ^ i % 16)

def callHash (c : Call) : UInt64 :=
  let sep : Bytes := [31]
  let h := sigHashAdd (sigHashAdd 1469598103934665603 c.source) sep
  let h := sigHashAdd (sigHashAdd h c.action) sep
  let h := sigHashAdd (sigHashAdd h (if c.args = [] then lit "\x7b\x7d" else c.args)) sep
  let h := sigHashAdd (sigHashAdd h c.taskId) sep
  sigHashAdd h (decInt c.workRev)

def rtActionSignature (c : Call) : Bytes :=
  clip rtMed (c.source ++ lit ":" ++ c.action ++ lit ":" ++ hex16 (callHash c))

/-! ## The log -/

inductive TerminalKind
  | succeeded | failed | rejected
  deriving DecidableEq, Repr

structure Terminal where
  kind : TerminalKind
  requestId : Bytes
  action : Bytes
  reason : Bytes
  result : Bytes
  error : Bytes
  /-- The payload carries the fragment of a delivery. -/
  delivery : Bool := false
  deriving DecidableEq

inductive Body
  | request (r : Request)
  | started (requestId : Bytes)
  | terminal (t : Terminal)
  /-- `work_completed` or `work_blocked` with the id of its request. -/
  | work (blocked : Bool) (requestId : Bytes)
  /-- The error of a full queue. -/
  | overflow (requestId : Bytes)
  /-- An event that no table keeps; its payload may carry an object named `delivery`. -/
  | other (delivery : Bool)
  deriving DecidableEq

inductive Line
  | event (number : Nat) (body : Body)
  | corrupt
  deriving DecidableEq

structure RunLog where
  lines : List Line := []
  /-- The file ends in a line without its newline. -/
  torn : Bool := false
  nextEvent : Nat := 1
  deriving DecidableEq

/-- How a write ends: done, nothing written, part of it written, or written and reported as an error. -/
inductive Fate
  | done | lost | torn | reported
  deriving DecidableEq, Repr

/-- What the line becomes in the file: behind a torn line it is part of that. -/
def RunLog.lineOf (w : RunLog) (body : Body) : Line := if w.torn then .corrupt else .event w.nextEvent body

/-- `append_event_unchecked`: the counter moves whatever becomes of the line. -/
def RunLog.append (w : RunLog) (body : Body) (fate : Fate) : RunLog × Bool :=
  match fate with
  | .done => ({ lines := w.lines ++ [w.lineOf body], torn := false, nextEvent := w.nextEvent + 1 }, true)
  | .reported => ({ lines := w.lines ++ [w.lineOf body], torn := false, nextEvent := w.nextEvent + 1 }, false)
  | .torn => ({ w with torn := true, nextEvent := w.nextEvent + 1 }, false)
  | .lost => ({ w with nextEvent := w.nextEvent + 1 }, false)

/-- `memo_read_outcome_by_rid`: the last outcome of a request. Payloads are below the copy's limit, except that an
error of 4096 octets or more is dropped. -/
def memoReadOutcomeByRid (lines : List Line) (prior : Bytes) : Option Terminal :=
  lines.foldl (fun found line =>
    match line with
    | .event _ (.terminal t) =>
      if t.kind ≠ .rejected ∧ t.requestId = prior then
        some { t with
          result := if t.result.length < rtXl then t.result else lit "\x7b\x7d"
          error := if t.error.length < rtLarge then t.error else lit "null" }
      else found
    | _ => found) none

/-! ## The ledger -/

structure Pending where
  request : Request
  sig : Bytes
  started : Bool := false
  deriving DecidableEq

structure Ledger where
  pending : List Pending := []
  completedIds : List Bytes := []
  /-- Signature and request id of the first completed call of each kind. -/
  completedSigs : List (Bytes × Bytes) := []
  deriving DecidableEq

def Ledger.isPending (L : Ledger) (rid : Bytes) : Bool := L.pending.any fun p => p.request.requestId = rid

def Ledger.find (L : Ledger) (rid : Bytes) : Option Pending := L.pending.find? fun p => p.request.requestId = rid

/-- `rt_action_terminal_add`: a full table records nothing. -/
def terminalAdd (ids : List Bytes) (rid : Bytes) : List Bytes :=
  if rid = [] ∨ rid ∈ ids ∨ ids.length ≥ rtMaxCompletedActions then ids else ids ++ [rid]

/-- `rt_action_completed_sig_add`. -/
def completedSigAdd (sigs : List (Bytes × Bytes)) (sig rid : Bytes) : List (Bytes × Bytes) :=
  if sig = [] ∨ sig ∈ sigs.map Prod.fst ∨ sigs.length ≥ rtMaxCompletedActions then sigs else sigs ++ [(sig, rid)]

def noteTerminal (L : Ledger) (rid : Bytes) : Ledger :=
  { pending := L.pending.eraseP fun p => p.request.requestId = rid
    completedIds := terminalAdd L.completedIds rid
    completedSigs :=
      match L.find rid with
      | none => L.completedSigs
      | some p => completedSigAdd L.completedSigs p.sig p.request.requestId }

def setStarted (started : Bool) (rid : Bytes) : List Pending → List Pending
  | [] => []
  | p :: rest =>
    if p.request.requestId = rid then { p with started := started } :: rest else p :: setStarted started rid rest

def noteStarted (L : Ledger) (rid : Bytes) : Ledger := { L with pending := setStarted true rid L.pending }

inductive Verdict
  | ignored
  | rejected (reason : Bytes)
  /-- An equivalent call is completed, under this request. -/
  | repeated (prior : Bytes)
  | overflow
  | accepted
  deriving DecidableEq

/-- The decisions of `rt_action_runner_note_request`, in its order. -/
def noteVerdict (L : Ledger) (r : Request) : Verdict :=
  let sig := rtActionSignature r.call
  if r.requestId = [] then .ignored
  else if L.isPending r.requestId then .ignored
  else if r.requestId ∈ L.completedIds then .rejected (lit "duplicate_terminal_request_id")
  else if sig ≠ [] ∧ sig ∈ L.pending.map Pending.sig then .rejected (lit "duplicate_equivalent_action_call")
  else
    match (if sig = [] then none else L.completedSigs.find? fun entry => entry.1 = sig) with
    | some entry => .repeated entry.2
    | none => if L.pending.length ≥ rtMaxPendingActions then .overflow else .accepted

def accept (L : Ledger) (r : Request) : Ledger :=
  { L with pending := L.pending ++ [{ request := r, sig := rtActionSignature r.call }] }

def rejection (r : Request) (reason : Bytes) : Terminal :=
  { kind := .rejected, requestId := r.requestId, action := r.call.action, reason := reason
    result := lit "\x7b\x7d", error := lit "null" }

/-- The terminal that answers a repeated call: the recorded outcome under the new id, or a rejection when there is none. -/
def memoTerminal (lines : List Line) (r : Request) (prior : Bytes) : Terminal :=
  match memoReadOutcomeByRid lines prior with
  | some t =>
    { kind := t.kind, requestId := r.requestId, action := r.call.action, reason := lit "memoized_duplicate"
      result := t.result, error := t.error }
  | none => rejection r (lit "duplicate_equivalent_action_call")

/-- The terminal is written and, when that is reported done, noted. -/
def emitTerminal (w : RunLog) (L : Ledger) (t : Terminal) (fate : Fate) : RunLog × Ledger × Bool :=
  match w.append (.terminal t) fate with
  | (w', true) => (w', noteTerminal L t.requestId, true)
  | (w', false) => (w', L, false)

/-- `rt_action_runner_note_request`; the flag is failure. -/
def noteRequest (w : RunLog) (L : Ledger) (r : Request) (fate : Fate) : RunLog × Ledger × Bool :=
  match noteVerdict L r with
  | .ignored => (w, L, true)
  | .rejected reason => emitTerminal w L (rejection r reason) fate
  | .repeated prior => emitTerminal w L (memoTerminal w.lines r prior) fate
  | .overflow => ((w.append (.overflow r.requestId) fate).1, L, true)
  | .accepted => (w, accept L r, true)

/-! ## Replay -/

/-- `replay_action_record`. The disk is asked by event number. -/
def replayActionRecord (disk : Nat → Fate) (w : RunLog) (L : Ledger) : Body → RunLog × Ledger × Bool
  | .request r => noteRequest w L r (disk w.nextEvent)
  | .started rid => (w, noteStarted L rid, true)
  | .terminal t => (w, noteTerminal L t.requestId, true)
  | .work _ rid => (w, noteTerminal L rid, true)
  | .overflow _ | .other _ => (w, L, true)

def carriesDelivery : Body → Bool
  | .terminal t => t.delivery
  | .other delivery => delivery
  | _ => false

structure Replayed where
  log : RunLog
  ledger : Ledger := {}
  nextDelivery : Nat := 1
  ok : Bool := true
  deriving DecidableEq

/-- One line of the text that was read; what is written meanwhile goes to the end of the file. -/
def replayLine (disk : Nat → Fate) (st : Replayed) : Line → Replayed
  | .corrupt => { st with ok := false }
  | .event number body =>
    if !st.ok then st
    else
      let w := { st.log with nextEvent := if number ≥ st.log.nextEvent then number + 1 else st.log.nextEvent }
      let (w, L, ok) := replayActionRecord disk w st.ledger body
      { log := w, ledger := L, ok := ok
        nextDelivery := if carriesDelivery body then st.nextDelivery + 1 else st.nextDelivery }

/-- `replay_run_log`: the torn tail is cut, then every line is noted. -/
def replayRunLog (disk : Nat → Fate) (w : RunLog) : Replayed :=
  w.lines.foldl (replayLine disk) { log := { w with torn := false, nextEvent := 1 } }

end Floofclaw.Source.Actions
