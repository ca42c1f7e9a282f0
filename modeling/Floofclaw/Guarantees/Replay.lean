import Floofclaw.Guarantees.RunnerSteps

/-!
# Replay

What `replay_run_log` makes of a log. A line is quiet when noting it writes
nothing; a quiet log is read and left alone, and the ledger it leaves is the
one its lines give when they are noted one after the other.
-/

set_option autoImplicit false

namespace Floofclaw.Guarantees.Replay
open Floofclaw.Lib Floofclaw.Source.Json Floofclaw.Source.Actions Floofclaw.Source.Runner

/-! ## Quiet lines -/

/-- Noting the request writes nothing. -/
def quietRequest (L : Ledger) (r : Request) : Bool := noteVerdict L r = .accepted || noteVerdict L r = .ignored

def quietBody (L : Ledger) : Body → Bool
  | .request r => quietRequest L r
  | _ => true

/-- What a line leaves of the ledger when its note writes nothing. -/
def noteBody (L : Ledger) : Body → Ledger
  | .request r => if noteVerdict L r = .accepted then accept L r else L
  | .started rid => noteStarted L rid
  | .terminal t => noteTerminal L t.requestId
  | .work _ rid => noteTerminal L rid
  | .overflow _ | .other _ => L

def noteLine (L : Ledger) : Line → Ledger
  | .corrupt => L
  | .event _ body => noteBody L body

def quietLine (L : Ledger) : Line → Bool
  | .corrupt => false
  | .event _ body => quietBody L body

def quietFrom (L : Ledger) : List Line → Bool
  | [] => true
  | line :: rest => quietLine L line && quietFrom (noteLine L line) rest

theorem quietFrom_append (L : Ledger) (xs ys : List Line) :
    quietFrom L (xs ++ ys) = (quietFrom L xs && quietFrom (xs.foldl noteLine L) ys) := by
  induction xs generalizing L with
  | nil => simp [quietFrom]
  | cons x xs ih =>
    rw [List.cons_append, quietFrom, quietFrom, ih, List.foldl_cons, Bool.and_assoc]

/-- The counter after a line. -/
def counted (next : Nat) : Line → Nat
  | .corrupt => next
  | .event number _ => if number ≥ next then number + 1 else next

def deliveriesIn : Line → Nat
  | .corrupt => 0
  | .event _ body => if carriesDelivery body then 1 else 0

theorem replayActionRecord_quiet {disk : Nat → Fate} {w : RunLog} {L : Ledger} {body : Body} (h : quietBody L body = true) :
    replayActionRecord disk w L body = (w, noteBody L body, true) := by
  cases body with
  | request r =>
    rw [quietBody, quietRequest, Bool.or_eq_true, decide_eq_true_eq, decide_eq_true_eq] at h
    unfold replayActionRecord noteRequest noteBody
    dsimp only
    rcases h with h | h
    · rw [h, if_pos rfl]
    · rw [h, if_neg (by simp)]
  | started | terminal | work | overflow | other => rfl

/-- An event is noted with the counter past its own number. -/
theorem replayLine_event {disk : Nat → Fate} {st : Replayed} {number : Nat} {body : Body} (hok : st.ok = true) :
    replayLine disk st (.event number body) =
      let noted := replayActionRecord disk { st.log with nextEvent := counted st.log.nextEvent (.event number body) } st.ledger body
      { log := noted.1, ledger := noted.2.1, ok := noted.2.2
        nextDelivery := st.nextDelivery + deliveriesIn (.event number body) } := by
  unfold replayLine
  dsimp only
  rw [if_neg (by simp [hok])]
  simp only [counted, deliveriesIn]
  by_cases hdelivery : carriesDelivery body = true
  · rw [if_pos hdelivery, if_pos hdelivery]
  · rw [if_neg hdelivery, if_neg hdelivery]
    rfl

theorem replayLine_quiet {disk : Nat → Fate} {st : Replayed} {line : Line} (hok : st.ok = true)
    (h : quietLine st.ledger line = true) :
    replayLine disk st line =
      { log := { st.log with nextEvent := counted st.log.nextEvent line }, ledger := noteLine st.ledger line
        nextDelivery := st.nextDelivery + deliveriesIn line, ok := true } := by
  cases line with
  | corrupt => cases h
  | event number body =>
    have hquiet : quietBody st.ledger body = true := h
    rw [replayLine_event hok, replayActionRecord_quiet hquiet]
    rfl

theorem replay_quiet {disk : Nat → Fate} {st : Replayed} {lines : List Line} (hok : st.ok = true)
    (h : quietFrom st.ledger lines = true) :
    lines.foldl (replayLine disk) st =
      { log := { st.log with nextEvent := lines.foldl counted st.log.nextEvent }, ledger := lines.foldl noteLine st.ledger
        nextDelivery := lines.foldl (fun n line => n + deliveriesIn line) st.nextDelivery, ok := true } := by
  induction lines generalizing st with
  | nil => rw [List.foldl_nil, List.foldl_nil, List.foldl_nil, List.foldl_nil, ← hok]
  | cons line rest ih =>
    rw [quietFrom, Bool.and_eq_true] at h
    rw [List.foldl_cons, replayLine_quiet hok h.1, ih rfl h.2]
    rfl

/-! ## Numbers -/

def numbers (lines : List Line) : List Nat := lines.filterMap fun line =>
  match line with
  | .event number _ => some number
  | .corrupt => none

theorem numbers_append (xs ys : List Line) : numbers (xs ++ ys) = numbers xs ++ numbers ys := List.filterMap_append

theorem counted_ge (next : Nat) (line : Line) : next ≤ counted next line := by
  cases line with
  | corrupt => exact le_rfl
  | event number body =>
    rw [counted]
    split <;> omega

theorem foldl_counted_ge (next : Nat) (lines : List Line) : next ≤ lines.foldl counted next := by
  induction lines generalizing next with
  | nil => exact le_rfl
  | cons line rest ih => exact (counted_ge next line).trans (ih _)

/-- The counter passes every number it has seen. -/
theorem lt_foldl_counted {next n : Nat} {lines : List Line} (h : n ∈ numbers lines) : n < lines.foldl counted next := by
  induction lines generalizing next with
  | nil => cases h
  | cons line rest ih =>
    rw [List.foldl_cons]
    cases line with
    | corrupt => exact ih h
    | event number body =>
      rcases List.mem_cons.mp (show n ∈ number :: numbers rest from h) with rfl | h
      · have hseen : n < counted next (.event n body) := by
          rw [counted]
          split <;> omega
        exact hseen.trans_le (foldl_counted_ge _ rest)
      · exact ih h

end Floofclaw.Guarantees.Replay
