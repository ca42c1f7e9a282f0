import Floofclaw.Source.WorkSteps
import Mathlib.Data.List.Nodup

/-!
# What an event does to the work ledger

An event asks one thing of the ledger, whatever the ledger holds. What the
ledger does with it is one of six things: nothing, a root revision, a revision
of the controller with the step it carries over, a selection, the record of a
late result, or a report written on a step. Records are found by their keys, and
a full array gives up one record for a new one.
-/

set_option autoImplicit false

namespace Floofclaw.Guarantees.LedgerSteps
open Floofclaw.Lib Floofclaw.Source.Json Floofclaw.Source.TaskState Floofclaw.Source.TaskEvents Floofclaw.Source.WorkSteps
open Floofclaw.Source.WorkLedger

/-! ## Keys -/

def stepKey (s : WorkStep) : Bytes × Int × Bytes := (s.taskId, s.workRev, s.requestId)

def revisionKey (r : WorkRevision) : Bytes × Int := (r.taskId, r.workRev)

theorem isStep_iff {id rid : Bytes} {rev : Int} {s : WorkStep} : isStep id rev rid s = true ↔ stepKey s = (id, rev, rid) := by
  simp [isStep, stepKey]
  tauto

theorem isRevision_iff {id : Bytes} {rev : Int} {r : WorkRevision} : isRevision id rev r = true ↔ revisionKey r = (id, rev) := by
  simp [isRevision, revisionKey]
  tauto

variable {store : WorkStore} {id rid : Bytes} {rev : Int}

theorem stepIndex_eq : stepIndex store id rev rid = store.items.find? (isStep id rev rid) := rfl

theorem revisionIndex_eq : revisionIndex store id rev = store.revisions.find? (isRevision id rev) := rfl

theorem stepIndex_some {x : WorkStep} (h : stepIndex store id rev rid = some x) :
    x ∈ store.items ∧ stepKey x = (id, rev, rid) :=
  ⟨List.mem_of_find?_eq_some h, isStep_iff.mp (List.find?_some h)⟩

theorem stepIndex_none : stepIndex store id rev rid = none ↔ (id, rev, rid) ∉ store.items.map stepKey := by
  constructor
  · intro h hmem
    obtain ⟨x, hx, hkey⟩ := List.mem_map.mp hmem
    exact List.find?_eq_none.mp h x hx (isStep_iff.mpr hkey)
  · intro h
    refine List.find?_eq_none.mpr fun x hx his => h ?_
    exact List.mem_map.mpr ⟨x, hx, isStep_iff.mp his⟩

theorem revisionIndex_some {r : WorkRevision} (h : revisionIndex store id rev = some r) :
    r ∈ store.revisions ∧ revisionKey r = (id, rev) :=
  ⟨List.mem_of_find?_eq_some h, isRevision_iff.mp (List.find?_some h)⟩

theorem revisionIndex_none : revisionIndex store id rev = none ↔ (id, rev) ∉ store.revisions.map revisionKey := by
  constructor
  · intro h hmem
    obtain ⟨x, hx, hkey⟩ := List.mem_map.mp hmem
    exact List.find?_eq_none.mp h x hx (isRevision_iff.mpr hkey)
  · intro h
    refine List.find?_eq_none.mpr fun x hx his => h ?_
    exact List.mem_map.mpr ⟨x, hx, isRevision_iff.mp his⟩

theorem revisionIndex_rewritten {s s' : WorkStore} {g : WorkRevision → WorkRevision} (hg : ∀ r, revisionKey (g r) = revisionKey r)
    {id' : Bytes} {rev' : Int} (hs' : s'.revisions = modifyFirst (isRevision id' rev') g s.revisions) (id : Bytes) (rev : Int) :
    revisionIndex s' id rev = if (id', rev') = (id, rev) then (revisionIndex s id rev).map g else revisionIndex s id rev := by
  rw [revisionIndex_eq, hs']
  exact find?_rewritten (p := fun k : Bytes × Int => isRevision k.1 k.2) (fun _ _ => isRevision_iff) (k := (id', rev'))
    (fun r _ => hg r) (id, rev) _

theorem stepIndex_rewritten {s s' : WorkStore} {g : WorkStep → WorkStep} {id' rid' : Bytes} {rev' : Int}
    (hg : ∀ x, stepKey x = (id', rev', rid') → stepKey (g x) = stepKey x)
    (hs' : s'.items = modifyFirst (isStep id' rev' rid') g s.items) (id : Bytes) (rev : Int) (rid : Bytes) :
    stepIndex s' id rev rid =
      if (id', rev', rid') = (id, rev, rid) then (stepIndex s id rev rid).map g else stepIndex s id rev rid := by
  rw [stepIndex_eq, hs']
  exact find?_rewritten (p := fun k : Bytes × Int × Bytes => isStep k.1 k.2.1 k.2.2) (fun _ _ => isStep_iff)
    (k := (id', rev', rid')) hg (id, rev, rid) _

/-! ## Room -/

theorem addRevision_gained {rows : List TaskItem} {r : WorkRevision} {store' : WorkStore}
    (h : addRevision rows store r = some store') :
    store'.items = store.items ∧ (store.revisions.length ≤ workRevisionMaxItems →
      Gained workRevisionMaxItems store.revisions r store'.revisions) := by
  rw [addRevision] at h
  split at h
  · rename_i hroom
    cases h
    exact ⟨rfl, fun _ => .append hroom r⟩
  · rename_i hfull
    obtain ⟨i, hi, heq⟩ := Option.map_eq_some_iff.mp h
    cases heq
    exact ⟨rfl, fun hcap => .evict hfull hcap hi r⟩

theorem addStep_gained {env : LedgerEnv} {rows : List TaskItem} {x : WorkStep} {store' : WorkStore}
    (h : addStep env rows store x = some store') :
    store'.revisions = store.revisions ∧ (store.items.length ≤ workStepMaxItems →
      Gained workStepMaxItems store.items x store'.items) := by
  rw [addStep] at h
  split at h
  · rename_i hroom
    cases h
    exact ⟨rfl, fun _ => .append hroom x⟩
  · rename_i hfull
    obtain ⟨i, hi, heq⟩ := Option.map_eq_some_iff.mp h
    cases heq
    exact ⟨rfl, fun hcap => .evict hfull hcap hi x⟩

/-! ## What an event asks -/

/-- The request of an event, read off its text alone. -/
inductive Ask
  | refused
  | ignored
  | root (contextId taskId : Bytes) (workRev : Int)
  | child (contextId taskId : Bytes) (workRev : Int) (payload : JsonRef)
  | select (f : StepFields) (args : Bytes)
  | report (f : StepFields) (payload : JsonRef)

/-- A revision that a controller update bears. -/
def byController (type : Bytes) (payload : JsonRef) : Bool :=
  type = lit "task_updated" && stringField payload (lit "revision_origin") rtSmall [] = lit "controller"

def taskAsk (e : LedgerEvent) (payload : JsonRef) : Ask :=
  match jsonRefObjectGetString payload (lit "task_id") rtSmall with
  | none | some [] => .refused
  | some taskId =>
    match revisionBorne e.type payload with
    | none => .ignored
    | some workRev =>
      if workRev ≤ 0 then .refused
      else if byController e.type payload then .child (stepFields e.runContext payload).contextId taskId workRev payload
      else .root (stepFields e.runContext payload).contextId taskId workRev

def askOf (e : LedgerEvent) : Ask :=
  if !rtWorkStateIsEventType e.type || e.eventId = [] then .refused
  else
    match jsonRefTopObject e.payloadJson with
    | none => .refused
    | some payload =>
      if isTaskEvent e.type then taskAsk e payload
      else if notForLedger e.type (stepFields e.runContext payload) then .ignored
      else if e.type = lit "action_request" then .select (stepFields e.runContext payload) (valueDetail payload (lit "args"))
      else .report (stepFields e.runContext payload) payload

/-- The event of a root revision meets the ledger. -/
def openRoot (w : World) (store : WorkStore) (contextId taskId : Bytes) (workRev : Int) : WorkStore × Bool :=
  match revisionIndex store taskId workRev with
  | some r => (store, r.contextId = contextId && (r.parentWorkRev = 0 && r.lineageRootRev = r.workRev))
  | none =>
    match addRevision w.rows store (rootRevision contextId taskId workRev) with
    | none => (store, false)
    | some store => (store, true)

/-- The event of a controller revision meets the ledger. -/
def openChild (w : World) (store : WorkStore) (contextId taskId : Bytes) (workRev : Int) (payload : JsonRef) :
    WorkStore × Bool :=
  match revisionIndex store taskId workRev with
  | some r => (store, sameRevision r contextId true payload)
  | none => carryStep w store (childRevision w store contextId taskId workRev payload)

/-- What the ledger does with a request. -/
def answer (w : World) (store : WorkStore) (e : LedgerEvent) : Ask → WorkStore × Bool
  | .refused => (store, false)
  | .ignored => (store, true)
  | .root contextId taskId workRev => openRoot w store contextId taskId workRev
  | .child contextId taskId workRev payload => openChild w store contextId taskId workRev payload
  | .select f args => selectStep w store f args e.eventId
  | .report f payload => reportStep w store e.type e.eventId payload e.payloadJson f

theorem reviseInPlace_asked (w : World) (store : WorkStore) (e : LedgerEvent) (payload : JsonRef) :
    reviseInPlace w store e.runContext e.type payload = answer w store e (taskAsk e payload) := by
  unfold reviseInPlace taskAsk
  rcases jsonRefObjectGetString payload (lit "task_id") rtSmall with _ | _ | ⟨c, taskId⟩
  · rfl
  · rfl
  · cases revisionBorne e.type payload with
    | none => rfl
    | some workRev =>
      by_cases hpos : workRev ≤ 0
      · simp only [hpos, if_true]
        rfl
      · by_cases hby : byController e.type payload = true
        · have hby' := hby
          unfold byController at hby'
          cases hfound : revisionIndex store (c :: taskId) workRev <;>
            simp only [hpos, if_false, hby, if_true, hby', answer, openChild, hfound]
        · have hby' := hby
          unfold byController at hby'
          cases hfound : revisionIndex store (c :: taskId) workRev with
          | some r => simp only [hpos, if_false, hby, hby', answer, openRoot, sameRevision, Bool.false_eq_true, hfound]
          | none =>
            cases hadd : addRevision w.rows store (rootRevision (stepFields e.runContext payload).contextId (c :: taskId) workRev)
              <;> simp only [hpos, if_false, hby, hby', answer, openRoot, Bool.false_eq_true, hfound, hadd]

/-- The ledger answers what the event asks. -/
theorem applyToStore_asked (w : World) (store : WorkStore) (e : LedgerEvent) :
    applyToStore w store e = answer w store e (askOf e) := by
  unfold applyToStore askOf
  by_cases hbad : (!rtWorkStateIsEventType e.type || decide (e.eventId = [])) = true
  · rw [if_pos hbad, if_pos hbad]
    rfl
  · rw [if_neg hbad, if_neg hbad]
    cases htop : jsonRefTopObject e.payloadJson with
    | none => rfl
    | some payload =>
      dsimp only
      by_cases htask : isTaskEvent e.type = true
      · rw [if_pos htask, if_pos htask, reviseInPlace_asked]
      · rw [if_neg htask, if_neg htask]
        by_cases hnot : notForLedger e.type (stepFields e.runContext payload) = true
        · rw [if_pos hnot, if_pos hnot]
          rfl
        · rw [if_neg hnot, if_neg hnot]
          by_cases hsel : e.type = lit "action_request"
          · rw [if_pos hsel, if_pos hsel]
            rfl
          · rw [if_neg hsel, if_neg hsel]
            rfl

/-- What the text of an event says, by the request it makes. -/
def Says (e : LedgerEvent) : Ask → Prop
  | .refused | .ignored => True
  | .root _ _ _ => ∃ payload, jsonRefTopObject e.payloadJson = some payload ∧ byController e.type payload = false
  | .child _ _ _ payload => jsonRefTopObject e.payloadJson = some payload ∧ byController e.type payload = true
  | .select f _ => e.type = lit "action_request" ∧ e.eventId ≠ [] ∧ notForLedger e.type f = false ∧
      ∃ payload, jsonRefTopObject e.payloadJson = some payload ∧ f = stepFields e.runContext payload
  | .report f payload => e.type ≠ lit "action_request" ∧ e.eventId ≠ [] ∧ notForLedger e.type f = false ∧
      jsonRefTopObject e.payloadJson = some payload ∧ f = stepFields e.runContext payload

theorem taskAsk_says {e : LedgerEvent} {payload : JsonRef} (htop : jsonRefTopObject e.payloadJson = some payload) :
    Says e (taskAsk e payload) := by
  unfold taskAsk
  split
  · trivial
  · trivial
  · cases revisionBorne e.type payload with
    | none => trivial
    | some workRev =>
      dsimp only
      split
      · trivial
      · split
        · rename_i hby
          exact ⟨htop, hby⟩
        · rename_i hby
          exact ⟨payload, htop, by simpa using hby⟩

theorem askOf_says (e : LedgerEvent) : Says e (askOf e) := by
  unfold askOf
  split
  · trivial
  · rename_i hgood
    have hid : e.eventId ≠ [] := by
      intro hnil
      simp [hnil] at hgood
    cases htop : jsonRefTopObject e.payloadJson with
    | none => trivial
    | some payload =>
      dsimp only
      split
      · exact taskAsk_says htop
      · split
        · trivial
        · rename_i hnot
          rw [Bool.not_eq_true] at hnot
          split
          · rename_i htype
            exact ⟨htype, hid, hnot, payload, htop, rfl⟩
          · rename_i htype
            exact ⟨htype, hid, hnot, htop, rfl⟩

/-! ## What an accepted event does -/

/-- The revision counts the selection it is made by. -/
def counted (f : StepFields) (eventId : Bytes) (s : WorkStore) : WorkStore :=
  { s with revisions := modifyFirst (isRevision f.taskId f.workRev) (countSelection f eventId) s.revisions }

/-- A report written on its step. -/
def rewritten (f : StepFields) (x : WorkStep) (s : WorkStore) : WorkStore :=
  { s with items := modifyFirst (isStep f.taskId f.workRev f.requestId) (fun _ => x) s.items }

/-- The store behind the mark of a repair. -/
def marked (s : WorkStore) (f : StepFields) : WorkStore := if (repairSource s f).isSome then markRepair s f else s

inductive Took (w : World) (s : WorkStore) (e : LedgerEvent) : WorkStore → Prop
  | idle (hold : ∀ f args, askOf e = .select f args → (stepIndex s f.taskId f.workRev f.requestId).isSome = true) : Took w s e s
  | root {contextId taskId : Bytes} {workRev : Int} {s' : WorkStore} (hask : askOf e = .root contextId taskId workRev)
      (hfresh : revisionIndex s taskId workRev = none)
      (hadd : addRevision w.rows s (rootRevision contextId taskId workRev) = some s') : Took w s e s'
  | child {contextId taskId : Bytes} {workRev : Int} {payload : JsonRef} {s1 s' : WorkStore} {carried : WorkStep}
      (hask : askOf e = .child contextId taskId workRev payload) (hfresh : revisionIndex s taskId workRev = none)
      (hchild : childRevision w s contextId taskId workRev payload = some (s1, carried))
      (hcarry : (stepIndex s1 carried.taskId carried.workRev carried.requestId).isSome = true ∧ s' = s1 ∨
        stepIndex s1 carried.taskId carried.workRev carried.requestId = none ∧ addStep w.outbox w.rows s1 carried = some s') :
      Took w s e s'
  | selected {f : StepFields} {args : Bytes} {s1 s2 : WorkStore} {r : WorkRevision} (hask : askOf e = .select f args)
      (hnew : stepIndex s f.taskId f.workRev f.requestId = none) (hfor : revisionFor w s f = some (s1, r))
      (hrepair : (repairSource s1 f).isSome = true → r.repairAttempts < rtWorkRepairAttemptLimit)
      (hbudget : r.semanticSteps < rtWorkSemanticStepLimit)
      (hadd : addStep w.outbox w.rows (marked s1 f) (selectedStep f args e.eventId (repairSource s1 f).isSome) = some s2) :
      Took w s e (counted f e.eventId s2)
  | late {f : StepFields} {payload : JsonRef} {s' : WorkStore} (hask : askOf e = .report f payload)
      (hresult : e.type = lit "operation_result") (hnew : stepIndex s f.taskId f.workRev f.requestId = none)
      (hlate : lateReport w f = true)
      (hadd : addStep w.outbox w.rows s (reportOn e.type e.eventId payload e.payloadJson f (staleStep f)).1 = some s') :
      Took w s e s'
  | reported {f : StepFields} {payload : JsonRef} {x x' : WorkStep} (hask : askOf e = .report f payload)
      (hstep : stepIndex s f.taskId f.workRev f.requestId = some x)
      (hreport : reportOn e.type e.eventId payload e.payloadJson f x = (x', true)) : Took w s e (rewritten f x' s)

theorem openRoot_took {w : World} {s s' : WorkStore} {e : LedgerEvent} {contextId taskId : Bytes} {workRev : Int}
    (hask : askOf e = .root contextId taskId workRev) (h : openRoot w s contextId taskId workRev = (s', true)) :
    Took w s e s' := by
  cases hfound : revisionIndex s taskId workRev with
  | some r =>
    simp only [openRoot, hfound, Prod.mk.injEq] at h
    exact h.1 ▸ .idle fun f args hsel => by rw [hask] at hsel; cases hsel
  | none =>
    cases hadd : addRevision w.rows s (rootRevision contextId taskId workRev) with
    | none => simp [openRoot, hfound, hadd] at h
    | some s1 =>
      simp only [openRoot, hfound, hadd, Prod.mk.injEq, and_true] at h
      exact h ▸ .root hask hfound hadd

theorem openChild_took {w : World} {s s' : WorkStore} {e : LedgerEvent} {contextId taskId : Bytes} {workRev : Int}
    {payload : JsonRef} (hask : askOf e = .child contextId taskId workRev payload)
    (h : openChild w s contextId taskId workRev payload = (s', true)) : Took w s e s' := by
  cases hfound : revisionIndex s taskId workRev with
  | some r =>
    simp only [openChild, hfound, Prod.mk.injEq] at h
    exact h.1 ▸ .idle fun f args hsel => by rw [hask] at hsel; cases hsel
  | none =>
    rcases hchild : childRevision w s contextId taskId workRev payload with _ | ⟨s1, carried⟩
    · simp [openChild, hfound, hchild, carryStep] at h
    · cases hold : stepIndex s1 carried.taskId carried.workRev carried.requestId with
      | some x =>
        simp only [openChild, hfound, hchild, carryStep, hold, Option.isSome_some, if_true, Prod.mk.injEq, and_true] at h
        exact .child hask hfound hchild (.inl ⟨by rw [hold]; rfl, h.symm⟩)
      | none =>
        cases hadd : addStep w.outbox w.rows s1 carried with
        | none => simp [openChild, hfound, hchild, carryStep, hold, hadd] at h
        | some s2 =>
          simp only [openChild, hfound, hchild, carryStep, hold, hadd, Option.isSome_none, Bool.false_eq_true, if_false,
            Prod.mk.injEq, and_true] at h
          exact .child hask hfound hchild (.inr ⟨hold, h ▸ hadd⟩)

theorem selectStep_took {w : World} {s s' : WorkStore} {e : LedgerEvent} {f : StepFields} {args : Bytes}
    (hask : askOf e = .select f args) (h : selectStep w s f args e.eventId = (s', true)) : Took w s e s' := by
  cases hold : stepIndex s f.taskId f.workRev f.requestId with
  | some x =>
    simp only [selectStep, hold, Prod.mk.injEq] at h
    refine h.1 ▸ .idle fun f' args' hsel => ?_
    rw [hask, Ask.select.injEq] at hsel
    rw [← hsel.1, hold]
    rfl
  | none =>
    simp only [selectStep, hold] at h
    rcases hfor : revisionFor w s f with _ | ⟨s1, r⟩
    · simp [freshSelection, hfor] at h
    · simp only [freshSelection, hfor] at h
      split at h
      · simp at h
      · rename_i hrepair
        split at h
        · simp at h
        · rename_i hbudget
          change (match addStep w.outbox w.rows (marked s1 f) (selectedStep f args e.eventId (repairSource s1 f).isSome) with
            | none => (marked s1 f, false)
            | some s2 => (counted f e.eventId s2, true)) = (s', true) at h
          cases hadd : addStep w.outbox w.rows (marked s1 f) (selectedStep f args e.eventId (repairSource s1 f).isSome) with
          | none => simp [hadd] at h
          | some s2 =>
            simp only [hadd, Prod.mk.injEq, and_true] at h
            refine h ▸ .selected hask hold hfor (fun hsome => ?_) (by omega) hadd
            simpa [hsome] using hrepair

theorem reportStep_took {w : World} {s s' : WorkStore} {e : LedgerEvent} {f : StepFields} {payload : JsonRef}
    (hask : askOf e = .report f payload) (h : reportStep w s e.type e.eventId payload e.payloadJson f = (s', true)) :
    Took w s e s' := by
  have hidle : Took w s e s := .idle fun f' args hsel => by rw [hask] at hsel; cases hsel
  cases hold : stepIndex s f.taskId f.workRev f.requestId with
  | some x =>
    simp only [reportStep, hold, Prod.mk.injEq] at h
    exact h.1 ▸ .reported hask hold (Prod.ext rfl h.2)
  | none =>
    simp only [reportStep, hold] at h
    by_cases hresult : e.type = lit "operation_result"
    · rw [if_pos hresult] at h
      by_cases hlate : lateReport w f = true
      · rw [if_pos hlate] at h
        cases hadd : addStep w.outbox w.rows s (reportOn e.type e.eventId payload e.payloadJson f (staleStep f)).1 with
        | none =>
          simp only [hadd, Prod.mk.injEq, and_true] at h
          exact h ▸ hidle
        | some s1 =>
          simp only [hadd, Prod.mk.injEq] at h
          exact .late hask hresult hold hlate (h.1 ▸ hadd)
      · rw [if_neg hlate, Prod.mk.injEq] at h
        exact h.1 ▸ hidle
    · rw [if_neg hresult, Prod.mk.injEq] at h
      exact h.1 ▸ hidle

/-- An accepted event does one of these things. -/
theorem took_of_apply {w : World} {s s' : WorkStore} {e : LedgerEvent} (h : applyToStore w s e = (s', true)) :
    Took w s e s' := by
  rw [applyToStore_asked] at h
  cases hask : askOf e with
  | refused => simp [hask, answer] at h
  | ignored =>
    simp only [hask, answer, Prod.mk.injEq, and_true] at h
    exact h ▸ .idle fun f args hsel => by rw [hask] at hsel; cases hsel
  | root contextId taskId workRev => exact openRoot_took hask (by rwa [hask] at h)
  | child contextId taskId workRev payload => exact openChild_took hask (by rwa [hask] at h)
  | select f args => exact selectStep_took hask (by rwa [hask] at h)
  | report f payload => exact reportStep_took hask (by rwa [hask] at h)

/-! ## The shape of the ledger -/

/-- What a ledger keeps to whatever it takes: its bounds, its keys, its budgets. -/
structure WellKept (s : WorkStore) : Prop where
  revisionRoom : s.revisions.length ≤ workRevisionMaxItems
  stepRoom : s.items.length ≤ workStepMaxItems
  revisionKeys : (s.revisions.map revisionKey).Nodup
  stepKeys : (s.items.map stepKey).Nodup
  budgets : ∀ r ∈ s.revisions, r.semanticSteps ≤ rtWorkSemanticStepLimit ∧ r.repairAttempts ≤ rtWorkRepairAttemptLimit

theorem WellKept.empty : WellKept {} := by
  refine ⟨Nat.zero_le _, Nat.zero_le _, List.nodup_nil, List.nodup_nil, fun r hr => ?_⟩
  cases hr

/-- A revision under a new key, within its budgets. -/
theorem WellKept.addRevision {s s' : WorkStore} (hs : WellKept s) {rows : List TaskItem} {r : WorkRevision}
    (hfresh : revisionIndex s r.taskId r.workRev = none)
    (hbudget : r.semanticSteps ≤ rtWorkSemanticStepLimit ∧ r.repairAttempts ≤ rtWorkRepairAttemptLimit)
    (h : addRevision rows s r = some s') : WellKept s' := by
  obtain ⟨hitems, hgained⟩ := addRevision_gained h
  replace hgained := hgained hs.revisionRoom
  refine ⟨hgained.length_le, hitems ▸ hs.stepRoom, hgained.nodup hs.revisionKeys (revisionIndex_none.mp hfresh),
    hitems ▸ hs.stepKeys, fun r' hr' => ?_⟩
  rcases hgained.mem hr' with hold | rfl
  · exact hs.budgets r' hold
  · exact hbudget

/-- A step under a new key. -/
theorem WellKept.addStep {s s' : WorkStore} (hs : WellKept s) {env : LedgerEnv} {rows : List TaskItem} {x : WorkStep}
    (hfresh : stepIndex s x.taskId x.workRev x.requestId = none) (h : addStep env rows s x = some s') : WellKept s' := by
  obtain ⟨hrevisions, hgained⟩ := addStep_gained h
  replace hgained := hgained hs.stepRoom
  exact ⟨hrevisions ▸ hs.revisionRoom, hgained.length_le, hrevisions ▸ hs.revisionKeys,
    hgained.nodup hs.stepKeys (stepIndex_none.mp hfresh), hrevisions ▸ hs.budgets⟩

/-- Records rewritten in their places, under the same keys. -/
theorem WellKept.rewrite {s s' : WorkStore} (hs : WellKept s)
    (hrevisions : s'.revisions.map revisionKey = s.revisions.map revisionKey)
    (hitems : s'.items.map stepKey = s.items.map stepKey)
    (hbudgets : ∀ r ∈ s'.revisions, r.semanticSteps ≤ rtWorkSemanticStepLimit ∧ r.repairAttempts ≤ rtWorkRepairAttemptLimit) :
    WellKept s' := by
  have hlen : s'.revisions.length = s.revisions.length := by simpa using congrArg List.length hrevisions
  have hlen' : s'.items.length = s.items.length := by simpa using congrArg List.length hitems
  exact ⟨hlen ▸ hs.revisionRoom, hlen' ▸ hs.stepRoom, hrevisions ▸ hs.revisionKeys, hitems ▸ hs.stepKeys, hbudgets⟩

theorem revisionIndex_of_mem {s : WorkStore} (hs : WellKept s) {r : WorkRevision} (hr : r ∈ s.revisions) :
    revisionIndex s r.taskId r.workRev = some r := by
  cases hfound : revisionIndex s r.taskId r.workRev with
  | none => exact absurd (List.mem_map_of_mem hr) (revisionIndex_none.mp hfound)
  | some r' =>
    obtain ⟨hmem, hkey⟩ := revisionIndex_some hfound
    rw [List.inj_on_of_nodup_map hs.revisionKeys hmem hr hkey]

theorem stepIndex_of_mem {s : WorkStore} (hs : WellKept s) {x : WorkStep} (hx : x ∈ s.items) :
    stepIndex s x.taskId x.workRev x.requestId = some x := by
  cases hfound : stepIndex s x.taskId x.workRev x.requestId with
  | none => exact absurd (List.mem_map_of_mem hx) (stepIndex_none.mp hfound)
  | some x' =>
    obtain ⟨hmem, hkey⟩ := stepIndex_some hfound
    rw [List.inj_on_of_nodup_map hs.stepKeys hmem hx hkey]

/-- The revision of a selection stands in the store it comes with. -/
theorem revisionFor_cases {w : World} {s s1 : WorkStore} {f : StepFields} {r : WorkRevision}
    (h : revisionFor w s f = some (s1, r)) :
    (s1 = s ∧ revisionIndex s f.taskId f.workRev = some r ∧ r.contextId = f.contextId) ∨
      (revisionIndex s f.taskId f.workRev = none ∧ r = rootRevision f.contextId f.taskId f.workRev ∧
        addRevision w.rows s r = some s1) := by
  rw [revisionFor] at h
  cases hfound : revisionIndex s f.taskId f.workRev with
  | some r' =>
    rw [hfound] at h
    dsimp only at h
    split at h
    · rename_i hctx
      cases h
      exact .inl ⟨rfl, rfl, hctx⟩
    · cases h
  | none =>
    rw [hfound] at h
    obtain ⟨s2, hadd, heq⟩ := Option.map_eq_some_iff.mp h
    cases heq
    exact .inr ⟨rfl, rfl, hadd⟩

theorem guard_passed {p : Prop} [Decidable p] {u : Unit} : (guard p : Option Unit) = some u ↔ p := by
  by_cases h : p <;> simp [guard, h]

/-- A controller revision is made of its parent and of the step that was selected on it. -/
theorem childRevision_cases {w : World} {s s1 : WorkStore} {contextId taskId : Bytes} {workRev : Int} {payload : JsonRef}
    {carried : WorkStep} (h : childRevision w s contextId taskId workRev payload = some (s1, carried)) :
    ∃ l parent step r, lineageOf payload = some l ∧ revisionIndex s taskId l.parentRev = some parent ∧
      stepIndex s taskId l.parentRev l.requestId = some step ∧ step.selectedEventId ≠ [] ∧ 0 < l.parentRev ∧
      workRev = l.parentRev + 1 ∧
      r = { contextId := contextId, taskId := taskId, workRev := workRev, parentWorkRev := l.parentRev,
            lineageRootRev := parent.lineageRootRev, semanticSteps := parent.semanticSteps,
            repairAttempts := parent.repairAttempts, requestId := l.requestId, action := l.action,
            triggerEventId := l.triggerEventId, selectedEventId := step.selectedEventId } ∧
      addRevision w.rows s r = some s1 ∧
      carried = { contextId := contextId, taskId := taskId, workRev := workRev, requestId := l.requestId, action := l.action,
                  triggerEventId := l.triggerEventId, selectedArgs := step.selectedArgs, status := lit "revised",
                  selectedEventId := step.selectedEventId, resultEventId := [], terminalEventId := [],
                  repairState := step.repairState } := by
  simp only [childRevision, Option.bind_eq_bind, Option.bind_eq_some_iff, Option.pure_def, Option.some.injEq, guard_passed,
    exists_const, Prod.mk.injEq] at h
  obtain ⟨l, hl, ⟨hpos, hnext, -⟩, parent, hparent, -, step, hstep, ⟨hselected, -⟩, s2, hadd, rfl, rfl⟩ := h
  exact ⟨l, parent, step, _, hl, hparent, hstep, hselected, hpos, hnext, rfl, hadd, rfl⟩

theorem addRevision_found {rows : List TaskItem} {s s' : WorkStore} (hs : WellKept s) {r : WorkRevision}
    (hfresh : revisionIndex s r.taskId r.workRev = none) (h : addRevision rows s r = some s') :
    revisionIndex s' r.taskId r.workRev = some r :=
  ((addRevision_gained h).2 hs.revisionRoom).find?_new (by simp) hfresh

structure SelectedOn (f : StepFields) (s s1 : WorkStore) (r : WorkRevision) : Prop where
  wellKept : WellKept s1
  found : revisionIndex s1 f.taskId f.workRev = some r
  items : s1.items = s.items

theorem revisionFor_selectedOn {w : World} {s s1 : WorkStore} {f : StepFields} {r : WorkRevision} (hs : WellKept s)
    (h : revisionFor w s f = some (s1, r)) : SelectedOn f s s1 r := by
  rcases revisionFor_cases h with ⟨rfl, hfound, -⟩ | ⟨hfresh, rfl, hadd⟩
  · exact ⟨hs, hfound, rfl⟩
  · exact ⟨hs.addRevision hfresh ⟨Nat.zero_le _, Nat.zero_le _⟩ hadd, addRevision_found hs hfresh hadd,
      (addRevision_gained hadd).1⟩

theorem markRepair_steps (s : WorkStore) (f : StepFields) : (markRepair s f).items.map stepKey = s.items.map stepKey :=
  map_modifyFirst (f := repairSelected) stepKey (fun _ _ => rfl) _

theorem markRepair_revisions (s : WorkStore) (f : StepFields) :
    (markRepair s f).revisions.map revisionKey = s.revisions.map revisionKey :=
  map_modifyFirst (f := countRepair) revisionKey (fun _ _ => rfl) _

/-- The mark of a repair keeps a ledger well kept while an attempt is left. -/
theorem WellKept.marked {s : WorkStore} (hs : WellKept s) {f : StepFields} {r : WorkRevision}
    (hfound : revisionIndex s f.taskId f.workRev = some r)
    (hrepair : (repairSource s f).isSome = true → r.repairAttempts < rtWorkRepairAttemptLimit) : WellKept (marked s f) := by
  unfold LedgerSteps.marked
  split
  · rename_i hsome
    refine hs.rewrite (markRepair_revisions s f) (markRepair_steps s f) fun r' hr' => ?_
    rcases mem_modifyFirst hr' with hold | ⟨r'', hr'', rfl⟩
    · exact hs.budgets r' hold
    · cases hfound.symm.trans hr''
      exact ⟨(hs.budgets r (revisionIndex_some hfound).1).1, hrepair hsome⟩
  · exact hs

theorem marked_items (s : WorkStore) (f : StepFields) : (marked s f).items.map stepKey = s.items.map stepKey := by
  unfold marked
  split
  · exact markRepair_steps s f
  · rfl

/-- What the mark of a repair leaves of the revision. -/
theorem marked_found {s : WorkStore} {f : StepFields} {r : WorkRevision}
    (hfound : revisionIndex s f.taskId f.workRev = some r) :
    ∃ n, revisionIndex (marked s f) f.taskId f.workRev = some { r with repairAttempts := n } := by
  unfold marked
  split
  · refine ⟨r.repairAttempts + 1, ?_⟩
    have hself := find?_modifyFirst_self (p := isRevision f.taskId f.workRev) (f := countRepair) (fun _ h => h) s.revisions
    exact hself.trans (congrArg (Option.map countRepair) hfound)
  · exact ⟨r.repairAttempts, hfound⟩

theorem stepIndex_none_of_keys {s s' : WorkStore} (hkeys : s'.items.map stepKey = s.items.map stepKey)
    (h : stepIndex s id rev rid = none) : stepIndex s' id rev rid = none := by
  rw [stepIndex_none] at h ⊢
  rwa [hkeys]

theorem WellKept.counted {s : WorkStore} (hs : WellKept s) {f : StepFields} {eventId : Bytes} {r : WorkRevision}
    (hfound : revisionIndex s f.taskId f.workRev = some r) (hbudget : r.semanticSteps < rtWorkSemanticStepLimit) :
    WellKept (counted f eventId s) := by
  refine hs.rewrite (map_modifyFirst (f := countSelection f eventId) revisionKey (fun _ _ => rfl) _) rfl fun r' hr' => ?_
  rcases mem_modifyFirst hr' with hold | ⟨r'', hr'', rfl⟩
  · exact hs.budgets r' hold
  · cases hfound.symm.trans hr''
    exact ⟨hbudget, (hs.budgets r (revisionIndex_some hfound).1).2⟩

/-! ## Reports keep the identity of their step -/

/-- The step of the same call, whatever was written on it. -/
structure SameStep (x x' : WorkStep) : Prop where
  key : stepKey x' = stepKey x
  contextId : x'.contextId = x.contextId
  triggerEventId : x'.triggerEventId = x.triggerEventId
  selectedEventId : x'.selectedEventId = x.selectedEventId

theorem SameStep.refl (x : WorkStep) : SameStep x x := ⟨rfl, rfl, rfl, rfl⟩

theorem SameStep.trans {x y z : WorkStep} (h : SameStep x y) (h' : SameStep y z) : SameStep x z :=
  ⟨h'.key.trans h.key, h'.contextId.trans h.contextId, h'.triggerEventId.trans h.triggerEventId,
    h'.selectedEventId.trans h.selectedEventId⟩

theorem noteStarted_same (eventId : Bytes) (x : WorkStep) : SameStep x (noteStarted eventId x).1 := by
  unfold noteStarted
  split
  · exact .refl x
  · exact ⟨rfl, rfl, rfl, rfl⟩

theorem noteOperation_same (payload : JsonRef) (x : WorkStep) : SameStep x (noteOperation payload x).1 := by
  unfold noteOperation
  dsimp only
  split
  · exact .refl x
  · exact ⟨rfl, rfl, rfl, rfl⟩

theorem noteTerminal_same (type eventId : Bytes) (payload : JsonRef) (x : WorkStep) :
    SameStep x (noteTerminal type eventId payload x).1 := by
  unfold noteTerminal
  dsimp only
  split
  · exact .refl x
  · split
    · exact ⟨rfl, rfl, rfl, rfl⟩
    · exact ⟨rfl, rfl, rfl, rfl⟩

theorem noteResult_same (type eventId : Bytes) (payload : JsonRef) (payloadJson : Bytes) (x : WorkStep) :
    SameStep x (noteResult type eventId payload payloadJson x).1 := by
  unfold noteResult
  dsimp only
  split
  · exact .refl x
  · repeat' split
    all_goals exact ⟨rfl, rfl, rfl, rfl⟩

theorem noteReport_same (type eventId : Bytes) (payload : JsonRef) (payloadJson : Bytes) (x : WorkStep) :
    SameStep x (noteReport type eventId payload payloadJson x).1 := by
  unfold noteReport
  split
  · exact noteStarted_same eventId x
  · split
    · exact noteOperation_same payload x
    · split
      · exact .refl x
      · split
        · exact noteTerminal_same type eventId payload x
        · exact noteResult_same type eventId payload payloadJson x

theorem takeAction_same (f : StepFields) (x : WorkStep) : SameStep x (takeAction f x) := by
  unfold takeAction
  split
  · exact ⟨rfl, rfl, rfl, rfl⟩
  · exact .refl x

theorem reportOn_same (type eventId : Bytes) (payload : JsonRef) (payloadJson : Bytes) (f : StepFields) (x : WorkStep) :
    SameStep x (reportOn type eventId payload payloadJson f x).1 := by
  unfold reportOn
  split
  · exact (takeAction_same f x).trans (noteReport_same type eventId payload payloadJson _)
  · exact .refl x

theorem rewritten_steps {s : WorkStore} {f : StepFields} {x : WorkStep} (hkey : stepKey x = (f.taskId, f.workRev, f.requestId)) :
    (rewritten f x s).items.map stepKey = s.items.map stepKey :=
  map_modifyFirst stepKey (fun _ hy => hkey.trans (isStep_iff.mp hy).symm) _

theorem childRevision_wellKept {w : World} {s s1 : WorkStore} {contextId taskId : Bytes} {workRev : Int} {payload : JsonRef}
    {carried : WorkStep} (hs : WellKept s) (hfresh : revisionIndex s taskId workRev = none)
    (h : childRevision w s contextId taskId workRev payload = some (s1, carried)) : WellKept s1 := by
  obtain ⟨l, parent, step, r, hl, hparent, hstep, -, -, -, rfl, hadd, rfl⟩ := childRevision_cases h
  refine WellKept.addRevision hs ?_ ?_ hadd
  · exact hfresh
  · exact hs.budgets parent (revisionIndex_some hparent).1

/-- The ledger stays well kept whatever it takes. -/
theorem Took.wellKept {w : World} {s s' : WorkStore} {e : LedgerEvent} (h : Took w s e s') (hs : WellKept s) :
    WellKept s' := by
  cases h with
  | idle => exact hs
  | root hask hfresh hadd => exact hs.addRevision hfresh ⟨Nat.zero_le _, Nat.zero_le _⟩ hadd
  | child hask hfresh hchild hcarry =>
    have hs1 := childRevision_wellKept hs hfresh hchild
    rcases hcarry with ⟨-, rfl⟩ | ⟨hnew, hcarried⟩
    · exact hs1
    · exact hs1.addStep hnew hcarried
  | @selected f args s1 s2 r hask hnew hfor hrepair hbudget hadd =>
    have hon := revisionFor_selectedOn hs hfor
    have hmarked := hon.wellKept.marked hon.found hrepair
    have hkeys : (marked s1 f).items.map stepKey = s.items.map stepKey := by rw [marked_items, hon.items]
    obtain ⟨n, hfound⟩ := marked_found hon.found
    have hsame := (addStep_gained hadd).1
    refine (hmarked.addStep (stepIndex_none_of_keys hkeys hnew) hadd).counted (r := { r with repairAttempts := n }) ?_ hbudget
    rw [revisionIndex, hsame]
    exact hfound
  | @late f payload s' hask hresult hnew hlate hadd =>
    refine hs.addStep ?_ hadd
    rw [stepIndex_none] at hnew ⊢
    intro hmem
    rw [← stepKey, (reportOn_same e.type e.eventId payload e.payloadJson f (staleStep f)).key] at hmem
    exact hnew hmem
  | @reported f payload x x' hask hstep hreport =>
    refine hs.rewrite rfl (rewritten_steps ?_) hs.budgets
    have hsame := reportOn_same e.type e.eventId payload e.payloadJson f x
    rw [hreport] at hsame
    exact hsame.key.trans (stepIndex_some hstep).2

/-! ## What becomes of a step -/

/-- An event leaves a step, marks it as the source of a repair, or writes its report on it. -/
def Touched (e : LedgerEvent) (x y : WorkStep) : Prop :=
  y = x ∨ y = repairSelected x ∨ ∃ f payload, askOf e = .report f payload ∧ stepKey x = (f.taskId, f.workRev, f.requestId) ∧
    reportOn e.type e.eventId payload e.payloadJson f x = (y, true)

/-- A new step has no evidence, or it is the record of a late result. -/
def NewStep (e : LedgerEvent) (y : WorkStep) : Prop :=
  y.resultEventId = [] ∧ y.terminalEventId = [] ∨
    ∃ f payload, askOf e = .report f payload ∧ y = (reportOn e.type e.eventId payload e.payloadJson f (staleStep f)).1

/-- A step behind an event was there before, or the event made it. -/
def StepBehind (s : WorkStore) (e : LedgerEvent) (y : WorkStep) : Prop :=
  (∃ x, stepIndex s y.taskId y.workRev y.requestId = some x ∧ Touched e x y) ∨
    stepIndex s y.taskId y.workRev y.requestId = none ∧ NewStep e y

theorem stepBehind_old {s : WorkStore} {e : LedgerEvent} (hs : WellKept s) {y : WorkStep} (hy : y ∈ s.items) : StepBehind s e y :=
  .inl ⟨y, stepIndex_of_mem hs hy, .inl rfl⟩

theorem marked_mem {s : WorkStore} (hs : WellKept s) {f : StepFields} {e : LedgerEvent} {y : WorkStep}
    (hy : y ∈ (marked s f).items) : StepBehind s e y := by
  unfold marked at hy
  split at hy
  · rcases mem_modifyFirst hy with hold | ⟨x, hx, rfl⟩
    · exact stepBehind_old hs hold
    · exact .inl ⟨x, stepIndex_of_mem hs (List.mem_of_find?_eq_some hx), .inr (.inl rfl)⟩
  · exact stepBehind_old hs hy

theorem Took.step {w : World} {s s' : WorkStore} {e : LedgerEvent} (h : Took w s e s') (hs : WellKept s) {y : WorkStep}
    (hy : y ∈ s'.items) : StepBehind s e y := by
  cases h with
  | idle => exact stepBehind_old hs hy
  | root hask hfresh hadd =>
    rw [(addRevision_gained hadd).1] at hy
    exact stepBehind_old hs hy
  | @child contextId taskId workRev payload s1 s' carried hask hfresh hchild hcarry =>
    have hs1 := childRevision_wellKept hs hfresh hchild
    obtain ⟨l, parent, step, r, -, -, -, -, -, -, -, hadd, hcarried⟩ := childRevision_cases hchild
    have hitems := (addRevision_gained hadd).1
    rcases hcarry with ⟨-, rfl⟩ | ⟨hnew, hstep⟩
    · rw [hitems] at hy
      exact stepBehind_old hs hy
    · rcases ((addStep_gained hstep).2 hs1.stepRoom).mem hy with hold | rfl
      · rw [hitems] at hold
        exact stepBehind_old hs hold
      · refine .inr ⟨?_, .inl ⟨by rw [hcarried], by rw [hcarried]⟩⟩
        rwa [stepIndex_eq, hitems, ← stepIndex_eq] at hnew
  | @selected f args s1 s2 r hask hnew hfor hrepair hbudget hadd =>
    have hon := revisionFor_selectedOn hs hfor
    have hmarked := hon.wellKept.marked hon.found hrepair
    rcases ((addStep_gained hadd).2 hmarked.stepRoom).mem hy with hold | rfl
    · rcases marked_mem (e := e) hon.wellKept hold with ⟨x, hx, htouched⟩ | ⟨hnone, hnewstep⟩
      · rw [stepIndex_eq, hon.items, ← stepIndex_eq] at hx
        exact .inl ⟨x, hx, htouched⟩
      · rw [stepIndex_eq, hon.items, ← stepIndex_eq] at hnone
        exact .inr ⟨hnone, hnewstep⟩
    · exact .inr ⟨hnew, .inl ⟨rfl, rfl⟩⟩
  | @late f payload s' hask hresult hnew hlate hadd =>
    rcases ((addStep_gained hadd).2 hs.stepRoom).mem hy with hold | rfl
    · exact stepBehind_old hs hold
    · have hkey := (reportOn_same e.type e.eventId payload e.payloadJson f (staleStep f)).key
      refine .inr ⟨?_, .inr ⟨f, payload, hask, rfl⟩⟩
      rw [stepIndex_none] at hnew ⊢
      rwa [← stepKey, hkey]
  | @reported f payload x x' hask hstep hreport =>
    rcases mem_modifyFirst hy with hold | ⟨x'', hx'', rfl⟩
    · exact stepBehind_old hs hold
    · obtain ⟨hmem, hkey⟩ := stepIndex_some hstep
      have hsame := (reportOn_same e.type e.eventId payload e.payloadJson f x).key
      rw [hreport] at hsame
      refine .inl ⟨x, ?_, .inr (.inr ⟨f, payload, hask, hkey, hreport⟩)⟩
      obtain ⟨hid, hrest⟩ := Prod.mk.inj (hsame.trans hkey)
      obtain ⟨hrev, hrid⟩ := Prod.mk.inj hrest
      rw [hid, hrev, hrid]
      exact hstep

end Floofclaw.Guarantees.LedgerSteps
