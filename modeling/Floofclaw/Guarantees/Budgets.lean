import Floofclaw.Guarantees.LedgerSteps

/-!
# The semantic budget of a revision

The live ledger with the history of what it took. A revision counts the
selections made on it since its record was made, on top of what its parent had
counted when the controller made it. A selection counts when the ledger has no
step for its request: a request that is delivered again counts once more when
its step was given up in between.
-/

set_option autoImplicit false

namespace Floofclaw.Guarantees.Budgets
open Floofclaw.Lib Floofclaw.Source.Json Floofclaw.Source.TaskState Floofclaw.Source.WorkSteps
open Floofclaw.Source.WorkLedger
open Floofclaw.Guarantees.LedgerSteps

/-! ## The live ledger -/

/-- An event the ledger took, with the stores it found and left. -/
structure Entry where
  event : LedgerEvent
  before : WorkStore
  after : WorkStore
  deriving DecidableEq

structure Live where
  store : WorkStore := {}
  history : List Entry := []

def liveStep (st : Live) (i : World × LedgerEvent) : Live :=
  match rtWorkStateApplyEvent i.1 st.store i.2 with
  | (after, true) => { store := after, history := st.history ++ [⟨i.2, st.store, after⟩] }
  | (after, false) => { st with store := after }

/-- The ledger behind a sequence of events. -/
def live (inputs : List (World × LedgerEvent)) : Live := inputs.foldl liveStep {}

theorem liveStep_taken {w : World} {e : LedgerEvent} {s s' : WorkStore} (history : List Entry)
    (h : rtWorkStateApplyEvent w s e = (s', true)) :
    liveStep { store := s, history := history } (w, e) = { store := s', history := history ++ [⟨e, s, s'⟩] } := by
  simp only [liveStep, h]

/-- The live path takes an event as the reducer does. -/
theorem live_took {w : World} {s s' : WorkStore} {e : LedgerEvent} (h : rtWorkStateApplyEvent w s e = (s', true)) :
    Took w s e s' := by
  unfold rtWorkStateApplyEvent at h
  split at h
  · cases h
  · cases htop : jsonRefTopObject e.payloadJson with
    | none => simp [htop] at h
    | some payload =>
      simp only [htop] at h
      split at h
      · rename_i hpasses
        cases h
        refine .idle fun f args hask => ?_
        have hsaid := askOf_says e
        rw [hask] at hsaid
        obtain ⟨htype, -, hnot, payload', htop', rfl⟩ := hsaid
        rw [htop, Option.some.injEq] at htop'
        subst htop'
        have hother : isTaskEvent (lit "action_request") = false := by rw [lit_ofList]; decide
        rw [passesBy, htype, hother, if_neg (by decide)] at hpasses
        simp [notForLedger, hpasses] at hnot
      · rcases happly : applyToStore w s e with ⟨after, _ | _⟩
        · simp [happly] at h
        · simp only [happly] at h
          split at h
          · cases h
            exact took_of_apply happly
          · cases h

/-- An event the live path refuses leaves the ledger as it was. -/
theorem live_refused {w : World} {s s' : WorkStore} {e : LedgerEvent} (h : rtWorkStateApplyEvent w s e = (s', false)) :
    s' = s := by
  unfold rtWorkStateApplyEvent at h
  split at h
  · cases h
    rfl
  · cases htop : jsonRefTopObject e.payloadJson with
    | none =>
      simp only [htop, Prod.mk.injEq, and_true] at h
      exact h.symm
    | some payload =>
      simp only [htop] at h
      split at h
      · cases h
      · rcases happly : applyToStore w s e with ⟨after, _ | _⟩
        · simp only [happly, Prod.mk.injEq, and_true] at h
          exact h.symm
        · simp only [happly] at h
          split at h
          · cases h
          · cases h
            rfl

/-! ## Selections -/

/-- The step a trigger-bearing request selects. -/
def selectionOf (e : LedgerEvent) : Option StepFields :=
  if e.type = lit "action_request" ∧ e.eventId ≠ [] then
    (jsonRefTopObject e.payloadJson).bind fun payload =>
      if notForLedger e.type (stepFields e.runContext payload) then none else some (stepFields e.runContext payload)
  else none

theorem selectionOf_some {e : LedgerEvent} {f : StepFields} (h : selectionOf e = some f) :
    ∃ args, askOf e = .select f args := by
  rw [selectionOf] at h
  split at h
  · rename_i htype
    obtain ⟨payload, htop, hf⟩ := Option.bind_eq_some_iff.mp h
    split at hf
    · cases hf
    · rename_i hnot
      cases hf
      have hknown : rtWorkStateIsEventType (lit "action_request") = true := by rw [lit_ofList]; decide
      have hother : isTaskEvent (lit "action_request") = false := by decide
      refine ⟨valueDetail payload (lit "args"), ?_⟩
      rw [htype.1] at hnot
      simp only [askOf, htype.1, htype.2, hknown, hother, htop, hnot, Bool.not_true, decide_false, Bool.or_false,
        Bool.false_eq_true, if_false, if_true]
  · cases h

/-- A selection on the revision that finds no step of its request. -/
def selectsFresh (taskId : Bytes) (workRev : Int) (a : Entry) : Bool :=
  (selectionOf a.event).any fun f =>
    f.taskId = taskId && f.workRev = workRev && (stepIndex a.before f.taskId f.workRev f.requestId).isNone

def selections (taskId : Bytes) (workRev : Int) (history : List Entry) : Nat := history.countP (selectsFresh taskId workRev)

/-- An update in the name of the controller. -/
def controllerUpdate (e : LedgerEvent) : Bool := (jsonRefTopObject e.payloadJson).any (byController e.type)

/-- What a revision starts from: the count and the lineage of its parent, or nothing and a lineage of its own. -/
def Opened (a : Entry) (r : WorkRevision) (base : Nat) : Prop :=
  if controllerUpdate a.event then
    ∃ parent, revisionIndex a.before r.taskId r.parentWorkRev = some parent ∧ r.lineageRootRev = parent.lineageRootRev ∧
      base = parent.semanticSteps
  else r.lineageRootRev = r.workRev ∧ base = 0

/-- The count of a revision, from the event that made its record on. -/
def AccountedBy (count : Bytes → Int → List Entry → Nat) (history : List Entry) (r : WorkRevision) : Prop :=
  ∃ pre a post base, history = pre ++ a :: post ∧ revisionIndex a.before r.taskId r.workRev = none ∧
    (∀ b ∈ a :: post, (revisionIndex b.after r.taskId r.workRev).isSome = true) ∧ Opened a r base ∧
    r.semanticSteps = base + count r.taskId r.workRev (a :: post)

def Accounted (history : List Entry) (r : WorkRevision) : Prop := AccountedBy selections history r

/-! ## Lookups -/

section Lookups
variable {w : World} {s s' : WorkStore} {f : StepFields} {eventId : Bytes} {id : Bytes} {rev : Int} {r : WorkRevision}

theorem counted_index (f : StepFields) (eventId : Bytes) (s : WorkStore) (id : Bytes) (rev : Int) :
    revisionIndex (counted f eventId s) id rev =
      if (f.taskId, f.workRev) = (id, rev) then (revisionIndex s id rev).map (countSelection f eventId)
      else revisionIndex s id rev :=
  revisionIndex_rewritten (g := countSelection f eventId) (fun _ => rfl) rfl id rev

theorem marked_index (s : WorkStore) (f : StepFields) (id : Bytes) (rev : Int) :
    ∃ n, revisionIndex (marked s f) id rev =
      (revisionIndex s id rev).map fun r => { r with repairAttempts := r.repairAttempts + n } := by
  unfold marked
  split
  · have hindex : revisionIndex (markRepair s f) id rev = _ :=
      revisionIndex_rewritten (g := countRepair) (fun _ => rfl) rfl id rev
    rw [hindex]
    split
    · exact ⟨1, rfl⟩
    · exact ⟨0, by simp⟩
  · exact ⟨0, by simp⟩

theorem addRevision_index {rows : List TaskItem} (hs : WellKept s)
    (hfresh : revisionIndex s r.taskId r.workRev = none) (h : addRevision rows s r = some s') {r' : WorkRevision}
    (hfound : revisionIndex s' id rev = some r') :
    revisionIndex s id rev = some r' ∨ revisionIndex s id rev = none ∧ r' = r := by
  obtain ⟨hmem, hkey⟩ := revisionIndex_some hfound
  cases hkey
  rcases ((addRevision_gained h).2 hs.revisionRoom).mem hmem with hold | rfl
  · exact .inl (revisionIndex_of_mem hs hold)
  · exact .inr ⟨hfresh, rfl⟩

end Lookups

/-! ## One event -/

section Event
variable {w : World} {s s' : WorkStore} {e : LedgerEvent}

theorem controllerUpdate_child {contextId taskId : Bytes} {workRev : Int} {payload : JsonRef}
    (h : askOf e = .child contextId taskId workRev payload) : controllerUpdate e = true := by
  have hsaid := askOf_says e
  rw [h] at hsaid
  rw [controllerUpdate, hsaid.1]
  exact hsaid.2

theorem controllerUpdate_root {contextId taskId : Bytes} {workRev : Int} (h : askOf e = .root contextId taskId workRev) :
    controllerUpdate e = false := by
  have hsaid := askOf_says e
  rw [h] at hsaid
  obtain ⟨payload, htop, hby⟩ := hsaid
  rw [controllerUpdate, htop]
  exact hby

theorem controllerUpdate_select {f : StepFields} {args : Bytes} (h : askOf e = .select f args) : controllerUpdate e = false := by
  have hsaid := askOf_says e
  rw [h] at hsaid
  obtain ⟨htype, -, -, payload, htop, -⟩ := hsaid
  have hother : (lit "action_request" = lit "task_updated") = False := by (repeat rw [lit_ofList]); decide
  rw [controllerUpdate, htop, Option.any_some, byController, htype]
  simp [hother]

theorem selectionOf_select {f : StepFields} {args : Bytes} (h : askOf e = .select f args) : selectionOf e = some f := by
  have hsaid := askOf_says e
  rw [h] at hsaid
  obtain ⟨htype, hid, hnot, payload, htop, rfl⟩ := hsaid
  rw [selectionOf, if_pos ⟨htype, hid⟩, htop, Option.bind_some, hnot, if_neg (by decide)]

/-- Only a request selects. -/
theorem selectsFresh_other (h : ∀ f args, askOf e ≠ .select f args) (id : Bytes) (rev : Int) (s s' : WorkStore) :
    selectsFresh id rev ⟨e, s, s'⟩ = false := by
  cases hsel : selectionOf e with
  | none => rw [selectsFresh, hsel, Option.any_none]
  | some f =>
    obtain ⟨args, hask⟩ := selectionOf_some hsel
    exact absurd hask (h f args)

/-- The event leaves the revision with what it had, and counts on it the selection it makes. -/
def CarriedOn (s : WorkStore) (e : LedgerEvent) (s' : WorkStore) (r' : WorkRevision) : Prop :=
  ∃ r, revisionIndex s r'.taskId r'.workRev = some r ∧ r'.parentWorkRev = r.parentWorkRev ∧
    r'.lineageRootRev = r.lineageRootRev ∧
    r'.semanticSteps = r.semanticSteps + selections r'.taskId r'.workRev [⟨e, s, s'⟩]

/-- The event makes the revision. -/
def Made (s : WorkStore) (e : LedgerEvent) (s' : WorkStore) (r' : WorkRevision) : Prop :=
  revisionIndex s r'.taskId r'.workRev = none ∧
    ∃ base, Opened ⟨e, s, s'⟩ r' base ∧ r'.semanticSteps = base + selections r'.taskId r'.workRev [⟨e, s, s'⟩]

theorem selections_none {id : Bytes} {rev : Int} {a : Entry} (h : selectsFresh id rev a = false) : selections id rev [a] = 0 := by
  rw [selections, List.countP_singleton, if_neg (by simp [h])]

/-- An event that selects nothing leaves the revisions it finds alone. -/
theorem carriedOn_of_quiet (hother : ∀ f args, askOf e ≠ .select f args) {r' : WorkRevision}
    (hfound : revisionIndex s r'.taskId r'.workRev = some r') : CarriedOn s e s' r' :=
  ⟨r', hfound, rfl, rfl, by rw [selections_none (selectsFresh_other hother _ _ s s')]; rfl⟩

theorem selectsFresh_select {f : StepFields} {args : Bytes} (hask : askOf e = .select f args)
    (hnew : stepIndex s f.taskId f.workRev f.requestId = none) (id : Bytes) (rev : Int) (s' : WorkStore) :
    selectsFresh id rev ⟨e, s, s'⟩ = decide ((f.taskId, f.workRev) = (id, rev)) := by
  simp [selectsFresh, selectionOf_select hask, hnew]

/-- A selection counts on its own revision, which it may have made, and on no other. -/
theorem selected_revision {f : StepFields} {args : Bytes} {s1 s2 : WorkStore} {r r' : WorkRevision} {x : WorkStep}
    (hs : WellKept s) (hask : askOf e = .select f args) (hnew : stepIndex s f.taskId f.workRev f.requestId = none)
    (hfor : revisionFor w s f = some (s1, r)) (hadd : addStep w.outbox w.rows (marked s1 f) x = some s2)
    (hfound : revisionIndex (counted f e.eventId s2) r'.taskId r'.workRev = some r') :
    CarriedOn s e (counted f e.eventId s2) r' ∨ Made s e (counted f e.eventId s2) r' := by
  have hon := revisionFor_selectedOn hs hfor
  have hcount := selectsFresh_select hask hnew r'.taskId r'.workRev (counted f e.eventId s2)
  obtain ⟨n, hmarked⟩ := marked_index s1 f r'.taskId r'.workRev
  have hs2 : revisionIndex s2 r'.taskId r'.workRev = revisionIndex (marked s1 f) r'.taskId r'.workRev := by
    rw [revisionIndex_eq, (addStep_gained hadd).1, ← revisionIndex_eq]
  rw [counted_index, hs2, hmarked] at hfound
  by_cases hkey : (f.taskId, f.workRev) = (r'.taskId, r'.workRev)
  · obtain ⟨hid, hrev⟩ := Prod.mk.inj hkey
    rw [if_pos hkey, ← hid, ← hrev, hon.found, Option.map_some, Option.map_some, Option.some.injEq] at hfound
    have hone : selections r'.taskId r'.workRev [⟨e, s, counted f e.eventId s2⟩] = 1 := by
      rw [selections, List.countP_singleton, hcount, if_pos (by simp [hid, hrev])]
    have hsteps : r'.semanticSteps = r.semanticSteps + 1 := by rw [← hfound]; rfl
    rcases revisionFor_cases hfor with ⟨-, hold, -⟩ | ⟨hfresh, hr, -⟩
    · left
      exact ⟨r, by rw [← hid, ← hrev]; exact hold, by rw [← hfound]; rfl, by rw [← hfound]; rfl, by rw [hone, hsteps]⟩
    · right
      refine ⟨by rw [← hid, ← hrev]; exact hfresh, 0, ?_, by rw [hone, hsteps, hr]; rfl⟩
      rw [Opened, controllerUpdate_select hask, if_neg (by decide)]
      refine ⟨?_, rfl⟩
      rw [← hfound, hr]
      rfl
  · rw [if_neg hkey] at hfound
    obtain ⟨q, hq, heq⟩ := Option.map_eq_some_iff.mp hfound
    have hzero : selections r'.taskId r'.workRev [⟨e, s, counted f e.eventId s2⟩] = 0 :=
      selections_none (by rw [hcount]; simpa using hkey)
    have hold : revisionIndex s r'.taskId r'.workRev = some q := by
      rcases revisionFor_cases hfor with ⟨rfl, -, -⟩ | ⟨hfresh, rfl, hroot⟩
      · exact hq
      · rcases addRevision_index hs hfresh hroot hq with hold | ⟨-, rfl⟩
        · exact hold
        · exact absurd (revisionIndex_some hq).2 hkey
    left
    exact ⟨q, hold, by rw [← heq], by rw [← heq], by rw [hzero, ← heq]; rfl⟩

/-- A revision behind an event was there before, or the event made it. -/
theorem took_revision (h : Took w s e s') (hs : WellKept s) {r' : WorkRevision}
    (hfound : revisionIndex s' r'.taskId r'.workRev = some r') : CarriedOn s e s' r' ∨ Made s e s' r' := by
  cases h with
  | idle hold =>
    left
    refine ⟨r', hfound, rfl, rfl, ?_⟩
    rw [selections_none]
    · rfl
    · cases hsel : selectionOf e with
      | none => rw [selectsFresh, hsel, Option.any_none]
      | some f =>
        obtain ⟨args, hask⟩ := selectionOf_some hsel
        have hsome := hold f args hask
        simp [selectsFresh, hsel, hsome]
  | @root contextId taskId workRev s' hask hfresh hadd =>
    have hother : ∀ f args, askOf e ≠ .select f args := fun f args hsel => by rw [hask] at hsel; cases hsel
    rcases addRevision_index hs hfresh hadd hfound with hold | ⟨hnone, rfl⟩
    · exact .inl (carriedOn_of_quiet hother hold)
    · refine .inr ⟨hnone, 0, ?_, ?_⟩
      · rw [Opened, controllerUpdate_root hask, if_neg (by decide)]
        exact ⟨rfl, rfl⟩
      · rw [selections_none (selectsFresh_other hother _ _ s s')]
        rfl
  | @child contextId taskId workRev payload s1 s' carried hask hfresh hchild hcarry =>
    have hother : ∀ f args, askOf e ≠ .select f args := fun f args hsel => by rw [hask] at hsel; cases hsel
    have hsame : s'.revisions = s1.revisions := by
      rcases hcarry with ⟨-, rfl⟩ | ⟨-, hadd⟩
      · rfl
      · exact (addStep_gained hadd).1
    rw [revisionIndex_eq, hsame, ← revisionIndex_eq] at hfound
    obtain ⟨l, parent, step, r, -, hparent, -, -, -, -, hr, hadd, -⟩ := childRevision_cases hchild
    rcases addRevision_index hs (by rw [hr]; exact hfresh) hadd hfound with hold | ⟨hnone, heq⟩
    · exact .inl (carriedOn_of_quiet hother hold)
    · subst heq
      refine .inr ⟨hnone, parent.semanticSteps, ?_, ?_⟩
      · rw [Opened, controllerUpdate_child hask, if_pos rfl]
        exact ⟨parent, by rw [hr]; exact hparent, by rw [hr], rfl⟩
      · rw [selections_none (selectsFresh_other hother _ _ s s'), hr]
        rfl
  | @selected f args s1 s2 r hask hnew hfor hrepair hbudget hadd => exact selected_revision hs hask hnew hfor hadd hfound
  | @late f payload s' hask hresult hnew hlate hadd =>
    have hother : ∀ f args, askOf e ≠ .select f args := fun f args hsel => by rw [hask] at hsel; cases hsel
    rw [revisionIndex_eq, (addStep_gained hadd).1, ← revisionIndex_eq] at hfound
    exact .inl (carriedOn_of_quiet hother hfound)
  | @reported f payload x x' hask hstep hreport =>
    have hother : ∀ f args, askOf e ≠ .select f args := fun f args hsel => by rw [hask] at hsel; cases hsel
    exact .inl (carriedOn_of_quiet hother hfound)

end Event

/-! ## Every history -/

/-- The ledger keeps its bounds and keys, and every revision in it is accounted for. -/
structure Balanced (st : Live) : Prop where
  wellKept : WellKept st.store
  accounts : ∀ r ∈ st.store.revisions, Accounted st.history r

theorem selections_append (id : Bytes) (rev : Int) (history : List Entry) (a : Entry) :
    selections id rev (history ++ [a]) = selections id rev history + selections id rev [a] :=
  List.countP_append

theorem Opened.congr {a : Entry} {r r' : WorkRevision} {base : Nat} (h : Opened a r base) (hid : r'.taskId = r.taskId)
    (hrev : r'.workRev = r.workRev) (hparent : r'.parentWorkRev = r.parentWorkRev)
    (hlineage : r'.lineageRootRev = r.lineageRootRev) : Opened a r' base := by
  unfold Opened at h ⊢
  rwa [hid, hrev, hparent, hlineage]

/-- One more event on the account of a revision. -/
theorem Accounted.carry {history : List Entry} {s s' : WorkStore} {e : LedgerEvent} {r' : WorkRevision}
    (hs : ∀ r ∈ s.revisions, Accounted history r) (h : CarriedOn s e s' r')
    (hfound : revisionIndex s' r'.taskId r'.workRev = some r') : Accounted (history ++ [⟨e, s, s'⟩]) r' := by
  obtain ⟨r, hr, hparent, hlineage, hsteps⟩ := h
  obtain ⟨hmem, hkey⟩ := revisionIndex_some hr
  obtain ⟨hid, hrev⟩ := Prod.mk.inj hkey
  obtain ⟨pre, a, post, base, rfl, hmade, hstays, hopened, hcount⟩ := hs r hmem
  rw [hid, hrev] at hmade hcount
  refine ⟨pre, a, post ++ [⟨e, s, s'⟩], base, by simp, hmade, ?_, hopened.congr hid.symm hrev.symm hparent hlineage, ?_⟩
  · intro b hb
    rcases List.mem_append.mp (List.cons_append ▸ hb : b ∈ (a :: post) ++ [⟨e, s, s'⟩]) with hb | hb
    · rw [← hid, ← hrev]
      exact hstays b hb
    · rw [List.mem_singleton.mp hb]
      exact Option.isSome_of_eq_some hfound
  · rw [hsteps, hcount, ← List.cons_append, selections_append, Nat.add_assoc]

theorem Accounted.open {history : List Entry} {s s' : WorkStore} {e : LedgerEvent} {r' : WorkRevision} (h : Made s e s' r')
    (hfound : revisionIndex s' r'.taskId r'.workRev = some r') : Accounted (history ++ [⟨e, s, s'⟩]) r' := by
  obtain ⟨hnone, base, hopened, hsteps⟩ := h
  refine ⟨history, ⟨e, s, s'⟩, [], base, rfl, hnone, ?_, hopened, hsteps⟩
  intro b hb
  rw [List.mem_singleton.mp hb]
  exact Option.isSome_of_eq_some hfound

theorem liveStep_balanced {st : Live} (hst : Balanced st) (i : World × LedgerEvent) : Balanced (liveStep st i) := by
  unfold liveStep
  rcases hrun : rtWorkStateApplyEvent i.1 st.store i.2 with ⟨after, _ | _⟩
  · cases live_refused hrun
    exact hst
  · have htook := live_took hrun
    have hkept := htook.wellKept hst.wellKept
    refine ⟨hkept, fun r' hr' => ?_⟩
    have hfound := revisionIndex_of_mem hkept hr'
    rcases took_revision htook hst.wellKept hfound with hold | hnew
    · exact Accounted.carry hst.accounts hold hfound
    · exact Accounted.open hnew hfound

/-- Whatever events come, in whatever order: the keys of revisions and of steps are distinct, no budget is
passed, and each revision has counted what it started from and the selections made on it since its record was made. -/
theorem budgets_accounted (inputs : List (World × LedgerEvent)) :
    ((live inputs).store.revisions.map revisionKey).Nodup ∧ ((live inputs).store.items.map stepKey).Nodup ∧
      ∀ r ∈ (live inputs).store.revisions, r.semanticSteps ≤ 8 ∧ r.repairAttempts ≤ 8 ∧ Accounted (live inputs).history r := by
  have hbalanced : Balanced (live inputs) := by
    have hall : ∀ st, Balanced st → Balanced (inputs.foldl liveStep st) := by
      induction inputs with
      | nil => exact fun st hst => hst
      | cons i inputs ih => exact fun st hst => ih _ (liveStep_balanced hst i)
    refine hall {} ⟨.empty, fun r hr => ?_⟩
    cases hr
  refine ⟨hbalanced.wellKept.revisionKeys, hbalanced.wellKept.stepKeys, fun r hr => ?_⟩
  exact ⟨(hbalanced.wellKept.budgets r hr).1, (hbalanced.wellKept.budgets r hr).2, hbalanced.accounts r hr⟩

/-! ## Requests that are not counted -/

/-- The distinct requests for the revision that the ledger took. -/
def distinctRequests (taskId : Bytes) (workRev : Int) (history : List Entry) : Nat :=
  (((history.map Entry.event).filter fun e =>
    (selectionOf e).any fun f => f.taskId = taskId && f.workRev = workRev).map LedgerEvent.eventId).eraseDups.length

def openWorld : World := { outbox := { sourcePending := fun _ => false, written := true }, rows := [] }

def eventOf (type payloadJson eventId : String) : LedgerEvent :=
  { runContext := lit "c", type := lit type, payloadJson := lit payloadJson, eventId := lit eventId }

def madeTask : LedgerEvent := eventOf "task_created" "\x7b\"task_id\":\"t\",\"kind\":\"work\"\x7d" "e1"

def firstRequest : LedgerEvent :=
  eventOf "action_request"
    "\x7b\"task_id\":\"t\",\"work_rev\":1,\"request_id\":\"q\",\"action\":\"work\",\"trigger_event_id\":\"g\"\x7d" "e2"

def madeRevision : LedgerEvent :=
  eventOf "task_updated"
    "\x7b\"task_id\":\"t\",\"work_rev\":2,\"revision_origin\":\"controller\",\"parent_work_rev\":1,\"request_id\":\"q\",\"action\":\"work\",\"trigger_event_id\":\"g\"\x7d" "e3"

def carriedRequest : LedgerEvent :=
  eventOf "action_request"
    "\x7b\"task_id\":\"t\",\"work_rev\":2,\"request_id\":\"q\",\"action\":\"work\",\"trigger_event_id\":\"g\"\x7d" "e2"

def firstStep : WorkStep :=
  { contextId := lit "c", taskId := lit "t", workRev := 1, requestId := lit "q", action := lit "work",
    triggerEventId := lit "g", selectedArgs := [], status := lit "selected", selectedEventId := lit "e2", resultEventId := [],
    terminalEventId := [], repairState := lit "none" }

def firstRevision : WorkRevision :=
  { contextId := lit "c", taskId := lit "t", workRev := 1, parentWorkRev := 0, lineageRootRev := 1, semanticSteps := 1,
    repairAttempts := 0, requestId := lit "q", action := lit "work", triggerEventId := lit "g", selectedEventId := lit "e2" }

def secondRevision : WorkRevision := { firstRevision with workRev := 2, parentWorkRev := 1 }

def taskLedger : WorkStore := { revisions := [rootRevision (lit "c") (lit "t") 1] }

def selectedLedger : WorkStore := { revisions := [firstRevision], items := [firstStep] }

def revisedLedger : WorkStore :=
  { revisions := [firstRevision, secondRevision]
    items := [firstStep, { firstStep with workRev := 2, status := lit "revised" }] }

/-- A task, a selection, the revision it makes, and the selection once more on that revision. -/
def carriedInputs : List (World × LedgerEvent) :=
  [(openWorld, madeTask), (openWorld, firstRequest), (openWorld, madeRevision), (openWorld, carriedRequest)]

def carriedHistory : List Entry :=
  [⟨madeTask, {}, taskLedger⟩, ⟨firstRequest, taskLedger, selectedLedger⟩, ⟨madeRevision, selectedLedger, revisedLedger⟩,
    ⟨carriedRequest, revisedLedger, revisedLedger⟩]

theorem madeTask_live : rtWorkStateApplyEvent openWorld {} madeTask = (taskLedger, true) := by
  unfold madeTask eventOf
  rw [lit_ofList, lit_ofList, lit_ofList, lit_ofList]
  decide +kernel

theorem firstRequest_live : rtWorkStateApplyEvent openWorld taskLedger firstRequest = (selectedLedger, true) := by
  unfold firstRequest eventOf
  rw [lit_ofList, lit_ofList, lit_ofList, lit_ofList]
  decide +kernel

theorem carried_live : live carriedInputs = { store := revisedLedger, history := carriedHistory } := by
  have hrevised : rtWorkStateApplyEvent openWorld selectedLedger madeRevision = (revisedLedger, true) := by
    unfold madeRevision eventOf
    rw [lit_ofList, lit_ofList, lit_ofList, lit_ofList]
    decide +kernel
  have hcarried : rtWorkStateApplyEvent openWorld revisedLedger carriedRequest = (revisedLedger, true) := by
    unfold carriedRequest eventOf
    rw [lit_ofList, lit_ofList, lit_ofList, lit_ofList]
    decide +kernel
  -- by rewriting: unfolded, the kernel would read the payloads again
  rw [live, carriedInputs, List.foldl_cons, List.foldl_cons, List.foldl_cons, List.foldl_cons, List.foldl_nil,
    liveStep_taken [] madeTask_live, liveStep_taken _ firstRequest_live, liveStep_taken _ hrevised, liveStep_taken _ hcarried]
  simp only [carriedHistory, List.cons_append, List.nil_append]

example : selections (lit "t") 1 [] = 0 := by decide +kernel

theorem carried_requests : distinctRequests secondRevision.taskId secondRevision.workRev
    [⟨madeRevision, selectedLedger, revisedLedger⟩, ⟨carriedRequest, revisedLedger, revisedLedger⟩] = 1 := by
  have hother : selectionOf madeRevision = none := if_neg fun h => absurd h.1 (by rw [lit_ofList]; decide)
  have hon : ((selectionOf carriedRequest).any fun f =>
      f.taskId = secondRevision.taskId && f.workRev = secondRevision.workRev) = true := by
    unfold carriedRequest eventOf
    repeat rw [lit_ofList]
    decide +kernel
  simp [distinctRequests, hother, hon, List.eraseDups_cons]

theorem madeRevision_update : controllerUpdate madeRevision = true := by
  unfold madeRevision eventOf
  repeat rw [lit_ofList]
  decide +kernel

/-- The request that was carried over to a revision is taken there too, and counts for nothing. -/
theorem carried_request_uncounted : ∃ r ∈ (live carriedInputs).store.revisions,
    ¬ AccountedBy distinctRequests (live carriedInputs).history r := by
  rw [carried_live]
  refine ⟨secondRevision, by simp [revisedLedger, secondRevision], ?_⟩
  rintro ⟨pre, a, post, base, hsplit, hmade, hstays, hopened, hsteps⟩
  have htask : revisionIndex taskLedger (lit "t") 2 = none := by decide
  have hselected : revisionIndex selectedLedger (lit "t") 2 = none := by decide
  have hrevised : revisionIndex revisedLedger (lit "t") 2 = some secondRevision := by rw [lit_ofList]; decide
  have hfirst : revisionIndex selectedLedger (lit "t") 1 = some firstRevision := by decide
  -- the record of the revision can only have been made by the third event
  match pre, hsplit with
  | [], hsplit =>
    obtain ⟨rfl, rfl⟩ := List.cons.inj hsplit
    have hstays' := hstays _ List.mem_cons_self
    rw [show revisionIndex taskLedger secondRevision.taskId secondRevision.workRev = none from htask] at hstays'
    cases hstays'
  | [_], hsplit =>
    obtain ⟨rfl, rfl⟩ := List.cons.inj (List.cons.inj hsplit).2
    have hstays' := hstays _ List.mem_cons_self
    rw [show revisionIndex selectedLedger secondRevision.taskId secondRevision.workRev = none from hselected] at hstays'
    cases hstays'
  | [_, _], hsplit =>
    obtain ⟨rfl, rfl⟩ := List.cons.inj (List.cons.inj (List.cons.inj hsplit).2).2
    rw [Opened, madeRevision_update, if_pos rfl] at hopened
    obtain ⟨parent, hparent, -, rfl⟩ := hopened
    rw [show revisionIndex selectedLedger secondRevision.taskId secondRevision.parentWorkRev = some firstRevision from hfirst,
      Option.some.injEq] at hparent
    subst hparent
    rw [carried_requests] at hsteps
    simp [secondRevision] at hsteps
  | [_, _, _], hsplit =>
    obtain ⟨rfl, rfl⟩ := List.cons.inj (List.cons.inj (List.cons.inj (List.cons.inj hsplit).2).2).2
    rw [show revisionIndex revisedLedger secondRevision.taskId secondRevision.workRev = some secondRevision from hrevised] at hmade
    cases hmade
  | _ :: _ :: _ :: _ :: _, hsplit =>
    have hlen := congrArg List.length hsplit
    simp [carriedHistory] at hlen

end Floofclaw.Guarantees.Budgets
