import Mathlib.Data.List.Pairwise
import Floofclaw.Guarantees.ExternalRecords
import Floofclaw.Guarantees.OperationRecords

/-!
# One attempt for a revision

The phase starts a task again only where the recorded attempt is older than the
task's revision. Between the start and the record stands the operation, still
running under its call, so a start is covered either by the record or by that
operation. Every step that ends the operation with its update written keeps
this; the ones that end it without are the ways out of the rule.
-/

set_option autoImplicit false

namespace Floofclaw.Guarantees.WorkAttempts
open Floofclaw.Lib Floofclaw.Source.Json Floofclaw.Source.TaskState Floofclaw.Source.TaskEvents Floofclaw.Source.Operations
open Floofclaw.Source.Workers Floofclaw.Guarantees.TaskStoreText Floofclaw.Guarantees.TaskStates
open Floofclaw.Guarantees.TaskPayloads Floofclaw.Guarantees.ExternalRecords Floofclaw.Guarantees.ResultRuns
open Floofclaw.Guarantees.OperationRecords

/-- A task is started at rising revisions, so at each revision once. -/
def Rising (starts : List Start) : Prop := starts.Pairwise fun a b => a.taskId = b.taskId → a.workRev < b.workRev

/-! ## The condition -/

/-- The update of the task reaches the store, or the task has left the operation's revision. -/
def recordFits (rows : List TaskItem) (op : OperationItem) (status excerpt : Bytes) (env : Env) : Bool :=
  decide (rtTaskWorkRevOf rows op.taskId ≠ some op.workRev) ||
    env.projects && (externalPayload op.taskId op.handle op.action status excerpt op.workRev).any fun payload =>
      (applyTaskEvent rows (lit "task_updated") payload).isSome

/-- A call of the phase whose operation runs. -/
def pending (s : State) (opId : Bytes) : Bool :=
  (s.calls.any fun c => c.byPhase && c.allocated && decide (opIdOf c = opId)) &&
    (opFind s.ops opId).any fun o => o.status = .running

/-- The operation ends with its update in the task. -/
def conclusionFits (s : State) (opId excerpt : Bytes) (env : Env) : Bool :=
  !pending s opId || env.concludes && (opFind s.ops opId).all fun op => recordFits s.rows op (lit "finished") excerpt env

/-- An operation is allocated once for its call, and at the revision of a task. -/
def allocationFits (s : State) (call : ManagedCall) (env : Env) : Bool :=
  (opFind s.ops (opIdOf call)).isSome || !env.allocates ||
    decide (recordedRev s.rows call ≤ int64Max) &&
      if call.byPhase then !call.allocated && decide (0 < recordedRev s.rows call)
      else decide (0 < recordedRev s.rows call) || !s.rows.any fun t => t.taskId = call.taskId && t.kind = lit "work"

section Condition
variable (cfg : Config)

def reactionFits (s : State) (call : ManagedCall) (env : Env) : Reaction → Bool
  | .nothing | .complains | .closes => !pending s (opIdOf call)
  | .runs _ => !pending s (opIdOf call) ||
      (opFind s.ops (opIdOf call)).all fun op => recordFits s.rows op (lit "running") [] env
  | .ends _ text =>
    if (opFind s.ops (opIdOf call)).isNone then
      allocationFits s call env && conclusionFits (allocateForCall cfg s call env) (opIdOf call) text env
    else conclusionFits s (opIdOf call) text env

def terminalFits (s : State) (call : ManagedCall) (t : Terminal) (env : Env) : Bool :=
  reactionFits cfg s call env (reactionTo s call t)

/-- A task id that something of the driver names. -/
def isUsed (s : State) (id : Bytes) : Bool :=
  (s.starts.any fun st => st.taskId = id) || (s.ops.any fun o => o.taskId = id) || s.calls.any fun c => c.taskId = id

/-- No other event writes a record or takes the id of a task that was started. -/
def eventFits (s : State) (type payloadJson : Bytes) : Bool :=
  match jsonRefTopObject payloadJson with
  | none => true
  | some payload =>
    if type = lit "task_created" then !(jsonRefObjectGetString payload (lit "task_id") rtSmall).any (isUsed s)
    else if type = lit "task_updated" then (rtTaskJsonStateValue payload (lit "external")).isNone
    else true

def phaseFits (s : State) (contextId : Bytes) : Bool :=
  match rtAgentWorkersRun cfg.handler cfg.stdoutCap s.rows contextId with
  | .fails | .idle _ => true
  | .starts taskId _ => !s.calls.any fun c => c.byPhase && c.taskId = taskId

/-- The steps that keep the record of an attempt with the attempt. -/
def fits (s : State) : Step → Bool
  | .taskEvent type payloadJson => eventFits s type payloadJson
  | .phase contextId _ => phaseFits cfg s contextId
  | .request _ => true
  | .allocate requestId env => (findCall s requestId).all fun call => allocationFits s call env
  | .terminal requestId t env => (findCall s requestId).all fun call => terminalFits cfg s call t env
  | .lost requestId => (findCall s requestId).all fun call => !pending s (opIdOf call)
  | .recovered requestId env => (findCall s requestId).all fun call =>
    !pending s (opIdOf call) &&
      terminalFits cfg (closeWithoutResult cfg s (opIdOf call)) call (.failed ambiguousDetail) env
  | .claim opId _ text env => conclusionFits s opId text env

def Fits (s : State) (i : Step) : Prop := fits cfg s i = true

instance (s : State) (i : Step) : Decidable (Fits cfg s i) := inferInstanceAs (Decidable (_ = true))

end Condition

/-! ## The invariant -/

/-- The task bears the attempt at its revision or a later one. -/
def HasAttempt (t : TaskItem) : Prop := ∃ a, attemptOf t.external = some a ∧ t.workRev ≤ a.workRev

/-- The operation of a start runs under its call. -/
def InFlight (calls : List ManagedCall) (ops : OperationStore) (st : Start) : Prop :=
  ∃ c ∈ calls, c.byPhase = true ∧ c.allocated = true ∧ opIdOf c = st.opId ∧ c.taskId = st.taskId ∧
    ∃ o ∈ ops, o.handle = st.opId ∧ o.status = .running ∧ o.taskId = st.taskId ∧ o.workRev = st.workRev

structure OpOk (rows : List TaskItem) (o : OperationItem) : Prop where
  handle : TextField rtSmall o.handle
  named : o.handle ≠ []
  taskId : TextField rtSmall o.taskId
  bound : o.workRev ≤ int64Max
  unbound : o.workRev ≤ 0 → ∀ t ∈ rows, t.taskId = o.taskId → o.taskId ≠ [] → t.kind ≠ lit "work"

structure StartOk (s : State) (st : Start) : Prop where
  named : st.taskId ≠ []
  covered : ∀ t ∈ s.rows, t.taskId = st.taskId → t.kind = lit "work" ∧ st.workRev ≤ t.workRev ∧
    (st.workRev = t.workRev → HasAttempt t ∨ InFlight s.calls s.ops st)

structure CallOk (s : State) (c : ManagedCall) : Prop where
  taskId : TextField rtSmall c.taskId
  unbound : c.byPhase = true → c.workRev = 0
  asked : c.byPhase = true → c.allocated = false → c.taskId ≠ [] → ∀ t ∈ s.rows, t.taskId = c.taskId →
    t.kind = lit "work" ∧ ∀ st ∈ s.starts, st.taskId = c.taskId → st.workRev < t.workRev

structure Inv (s : State) : Prop where
  distinct : DistinctIds s.rows
  rowIds : ∀ t ∈ s.rows, TextField rtSmall t.taskId
  handles : (s.ops.map OperationItem.handle).Nodup
  ops : ∀ o ∈ s.ops, OpOk s.rows o
  requests : (s.calls.map ManagedCall.requestId).Nodup
  single : s.calls.Pairwise fun a b => a.byPhase = true → b.byPhase = true → a.taskId ≠ b.taskId
  calls : ∀ c ∈ s.calls, CallOk s c
  started : ∀ st ∈ s.starts, StartOk s st
  rising : Rising s.starts

theorem empty_inv : Inv State.empty :=
  ⟨.nil, nofun, .nil, nofun, .nil, .nil, nofun, nofun, .nil⟩

/-! ## Changing the stores -/

/-- A row goes on under its id. -/
structure Follows (t t' : TaskItem) : Prop where
  id : t'.taskId = t.taskId
  kind : t'.kind = t.kind
  rev : t.workRev ≤ t'.workRev
  attempt : t.kind = lit "work" → t'.workRev = t.workRev → HasAttempt t → HasAttempt t'

theorem Follows.refl (t : TaskItem) : Follows t t := ⟨rfl, rfl, Int.le_refl _, fun _ _ h => h⟩

structure RowsKept (s : State) (rows : List TaskItem) : Prop where
  distinct : DistinctIds rows
  ids : ∀ t ∈ rows, TextField rtSmall t.taskId
  follows : ∀ t' ∈ rows, (∃ t ∈ s.rows, Follows t t') ∨ isUsed s t'.taskId = false

theorem RowsKept.refl {s : State} (h : Inv s) : RowsKept s s.rows :=
  ⟨h.distinct, h.rowIds, fun t ht => .inl ⟨t, ht, .refl t⟩⟩

structure OpsKept (s : State) (ops : OperationStore) : Prop where
  handles : (ops.map OperationItem.handle).Nodup
  same : ∀ o' ∈ ops, ∃ o ∈ s.ops, o'.handle = o.handle ∧ o'.taskId = o.taskId ∧ o'.workRev = o.workRev

theorem OpsKept.refl {s : State} (h : Inv s) : OpsKept s s.ops :=
  ⟨h.handles, fun o ho => ⟨o, ho, rfl, rfl, rfl⟩⟩

theorem isUsed_false {s : State} {id : Bytes} (h : isUsed s id = false) : (∀ st ∈ s.starts, st.taskId ≠ id) ∧
    (∀ o ∈ s.ops, o.taskId ≠ id) ∧ ∀ c ∈ s.calls, c.taskId ≠ id := by
  simpa [isUsed, and_assoc] using h

/-- The stores change and no start loses what covers it. -/
theorem Inv.change {s : State} {rows : List TaskItem} {ops : OperationStore} (h : Inv s) (hrows : RowsKept s rows)
    (hops : OpsKept s ops)
    (hflight : ∀ st ∈ s.starts, ∀ t' ∈ rows, t'.taskId = st.taskId → t'.workRev = st.workRev → InFlight s.calls s.ops st →
      HasAttempt t' ∨ InFlight s.calls ops st) : Inv { s with rows := rows, ops := ops } := by
  refine ⟨hrows.distinct, hrows.ids, hops.handles, ?_, h.requests, h.single, ?_, ?_, h.rising⟩
  · intro o' ho'
    obtain ⟨o, ho, hhandle, htask, hrev⟩ := hops.same o' ho'
    have hok := h.ops o ho
    refine ⟨hhandle ▸ hok.handle, hhandle ▸ hok.named, htask ▸ hok.taskId, hrev ▸ hok.bound, ?_⟩
    rw [hrev, htask]
    intro hzero t' ht' hid hne
    rcases hrows.follows t' ht' with ⟨t, ht, hf⟩ | hfresh
    · rw [hf.kind]
      exact hok.unbound hzero t ht (hf.id ▸ hid) hne
    · exact absurd hid.symm ((isUsed_false hfresh).2.1 o ho)
  · intro c hc
    have hok := h.calls c hc
    refine ⟨hok.taskId, hok.unbound, fun hphase hnew hne t' ht' hid => ?_⟩
    rcases hrows.follows t' ht' with ⟨t, ht, hf⟩ | hfresh
    · obtain ⟨hkind, hearlier⟩ := hok.asked hphase hnew hne t ht (hf.id ▸ hid)
      exact ⟨hf.kind ▸ hkind, fun st hst hsame => Int.lt_of_lt_of_le (hearlier st hst hsame) hf.rev⟩
    · exact absurd hid.symm ((isUsed_false hfresh).2.2 c hc)
  · intro st hst
    have hok := h.started st hst
    refine ⟨hok.named, fun t' ht' hid => ?_⟩
    rcases hrows.follows t' ht' with ⟨t, ht, hf⟩ | hfresh
    · obtain ⟨hkind, hle, hcovered⟩ := hok.covered t ht (hf.id ▸ hid)
      refine ⟨hf.kind ▸ hkind, Int.le_trans hle hf.rev, fun heq => ?_⟩
      have hrev : t'.workRev = t.workRev := Int.le_antisymm (heq ▸ hle) hf.rev
      rcases hcovered (heq.trans hrev) with hattempt | hinflight
      · exact .inl (hf.attempt hkind hrev hattempt)
      · exact hflight st hst t' ht' hid heq.symm hinflight
    · exact absurd hid.symm ((isUsed_false hfresh).1 st hst)

/-! ## Task events -/

theorem rowsChange_ids {rows rows' : List TaskItem} {type : Bytes} {payload : JsonRef} (hchange : RowsChange type payload rows rows')
    (h : ∀ t ∈ rows, TextField rtSmall t.taskId) : ∀ t ∈ rows', TextField rtSmall t.taskId := by
  intro u hu
  cases hchange with
  | created _ hnew _ =>
    rcases List.mem_append.mp hu with hu | hu
    · exact h u hu
    · cases List.mem_singleton.mp hu
      exact getString_text (createItem_new hnew).id
  | recycled _ _ _ hnew _ =>
    rcases List.mem_append.mp hu with hu | hu
    · exact h u (List.mem_of_mem_eraseIdx hu)
    · cases List.mem_singleton.mp hu
      exact getString_text (createItem_new hnew).id
  | changed _ hrow _ _ hitem =>
    rcases List.mem_or_eq_of_mem_set hu with hu | rfl
    · exact h u hu
    · exact (reduceItem_change hitem).1.id ▸ h _ (List.mem_of_getElem? hrow)

theorem rowsChange_kept {s : State} {type : Bytes} {payload : JsonRef} {rows : List TaskItem} (h : Inv s)
    (hchange : RowsChange type payload s.rows rows)
    (hfresh : type = lit "task_created" → ∀ id, jsonRefObjectGetString payload (lit "task_id") rtSmall = some id → isUsed s id = false)
    (hsafe : type = lit "task_updated" → rtTaskJsonStateValue payload (lit "external") = none) : RowsKept s rows := by
  refine ⟨hchange.distinct h.distinct, rowsChange_ids hchange h.rowIds, ?_⟩
  intro u hu
  cases hchange with
  | @created _ t hnew htype =>
    rcases List.mem_append.mp hu with hu | hu
    · exact .inl ⟨u, hu, .refl u⟩
    · cases List.mem_singleton.mp hu
      exact .inr (hfresh htype _ (createItem_new hnew).id)
  | @recycled _ i old t _ _ hnew htype =>
    rcases List.mem_append.mp hu with hu | hu
    · exact .inl ⟨u, List.mem_of_mem_eraseIdx hu, .refl u⟩
    · cases List.mem_singleton.mp hu
      exact .inr (hfresh htype _ (createItem_new hnew).id)
  | @changed _ i t t' hrow hname hid hitem =>
    have hchange := (reduceItem_change hitem).1
    have hexternal : t'.external = t.external := by
      have hset := reduceItem_external hitem
      by_cases htype : type = lit "task_updated"
      · rw [if_pos htype] at hset
        rcases hset with ⟨-, heq⟩ | ⟨v, old, hv, -⟩
        · exact heq
        · rw [hsafe htype] at hv
          cases hv
      · rwa [if_neg htype] at hset
    have hfollows : Follows t t' := by
      refine ⟨hchange.id, hchange.kind, ?_, fun _ hrev hattempt => ?_⟩
      · rw [hchange.rev]
        exact nextRev_le type payload t.workRev
      · rwa [HasAttempt, hexternal, hrev]
    rcases List.mem_or_eq_of_mem_set hu with hu | rfl
    · exact .inl ⟨u, hu, .refl u⟩
    · exact .inl ⟨t, List.mem_of_getElem? hrow, hfollows⟩

theorem taskEvent_inv {s : State} {type payloadJson : Bytes} (h : Inv s) (hfit : eventFits s type payloadJson = true) :
    Inv { s with rows := (applyTaskEvent s.rows type payloadJson).getD s.rows } := by
  refine h.change ?_ (.refl h) fun st _ t' _ _ _ hinflight => .inr hinflight
  cases happly : applyTaskEvent s.rows type payloadJson with
  | none => exact .refl h
  | some rows =>
    obtain ⟨payload, htop, hchange⟩ := applyTaskEvent_change happly
    rw [eventFits, htop] at hfit
    dsimp only at hfit
    refine rowsChange_kept h hchange ?_ ?_
    · intro htype id hid
      simpa [htype, hid] using hfit
    · intro htype
      subst htype
      rw [if_neg (lit_ne (by decide)), if_pos rfl] at hfit
      exact Option.isNone_iff_eq_none.mp hfit

/-! ## The update of the task -/

theorem workRevOf_row {rows : List TaskItem} {taskId : Bytes} {rev : Int} (h : rtTaskWorkRevOf rows taskId = some rev) :
    taskId ≠ [] ∧ ∃ i : Nat, ∃ t, taskIndexOf rows taskId = some i ∧ rows[i]? = some t ∧ t.taskId = taskId ∧ t.workRev = rev := by
  obtain ⟨t, ht, rfl⟩ := Option.map_eq_some_iff.mp h
  obtain ⟨i, hi, hrow⟩ := Option.bind_eq_some_iff.mp ht
  obtain ⟨hid, u, hu, huid⟩ := taskIndexOf_some hi
  rw [hrow] at hu
  cases hu
  exact ⟨hid, i, t, hi, hrow, huid, rfl⟩

theorem matches_attempt {rows : List TaskItem} {contextId taskId handle : Bytes} {currentRev attemptRev : Int} {i : Nat}
    {t : TaskItem} (hindex : taskIndexOf rows taskId = some i) (hrow : rows[i]? = some t)
    (h : taskExternalMatchesAttempt rows contextId taskId currentRev handle attemptRev = true) {a : Attempt}
    (ha : attemptOf t.external = some a) : a.workRev = attemptRev := by
  simp only [taskExternalMatchesAttempt, Bool.and_eq_true, hindex, Option.bind_some, hrow, Option.any_some,
    Option.any_eq_true, decide_eq_true_eq] at h
  obtain ⟨-, ext, hext, -, hlong⟩ := h
  simp only [attemptOf, Option.bind_eq_bind, Option.bind_eq_some_iff, Option.pure_def, Option.some.injEq] at ha
  obtain ⟨-, -, ext', hext', -, -, -, -, rfl⟩ := ha
  rw [hext] at hext'
  cases (Option.filter_eq_some_iff.mp hext').1
  rw [hlong]

/-- The rows the update leaves. -/
def projectedRows (rows : List TaskItem) (op : OperationItem) (status excerpt : Bytes) (env : Env) : List TaskItem :=
  match updateTaskExternal rows op.contextId op.taskId op.handle op.action status excerpt op.workRev with
  | none => rows
  | some payload => if !env.projects then rows else (applyTaskEvent rows (lit "task_updated") payload).getD rows

theorem project_rows (s : State) (op : OperationItem) (status excerpt : Bytes) (env : Env) :
    project s op status excerpt env = { s with rows := projectedRows s.rows op status excerpt env } := by
  unfold project projectedRows
  cases updateTaskExternal s.rows op.contextId op.taskId op.handle op.action status excerpt op.workRev with
  | none => rfl
  | some payload => cases env.projects <;> rfl

theorem inLong_of_pos {z : Int} (hpos : 0 < z) (hbound : z ≤ int64Max) : InLong z :=
  ⟨Int.le_trans (by decide) (Int.le_of_lt hpos), hbound⟩

/-- The row of an operation keeps an attempt at its revision or a later one. -/
theorem recorded_follows {s : State} {op : OperationItem} {rows' : List TaskItem} {i : Nat} {t t' : TaskItem} (h : Inv s)
    (hop : OpOk s.rows op) (hallowed : currentOrOwn s.rows op.contextId op.taskId op.handle op.workRev = true)
    (hrec : Recorded s.rows op.taskId op.workRev rows' i t t') : Follows t t' := by
  refine ⟨hrec.id, hrec.kind, Int.le_of_eq hrec.rev.symm, fun hkind hrev hattempt => ?_⟩
  have hpos : 0 < op.workRev := by
    by_contra hno
    exact hop.unbound (by omega) t (List.mem_of_getElem? hrec.row) hrec.name hrec.named hkind
  obtain ⟨a', ha', harev⟩ := hrec.attempt (inLong_of_pos hpos hop.bound)
  refine ⟨a', ha', ?_⟩
  rw [harev, hrev]
  rw [currentOrOwn, decide_eq_false (by omega), Bool.false_or, Option.any_eq_true] at hallowed
  obtain ⟨current, hcurrent, hmatches⟩ := hallowed
  obtain ⟨-, j, u, hindex, hurow, hid, rfl⟩ := workRevOf_row hcurrent
  have hij : i = j := h.distinct.unique hrec.row hurow (hrec.name.trans hid.symm) (hrec.name ▸ hrec.named)
  subst hij
  rw [hrec.row] at hurow
  cases hurow
  rw [Bool.or_eq_true, decide_eq_true_eq] at hmatches
  rcases hmatches with hsame | hmatches
  · exact Int.le_of_eq hsame
  · obtain ⟨a, ha, hle⟩ := hattempt
    rwa [matches_attempt hindex hrec.row hmatches ha] at hle

theorem recorded_kept {s : State} {taskId : Bytes} {workRev : Int} {rows' : List TaskItem} {i : Nat} {t t' : TaskItem}
    (h : Inv s) (hrec : Recorded s.rows taskId workRev rows' i t t') (hfollows : Follows t t') : RowsKept s rows' := by
  have hmem : t ∈ s.rows := List.mem_of_getElem? hrec.row
  rw [hrec.result]
  refine ⟨?_, ?_, ?_⟩
  · rw [DistinctIds, map_set_same hrec.row hrec.id]
    exact h.distinct
  · intro u hu
    rcases List.mem_or_eq_of_mem_set hu with hu | rfl
    · exact h.rowIds u hu
    · exact hrec.id ▸ h.rowIds t hmem
  · intro u hu
    rcases List.mem_or_eq_of_mem_set hu with hu | rfl
    · exact .inl ⟨u, hu, .refl u⟩
    · exact .inl ⟨t, hmem, hfollows⟩

/-- What the update makes of the rows: nothing, or the record of the operation's own task. -/
theorem projectedRows_cases {rows : List TaskItem} {op : OperationItem} (hop : OpOk rows op) (status excerpt : Bytes) (env : Env) :
    projectedRows rows op status excerpt env = rows ∨
      (currentOrOwn rows op.contextId op.taskId op.handle op.workRev = true ∧
        ∃ i t t', Recorded rows op.taskId op.workRev (projectedRows rows op status excerpt env) i t t') := by
  rw [projectedRows, updateTaskExternal]
  by_cases hrefused : (op.taskId = [] || !currentOrOwn rows op.contextId op.taskId op.handle op.workRev) = true
  · rw [if_pos hrefused]
    exact .inl rfl
  · rw [if_neg hrefused]
    have hallowed : currentOrOwn rows op.contextId op.taskId op.handle op.workRev = true := by
      simp only [Bool.or_eq_true, not_or, Bool.not_eq_true', Bool.not_eq_false] at hrefused
      exact hrefused.2
    cases hpayload : externalPayload op.taskId op.handle op.action status excerpt op.workRev with
    | none => exact .inl rfl
    | some payload =>
      dsimp only
      split
      · exact .inl rfl
      · cases happly : applyTaskEvent rows (lit "task_updated") payload with
        | none => exact .inl rfl
        | some rows' =>
          obtain ⟨record, hcarries⟩ := externalPayload_carries hop.taskId hop.handle hop.named hpayload
          exact .inr ⟨hallowed, applied_records hcarries happly⟩

theorem projectedRows_kept {s : State} {op : OperationItem} (h : Inv s) (hop : OpOk s.rows op) (status excerpt : Bytes) (env : Env) :
    RowsKept s (projectedRows s.rows op status excerpt env) := by
  rcases projectedRows_cases hop status excerpt env with heq | ⟨hallowed, i, t, t', hrec⟩
  · rw [heq]
    exact .refl h
  · exact recorded_kept h hrec (recorded_follows h hop hallowed hrec)

theorem workRevOf_of_mem {rows : List TaskItem} (h : DistinctIds rows) {t : TaskItem} (ht : t ∈ rows) (hid : t.taskId ≠ []) :
    rtTaskWorkRevOf rows t.taskId = some t.workRev := by
  obtain ⟨j, hj⟩ := List.mem_iff_getElem?.mp ht
  have hsome : (taskIndexOf rows t.taskId).isSome = true := by
    rw [taskIndexOf, if_neg hid, List.findIdx?_isSome, List.any_eq_true]
    exact ⟨t, ht, decide_eq_true rfl⟩
  obtain ⟨i, hi⟩ := Option.isSome_iff_exists.mp hsome
  obtain ⟨-, u, hu, huid⟩ := taskIndexOf_some hi
  cases h.unique hu hj huid (huid ▸ hid)
  rw [hj] at hu
  cases hu
  rw [rtTaskWorkRevOf, hi, Option.bind_some, hj]
  rfl

/-- A row that is at the operation's revision after the update was there before it. -/
theorem projectedRows_same {rows : List TaskItem} {op : OperationItem} (hop : OpOk rows op) (hdistinct : DistinctIds rows)
    {status excerpt : Bytes} {env : Env} {t' : TaskItem} (ht' : t' ∈ projectedRows rows op status excerpt env)
    (hid : t'.taskId = op.taskId) (hne : op.taskId ≠ []) : rtTaskWorkRevOf rows op.taskId = some t'.workRev := by
  rcases projectedRows_cases hop status excerpt env with heq | ⟨-, i, t, t'', hrec⟩
  · rw [heq] at ht'
    rw [← hid, workRevOf_of_mem hdistinct ht' (hid ▸ hne)]
  · rw [hrec.result] at ht'
    rcases List.mem_or_eq_of_mem_set ht' with hmem | rfl
    · rw [← hid, workRevOf_of_mem hdistinct hmem (hid ▸ hne)]
    · rw [hrec.rev, ← hrec.name, workRevOf_of_mem hdistinct (List.mem_of_getElem? hrec.row) (hrec.name ▸ hne)]

/-- A written update leaves the attempt in every row that is at the operation's revision. -/
theorem projectedRows_attempt {rows : List TaskItem} {op : OperationItem} {status excerpt : Bytes} {env : Env}
    (hdistinct : DistinctIds rows) (hop : OpOk rows op) (hne : op.taskId ≠ []) (hpos : 0 < op.workRev)
    (hfit : recordFits rows op status excerpt env = true) :
    ∀ t' ∈ projectedRows rows op status excerpt env, t'.taskId = op.taskId → t'.workRev = op.workRev → HasAttempt t' := by
  intro t' ht' hid hrev
  have hcurrent := projectedRows_same hop hdistinct ht' hid hne
  rw [hrev] at hcurrent
  rw [recordFits, hcurrent, decide_eq_false (by simp), Bool.false_or, Bool.and_eq_true, Option.any_eq_true] at hfit
  obtain ⟨hprojects, payload, hpayload, happlied⟩ := hfit
  obtain ⟨rows', happly⟩ := Option.isSome_iff_exists.mp happlied
  have hrows : projectedRows rows op status excerpt env = rows' := by
    rw [projectedRows, updateTaskExternal, currentOrOwn, hcurrent]
    simp [hne, hpayload, hprojects, happly]
  obtain ⟨record, hcarries⟩ := externalPayload_carries hop.taskId hop.handle hop.named hpayload
  obtain ⟨i, t, t'', hrec⟩ := applied_records hcarries happly
  rw [hrows, hrec.result] at ht'
  rcases mem_set_cases ht' with rfl | ⟨j, hji, hrow⟩
  · obtain ⟨a, ha, harev⟩ := hrec.attempt (inLong_of_pos hpos hop.bound)
    exact ⟨a, ha, Int.le_of_eq (hrev.trans harev.symm)⟩
  · exact absurd (hdistinct.unique hrow hrec.row (hid.trans hrec.name.symm) (hid ▸ hne)) hji

/-! ## The end of an operation -/

theorem opFind_of_mem {ops : OperationStore} {o : OperationItem} (hhandles : (ops.map OperationItem.handle).Nodup) (ho : o ∈ ops)
    (hnamed : o.handle ≠ []) : opFind ops o.handle = some o := by
  cases hfind : opFind ops o.handle with
  | none => exact absurd rfl (opFind_none hnamed hfind o ho)
  | some x =>
    obtain ⟨hx, hhandle⟩ := opFind_mem hfind
    rw [List.inj_on_of_nodup_map hhandles hx ho hhandle]

/-- The starts of an operation need it no more. -/
def Released (s : State) (opId : Bytes) : Prop := ∀ st ∈ s.starts, st.opId = opId → ∀ t ∈ s.rows, t.taskId = st.taskId →
  t.workRev = st.workRev → InFlight s.calls s.ops st → HasAttempt t

theorem not_inFlight {s : State} (h : Inv s) {st : Start} (hpending : pending s st.opId = false) : ¬ InFlight s.calls s.ops st := by
  rintro ⟨c, hc, hphase, hallocated, hid, -, o, ho, hhandle, hrunning, -⟩
  have hfind := opFind_of_mem h.handles ho (h.ops o ho).named
  have hany : (s.calls.any fun c => c.byPhase && c.allocated && decide (opIdOf c = st.opId)) = true :=
    List.any_eq_true.mpr ⟨c, hc, by simp [hphase, hallocated, hid]⟩
  rw [pending, hany, ← hhandle, hfind, Option.any_some, hrunning] at hpending
  cases hpending

theorem released_of_not_pending {s : State} (h : Inv s) {opId : Bytes} (hpending : pending s opId = false) : Released s opId := by
  rintro st - rfl t - - - hinflight
  exact absurd hinflight (not_inFlight h hpending)

/-- The record of an operation is finished; the ones of other operations that run are still there. -/
structure Finished (ops ops' : OperationStore) (opId : Bytes) : Prop where
  handles : (ops'.map OperationItem.handle).Nodup
  same : ∀ o' ∈ ops', ∃ o ∈ ops, o'.handle = o.handle ∧ o'.taskId = o.taskId ∧ o'.workRev = o.workRev
  done : ∀ o' ∈ ops', o'.handle = opId → o'.status = .finished
  others : ∀ o ∈ ops, o.handle ≠ opId → o.status = .running → o ∈ ops'

theorem finished_of_update {ops : OperationStore} (hhandles : (ops.map OperationItem.handle).Nodup) (keep : Nat) (opId : Bytes) :
    Finished ops (purgeFinishedOverCap keep (opUpdate opId finishItem ops)) opId := by
  have hsub := purge_sublist keep (opUpdate opId finishItem ops)
  have hupdated : ((opUpdate opId finishItem ops).map OperationItem.handle).Nodup := by
    have hkeep : ∀ o, (finishItem o).handle = o.handle := fun _ => rfl
    rw [opUpdate_handles hkeep]
    exact hhandles
  refine ⟨hupdated.sublist (hsub.map OperationItem.handle), ?_, ?_, ?_⟩
  · intro o' ho'
    rcases mem_opUpdate (hsub.subset ho') with ho | ⟨o, ho, -, rfl⟩
    · exact ⟨o', ho, rfl, rfl, rfl⟩
    · exact ⟨o, ho, rfl, rfl, rfl⟩
  · intro o' ho' hid
    obtain ⟨o, -, rfl⟩ := opUpdate_changed hhandles (hsub.subset ho') hid
    rfl
  · intro o ho hne hrunning
    exact dropFinished_running _ (mem_opUpdate_of_ne ho hne) hrunning

theorem Finished.inFlight {calls : List ManagedCall} {ops ops' : OperationStore} {opId : Bytes} (h : Finished ops ops' opId)
    {st : Start} (hne : st.opId ≠ opId) (hst : InFlight calls ops st) : InFlight calls ops' st := by
  obtain ⟨c, hc, hphase, hallocated, hid, htask, o, ho, hhandle, hrunning, hrest⟩ := hst
  exact ⟨c, hc, hphase, hallocated, hid, htask, o, h.others o ho (hhandle ▸ hne) hrunning, hhandle, hrunning, hrest⟩

theorem Finished.not_inFlight {calls : List ManagedCall} {ops ops' : OperationStore} {st : Start} (h : Finished ops ops' st.opId) :
    ¬ InFlight calls ops' st := by
  rintro ⟨-, -, -, -, -, -, o, ho, hhandle, hrunning, -⟩
  rw [h.done o ho hhandle] at hrunning
  cases hrunning

theorem Finished.opsKept {s : State} {ops' : OperationStore} {opId : Bytes} (h : Finished s.ops ops' opId) : OpsKept s ops' :=
  ⟨h.handles, h.same⟩

/-- An operation that no start needs may end without a record. -/
theorem finished_inv {s : State} {opId : Bytes} {ops' : OperationStore} (h : Inv s) (hfinished : Finished s.ops ops' opId)
    (hpending : pending s opId = false) : Inv { s with ops := ops' } := by
  refine h.change (RowsKept.refl h) hfinished.opsKept fun st _ t' _ _ _ hinflight => ?_
  by_cases hid : st.opId = opId
  · subst hid
    exact absurd hinflight (not_inFlight h hpending)
  · exact .inr (hfinished.inFlight hid hinflight)

theorem close_inv {cfg : Config} {s : State} {opId : Bytes} (h : Inv s) (hpending : pending s opId = false) :
    Inv (closeWithoutResult cfg s opId) ∧ Released (closeWithoutResult cfg s opId) opId := by
  have hsame := And.intro h (released_of_not_pending h hpending)
  rw [closeWithoutResult, rtOperationCloseWithoutResult]
  cases hfind : opFind s.ops opId with
  | none => exact hsame
  | some op =>
    dsimp only
    split
    · rename_i ops hops
      split at hops
      · cases hops
      · cases hops
        have hfinished := finished_of_update h.handles cfg.keepFinished opId
        refine ⟨finished_inv h hfinished hpending, ?_⟩
        rintro st - rfl t - - - hinflight
        exact absurd hinflight hfinished.not_inFlight
    · exact hsame

/-- The row of a start bears the attempt once the update of its operation fits. -/
theorem start_recorded {s : State} {op : OperationItem} {st : Start} {status excerpt : Bytes} {env : Env} (h : Inv s)
    (hok : OpOk s.rows op) (hst : st ∈ s.starts) (htask : op.taskId = st.taskId) (hrev : op.workRev = st.workRev)
    (hfit : recordFits s.rows op status excerpt env = true) :
    ∀ t' ∈ projectedRows s.rows op status excerpt env, t'.taskId = st.taskId → t'.workRev = st.workRev → HasAttempt t' := by
  intro t' ht' hid hrev'
  have hne : op.taskId ≠ [] := htask ▸ (h.started st hst).named
  have hpos : 0 < op.workRev := by
    obtain ⟨-, i, t, -, hrow, htid, -⟩ := workRevOf_row (projectedRows_same hok h.distinct ht' (hid.trans htask.symm) hne)
    have hkind := ((h.started st hst).covered t (List.mem_of_getElem? hrow) (htid.trans htask)).1
    by_contra hno
    exact hok.unbound (by omega) t (List.mem_of_getElem? hrow) htid hne hkind
  exact projectedRows_attempt h.distinct hok hne hpos hfit t' ht' (hid.trans htask.symm) (hrev'.trans hrev.symm)

theorem resultEvent_agrees (op : OperationItem) (status text : Bytes) : ¬ resultConflicts op (resultEvent op status text) := by
  simp [resultConflicts, resultEvent]

/-- What a conclusion leaves: nothing changed, or the record finished and the update made. -/
theorem conclude_cases (cfg : Config) (s : State) (opId status text : Bytes) (env : Env) :
    (conclude cfg s opId status text env = s ∧ (env.concludes = true → ∀ o, opFind s.ops opId = some o → o.status = .finished)) ∨
      ∃ op, opFind s.ops opId = some op ∧ env.concludes = true ∧ conclude cfg s opId status text env =
        { s with
          rows := projectedRows s.rows op (lit "finished") text env
          ops := purgeFinishedOverCap cfg.keepFinished (opUpdate opId finishItem s.ops) } := by
  rw [conclude]
  cases hfind : opFind s.ops opId with
  | none => exact .inl ⟨rfl, nofun⟩
  | some op =>
    dsimp only
    by_cases hstop : op.status = .finished ∨ !env.concludes
    · rw [if_pos hstop]
      refine .inl ⟨rfl, fun hconcludes o ho => ?_⟩
      cases ho
      exact hstop.resolve_right (by simp [hconcludes])
    · rw [if_neg hstop]
      rw [not_or, Bool.not_eq_true, Bool.not_eq_false'] at hstop
      have hhandle : (resultEvent op status text).handle = opId := (opFind_mem hfind).2
      have hid : opId ≠ [] := by
        rintro rfl
        cases hfind
      refine .inr ⟨op, rfl, hstop.2, ?_⟩
      rw [applyResult, hhandle, if_neg hid, hfind]
      dsimp only
      rw [if_neg (resultEvent_agrees op status text), if_neg hstop.1]
      dsimp only
      rw [project_rows]

theorem conclude_inv {cfg : Config} {s : State} {opId status text : Bytes} {env : Env} (h : Inv s)
    (hfit : conclusionFits s opId text env = true) :
    Inv (conclude cfg s opId status text env) ∧ Released (conclude cfg s opId status text env) opId := by
  rcases conclude_cases cfg s opId status text env with ⟨heq, hdone⟩ | ⟨op, hfind, hconcludes, heq⟩
  · rw [heq]
    refine ⟨h, released_of_not_pending h ?_⟩
    by_contra hpending
    rw [Bool.not_eq_false] at hpending
    rw [conclusionFits, hpending, Bool.not_true, Bool.false_or, Bool.and_eq_true] at hfit
    rw [pending, Bool.and_eq_true, Option.any_eq_true] at hpending
    obtain ⟨-, o, ho, hrunning⟩ := hpending
    rw [hdone hfit.1 o ho] at hrunning
    cases hrunning
  · rw [heq]
    obtain ⟨hmem, hhandle⟩ := opFind_mem hfind
    have hfinished := finished_of_update h.handles cfg.keepFinished opId
    refine ⟨h.change (projectedRows_kept h (h.ops op hmem) _ _ _) hfinished.opsKept ?_, ?_⟩
    · intro st hst t' ht' hid hrev hinflight
      by_cases hop : st.opId = opId
      · have hpending : pending s opId = true := by
          by_contra hno
          exact not_inFlight h (by rw [hop]; simpa using hno) hinflight
        rw [conclusionFits, hpending, Bool.not_true, Bool.false_or, Bool.and_eq_true, hfind, Option.all_some] at hfit
        obtain ⟨-, -, -, -, -, -, o, ho, hohandle, -, htask, horev⟩ := hinflight
        have hsame : o = op := List.inj_on_of_nodup_map h.handles ho hmem (hohandle.trans (hop.trans hhandle.symm))
        subst hsame
        exact .inl (start_recorded h (h.ops o hmem) hst htask horev hfit.2 t' ht' hid hrev)
      · exact .inr (hfinished.inFlight hop hinflight)
    · rintro st - rfl t - - - hinflight
      exact absurd hinflight hfinished.not_inFlight

/-! ## An operation that runs on -/

/-- The records with a worker handle set, or as they were. -/
structure Relabeled (ops ops' : OperationStore) : Prop where
  handles : (ops'.map OperationItem.handle).Nodup
  back : ∀ o' ∈ ops', ∃ o ∈ ops, o' = { o with workerHandle := o'.workerHandle }
  forth : ∀ o ∈ ops, ∃ o' ∈ ops', o' = { o with workerHandle := o'.workerHandle }

theorem withWorker_relabeled {ops : OperationStore} (hhandles : (ops.map OperationItem.handle).Nodup) (opId workerHandle : Bytes) :
    Relabeled ops (match rtOperationSetWorkerHandle opId workerHandle ops with
      | .written ops' => ops'
      | _ => ops) := by
  rw [rtOperationSetWorkerHandle, writeRunning]
  cases hfind : opFind ops opId with
  | none => exact ⟨hhandles, fun o ho => ⟨o, ho, rfl⟩, fun o ho => ⟨o, ho, rfl⟩⟩
  | some op =>
    dsimp only
    by_cases hfinished : op.status = .finished
    · rw [if_pos hfinished]
      exact ⟨hhandles, fun o ho => ⟨o, ho, rfl⟩, fun o ho => ⟨o, ho, rfl⟩⟩
    · rw [if_neg hfinished]
      have hkeep : ∀ o : OperationItem, ({ o with workerHandle := workerHandle } : OperationItem).handle = o.handle := fun _ => rfl
      refine ⟨?_, ?_, ?_⟩
      · rw [opUpdate_handles hkeep]
        exact hhandles
      · intro o' ho'
        rcases mem_opUpdate ho' with ho | ⟨o, ho, -, rfl⟩
        · exact ⟨o', ho, rfl⟩
        · exact ⟨o, ho, rfl⟩
      · intro o ho
        by_cases hop : o.handle = opId
        · exact ⟨_, mem_opUpdate_self hhandles ho hop, rfl⟩
        · exact ⟨o, mem_opUpdate_of_ne ho hop, rfl⟩

theorem Relabeled.inFlight {calls : List ManagedCall} {ops ops' : OperationStore} (h : Relabeled ops ops') (st : Start) :
    InFlight calls ops' st ↔ InFlight calls ops st := by
  constructor
  · rintro ⟨c, hc, hphase, hallocated, hid, htask, o', ho', hrest⟩
    obtain ⟨o, ho, heq⟩ := h.back o' ho'
    rw [heq] at hrest
    exact ⟨c, hc, hphase, hallocated, hid, htask, o, ho, hrest⟩
  · rintro ⟨c, hc, hphase, hallocated, hid, htask, o, ho, hrest⟩
    obtain ⟨o', ho', heq⟩ := h.forth o ho
    refine ⟨c, hc, hphase, hallocated, hid, htask, o', ho', ?_⟩
    rw [heq]
    exact hrest

theorem Relabeled.opsKept {s : State} {ops' : OperationStore} (h : Relabeled s.ops ops') : OpsKept s ops' := by
  refine ⟨h.handles, fun o' ho' => ?_⟩
  obtain ⟨o, ho, heq⟩ := h.back o' ho'
  exact ⟨o, ho, by rw [heq], by rw [heq], by rw [heq]⟩

/-- A record that fits is written for whatever worker the record names. -/
theorem runs_inv {s : State} {ops' : OperationStore} {opId : Bytes} {env : Env} (h : Inv s) (hops : Relabeled s.ops ops')
    (hfit : (!pending s opId || (opFind s.ops opId).all fun op => recordFits s.rows op (lit "running") [] env) = true)
    {op : OperationItem} (hfind : opFind ops' opId = some op) :
    Inv (project { s with ops := ops' } op (lit "running") [] env) ∧
      Released (project { s with ops := ops' } op (lit "running") [] env) opId := by
  obtain ⟨hmem, hhandle⟩ := opFind_mem hfind
  obtain ⟨o, ho, heq⟩ := hops.back op hmem
  have hohandle : o.handle = opId := by
    rw [heq] at hhandle
    exact hhandle
  have hstored : opFind s.ops opId = some o := by
    rw [← hohandle]
    exact opFind_of_mem h.handles ho (h.ops o ho).named
  have hok : OpOk s.rows op := by
    have hold := h.ops o ho
    rw [heq]
    exact ⟨hold.handle, hold.named, hold.taskId, hold.bound, hold.unbound⟩
  rw [project_rows]
  refine ⟨h.change (projectedRows_kept h hok _ _ _) hops.opsKept fun st _ _ _ _ _ hinflight => .inr ((hops.inFlight st).mpr hinflight), ?_⟩
  rintro st hst rfl t' ht' hid hrev hinflight
  rw [hops.inFlight] at hinflight
  have hpending : pending s st.opId = true := by
    by_contra hno
    exact not_inFlight h (by simpa using hno) hinflight
  rw [hpending, Bool.not_true, Bool.false_or, hstored, Option.all_some] at hfit
  obtain ⟨-, -, -, -, -, -, x, hx, hxhandle, -, htask, hxrev⟩ := hinflight
  have hsame : x = o := List.inj_on_of_nodup_map h.handles hx ho (hxhandle.trans hohandle.symm)
  subst hsame
  refine start_recorded h hok hst ?_ ?_ ?_ t' ht' hid hrev
  · rw [heq, htask]
  · rw [heq, hxrev]
  · rw [heq]
    exact hfit

/-- The state once the operation found among the relabeled ones is shown as running. -/
def shownRunning (s : State) (opId : Bytes) (env : Env) (ops' : List OperationItem) : State :=
  match opFind ops' opId with
  | none => { s with ops := ops' }
  | some op => project { s with ops := ops' } op (lit "running") [] env

theorem noteRunning_inv {s : State} {opId workerHandle : Bytes} {env : Env} (h : Inv s)
    (hfit : (!pending s opId || (opFind s.ops opId).all fun op => recordFits s.rows op (lit "running") [] env) = true) :
    Inv (noteRunning s opId workerHandle env) ∧ Released (noteRunning s opId workerHandle env) opId := by
  obtain ⟨ops', hops, heq⟩ : ∃ ops', Relabeled s.ops ops' ∧ noteRunning s opId workerHandle env = shownRunning s opId env ops' :=
    ⟨_, withWorker_relabeled h.handles opId workerHandle, rfl⟩
  rw [heq]
  unfold shownRunning
  cases hfind : opFind ops' opId with
  | some op => exact runs_inv h hops hfit hfind
  | none =>
    refine ⟨h.change (RowsKept.refl h) hops.opsKept
      fun st _ _ _ _ _ hinflight => .inr ((hops.inFlight st).mpr hinflight), ?_⟩
    rintro st - rfl t - - - ⟨-, -, -, -, -, -, o, ho, hhandle, -⟩
    obtain ⟨x, hx, heq⟩ := hops.back o ho
    have hnamed : st.opId ≠ [] := by
      have hold := (h.ops x hx).named
      rw [← hhandle, heq]
      exact hold
    exact absurd hhandle (opFind_none hnamed hfind o ho)

/-! ## Calls -/

theorem mem_markAllocated {requestId : Bytes} {calls : List ManagedCall} {c' : ManagedCall} (h : c' ∈ markAllocated requestId calls) :
    ∃ c ∈ calls, c' = { c with allocated := c'.allocated } ∧
      (c'.allocated = false → c' = c ∧ c.requestId ≠ requestId) := by
  obtain ⟨c, hc, rfl⟩ := List.mem_map.mp h
  by_cases hid : c.requestId = requestId
  · exact ⟨c, hc, by rw [if_pos hid], by rw [if_pos hid]; nofun⟩
  · exact ⟨c, hc, by rw [if_neg hid], fun _ => ⟨if_neg hid, hid⟩⟩

theorem markAllocated_requests (requestId : Bytes) (calls : List ManagedCall) :
    (markAllocated requestId calls).map ManagedCall.requestId = calls.map ManagedCall.requestId := by
  rw [markAllocated, List.map_map]
  refine List.map_congr_left fun c _ => ?_
  rw [Function.comp_apply]
  split <;> rfl

theorem markAllocated_single {requestId : Bytes} {calls : List ManagedCall}
    (h : calls.Pairwise fun a b => a.byPhase = true → b.byPhase = true → a.taskId ≠ b.taskId) :
    (markAllocated requestId calls).Pairwise fun a b => a.byPhase = true → b.byPhase = true → a.taskId ≠ b.taskId := by
  have hkeep : ∀ c : ManagedCall, (if c.requestId = requestId then { c with allocated := true } else c).byPhase = c.byPhase ∧
      (if c.requestId = requestId then { c with allocated := true } else c).taskId = c.taskId := by
    intro c
    split <;> exact ⟨rfl, rfl⟩
  rw [markAllocated, List.pairwise_map]
  refine h.imp fun {a b} hab => ?_
  rw [(hkeep a).1, (hkeep a).2, (hkeep b).1, (hkeep b).2]
  exact hab

theorem InFlight.mark {requestId : Bytes} {calls : List ManagedCall} {ops ops' : OperationStore} {st : Start}
    (h : InFlight calls ops st) (hops : ∀ o ∈ ops, o.status = .running → o ∈ ops') :
    InFlight (markAllocated requestId calls) ops' st := by
  obtain ⟨c, hc, hphase, hallocated, hid, htask, o, ho, hhandle, hrunning, hrest⟩ := h
  refine ⟨_, List.mem_map.mpr ⟨c, hc, rfl⟩, ?_, ?_, ?_, ?_, o, hops o ho hrunning, hhandle, hrunning, hrest⟩ <;> split
  · exact hphase
  · exact hphase
  · rfl
  · exact hallocated
  · exact hid
  · exact hid
  · exact htask
  · exact htask

/-- A call whose operation is there already is only marked. -/
theorem mark_inv {s : State} (h : Inv s) (requestId : Bytes) : Inv { s with calls := markAllocated requestId s.calls } := by
  refine ⟨h.distinct, h.rowIds, h.handles, h.ops, ?_, markAllocated_single h.single, ?_, ?_, h.rising⟩
  · rw [markAllocated_requests]
    exact h.requests
  · intro c' hc'
    obtain ⟨c, hc, heq, hnew⟩ := mem_markAllocated hc'
    have hok := h.calls c hc
    refine ⟨?_, ?_, fun hphase hallocated => ?_⟩
    · rw [heq]
      exact hok.taskId
    · rw [heq]
      exact hok.unbound
    · obtain ⟨rfl, -⟩ := hnew hallocated
      exact hok.asked hphase hallocated
  · intro st hst
    have hok := h.started st hst
    refine ⟨hok.named, fun t ht hid => ?_⟩
    obtain ⟨hkind, hle, hcovered⟩ := hok.covered t ht hid
    exact ⟨hkind, hle, fun heq => (hcovered heq).imp_right fun hinflight => hinflight.mark fun o ho _ => ho⟩

/-- A call may end when its operation is not needed. -/
theorem dropCall_inv {s : State} (h : Inv s) {call : ManagedCall} (hreleased : Released s (opIdOf call)) :
    Inv (dropCall s call.requestId) := by
  have hsub : (s.calls.filter fun c => c.requestId ≠ call.requestId).Sublist s.calls := List.filter_sublist
  refine ⟨h.distinct, h.rowIds, h.handles, h.ops, h.requests.sublist (hsub.map _), h.single.sublist hsub, ?_, ?_, h.rising⟩
  · intro c hc
    have hok := h.calls c (hsub.subset hc)
    exact ⟨hok.taskId, hok.unbound, hok.asked⟩
  · intro st hst
    have hok := h.started st hst
    refine ⟨hok.named, fun t ht hid => ?_⟩
    obtain ⟨hkind, hle, hcovered⟩ := hok.covered t ht hid
    refine ⟨hkind, hle, fun heq => ?_⟩
    rcases hcovered heq with hattempt | hinflight
    · exact .inl hattempt
    · by_cases hop : st.opId = opIdOf call
      · exact .inl (hreleased st hst hop t ht hid heq.symm hinflight)
      · obtain ⟨c, hc, hphase, hallocated, hcid, hrest⟩ := hinflight
        refine .inr ⟨c, List.mem_filter.mpr ⟨hc, ?_⟩, hphase, hallocated, hcid, hrest⟩
        refine decide_eq_true fun hsame => hop ?_
        rw [← hcid, opIdOf, opIdOf, hsame]

/-- A call is added that is no phase's second one for a task. -/
theorem addCall_inv {s s' : State} {call : ManagedCall} (h : Inv s) (hok : CallOk s call)
    (halone : call.byPhase = true → ∀ c ∈ s.calls, c.byPhase = true → c.taskId ≠ call.taskId)
    (hadd : addCall s call = some s') : Inv s' := by
  rw [addCall] at hadd
  split at hadd
  · cases hadd
  · rename_i hfresh
    cases hadd
    have hne : ∀ c ∈ s.calls, c.requestId ≠ call.requestId := by
      simpa [findCall] using hfresh
    refine ⟨h.distinct, h.rowIds, h.handles, h.ops, ?_, ?_, ?_, ?_, h.rising⟩
    · rw [List.map_append, List.map_singleton]
      refine List.nodup_append.mpr ⟨h.requests, List.nodup_singleton _, ?_⟩
      rintro a ha b hb rfl
      obtain ⟨c, hc, rfl⟩ := List.mem_map.mp ha
      exact hne c hc (List.mem_singleton.mp hb)
    · refine List.pairwise_append.mpr ⟨h.single, List.pairwise_singleton _ _, ?_⟩
      intro a ha b hb haphase hbphase
      cases List.mem_singleton.mp hb
      exact halone hbphase a ha haphase
    · intro c hc
      rcases List.mem_append.mp hc with hc | hc
      · have hold := h.calls c hc
        exact ⟨hold.taskId, hold.unbound, hold.asked⟩
      · cases List.mem_singleton.mp hc
        exact ⟨hok.taskId, hok.unbound, hok.asked⟩
    · intro st hst
      have hold := h.started st hst
      refine ⟨hold.named, fun t ht hid => ?_⟩
      obtain ⟨hkind, hle, hcovered⟩ := hold.covered t ht hid
      refine ⟨hkind, hle, fun heq => (hcovered heq).imp_right ?_⟩
      rintro ⟨c, hc, hrest⟩
      exact ⟨c, List.mem_append_left _ hc, hrest⟩

/-! ## Allocation -/

theorem opIdOf_text (call : ManagedCall) : TextField rtSmall (opIdOf call) := by
  rw [opIdOf, rtOperationIdForRequest]
  split
  · exact textField_nil (by decide)
  · refine ⟨fun c hc => ?_, ?_⟩
    · have hmem := List.mem_of_mem_take hc
      rcases List.mem_append.mp hmem with hlit | hmap
      · exact plain_nulFree (show (lit "op_").all isPlain = true by decide) c hlit
      · obtain ⟨x, -, rfl⟩ := List.mem_map.mp hmap
        split
        · rename_i hsafe
          rintro rfl
          exact absurd hsafe (by decide)
        · decide
    · rw [Option.getD_some, List.length_take]
      exact Nat.lt_of_le_of_lt (Nat.min_le_left _ _) (by decide)

/-- The store with a new running record. -/
structure Allocated (ops ops' : OperationStore) (o : OperationItem) : Prop where
  handles : (ops'.map OperationItem.handle).Nodup
  new : o ∈ ops'
  back : ∀ x ∈ ops', x ∈ ops ∨ x = o
  forth : ∀ x ∈ ops, x.status = .running → x ∈ ops'

theorem applyStarted_allocated {ops ops' : OperationStore} {keep : Nat} {ev : OperationStarted}
    (hhandles : (ops.map OperationItem.handle).Nodup) (hfind : opFind ops ev.handle = none)
    (h : applyStarted keep ev ops = .written ops') : ev.handle ≠ [] ∧ Allocated ops ops' (startedItem ev) := by
  have hnone : ResultRuns.Settled (fun _ => False) ops := ⟨hhandles, nofun⟩
  have hsettled := applyStarted_settled hnone nofun h
  rw [applyStarted, hfind] at h
  split at h
  · cases h
  · rename_i hnamed
    dsimp only at h
    split at h
    · cases h
    · cases h
      refine ⟨hnamed, hsettled.nodup, dropFinished_running _ (List.mem_append_right _ List.mem_cons_self) rfl, ?_, ?_⟩
      · intro x hx
        rcases List.mem_append.mp ((purge_sublist _ _).subset hx) with hx | hx
        · refine .inl ?_
          split at hx
          · exact (dropFinished_sublist 1 ops).subset hx
          · exact hx
        · exact .inr (List.mem_singleton.mp hx)
      · intro x hx hrunning
        refine dropFinished_running _ (List.mem_append_left _ ?_) hrunning
        split
        · exact dropFinished_running 1 hx hrunning
        · exact hx

theorem newOp_inv {s : State} {ops' : OperationStore} {o : OperationItem} (h : Inv s) (hok : OpOk s.rows o)
    (hops : Allocated s.ops ops' o) : Inv { s with ops := ops' } := by
  refine ⟨h.distinct, h.rowIds, hops.handles, ?_, h.requests, h.single, ?_, ?_, h.rising⟩
  · intro x hx
    rcases hops.back x hx with hx | rfl
    · exact h.ops x hx
    · exact hok
  · intro c hc
    have hold := h.calls c hc
    exact ⟨hold.taskId, hold.unbound, hold.asked⟩
  · intro st hst
    have hold := h.started st hst
    refine ⟨hold.named, fun t ht hid => ?_⟩
    obtain ⟨hkind, hle, hcovered⟩ := hold.covered t ht hid
    refine ⟨hkind, hle, fun heq => (hcovered heq).imp_right ?_⟩
    rintro ⟨c, hc, hphase, hallocated, hcid, htask, x, hx, hhandle, hrunning, hrest⟩
    exact ⟨c, hc, hphase, hallocated, hcid, htask, x, hops.forth x hx hrunning, hhandle, hrunning, hrest⟩

theorem newStart_inv {s : State} {st : Start} (h : Inv s) (hok : StartOk s st)
    (hlater : ∀ a ∈ s.starts, a.taskId = st.taskId → a.workRev < st.workRev)
    (hmine : ∀ c ∈ s.calls, c.byPhase = true → c.allocated = false → c.taskId ≠ st.taskId) :
    Inv { s with starts := s.starts ++ [st] } := by
  refine ⟨h.distinct, h.rowIds, h.handles, h.ops, h.requests, h.single, ?_, ?_, ?_⟩
  · intro c hc
    have hold := h.calls c hc
    refine ⟨hold.taskId, hold.unbound, fun hphase hallocated hne t ht hid => ?_⟩
    obtain ⟨hkind, hearlier⟩ := hold.asked hphase hallocated hne t ht hid
    refine ⟨hkind, fun a ha hsame => ?_⟩
    rcases List.mem_append.mp ha with ha | ha
    · exact hearlier a ha hsame
    · cases List.mem_singleton.mp ha
      exact absurd hsame.symm (hmine c hc hphase hallocated)
  · intro a ha
    rcases List.mem_append.mp ha with ha | ha
    · exact ⟨(h.started a ha).named, (h.started a ha).covered⟩
    · cases List.mem_singleton.mp ha
      exact ⟨hok.named, hok.covered⟩
  · refine List.pairwise_append.mpr ⟨h.rising, List.pairwise_singleton _ _, ?_⟩
    intro a ha b hb hsame
    cases List.mem_singleton.mp hb
    exact hlater a ha hsame

/-- Two calls of the phase are for two tasks. -/
theorem single_ne {s : State} (h : Inv s) {a b : ManagedCall} (ha : a ∈ s.calls) (hb : b ∈ s.calls) (hne : a ≠ b)
    (haphase : a.byPhase = true) (hbphase : b.byPhase = true) : a.taskId ≠ b.taskId := by
  have hsymm : Std.Symm fun a b : ManagedCall => a.byPhase = true → b.byPhase = true → a.taskId ≠ b.taskId :=
    ⟨fun a b hab hb ha => (hab ha hb).symm⟩
  exact h.single.forall ha hb hne haphase hbphase

theorem allocate_inv {cfg : Config} {s : State} {call : ManagedCall} {env : Env} (h : Inv s) (hcall : call ∈ s.calls)
    (hfit : allocationFits s call env = true) : Inv (allocateForCall cfg s call env) := by
  rw [allocateForCall]
  cases hfind : opFind s.ops (opIdOf call) with
  | some o => exact mark_inv h call.requestId
  | none =>
    dsimp only
    split
    · exact h
    · rename_i hallocates
      rw [allocationFits, hfind, Option.isSome_none, Bool.false_or, Bool.or_eq_true, Bool.and_eq_true, decide_eq_true_eq] at hfit
      obtain ⟨hbound, hfit⟩ := hfit.resolve_left hallocates
      split
      · rename_i ops' hwritten
        obtain ⟨hnamed, hops⟩ := applyStarted_allocated h.handles hfind hwritten
        have hcok := h.calls call hcall
        have hok : OpOk s.rows (startedItem (startedEvent s.rows call env)) := by
          refine ⟨opIdOf_text call, hnamed, hcok.taskId, hbound, fun hzero t ht hid _ hkind => ?_⟩
          have hzero : ¬ 0 < recordedRev s.rows call := Int.not_lt.mpr hzero
          have hid : t.taskId = call.taskId := hid
          split at hfit
          · simp [hzero] at hfit
          · rw [decide_eq_false hzero, Bool.false_or, Bool.not_eq_true', List.any_eq_false] at hfit
            exact hfit t ht (by simp [hid, hkind])
        have hinv := mark_inv (newOp_inv h hok hops) call.requestId
        by_cases hphase : call.byPhase = true
        · rw [if_pos hphase] at hfit ⊢
          rw [Bool.and_eq_true, Bool.not_eq_true', decide_eq_true_eq] at hfit
          have hrev : call.taskId ≠ [] ∧ rtTaskWorkRevOf s.rows call.taskId = some (recordedRev s.rows call) := by
            have hpos := hfit.2
            rw [recordedRev, hcok.unbound hphase] at hpos ⊢
            by_cases hne : call.taskId = []
            · rw [if_neg (fun hno => hno.2 hne)] at hpos
              exact absurd hpos (by decide)
            · rw [if_pos ⟨Int.le_refl 0, hne⟩] at hpos ⊢
              refine ⟨hne, ?_⟩
              cases hcurrent : rtTaskWorkRevOf s.rows call.taskId with
              | none =>
                rw [hcurrent] at hpos
                exact absurd hpos (by decide)
              | some rev => rfl
          obtain ⟨hne, hrev⟩ := hrev
          have hrows : ∀ t ∈ s.rows, t.taskId = call.taskId → t.workRev = recordedRev s.rows call := by
            intro t ht hid
            have hcurrent := workRevOf_of_mem h.distinct ht (hid ▸ hne)
            rw [hid, hrev] at hcurrent
            exact (Option.some.inj hcurrent).symm
          have hasked := hcok.asked hphase hfit.1 hne
          refine newStart_inv hinv ⟨hne, fun t ht hid => ?_⟩ ?_ ?_
          · refine ⟨(hasked t ht hid).1, Int.le_of_eq (hrows t ht hid).symm, fun _ => .inr ?_⟩
            exact ⟨_, List.mem_map.mpr ⟨call, hcall, if_pos rfl⟩, hphase, rfl, rfl, rfl, _, hops.new, rfl, rfl, rfl, rfl⟩
          · intro a ha hsame
            obtain ⟨-, i, t, -, hrow, hid, htrev⟩ := workRevOf_row hrev
            exact htrev ▸ (hasked t (List.mem_of_getElem? hrow) hid).2 a ha hsame
          · intro c' hc' hcphase hcnew
            obtain ⟨c, hc, -, hsame⟩ := mem_markAllocated hc'
            obtain ⟨rfl, hother⟩ := hsame hcnew
            exact single_ne h hc hcall (fun heq => hother (by rw [heq])) hcphase hphase
        · rw [if_neg hphase]
          exact hinv
      · exact h

/-! ## Terminals -/

theorem react_inv {cfg : Config} {s : State} {call : ManagedCall} {env : Env} {reaction : Reaction} (h : Inv s)
    (hcall : call ∈ s.calls) (hfit : reactionFits cfg s call env reaction = true) :
    Inv (react cfg s call env reaction) ∧ Released (react cfg s call env reaction) (opIdOf call) := by
  cases reaction with
  | nothing => exact ⟨h, released_of_not_pending h (by simpa [reactionFits] using hfit)⟩
  | complains => exact ⟨h, released_of_not_pending h (by simpa [reactionFits] using hfit)⟩
  | closes => exact close_inv h (by simpa [reactionFits] using hfit)
  | runs workerHandle => exact noteRunning_inv h hfit
  | ends status text =>
    rw [reactionFits] at hfit
    rw [react]
    split at hfit
    · rename_i hnone
      rw [Bool.and_eq_true] at hfit
      rw [if_pos hnone]
      exact conclude_inv (allocate_inv h hcall hfit.1) hfit.2
    · rename_i hsome
      rw [if_neg hsome]
      exact conclude_inv h hfit

theorem terminal_inv {cfg : Config} {s : State} {call : ManagedCall} {t : Terminal} {env : Env} (h : Inv s)
    (hcall : call ∈ s.calls) (hfit : terminalFits cfg s call t env = true) : Inv (onTerminal cfg s call t env) := by
  obtain ⟨hinv, hreleased⟩ := react_inv h hcall hfit
  exact dropCall_inv hinv hreleased

theorem findCall_some {s : State} {requestId : Bytes} {call : ManagedCall} (h : findCall s requestId = some call) :
    call ∈ s.calls ∧ call.requestId = requestId :=
  ⟨List.mem_of_find?_eq_some h, by simpa using List.find?_some h⟩

/-! ## The phase -/

theorem attemptOf_shown (external : Bytes) :
    attemptOf (if external = [] then lit "null" else external) = attemptOf external := by
  split
  · rename_i hempty
    rw [hempty]
    rfl
  · rfl

/-- The phase starts an open work task that does not bear an attempt at its revision. -/
theorem phase_starts {handler contextId taskId stdout : Bytes} {cap : Nat} {rows : List TaskItem}
    (h : rtAgentWorkersRun handler cap rows contextId = .starts taskId stdout) :
    ∃ t ∈ rows, t.taskId = taskId ∧ t.kind = lit "work" ∧ ¬ HasAttempt t := by
  have hidle : phaseIdle cap ≠ .starts taskId stdout := by
    rw [phaseIdle]
    split <;> nofun
  have hid : ∀ w excerpt, phaseStart handler cap w excerpt = .starts taskId stdout → w.taskId = taskId := by
    intro w excerpt hstart
    rw [phaseStart] at hstart
    split at hstart
    · cases hstart
    · cases hstart
      rfl
  rw [rtAgentWorkersRun] at h
  split at h
  · cases h
  · cases hsnap : rtTaskOpenWorkSnapshot rows contextId with
    | none =>
      rw [hsnap] at h
      exact absurd h hidle
    | some w =>
      rw [hsnap] at h
      dsimp only at h
      rw [rtTaskOpenWorkSnapshot] at hsnap
      split at hsnap
      · cases hsnap
      · obtain ⟨t, hfind, rfl⟩ := Option.map_eq_some_iff.mp hsnap
        have hopen := List.find?_some hfind
        rw [isOpenWork, decide_eq_true_eq] at hopen
        rw [attemptOf_shown] at h
        refine ⟨t, List.mem_of_find?_eq_some hfind, ?_, hopen.2.1, ?_⟩
        · cases hattempt : attemptOf t.external with
          | none =>
            rw [hattempt] at h
            exact hid _ _ h
          | some attempt =>
            rw [hattempt] at h
            dsimp only at h
            split at h
            · exact absurd h hidle
            · exact hid _ _ h
        · rintro ⟨a, ha, hle⟩
          rw [ha] at h
          dsimp only at h
          rw [if_pos (by simp [blocks, hle])] at h
          exact hidle h

theorem phase_inv {cfg : Config} {s s' : State} {contextId requestId : Bytes} (h : Inv s)
    (hfit : phaseFits cfg s contextId = true) (hstep : step cfg s (.phase contextId requestId) = some s') : Inv s' := by
  rw [step] at hstep
  rw [phaseFits] at hfit
  cases hphase : rtAgentWorkersRun cfg.handler cfg.stdoutCap s.rows contextId with
  | fails =>
    rw [hphase] at hstep
    exact Option.some.inj hstep ▸ h
  | idle stdout =>
    rw [hphase] at hstep
    exact Option.some.inj hstep ▸ h
  | starts taskId stdout =>
    rw [hphase] at hstep hfit
    dsimp only at hstep hfit
    obtain ⟨t, ht, htid, hkind, hattempt⟩ := phase_starts hphase
    have halone : ∀ c ∈ s.calls, c.byPhase = true → c.taskId ≠ taskId := by
      simpa using hfit
    refine addCall_inv h ⟨htid ▸ h.rowIds t ht, fun _ => rfl, ?_⟩ (fun _ => halone) hstep
    intro _ _ hne u hu hid
    have hid : u.taskId = t.taskId := hid.trans htid.symm
    obtain ⟨i, hi⟩ := List.mem_iff_getElem?.mp hu
    obtain ⟨j, hj⟩ := List.mem_iff_getElem?.mp ht
    have hij : i = j := h.distinct.unique hi hj hid (hid ▸ htid ▸ hne)
    subst hij
    rw [hi] at hj
    cases hj
    refine ⟨hkind, fun st hst hsame => ?_⟩
    obtain ⟨-, hle, hcovered⟩ := (h.started st hst).covered t ht (htid.trans hsame.symm)
    refine Int.lt_iff_le_and_ne.mpr ⟨hle, fun heq => ?_⟩
    rcases hcovered heq with hattempt' | ⟨c, hc, hcphase, -, -, hctask, -⟩
    · exact hattempt hattempt'
    · exact halone c hc hcphase (hctask.trans hsame)

/-! ## Runs -/

theorem step_inv {cfg : Config} {s s' : State} {i : Step} (h : Inv s) (hfit : Fits cfg s i) (hstep : step cfg s i = some s') :
    Inv s' := by
  cases i with
  | taskEvent type payloadJson =>
    cases hstep
    exact taskEvent_inv h hfit
  | phase contextId requestId => exact phase_inv h hfit hstep
  | request call =>
    rw [step] at hstep
    split at hstep
    · cases hstep
    · rename_i hid
      simp only [isTaskId, Bool.not_eq_true, Bool.not_eq_false', Bool.and_eq_true, List.all_eq_true, decide_eq_true_eq, bne_iff_ne] at hid
      have hok : CallOk s { call with byPhase := false, allocated := false } :=
        ⟨⟨hid.1, hid.2⟩, fun hphase => Bool.noConfusion hphase, fun hphase => Bool.noConfusion hphase⟩
      exact addCall_inv h hok (fun hphase => Bool.noConfusion hphase) hstep
  | allocate requestId env =>
    obtain ⟨call, hcall, rfl⟩ := Option.map_eq_some_iff.mp hstep
    rw [Fits, fits, hcall, Option.all_some] at hfit
    exact allocate_inv h (findCall_some hcall).1 hfit
  | terminal requestId t env =>
    obtain ⟨call, hcall, rfl⟩ := Option.map_eq_some_iff.mp hstep
    rw [Fits, fits, hcall, Option.all_some] at hfit
    exact terminal_inv h (findCall_some hcall).1 hfit
  | lost requestId =>
    obtain ⟨call, hcall, rfl⟩ := Option.map_eq_some_iff.mp hstep
    rw [Fits, fits, hcall, Option.all_some, Bool.not_eq_true'] at hfit
    rw [← (findCall_some hcall).2]
    exact dropCall_inv h (released_of_not_pending h hfit)
  | recovered requestId env =>
    obtain ⟨call, hcall, rfl⟩ := Option.map_eq_some_iff.mp hstep
    rw [Fits, fits, hcall, Option.all_some, Bool.and_eq_true, Bool.not_eq_true'] at hfit
    refine terminal_inv (close_inv h hfit.1).1 ?_ hfit.2
    rw [closeWithoutResult]
    split <;> exact (findCall_some hcall).1
  | claim opId status text env =>
    cases hstep
    exact (conclude_inv h hfit).1

/-- In a run whose steps all keep the record with the attempt, the phase starts a task once at a revision, and
again at a later one only. -/
theorem phase_starts_once {cfg : Config} {steps : List Step} {s : State} (hrun : Run (step cfg) (Fits cfg) State.empty steps s) :
    s.starts.Pairwise fun a b => a.taskId = b.taskId → a.workRev < b.workRev :=
  (hrun.invariant empty_inv fun _ _ _ => step_inv).rising

/-! ## Two runs -/

def codexConfig : Config := { handler := lit "manage_codex", stdoutCap := 24576, keepFinished := 100 }

def durable : Env :=
  { contextId := lit "c1", channel := [], adapterId := [], originEventId := [], refJson := [], deadlineMs := 0, allocates := true
    concludes := true, projects := true }

def openTask : Step := .taskEvent (lit "task_created")
  (lit "\x7b\"task_id\":\"t1\",\"context_id\":\"c1\",\"state\":\x7b\"status\":\"open\",\"work\":\"w\",\"done_when\":\"d\"\x7d\x7d")

def attemptedSteps : List Step :=
  [openTask, .phase (lit "c1") (lit "r1"), .allocate (lit "r1") durable,
    .terminal (lit "r1") (.succeeded (lit "\x7b\"status\":\"running\",\"handle\":\"job\"\x7d")) durable,
    .claim (lit "op_r1") (lit "succeeded") (lit "done") durable, .phase (lit "c1") (lit "r2"),
    .taskEvent (lit "task_updated") (lit "\x7b\"task_id\":\"t1\",\"state\":\x7b\"work\":\"more\"\x7d\x7d"),
    .phase (lit "c1") (lit "r3"), .allocate (lit "r3") durable]

theorem phase_starts_once_attempted : ∃ s, Run (step codexConfig) (Fits codexConfig) State.empty attemptedSteps s ∧
    s.starts = [⟨lit "t1", 1, lit "op_r1"⟩, ⟨lit "t1", 2, lit "op_r3"⟩] ∧
    s.starts.Pairwise fun a b => a.taskId = b.taskId → a.workRev < b.workRev := by
  have hcheck : (checkRun (step codexConfig) (Fits codexConfig) State.empty attemptedSteps).map State.starts =
      some [⟨lit "t1", 1, lit "op_r1"⟩, ⟨lit "t1", 2, lit "op_r3"⟩] := by
    unfold attemptedSteps openTask
    repeat rw [lit_ofList]
    decide +kernel
  obtain ⟨s, hs, hstarts⟩ := Option.map_eq_some_iff.mp hcheck
  have hrun := Run.of_check hs
  exact ⟨s, hrun, hstarts, phase_starts_once hrun⟩

/-- The run of a start dies before the worker answers; recovery closes the operation and leaves no record of it. -/
def recoveredSteps : List Step :=
  [openTask, .phase (lit "c1") (lit "r1"), .allocate (lit "r1") durable, .recovered (lit "r1") durable,
    .phase (lit "c1") (lit "r2"), .allocate (lit "r2") durable]

theorem recovered_start_repeats : ∃ s, exec (step codexConfig) State.empty recoveredSteps = some s ∧
    s.starts = [⟨lit "t1", 1, lit "op_r1"⟩, ⟨lit "t1", 1, lit "op_r2"⟩] ∧
    ¬ s.starts.Pairwise fun a b => a.taskId = b.taskId → a.workRev < b.workRev := by
  have hexec : (exec (step codexConfig) State.empty recoveredSteps).map State.starts =
      some [⟨lit "t1", 1, lit "op_r1"⟩, ⟨lit "t1", 1, lit "op_r2"⟩] := by
    unfold recoveredSteps openTask
    repeat rw [lit_ofList]
    decide +kernel
  obtain ⟨s, hs, hstarts⟩ := Option.map_eq_some_iff.mp hexec
  refine ⟨s, hs, hstarts, ?_⟩
  rw [hstarts]
  decide

end Floofclaw.Guarantees.WorkAttempts
