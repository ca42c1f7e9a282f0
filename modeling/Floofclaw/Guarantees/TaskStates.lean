import Floofclaw.Source.TaskState
import Floofclaw.Lib.Machine

/-!
# What an event can do to a task

Every branch of the task reducer in one statement: which row changes, which
status it gets and when its revision moves. From it, the two laws of a finished
task: its status is final, and a revision that was closed is not worked on
again. The reducer keeps neither against every event.
-/

set_option autoImplicit false

namespace Floofclaw.Guarantees.TaskStates
open Floofclaw.Lib Floofclaw.Source.Json Floofclaw.Source.TaskState

/-! ## One row -/

/-- The status an event asks for. -/
def askedStatus (type : Bytes) (payload : JsonRef) : Option Bytes :=
  if type = lit "task_working_memory_appended" then none
  else if type = lit "task_updated" then (requestedState payload).filter taskStateOk
  else rtTaskJsonStatus payload rtSmall

/-- The event carries work of its own. -/
def bringsWork (type : Bytes) (payload : JsonRef) : Bool :=
  type = lit "task_updated" && ((rtTaskJsonStateString payload (lit "work") rtLarge).isSome ||
    (rtTaskJsonStateString payload (lit "done_when") rtLarge).isSome)

def nextRev (type : Bytes) (payload : JsonRef) (rev : Int) : Int :=
  if bringsWork type payload then max rev 0 + 1 else rev

/-- What an accepted event leaves of a row. -/
structure RowChange (type : Bytes) (payload : JsonRef) (t t' : TaskItem) : Prop where
  id : t'.taskId = t.taskId
  kind : t'.kind = t.kind
  status : t'.state = (askedStatus type payload).getD t.state
  rev : t'.workRev = nextRev type payload t.workRev

theorem nextRev_of_ne {type : Bytes} (h : type ≠ lit "task_updated") (payload : JsonRef) (rev : Int) :
    nextRev type payload rev = rev := by
  simp [nextRev, bringsWork, h]

theorem stampUpdated_fields (t : TaskItem) (updated : Int) :
    (stampUpdated t updated).taskId = t.taskId ∧ (stampUpdated t updated).kind = t.kind ∧
      (stampUpdated t updated).state = t.state ∧ (stampUpdated t updated).workRev = t.workRev := by
  rw [stampUpdated]
  split <;> exact ⟨rfl, rfl, rfl, rfl⟩

theorem reduceWorkingMemory_change {t t' : TaskItem} {payload : JsonRef} (h : reduceWorkingMemory t payload = some t') :
    RowChange (lit "task_working_memory_appended") payload t t' := by
  have hkeep : t'.taskId = t.taskId ∧ t'.kind = t.kind ∧ t'.state = t.state ∧ t'.workRev = t.workRev := by
    rw [reduceWorkingMemory] at h
    split at h
    · cases h
    · cases h
    · split at h
      · cases h
      · split at h
        · cases h
          exact stampUpdated_fields _ _
        · cases h
          exact ⟨rfl, rfl, rfl, rfl⟩
  obtain ⟨hid, hkind, hstate, hrev⟩ := hkeep
  exact ⟨hid, hkind, by simpa [askedStatus] using hstate, by rw [hrev, nextRev_of_ne (lit_ne (by decide))]⟩

theorem reduceArtifacts_keeps {t t' : TaskItem} {payload : JsonRef} (h : reduceArtifacts t payload = some t') :
    t'.taskId = t.taskId ∧ t'.kind = t.kind ∧ t'.state = t.state ∧ t'.workRev = t.workRev := by
  rw [reduceArtifacts] at h
  split at h
  · cases h
    exact ⟨rfl, rfl, rfl, rfl⟩
  · split at h
    · obtain ⟨a, -, rfl⟩ := Option.map_eq_some_iff.mp h
      exact ⟨rfl, rfl, rfl, rfl⟩
    · cases h

theorem askedStatus_updated (payload : JsonRef) :
    askedStatus (lit "task_updated") payload = (requestedState payload).filter taskStateOk := by
  rw [askedStatus, if_neg (lit_ne (by decide)), if_pos rfl]

theorem bringsWork_updated (payload : JsonRef) : bringsWork (lit "task_updated") payload =
    ((rtTaskJsonStateString payload (lit "work") rtLarge).isSome ||
      (rtTaskJsonStateString payload (lit "done_when") rtLarge).isSome) := by
  simp [bringsWork]

/-- An update asks for nothing active of a blocked work task, unless it brings work. -/
def GuardPasses (payload : JsonRef) (t : TaskItem) : Prop :=
  t.kind = lit "work" → t.state = lit "blocked" →
    askedStatus (lit "task_updated") payload = some (lit "open") ∨
      askedStatus (lit "task_updated") payload = some (lit "working") →
    bringsWork (lit "task_updated") payload = true

theorem reduceUpdated_change {t t' : TaskItem} {payload : JsonRef} (h : reduceUpdated t payload = some t') :
    RowChange (lit "task_updated") payload t t' ∧ GuardPasses payload t := by
  rw [reduceUpdated] at h
  dsimp only at h
  split at h
  · cases h
  · rename_i hguard
    have hpasses : GuardPasses payload t := by
      intro hkind hstate hasked
      by_contra hwork
      rw [bringsWork_updated, Bool.or_eq_true, not_or, Bool.not_eq_true, Bool.not_eq_true] at hwork
      rw [askedStatus_updated] at hasked
      refine hguard ⟨hkind, hstate, ?_, by simp [hwork.1], by simp [hwork.2]⟩
      exact hasked.imp (fun hopen => (Option.filter_eq_some_iff.mp hopen).1)
        fun hworking => (Option.filter_eq_some_iff.mp hworking).1
    have hrev : (if (rtTaskJsonStateString payload (lit "work") rtLarge).isSome ||
        (rtTaskJsonStateString payload (lit "done_when") rtLarge).isSome then max t.workRev 0 + 1 else t.workRev) =
        nextRev (lit "task_updated") payload t.workRev := by
      rw [nextRev, bringsWork_updated]
    refine ⟨?_, hpasses⟩
    split at h
    · cases h
      exact ⟨rfl, rfl, by rw [askedStatus_updated], hrev⟩
    · split at h
      · cases h
        exact ⟨rfl, rfl, by rw [askedStatus_updated], hrev⟩
      · cases h

theorem reduceState_change {t t' : TaskItem} {type : Bytes} {payload : JsonRef}
    (hmemory : type ≠ lit "task_working_memory_appended") (h : reduceState t type payload = some t') :
    RowChange type payload t t' ∧ (type = lit "task_updated" → GuardPasses payload t) := by
  rw [reduceState] at h
  by_cases htype : type = lit "task_updated"
  · rw [if_pos htype] at h
    subst htype
    exact ⟨(reduceUpdated_change h).1, fun _ => (reduceUpdated_change h).2⟩
  · rw [if_neg htype] at h
    refine ⟨?_, fun hup => absurd hup htype⟩
    split at h
    · cases h
    · rename_i status hstatus
      split at h
      · cases h
        refine ⟨rfl, rfl, ?_, (nextRev_of_ne htype _ _).symm⟩
        rw [askedStatus, if_neg hmemory, if_neg htype, hstatus]
        rfl
      · cases h

/-- The checks an event of a work terminal or a cancellation passes first. -/
structure Admitted (type : Bytes) (payload : JsonRef) (t : TaskItem) : Prop where
  canceled : type = lit "task_canceled" → t.state = lit "open" ∧ rtTaskJsonStatus payload rtSmall = some (lit "canceled")
  completed : type = lit "work_completed" → workTerminalMatches t payload (lit "completed") = true
  blocked : type = lit "work_blocked" → workTerminalMatches t payload (lit "blocked") = true
  guard : type = lit "task_updated" → GuardPasses payload t

theorem reduceItem_change {t t' : TaskItem} {type : Bytes} {payload : JsonRef} (h : reduceItem t type payload = some t') :
    RowChange type payload t t' ∧ Admitted type payload t := by
  rw [reduceItem] at h
  split at h
  · cases h
  · rename_i hcanceled
    have hopen : type = lit "task_canceled" →
        t.state = lit "open" ∧ rtTaskJsonStatus payload rtSmall = some (lit "canceled") := by
      intro htype
      by_contra hno
      rw [not_and_or] at hno
      exact hcanceled ⟨htype, hno⟩
    split at h
    · rename_i hmemory
      subst hmemory
      exact ⟨reduceWorkingMemory_change h, hopen, fun htype => absurd htype (lit_ne (by decide)), fun htype => absurd htype (lit_ne (by decide)),
        fun htype => absurd htype (lit_ne (by decide))⟩
    · rename_i hmemory
      split at h
      · cases h
      · rename_i hcompleted
        split at h
        · cases h
        · rename_i hblocked
          split at h
          · cases h
          · rename_i u hstate
            obtain ⟨hchange, hguard⟩ := reduceState_change hmemory hstate
            obtain ⟨hid, hkind, hst, hrev⟩ := stampUpdated_fields t (updatedMember payload 0)
            obtain ⟨hid', hkind', hst', hrev'⟩ := reduceArtifacts_keeps h
            refine ⟨⟨?_, ?_, ?_, ?_⟩, hopen, ?_, ?_, ?_⟩
            · rw [hid', hchange.id, hid]
            · rw [hkind', hchange.kind, hkind]
            · rw [hst', hchange.status, hst]
            · rw [hrev', hchange.rev, hrev]
            · intro htype
              by_contra hno
              exact hcompleted ⟨htype, by simpa using hno⟩
            · intro htype
              by_contra hno
              exact hblocked ⟨htype, by simpa using hno⟩
            · intro htype hk hs
              exact hguard htype (by rw [hkind, hk]) (by rw [hst, hs])

/-! ## The store -/

/-- No two rows under one id; a row without an id is no task, since no event can name it. -/
def DistinctIds (rows : List TaskItem) : Prop := (rows.map TaskItem.taskId).Pairwise fun a b => a = b → a = []

/-- The rows of the store. -/
structure TaskStore where
  rows : List TaskItem
  distinct : DistinctIds rows

/-- What an accepted event leaves of the rows. -/
inductive RowsChange (type : Bytes) (payload : JsonRef) (rows : List TaskItem) : List TaskItem → Prop
  | created (hroom : rows.length < taskMaxItems) {t : TaskItem} (hnew : createItem blankItem rows payload = some t)
      (htype : type = lit "task_created") : RowsChange type payload rows (rows ++ [t])
  | recycled (hfull : taskMaxItems ≤ rows.length) {i : Nat} {old t : TaskItem}
      (hfirst : rows.findIdx? (fun t => taskStateTerminal t.state) = some i) (hold : rows[i]? = some old)
      (hnew : createItem (rows.getLastD blankItem) (rows.eraseIdx i) payload = some t)
      (htype : type = lit "task_created") : RowsChange type payload rows (rows.eraseIdx i ++ [t])
  | changed (htype : type ≠ lit "task_created") {i : Nat} {t t' : TaskItem} (hrow : rows[i]? = some t)
      (hname : jsonRefObjectGetString payload (lit "task_id") rtSmall = some t.taskId) (hid : t.taskId ≠ [])
      (hitem : reduceItem t type payload = some t') : RowsChange type payload rows (rows.set i t')

theorem taskEvict_eq {rows kept : List TaskItem} (h : taskEvictOldestTerminal rows = some kept) :
    ∃ i old, rows.findIdx? (fun t => taskStateTerminal t.state) = some i ∧ rows[i]? = some old ∧ kept = rows.eraseIdx i := by
  rw [taskEvictOldestTerminal] at h
  split at h
  · cases h
  · rename_i i hi
    cases h
    obtain ⟨hlt, -, -⟩ := List.findIdx?_eq_some_iff_getElem.mp hi
    exact ⟨i, rows[i], hi, by rw [List.getElem?_eq_getElem hlt], rfl⟩

theorem taskIndexOf_some {rows : List TaskItem} {id : Bytes} {i : Nat} (h : taskIndexOf rows id = some i) :
    id ≠ [] ∧ ∃ t, rows[i]? = some t ∧ t.taskId = id := by
  rw [taskIndexOf] at h
  split at h
  · cases h
  · rename_i hid
    obtain ⟨hlt, hrow, -⟩ := List.findIdx?_eq_some_iff_getElem.mp h
    exact ⟨hid, rows[i], by rw [List.getElem?_eq_getElem hlt], by simpa using hrow⟩

theorem reduceTasks_change {rows rows' : List TaskItem} {type : Bytes} {payload : JsonRef}
    (h : reduceTasks rows type payload = some rows') : RowsChange type payload rows rows' := by
  rw [reduceTasks] at h
  by_cases htype : type = lit "task_created"
  · rw [if_pos htype, reduceCreated] at h
    split at h
    · rename_i hfull
      split at h
      · cases h
      · rename_i kept hkept
        obtain ⟨i, old, hfirst, hold, rfl⟩ := taskEvict_eq hkept
        obtain ⟨t, ht, rfl⟩ := Option.map_eq_some_iff.mp h
        exact .recycled hfull hfirst hold ht htype
    · rename_i hroom
      obtain ⟨t, ht, rfl⟩ := Option.map_eq_some_iff.mp h
      exact .created (Nat.lt_of_not_le hroom) ht htype
  · rw [if_neg htype] at h
    split at h
    · cases h
    · rename_i i hi
      obtain ⟨id, hname, hindex⟩ := Option.bind_eq_some_iff.mp hi
      obtain ⟨hid, t, hrow, rfl⟩ := taskIndexOf_some hindex
      rw [hrow] at h
      obtain ⟨t', hitem, rfl⟩ := Option.map_eq_some_iff.mp h
      exact .changed htype hrow hname hid hitem

theorem applyTaskEvent_change {rows rows' : List TaskItem} {type payloadJson : Bytes}
    (h : applyTaskEvent rows type payloadJson = some rows') :
    ∃ payload, jsonRefTopObject payloadJson = some payload ∧ RowsChange type payload rows rows' := by
  rw [applyTaskEvent] at h
  split at h
  · split at h
    · cases h
    · rename_i payload hpayload
      exact ⟨payload, hpayload, reduceTasks_change (Option.filter_eq_some_iff.mp h).1⟩
  · cases h

/-- What a new row takes from its payload. -/
structure NewRow (items : List TaskItem) (payload : JsonRef) (t : TaskItem) : Prop where
  id : jsonRefObjectGetString payload (lit "task_id") rtSmall = some t.taskId
  fresh : taskIndexOf items t.taskId = none
  status : rtTaskJsonStatus payload rtSmall = some t.state

theorem createItem_new {slot t : TaskItem} {items : List TaskItem} {payload : JsonRef}
    (h : createItem slot items payload = some t) : NewRow items payload t := by
  rw [createItem] at h
  split at h
  · cases h
  · rename_i taskId hid
    split at h
    · cases h
    · rename_i hfresh
      split at h
      · rename_i contextId state hcontext hstatus
        split at h
        · cases h
          exact ⟨hid, by simpa using hfresh, hstatus⟩
        · cases h
      · cases h

theorem fresh_ne {items : List TaskItem} {id : Bytes} (h : taskIndexOf items id = none) (hid : id ≠ []) :
    ∀ t ∈ items, t.taskId ≠ id := by
  rw [taskIndexOf, if_neg hid, List.findIdx?_eq_none_iff] at h
  intro t ht
  simpa using h t ht

theorem DistinctIds.append {rows : List TaskItem} (h : DistinctIds rows) {t : TaskItem}
    (hfresh : taskIndexOf rows t.taskId = none) : DistinctIds (rows ++ [t]) := by
  rw [DistinctIds, List.map_append, List.pairwise_append]
  refine ⟨h, by simp, ?_⟩
  intro a ha b hb hab
  obtain ⟨u, hu, rfl⟩ := List.mem_map.mp ha
  rw [List.map_singleton, List.mem_singleton] at hb
  subst hb
  by_contra hne
  exact fresh_ne hfresh (hab ▸ hne) u hu hab

theorem DistinctIds.eraseIdx {rows : List TaskItem} (h : DistinctIds rows) (i : Nat) : DistinctIds (rows.eraseIdx i) :=
  List.Pairwise.sublist ((List.eraseIdx_sublist rows i).map TaskItem.taskId) h

theorem map_set_same {rows : List TaskItem} {i : Nat} {t t' : TaskItem} (hrow : rows[i]? = some t)
    (hid : t'.taskId = t.taskId) : (rows.set i t').map TaskItem.taskId = rows.map TaskItem.taskId := by
  rw [List.map_set]
  have hget : (rows.map TaskItem.taskId)[i]? = some t'.taskId := by
    rw [List.getElem?_map, hrow, hid]
    rfl
  obtain ⟨hlt, hval⟩ := List.getElem?_eq_some_iff.mp hget
  rw [← hval]
  exact List.set_getElem_self hlt

theorem RowsChange.distinct {type : Bytes} {payload : JsonRef} {rows rows' : List TaskItem}
    (h : RowsChange type payload rows rows') (hrows : DistinctIds rows) : DistinctIds rows' := by
  cases h with
  | created _ hnew => exact hrows.append (createItem_new hnew).fresh
  | recycled _ _ _ hnew => exact (hrows.eraseIdx _).append (createItem_new hnew).fresh
  | changed _ hrow _ _ hitem =>
    rw [DistinctIds, map_set_same hrow (reduceItem_change hitem).1.id]
    exact hrows

/-- The store after an event: a refused one leaves it as it was. -/
def TaskStore.apply (st : TaskStore) (type payloadJson : Bytes) : TaskStore :=
  match h : applyTaskEvent st.rows type payloadJson with
  | none => st
  | some rows => ⟨rows, by
      obtain ⟨payload, -, hchange⟩ := applyTaskEvent_change h
      exact hchange.distinct st.distinct⟩

theorem TaskStore.apply_of_none {st : TaskStore} {type payloadJson : Bytes}
    (h : applyTaskEvent st.rows type payloadJson = none) : (st.apply type payloadJson).rows = st.rows := by
  rw [TaskStore.apply]
  split
  · rfl
  · rename_i rows hrows
    rw [h] at hrows
    cases hrows

theorem TaskStore.apply_of_some {st : TaskStore} {type payloadJson : Bytes} {rows : List TaskItem}
    (h : applyTaskEvent st.rows type payloadJson = some rows) : (st.apply type payloadJson).rows = rows := by
  rw [TaskStore.apply]
  split
  · rename_i hnone
    rw [h] at hnone
    cases hnone
  · rename_i rows' hrows
    rw [h] at hrows
    cases hrows
    rfl

/-- One row per id: a row is known by it. -/
theorem DistinctIds.unique {rows : List TaskItem} (h : DistinctIds rows) {t u : TaskItem} {i j : Nat}
    (ht : rows[i]? = some t) (hu : rows[j]? = some u) (hid : t.taskId = u.taskId) (hne : t.taskId ≠ []) : i = j := by
  obtain ⟨hi, hit⟩ := List.getElem?_eq_some_iff.mp ht
  obtain ⟨hj, hju⟩ := List.getElem?_eq_some_iff.mp hu
  have hpair := List.pairwise_iff_getElem.mp h
  have hlen : (rows.map TaskItem.taskId).length = rows.length := List.length_map _
  rcases Nat.lt_trichotomy i j with hlt | heq | hgt
  · have := hpair i j (hlen ▸ hi) (hlen ▸ hj) hlt (by simpa [hit, hju] using hid)
    exact absurd (by simpa [hit] using this) hne
  · exact heq
  · have := hpair j i (hlen ▸ hj) (hlen ▸ hi) hgt (by simpa [hit, hju] using hid.symm)
    exact absurd (by simpa [hju, ← hid] using this) hne

/-! ## Terminal states -/

/-- A task that was finished has the same status, or is no longer there. -/
def StatusFinal (st st' : TaskStore) : Prop :=
  ∀ t ∈ st.rows, t.taskId ≠ [] → taskStateTerminal t.state = true → ∀ t' ∈ st'.rows, t'.taskId = t.taskId → t'.state = t.state

/-- The row an event names. -/
def Names (st : TaskStore) (payload : JsonRef) (t : TaskItem) : Prop :=
  t ∈ st.rows ∧ t.taskId ≠ [] ∧ jsonRefObjectGetString payload (lit "task_id") rtSmall = some t.taskId

/-- An event that asks a finished task for another status, and a creation that recycles the row of a finished task
under the id of that very task. -/
def Revives (st : TaskStore) (type : Bytes) (payload : JsonRef) : Prop :=
  if type = lit "task_created" then
    taskMaxItems ≤ st.rows.length ∧ ∃ i t, st.rows.findIdx? (fun t => taskStateTerminal t.state) = some i ∧
      st.rows[i]? = some t ∧ Names st payload t ∧ rtTaskJsonStatus payload rtSmall ≠ some t.state
  else ∃ t s, Names st payload t ∧ taskStateTerminal t.state = true ∧ askedStatus type payload = some s ∧ s ≠ t.state

theorem findIdx?_terminal {rows : List TaskItem} {i : Nat} {t : TaskItem}
    (hfirst : rows.findIdx? (fun t => taskStateTerminal t.state) = some i) (hrow : rows[i]? = some t) :
    taskStateTerminal t.state = true := by
  obtain ⟨hlt, hterminal, -⟩ := List.findIdx?_eq_some_iff_getElem.mp hfirst
  obtain ⟨-, rfl⟩ := List.getElem?_eq_some_iff.mp hrow
  exact hterminal

theorem mem_set_cases {rows : List TaskItem} {i : Nat} {t' u : TaskItem} (h : u ∈ rows.set i t') :
    u = t' ∨ ∃ j, j ≠ i ∧ rows[j]? = some u := by
  obtain ⟨j, hj⟩ := List.mem_iff_getElem?.mp h
  rw [List.getElem?_set] at hj
  split at hj
  · split at hj
    · cases hj
      exact .inl rfl
    · cases hj
  · rename_i hne
    exact .inr ⟨j, fun heq => hne heq.symm, hj⟩

section Final
variable {st : TaskStore} {type payloadJson : Bytes} {payload : JsonRef} {rows : List TaskItem}

/-- The row of a finished task, seen among the rows that were there before. -/
theorem state_of_same_id {t u : TaskItem} (ht : t ∈ st.rows) (hid : t.taskId ≠ []) (hu : u ∈ st.rows)
    (hsame : u.taskId = t.taskId) : u.state = t.state := by
  obtain ⟨i, hi⟩ := List.mem_iff_getElem?.mp ht
  obtain ⟨j, hj⟩ := List.mem_iff_getElem?.mp hu
  have hij := st.distinct.unique hi hj hsame.symm hid
  subst hij
  rw [hi] at hj
  cases hj
  rfl

theorem final_of_change (hchange : RowsChange type payload st.rows rows) (hsafe : ¬ Revives st type payload)
    {t : TaskItem} (ht : t ∈ st.rows) (hid : t.taskId ≠ []) (hterminal : taskStateTerminal t.state = true)
    {t' : TaskItem} (ht' : t' ∈ rows) (hsame : t'.taskId = t.taskId) : t'.state = t.state := by
  cases hchange with
  | created _ hnew =>
    rcases List.mem_append.mp ht' with hold | hlast
    · exact state_of_same_id ht hid hold hsame
    · rw [List.mem_singleton] at hlast
      subst hlast
      exact absurd hsame.symm (fresh_ne (createItem_new hnew).fresh (hsame ▸ hid) t ht)
  | @recycled hfull i old new hfirst hold hnew htype =>
    rcases List.mem_append.mp ht' with hkept | hlast
    · exact state_of_same_id ht hid (List.mem_of_mem_eraseIdx hkept) hsame
    · rw [List.mem_singleton] at hlast
      subst hlast
      -- every row but the recycled one is still there, and its id is not given away again
      obtain ⟨j, hj⟩ := List.mem_iff_getElem?.mp ht
      by_cases hji : j = i
      · subst hji
        rw [hold] at hj
        cases hj
        by_contra hne
        rw [Revives, if_pos htype] at hsafe
        refine hsafe ⟨hfull, j, t, hfirst, hold, ⟨ht, hid, ?_⟩, ?_⟩
        · rw [← hsame]
          exact (createItem_new hnew).id
        · rw [(createItem_new hnew).status]
          exact fun heq => hne (Option.some.inj heq)
      · have hkept : t ∈ st.rows.eraseIdx i := List.mem_eraseIdx_iff_getElem?.mpr ⟨j, hji, hj⟩
        exact absurd hsame.symm (fresh_ne (createItem_new hnew).fresh (hsame ▸ hid) t hkept)
  | @changed htype i row row' hrow hname hne hitem =>
    have hchanged := (reduceItem_change hitem).1
    rcases mem_set_cases ht' with rfl | ⟨j, -, hj⟩
    · have hmem : row ∈ st.rows := List.mem_of_getElem? hrow
      have hrowId : row.taskId = t.taskId := by rw [← hchanged.id, hsame]
      have hstate : row.state = t.state := state_of_same_id ht hid hmem hrowId
      rw [hchanged.status, ← hstate]
      cases hasked : askedStatus type payload with
      | none => rfl
      | some s =>
        by_contra hne'
        rw [Revives, if_neg htype] at hsafe
        exact hsafe ⟨row, s, ⟨hmem, hne, hname⟩, by rw [hstate]; exact hterminal, hasked, hne'⟩
    · exact state_of_same_id ht hid (List.mem_of_getElem? hj) hsame

theorem not_final_of_revives (hchange : RowsChange type payload st.rows rows) (hrevives : Revives st type payload) :
    ∃ t ∈ st.rows, t.taskId ≠ [] ∧ taskStateTerminal t.state = true ∧ ∃ t' ∈ rows, t'.taskId = t.taskId ∧ t'.state ≠ t.state := by
  rw [Revives] at hrevives
  cases hchange with
  | created hroom _ htype =>
    rw [if_pos htype] at hrevives
    exact absurd hrevives.1 (by omega)
  | @recycled hfull i old new hfirst hold hnew htype =>
    rw [if_pos htype] at hrevives
    obtain ⟨-, j, t, hfirst', hrow, ⟨hmem, hid, hname⟩, hstatus⟩ := hrevives
    rw [hfirst] at hfirst'
    cases hfirst'
    refine ⟨t, hmem, hid, findIdx?_terminal hfirst hrow, new, by simp, ?_, ?_⟩
    · rw [(createItem_new hnew).id] at hname
      exact Option.some.inj hname
    · rw [(createItem_new hnew).status] at hstatus
      exact fun heq => hstatus (by rw [heq])
  | @changed htype i row row' hrow hname hne hitem =>
    rw [if_neg htype] at hrevives
    obtain ⟨t, s, ⟨hmem, hid, hname'⟩, hterminal, hasked, hne'⟩ := hrevives
    rw [hname] at hname'
    have hrowMem : row ∈ st.rows := List.mem_of_getElem? hrow
    have hsame : row.taskId = t.taskId := Option.some.inj hname'
    have hchanged := (reduceItem_change hitem).1
    refine ⟨t, hmem, hid, hterminal, row', ?_, by rw [hchanged.id, hsame], ?_⟩
    · exact List.mem_set (List.getElem?_eq_some_iff.mp hrow).1 row'
    · rw [hchanged.status, hasked]
      exact hne'

/-- An accepted event leaves every finished task its status exactly when it neither asks a finished task for another one
nor takes the id of the finished task whose row it recycles. -/
theorem terminal_status_final_iff (st : TaskStore) (type payloadJson : Bytes) :
    StatusFinal st (st.apply type payloadJson) ↔
      ∀ payload, jsonRefTopObject payloadJson = some payload → (applyTaskEvent st.rows type payloadJson).isSome →
        ¬ Revives st type payload := by
  constructor
  · intro hfinal payload hpayload haccepted hrevives
    obtain ⟨rows, hrows⟩ := Option.isSome_iff_exists.mp haccepted
    obtain ⟨payload', hpayload', hchange⟩ := applyTaskEvent_change hrows
    rw [hpayload] at hpayload'
    cases hpayload'
    obtain ⟨t, ht, hid, hterminal, t', ht', hsame, hne⟩ := not_final_of_revives hchange hrevives
    exact hne (hfinal t ht hid hterminal t' (by rw [TaskStore.apply_of_some hrows]; exact ht') hsame)
  · intro hsafe t ht hid hterminal t' ht' hsame
    cases hrows : applyTaskEvent st.rows type payloadJson with
    | none =>
      rw [TaskStore.apply_of_none hrows] at ht'
      exact state_of_same_id ht hid ht' hsame
    | some rows =>
      rw [TaskStore.apply_of_some hrows] at ht'
      obtain ⟨payload, hpayload, hchange⟩ := applyTaskEvent_change hrows
      exact final_of_change hchange (hsafe payload hpayload (by rw [hrows]; rfl)) ht hid hterminal ht' hsame

end Final

/-- A finished row. -/
def finishedTask : TaskItem :=
  { blankItem with taskId := lit "t1", contextId := lit "chat:cli", kind := lit "work", state := lit "completed", work := lit "w"
                   workRev := 1 }

def finishedStore : TaskStore := ⟨[finishedTask], by simp [DistinctIds]⟩

/-- The plain update `{"task_id":"t1","state":"open"}` reopens a completed task. -/
theorem completed_task_reopened : ¬ StatusFinal finishedStore
    (finishedStore.apply (lit "task_updated") (lit "\x7b\"task_id\":\"t1\",\"state\":\"open\"\x7d")) := by
  intro hfinal
  have hrows : applyTaskEvent finishedStore.rows (lit "task_updated")
      (lit "\x7b\"task_id\":\"t1\",\"state\":\"open\"\x7d") = some [{ finishedTask with state := lit "open" }] := by
    decide +kernel
  have hstate := hfinal finishedTask (by simp [finishedStore]) (by decide) (by decide) { finishedTask with state := lit "open" }
    (by rw [TaskStore.apply_of_some hrows]; simp) rfl
  exact absurd hstate (by decide)

/-! ## Closed revisions -/

/-- The store, and every revision a work terminal was accepted for. -/
structure WorkHistory where
  rows : List TaskItem := []
  closed : List (Bytes × Int) := []
  deriving DecidableEq

def closesWork (type : Bytes) : Bool := type = lit "work_completed" || type = lit "work_blocked"

/-- The task and the revision a payload names. -/
def namedRevision (payloadJson : Bytes) : Bytes × Int :=
  match jsonRefTopObject payloadJson with
  | none => ([], 0)
  | some payload =>
    ((jsonRefObjectGetString payload (lit "task_id") rtSmall).getD [], (jsonRefObjectGetLong payload (lit "work_rev") 0).1)

/-- One task event, given as its type and payload. -/
def historyStep (s : WorkHistory) (event : Bytes × Bytes) : Option WorkHistory :=
  match applyTaskEvent s.rows event.1 event.2 with
  | none => some s
  | some rows =>
    some { rows := rows, closed := if closesWork event.1 then s.closed ++ [namedRevision event.2] else s.closed }

def Active (state : Bytes) : Prop := state = lit "open" ∨ state = lit "working"

instance (state : Bytes) : Decidable (Active state) := inferInstanceAs (Decidable (_ ∨ _))

/-- A work task is active again only under a revision after every one that was closed. -/
def RevisionsFresh (s : WorkHistory) : Prop :=
  ∀ c ∈ s.closed, ∀ t ∈ s.rows, t.taskId = c.1 → Active t.state → c.2 < t.workRev

/-- The event makes an idle work task active and brings no work, and it is not an update of a blocked task, which the
guard of the reducer refuses. -/
def ReopensIdle (s : WorkHistory) (type : Bytes) (payload : JsonRef) : Prop :=
  ∃ t ∈ s.rows, jsonRefObjectGetString payload (lit "task_id") rtSmall = some t.taskId ∧ t.kind = lit "work" ∧ ¬ Active t.state ∧
    (askedStatus type payload).any (fun status => decide (Active status)) ∧ bringsWork type payload = false ∧
    ¬ (type = lit "task_updated" ∧ t.state = lit "blocked")

/-- The creation takes an id under which a revision was closed. -/
def ReusesId (s : WorkHistory) (payload : JsonRef) : Prop :=
  ∃ c ∈ s.closed, jsonRefObjectGetString payload (lit "task_id") rtSmall = some c.1

def KeepsRevisions (s : WorkHistory) (event : Bytes × Bytes) : Prop :=
  ∀ payload, jsonRefTopObject event.2 = some payload →
    if event.1 = lit "task_created" then ¬ ReusesId s payload else ¬ ReopensIdle s event.1 payload

/-- The closed revisions of a task bound its own, and while it stands at one of them it is idle. -/
structure HistoryInv (s : WorkHistory) : Prop where
  distinct : DistinctIds s.rows
  named : ∀ c ∈ s.closed, c.1 ≠ []
  bound : ∀ c ∈ s.closed, ∀ t ∈ s.rows, t.taskId = c.1 →
    t.kind = lit "work" ∧ c.2 ≤ t.workRev ∧ (c.2 = t.workRev → ¬ Active t.state)

theorem historyInv_fresh {s : WorkHistory} (h : HistoryInv s) : RevisionsFresh s := by
  intro c hc t ht hid hactive
  obtain ⟨-, hle, hidle⟩ := h.bound c hc t ht hid
  have hne : c.2 ≠ t.workRev := fun heq => hidle heq hactive
  omega

theorem nextRev_le (type : Bytes) (payload : JsonRef) (rev : Int) : rev ≤ nextRev type payload rev := by
  rw [nextRev]
  split <;> omega

section Step
variable {s : WorkHistory} {type : Bytes} {payload : JsonRef} {rows : List TaskItem}

/-- The rows that were there keep the bound; a new one has an id of its own. -/
theorem bound_of_created {kept : List TaskItem} {t : TaskItem} (hinv : HistoryInv s) (hkept : ∀ u ∈ kept, u ∈ s.rows)
    (hnew : NewRow kept payload t) (hfresh : ¬ ReusesId s payload) :
    ∀ c ∈ s.closed, ∀ u ∈ kept ++ [t], u.taskId = c.1 →
      u.kind = lit "work" ∧ c.2 ≤ u.workRev ∧ (c.2 = u.workRev → ¬ Active u.state) := by
  intro c hc u hu hid
  rcases List.mem_append.mp hu with hold | hlast
  · exact hinv.bound c hc u (hkept u hold) hid
  · rw [List.mem_singleton] at hlast
    subst hlast
    exact absurd ⟨c, hc, by rw [hnew.id, hid]⟩ hfresh

/-- An accepted event that does not reopen an idle task without work leaves a closed revision idle. -/
theorem idle_of_change {t t' : TaskItem} (hchange : RowChange type payload t t') (hadmitted : Admitted type payload t)
    (hkind : t.kind = lit "work") (hsafe : ¬ Active t.state → (askedStatus type payload).any (fun a => decide (Active a)) →
      bringsWork type payload = false → type = lit "task_updated" ∧ t.state = lit "blocked")
    (hidle : ¬ Active t.state) (hrev : bringsWork type payload = false) : ¬ Active t'.state := by
  rw [hchange.status]
  cases hasked : askedStatus type payload with
  | none => exact hidle
  | some status =>
    intro hactive
    rw [Option.getD_some] at hactive
    obtain ⟨rfl, hblocked⟩ := hsafe hidle (by simpa [hasked] using hactive) hrev
    have hwork := hadmitted.guard rfl hkind hblocked (by rw [hasked]; exact hactive.imp (congrArg some) (congrArg some))
    rw [hrev] at hwork
    cases hwork

theorem bound_of_changed {i : Nat} {t t' : TaskItem} (hinv : HistoryInv s) (hrow : s.rows[i]? = some t)
    (hname : jsonRefObjectGetString payload (lit "task_id") rtSmall = some t.taskId)
    (hitem : reduceItem t type payload = some t') (hsafe : ¬ ReopensIdle s type payload) :
    ∀ c ∈ s.closed, ∀ u ∈ s.rows.set i t', u.taskId = c.1 →
      u.kind = lit "work" ∧ c.2 ≤ u.workRev ∧ (c.2 = u.workRev → ¬ Active u.state) := by
  obtain ⟨hchange, hadmitted⟩ := reduceItem_change hitem
  intro c hc u hu hid
  rcases mem_set_cases hu with rfl | ⟨j, -, hj⟩
  · have hmem : t ∈ s.rows := List.mem_of_getElem? hrow
    obtain ⟨hkind, hle, hidle⟩ := hinv.bound c hc t hmem (by rw [← hchange.id, hid])
    refine ⟨by rw [hchange.kind, hkind], ?_, ?_⟩
    · rw [hchange.rev]
      exact Int.le_trans hle (nextRev_le _ _ _)
    · intro heq
      rw [hchange.rev, nextRev] at heq
      split at heq
      · omega
      · rename_i hrev
        rw [Bool.not_eq_true] at hrev
        refine idle_of_change hchange hadmitted hkind ?_ (hidle heq) hrev
        intro hidle' hasked hwork
        by_contra hno
        exact hsafe ⟨t, hmem, hname, hkind, hidle', hasked, hwork, hno⟩
  · exact hinv.bound c hc u (List.mem_of_getElem? hj) hid

/-- What the accepted terminal of a work task says: the task it names is at the revision it names, and idle now. -/
theorem closed_row {t t' : TaskItem} (hcloses : closesWork type = true) (hitem : reduceItem t type payload = some t') :
    t.kind = lit "work" ∧ (jsonRefObjectGetLong payload (lit "work_rev") 0).1 = t'.workRev ∧ ¬ Active t'.state := by
  obtain ⟨hchange, hadmitted⟩ := reduceItem_change hitem
  have key : ∀ status, workTerminalMatches t payload status = true → type ≠ lit "task_updated" →
      type ≠ lit "task_working_memory_appended" → ¬ Active status →
      t.kind = lit "work" ∧ (jsonRefObjectGetLong payload (lit "work_rev") 0).1 = t'.workRev ∧ ¬ Active t'.state := by
    intro status hmatches hupdated hmemory hidle
    simp only [workTerminalMatches, Bool.and_eq_true, decide_eq_true_eq] at hmatches
    obtain ⟨⟨⟨hkind, hrev⟩, -⟩, hstatus⟩ := hmatches
    refine ⟨hkind, ?_, ?_⟩
    · rw [hrev, hchange.rev, nextRev_of_ne hupdated]
    · rw [hchange.status, askedStatus, if_neg hmemory, if_neg hupdated, hstatus]
      exact hidle
  rw [closesWork, Bool.or_eq_true, decide_eq_true_eq, decide_eq_true_eq] at hcloses
  rcases hcloses with rfl | rfl
  · exact key _ (hadmitted.completed rfl) (lit_ne (by decide)) (lit_ne (by decide)) (by rw [lit_ofList]; decide)
  · exact key _ (hadmitted.blocked rfl) (by decide) (by decide) (by decide)

theorem historyStep_inv {event : Bytes × Bytes} {s' : WorkHistory} (hinv : HistoryInv s) (hok : KeepsRevisions s event)
    (h : historyStep s event = some s') : HistoryInv s' := by
  obtain ⟨type, payloadJson⟩ := event
  rw [historyStep] at h
  cases hrows : applyTaskEvent s.rows type payloadJson with
  | none =>
    rw [hrows] at h
    cases h
    exact hinv
  | some rows =>
    rw [hrows] at h
    cases h
    obtain ⟨payload, hpayload, hchange⟩ := applyTaskEvent_change hrows
    have hsafe := hok payload hpayload
    have hdistinct := hchange.distinct hinv.distinct
    cases hchange with
    | created _ hnew htype =>
      subst htype
      rw [if_pos rfl] at hsafe
      have hbound := bound_of_created hinv (fun _ hu => hu) (createItem_new hnew) hsafe
      dsimp only
      rw [if_neg (by rw [lit_ofList]; decide)]
      exact ⟨hdistinct, hinv.named, hbound⟩
    | recycled _ _ _ hnew htype =>
      subst htype
      rw [if_pos rfl] at hsafe
      have hbound := bound_of_created hinv (fun _ hu => List.mem_of_mem_eraseIdx hu) (createItem_new hnew) hsafe
      dsimp only
      rw [if_neg (by decide)]
      exact ⟨hdistinct, hinv.named, hbound⟩
    | @changed htype i t t' hrow hname hid hitem =>
      rw [if_neg htype] at hsafe
      have hbound := bound_of_changed hinv hrow hname hitem hsafe
      by_cases hcloses : closesWork type = true
      · dsimp only
        rw [if_pos hcloses]
        have hnamed : namedRevision payloadJson = (t.taskId, (jsonRefObjectGetLong payload (lit "work_rev") 0).1) := by
          simp [namedRevision, hpayload, hname]
        obtain ⟨hkind, hrev, hidle⟩ := closed_row hcloses hitem
        refine ⟨hdistinct, ?_, ?_⟩
        · intro c hc
          rcases List.mem_append.mp hc with hold | hlast
          · exact hinv.named c hold
          · rw [List.mem_singleton.mp hlast, hnamed]
            exact hid
        · intro c hc u hu huid
          rcases List.mem_append.mp hc with hold | hlast
          · exact hbound c hold u hu huid
          · rw [List.mem_singleton.mp hlast, hnamed] at huid ⊢
            rcases mem_set_cases hu with rfl | ⟨j, hne, hj⟩
            · exact ⟨by rw [(reduceItem_change hitem).1.kind, hkind], Int.le_of_eq hrev, fun _ => hidle⟩
            · exact absurd (hinv.distinct.unique hj hrow huid (huid ▸ hid)) hne
      · dsimp only
        rw [if_neg hcloses]
        exact ⟨hdistinct, hinv.named, hbound⟩

/-- In every history whose events reopen no idle work task without work and create no task under an id whose revisions
were closed, a work task is active only under a revision after every closed one. -/
theorem closed_revision_never_reused {events : List (Bytes × Bytes)} {s : WorkHistory}
    (hrun : Run historyStep KeepsRevisions {} events s) : RevisionsFresh s := by
  refine historyInv_fresh (hrun.invariant ⟨by simp [DistinctIds], by simp, by simp⟩ ?_)
  intro s event s' hinv hok hstep
  exact historyStep_inv hinv hok hstep

end Step

instance (s : WorkHistory) (type : Bytes) (payload : JsonRef) : Decidable (ReopensIdle s type payload) :=
  inferInstanceAs (Decidable (∃ t ∈ s.rows, _))

instance (s : WorkHistory) (payload : JsonRef) : Decidable (ReusesId s payload) := inferInstanceAs (Decidable (∃ c ∈ s.closed, _))

instance (s : WorkHistory) (event : Bytes × Bytes) : Decidable (KeepsRevisions s event) :=
  match h : jsonRefTopObject event.2 with
  | none => .isTrue fun payload hpayload => by rw [h] at hpayload; cases hpayload
  | some payload =>
    decidable_of_iff (if event.1 = lit "task_created" then ¬ ReusesId s payload else ¬ ReopensIdle s event.1 payload)
      ⟨fun hif payload' hpayload => by rw [h] at hpayload; cases hpayload; exact hif, fun hall => hall payload h⟩

instance (s : WorkHistory) : Decidable (RevisionsFresh s) :=
  inferInstanceAs (Decidable (∀ c ∈ s.closed, ∀ t ∈ s.rows, t.taskId = c.1 → Active t.state → c.2 < t.workRev))

/-- A work task is made and completed. -/
def completedWork : List (Bytes × Bytes) :=
  [(lit "task_created",
      lit "\x7b\"task_id\":\"t1\",\"context_id\":\"chat:cli\",\"kind\":\"work\",\"state\":\"open\",\"work\":\"a\"\x7d"),
    (lit "work_completed", lit "\x7b\"task_id\":\"t1\",\"context_id\":\"chat:cli\",\"work_rev\":1,\"state\":\"completed\"\x7d")]

/-- New work reopens the task under revision 2. -/
def renewedWork : List (Bytes × Bytes) :=
  completedWork ++ [(lit "task_updated", lit "\x7b\"task_id\":\"t1\",\"state\":\"open\",\"work\":\"b\"\x7d")]

/-- The row of the task at a revision with its work. -/
def workRow (work : Bytes) (rev : Int) : TaskItem :=
  { blankItem with taskId := lit "t1", contextId := lit "chat:cli", kind := lit "work", state := lit "open", work := work
                   input := lit "null", external := lit "null", artifacts := lit "[]", workRev := rev }

def renewedHistory : WorkHistory := { rows := [workRow (lit "b") 2], closed := [(lit "t1", 1)] }

theorem renewed_work_fresh : RevisionsFresh renewedHistory := by
  have hcheck : checkRun historyStep KeepsRevisions {} renewedWork = some renewedHistory := by
    unfold renewedWork completedWork
    repeat rw [lit_ofList]
    decide +kernel
  exact closed_revision_never_reused (Run.of_check hcheck)

/-- The completed task is put back to open by a plain update, at the revision that was completed. -/
theorem completed_revision_reused : ∃ s, exec historyStep {} (completedWork ++
    [(lit "task_updated", lit "\x7b\"task_id\":\"t1\",\"state\":\"open\"\x7d")]) = some s ∧ ¬ RevisionsFresh s := by
  refine ⟨{ rows := [workRow (lit "a") 1], closed := [(lit "t1", 1)] }, ?_, ?_⟩
  · unfold completedWork
    repeat rw [lit_ofList]
    decide +kernel
  · (repeat rw [lit_ofList]); decide

example : closesWork (lit "work_progressed") = false := by decide +kernel

end Floofclaw.Guarantees.TaskStates
