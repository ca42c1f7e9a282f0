import Mathlib.Data.List.Nodup
import Floofclaw.Source.Claims

/-!
# One operation, one result run

Admission asks whether the record is running, and only the reducer behind the
first line ends that. Between the two a second claim is admitted. Where no claim
is taken in while an earlier one of the same operation still waits for its first
line, and every committed line reaches the store, an operation has one result
run at most, over every order of claims, retries, requeues and crashes.
-/

set_option autoImplicit false

namespace Floofclaw.Guarantees.ResultRuns
open Floofclaw.Lib Floofclaw.Source.Operations Floofclaw.Source.Claims

/-! ## The store -/

/-- Every record is listed once, and those of the given operations are finished. -/
structure Settled (ops : Bytes → Prop) (st : OperationStore) : Prop where
  nodup : (st.map OperationItem.handle).Nodup
  finished : ∀ o ∈ st, ops o.handle → o.status = .finished

theorem Settled.nil (ops : Bytes → Prop) : Settled ops [] := ⟨List.nodup_nil, by simp⟩

theorem Settled.sublist {ops : Bytes → Prop} {st st' : OperationStore} (h : Settled ops st) (hsub : st'.Sublist st) :
    Settled ops st' :=
  ⟨h.nodup.sublist (hsub.map _), fun o ho => h.finished o (hsub.subset ho)⟩

theorem Settled.append {ops : Bytes → Prop} {st : OperationStore} {o : OperationItem} (h : Settled ops st)
    (hnew : ∀ x ∈ st, x.handle ≠ o.handle) (hfinished : ops o.handle → o.status = .finished) :
    Settled ops (st ++ [o]) := by
  refine ⟨?_, fun x hx hops => ?_⟩
  · rw [List.map_append, List.nodup_append]
    refine ⟨h.nodup, by simp, ?_⟩
    intro a ha b hb
    obtain ⟨x, hx, rfl⟩ := List.mem_map.mp ha
    rw [List.map_singleton, List.mem_singleton] at hb
    exact hb ▸ hnew x hx
  · rcases List.mem_append.mp hx with hx | hx
    · exact h.finished x hx hops
    · rw [List.mem_singleton] at hx
      exact hx ▸ hfinished (hx ▸ hops)

theorem opUpdate_handles {id : Bytes} {change : OperationItem → OperationItem} (hkeep : ∀ o, (change o).handle = o.handle)
    (st : OperationStore) : (opUpdate id change st).map OperationItem.handle = st.map OperationItem.handle := by
  induction st with
  | nil => rfl
  | cons o st ih =>
    rw [opUpdate]
    split
    · simp [hkeep]
    · simp [ih]

/-- A record of the changed store is one of the old store, changed only under its own id. -/
theorem mem_opUpdate {id : Bytes} {change : OperationItem → OperationItem} {st : OperationStore} {x : OperationItem}
    (hx : x ∈ opUpdate id change st) : x ∈ st ∨ ∃ o ∈ st, o.handle = id ∧ x = change o := by
  induction st with
  | nil => simp [opUpdate] at hx
  | cons o st ih =>
    rw [opUpdate] at hx
    split at hx
    · rename_i hid
      rcases List.mem_cons.mp hx with rfl | hx
      · exact .inr ⟨o, by simp, hid, rfl⟩
      · exact .inl (by simp [hx])
    · rcases List.mem_cons.mp hx with rfl | hx
      · exact .inl (by simp)
      · rcases ih hx with h | ⟨y, hy, hid, rfl⟩
        · exact .inl (by simp [h])
        · exact .inr ⟨y, by simp [hy], hid, rfl⟩

/-- Where every handle is listed once, no record keeps the id of a changed one unchanged. -/
theorem opUpdate_changed {id : Bytes} {change : OperationItem → OperationItem} {st : OperationStore}
    (hnodup : (st.map OperationItem.handle).Nodup) {x : OperationItem} (hx : x ∈ opUpdate id change st)
    (hid : x.handle = id) : ∃ o ∈ st, x = change o := by
  induction st with
  | nil => simp [opUpdate] at hx
  | cons o st ih =>
    rw [List.map_cons, List.nodup_cons] at hnodup
    rw [opUpdate] at hx
    split at hx
    · rename_i ho
      rcases List.mem_cons.mp hx with rfl | hx
      · exact ⟨o, by simp, rfl⟩
      · refine absurd (List.mem_map_of_mem (f := OperationItem.handle) hx) ?_
        rw [hid, ← ho]
        exact hnodup.1
    · rename_i ho
      rcases List.mem_cons.mp hx with rfl | hx
      · exact absurd hid ho
      · obtain ⟨y, hy, rfl⟩ := ih hnodup.2 hx
        exact ⟨y, by simp [hy], rfl⟩

theorem Settled.update {ops : Bytes → Prop} {st : OperationStore} {id : Bytes} {change : OperationItem → OperationItem}
    (h : Settled ops st) (hkeep : ∀ o, (change o).handle = o.handle)
    (hstatus : ∀ o, o.status = .finished → (change o).status = .finished) : Settled ops (opUpdate id change st) := by
  refine ⟨by rw [opUpdate_handles hkeep]; exact h.nodup, fun x hx hops => ?_⟩
  rcases mem_opUpdate hx with hx | ⟨o, ho, -, rfl⟩
  · exact h.finished x hx hops
  · exact hstatus o (h.finished o ho (hkeep o ▸ hops))

theorem Settled.finish {ops : Bytes → Prop} {st : OperationStore} {id : Bytes} (h : Settled ops st) :
    Settled (fun x => ops x ∨ x = id) (opUpdate id finishItem st) := by
  have hkeep : ∀ o, (finishItem o).handle = o.handle := fun _ => rfl
  have hupdate : Settled ops (opUpdate id finishItem st) := h.update hkeep fun _ _ => rfl
  refine ⟨hupdate.nodup, fun x hx hops => ?_⟩
  rcases hops with hops | hid
  · exact hupdate.finished x hx hops
  · obtain ⟨o, -, rfl⟩ := opUpdate_changed h.nodup hx hid
    rfl

theorem dropFinished_sublist (n : Nat) (st : OperationStore) : (dropFinished n st).Sublist st := by
  induction st generalizing n with
  | nil => cases n <;> exact List.Sublist.refl _
  | cons o st ih =>
    cases n with
    | zero => exact List.Sublist.refl _
    | succ n =>
      rw [dropFinished]
      split
      · exact (ih n).cons o
      · exact (ih (n + 1)).cons_cons o

theorem purge_sublist (keep : Nat) (st : OperationStore) : (purgeFinishedOverCap keep st).Sublist st :=
  dropFinished_sublist _ st

theorem opFind_none {st : OperationStore} {id : Bytes} (hid : id ≠ []) (h : opFind st id = none) :
    ∀ o ∈ st, o.handle ≠ id := by
  rw [opFind, if_neg hid, List.find?_eq_none] at h
  intro o ho
  simpa using h o ho

theorem opFind_mem {st : OperationStore} {id : Bytes} {o : OperationItem} (h : opFind st id = some o) :
    o ∈ st ∧ o.handle = id := by
  unfold opFind at h
  split at h
  · simp at h
  · exact ⟨List.mem_of_find?_eq_some h, by simpa using List.find?_some h⟩

/-! ## Reducers -/

theorem applyStarted_settled {ops : Bytes → Prop} {keep : Nat} {ev : OperationStarted} {st st' : OperationStore}
    (h : Settled ops st) (hfresh : ops ev.handle → (opFind st ev.handle).isSome = true)
    (happly : applyStarted keep ev st = .written st') : Settled ops st' := by
  unfold applyStarted at happly
  split at happly
  · cases happly
  rename_i hne
  split at happly
  · split at happly <;> cases happly
  rename_i hnone
  split at happly
  · cases happly
  cases happly
  have hroom : ∀ st1 : OperationStore, st1.Sublist st → Settled ops (st1 ++ [startedItem ev]) := by
    intro st1 hsub
    refine (h.sublist hsub).append (fun x hx => opFind_none hne hnone x (hsub.subset hx)) fun hops => ?_
    have := hfresh hops
    rw [hnone] at this
    cases this
  refine Settled.sublist ?_ (purge_sublist keep _)
  split
  · exact hroom _ (dropFinished_sublist 1 st)
  · exact hroom st (List.Sublist.refl st)

/-- A result that its record does not contradict leaves the operation finished. -/
theorem applyResult_settled (keep : Nat) (ev : OperationResult) {ops : Bytes → Prop} {st : OperationStore}
    (h : Settled ops st) :
    (∀ st', applyResult keep ev st = .written st' → Settled (fun x => ops x ∨ x = ev.handle) st') ∧
      (applyResult keep ev st = .unchanged → Settled (fun x => ops x ∨ x = ev.handle) st) := by
  unfold applyResult
  split
  · simp
  rename_i hne
  split
  · rename_i hnone
    have hroom : ∀ st1 : OperationStore, st1.Sublist st →
        Settled (fun x => ops x ∨ x = ev.handle) (st1 ++ [resultItem ev]) := by
      intro st1 hsub
      have hnew : ∀ x ∈ st1, x.handle ≠ ev.handle := fun x hx => opFind_none hne hnone x (hsub.subset hx)
      have hst1 : Settled (fun x => ops x ∨ x = ev.handle) st1 :=
        ⟨(h.sublist hsub).nodup, fun o ho hops =>
          (h.sublist hsub).finished o ho (hops.resolve_right (hnew o ho))⟩
      exact hst1.append hnew fun _ => rfl
    have hsub : (if st.length ≥ operationMaxItems then purgeFinishedOverCap keep st else st).Sublist st := by
      split
      · exact purge_sublist keep st
      · exact List.Sublist.refl st
    dsimp only
    generalize (if st.length ≥ operationMaxItems then purgeFinishedOverCap keep st else st) = room at hsub
    refine ⟨fun st' hst => ?_, fun hst => ?_⟩
    · split at hst
      · cases hst
      · cases hst
        exact (hroom room hsub).sublist (purge_sublist keep _)
    · split at hst <;> cases hst
  · rename_i o hfind
    obtain ⟨hmem, hhandle⟩ := opFind_mem hfind
    split
    · simp
    split
    · rename_i hfinished
      refine ⟨fun st' hst => (by cases hst), fun _ => ⟨h.nodup, fun x hx hops => ?_⟩⟩
      rcases hops with hops | hid
      · exact h.finished x hx hops
      · rw [List.inj_on_of_nodup_map h.nodup hx hmem (hid.trans hhandle.symm)]
        exact hfinished
    · refine ⟨fun st' hst => ?_, fun hst => (by cases hst)⟩
      cases hst
      exact h.finish.sublist (purge_sublist keep _)

theorem writeRunning_settled {ops : Bytes → Prop} {id : Bytes} {change : OperationItem → OperationItem}
    {st st' : OperationStore} (h : Settled ops st) (happly : writeRunning id change st = .written st')
    (hkeep : ∀ o, (change o).handle = o.handle) (hstatus : ∀ o, (change o).status = o.status) : Settled ops st' := by
  unfold writeRunning at happly
  split at happly
  · cases happly
  split at happly
  · cases happly
  · cases happly
    exact h.update hkeep fun o ho => (hstatus o).trans ho

theorem closeWithoutResult_settled {ops : Bytes → Prop} {keep : Nat} {id : Bytes} {st st' : OperationStore}
    (h : Settled ops st) (happly : rtOperationCloseWithoutResult keep id st = .written st') : Settled ops st' := by
  unfold rtOperationCloseWithoutResult at happly
  split at happly
  · cases happly
  split at happly
  · cases happly
  · cases happly
    have hupdate : Settled ops (opUpdate id finishItem st) := h.update (fun _ => rfl) fun _ _ => rfl
    exact hupdate.sublist (purge_sublist keep _)

/-- A store function keeps what its reducer keeps of the loaded store, or changes nothing. -/
theorem storeApply_settled {ops : Bytes → Prop} {io : StoreIo} {reduce : OperationStore → Reduced} {st : OperationStore}
    (h : Settled ops st)
    (hreduce : ∀ st', Settled ops (if io.loaded then st else []) → reduce (if io.loaded then st else []) = .written st' →
      Settled ops st') : Settled ops (storeApply io reduce st).1 := by
  have hloaded : Settled ops (if io.loaded then st else []) := by
    split
    · exact h
    · exact .nil ops
  unfold storeApply
  split
  · exact h
  · exact h
  · rename_i st' hst
    split
    · exact hreduce st' hloaded hst
    · exact h

/-- A written result ends its operation, the store read or not. -/
theorem storeApply_result (keep : Nat) (io : StoreIo) (ev : OperationResult) {ops : Bytes → Prop} {st : OperationStore}
    {o : OperationItem} (h : Settled ops st) (hfind : opFind st ev.handle = some o) (hagrees : ¬ resultConflicts o ev)
    (hwritten : io.written = true) :
    Settled (fun x => ops x ∨ x = ev.handle) (storeApply io (applyResult keep ev) st).1 := by
  have hne : ev.handle ≠ [] := by
    intro hnil
    rw [opFind, if_pos hnil] at hfind
    cases hfind
  by_cases hloaded : io.loaded = true
  · obtain ⟨hw, hu⟩ := applyResult_settled keep ev h
    have hnot : applyResult keep ev st ≠ .refused := by
      unfold applyResult
      rw [if_neg hne, hfind]
      dsimp only
      rw [if_neg hagrees]
      split <;> simp
    unfold storeApply
    rw [if_pos hloaded]
    split
    · rename_i hrefused
      exact absurd hrefused hnot
    · rename_i hunchanged
      exact hu hunchanged
    · rename_i st' hst
      rw [if_pos hwritten]
      exact hw st' hst
  · have hempty : applyResult keep ev [] = .written (purgeFinishedOverCap keep [resultItem ev]) := by
      unfold applyResult
      rw [if_neg hne]
      simp [opFind, operationMaxItems]
    obtain ⟨hw, -⟩ := applyResult_settled keep ev (Settled.nil ops)
    unfold storeApply
    rw [if_neg hloaded, hempty]
    dsimp only
    rw [if_pos hwritten]
    exact hw _ hempty

/-! ## The invariant -/

/-- The operations with a result in the first line of a run. -/
def resulted (s : ClaimState) : List Bytes := s.results.map Prod.fst

/-- A run that may still commit its first line. -/
def Pending (r : ClaimRun) : Prop := r.first = none ∧ r.phase ≠ .terminal

instance (r : ClaimRun) : Decidable (Pending r) := inferInstanceAs (Decidable (_ ∧ _))

structure OneResult (s : ClaimState) : Prop where
  store : Settled (fun op => op ∈ resulted s) s.store
  pending : ∀ r ∈ s.runs, Pending r → r.claim.operationId ∉ resulted s
  alone : ∀ r ∈ s.runs, ∀ r' ∈ s.runs, Pending r → Pending r' → r.claim.operationId = r'.claim.operationId → r = r'
  recorded : ∀ r ∈ s.runs, r.first ≠ none → (r.claim.operationId, r.number) ∈ s.results
  unique : (resulted s).Nodup

theorem mem_replaceRun {s : ClaimState} {r r' x : ClaimRun} (hx : x ∈ (replaceRun s r r').runs) :
    (x = r' ∧ r ∈ s.runs) ∨ (x ∈ s.runs ∧ x ≠ r) := by
  obtain ⟨y, hy, rfl⟩ := List.mem_map.mp hx
  by_cases h : y = r
  · subst h
    simp [hy]
  · simp [h, hy]

/-- Changing a run that keeps its operation and its first line, and does not come back to life. -/
theorem OneResult.replace {s : ClaimState} {r r' : ClaimRun} (h : OneResult s) (hclaim : r'.claim = r.claim)
    (hnumber : r'.number = r.number) (hfirst : r'.first = r.first) (hpending : Pending r' → Pending r) :
    OneResult (replaceRun s r r') := by
  refine ⟨h.store, fun x hx hnone => ?_, fun x hx y hy hxn hyn heq => ?_, fun x hx hsome => ?_, h.unique⟩
  · rcases mem_replaceRun hx with ⟨rfl, hr⟩ | ⟨hx, -⟩
    · rw [hclaim]
      exact h.pending r hr (hpending hnone)
    · exact h.pending x hx hnone
  · rcases mem_replaceRun hx with ⟨hxr, hr⟩ | ⟨hx, hxr⟩
    · have hrn := hpending (hxr ▸ hxn)
      rw [hxr, hclaim] at heq
      rcases mem_replaceRun hy with ⟨hyr, -⟩ | ⟨hy, hyr⟩
      · exact hxr.trans hyr.symm
      · exact absurd (h.alone y hy r hr hyn hrn heq.symm) hyr
    · rcases mem_replaceRun hy with ⟨hyr, hr⟩ | ⟨hy, -⟩
      · have hrn := hpending (hyr ▸ hyn)
        rw [hyr, hclaim] at heq
        exact absurd (h.alone x hx r hr hxn hrn heq) hxr
      · exact h.alone x hx y hy hxn hyn heq
  · rcases mem_replaceRun hx with ⟨rfl, hr⟩ | ⟨hx, -⟩
    · rw [hclaim, hnumber]
      exact h.recorded r hr (hfirst ▸ hsome)
    · exact h.recorded x hx hsome

/-- A run that has its line may go anywhere; any run may end. -/
theorem OneResult.setPhase {s : ClaimState} (h : OneResult s) {r : ClaimRun} {phase : ClaimPhase} {live : Bool}
    (hsettled : r.first ≠ none ∨ phase = .terminal) : OneResult (setPhase s r phase live) := by
  refine h.replace rfl rfl rfl fun hp => ?_
  rcases hsettled with hsome | hterminal
  · exact absurd hp.1 hsome
  · exact absurd hterminal hp.2

theorem OneResult.crash {s : ClaimState} (h : OneResult s) : OneResult (crash s) := by
  refine ⟨h.store, fun x hx hnone => ?_, fun x hx y hy hxn hyn heq => ?_, fun x hx hsome => ?_, h.unique⟩
  · obtain ⟨r, hr, rfl⟩ := List.mem_map.mp hx
    exact h.pending r hr hnone
  · obtain ⟨r, hr, rfl⟩ := List.mem_map.mp hx
    obtain ⟨r', hr', rfl⟩ := List.mem_map.mp hy
    rw [h.alone r hr r' hr' hxn hyn heq]
  · obtain ⟨r, hr, rfl⟩ := List.mem_map.mp hx
    exact h.recorded r hr hsome

/-- The invariant looks at the store, the runs and the results only, and runs may go. -/
theorem OneResult.fewer {s s' : ClaimState} (h : OneResult s) (hstore : s'.store = s.store) (hruns : s'.runs ⊆ s.runs)
    (hresults : s'.results = s.results) : OneResult s' := by
  have hr : resulted s' = resulted s := by rw [resulted, hresults, resulted]
  exact ⟨by rw [hstore, hr]; exact h.store, fun r hmem => by rw [hr]; exact h.pending r (hruns hmem),
    fun r hmem r' hmem' => h.alone r (hruns hmem) r' (hruns hmem'),
    fun r hmem => by rw [hresults]; exact h.recorded r (hruns hmem), by rw [hr]; exact h.unique⟩

theorem OneResult.withStore {s : ClaimState} {st : OperationStore} (h : OneResult s)
    (hst : Settled (fun op => op ∈ resulted s) st) : OneResult { s with store := st } :=
  ⟨hst, h.pending, h.alone, h.recorded, h.unique⟩

/-! ## Commits -/

/-- A line that is committed reaches the store. -/
def CleanFate : AppendFate → Prop
  | .reported _ | .crashedAfter => False
  | .appended io => io.written = true
  | .unpopulated | .crashedBefore | .failed => True

instance : (fate : AppendFate) → Decidable (CleanFate fate)
  | .reported _ | .crashedAfter => isFalse id
  | .appended _ => inferInstanceAs (Decidable (_ = _))
  | .unpopulated | .crashedBefore | .failed => isTrue trivial

theorem resultOf_agrees (o : OperationItem) (number : Nat) (claim : CompletionClaim) :
    ¬ resultConflicts o (resultOf o number claim) := by simp [resultConflicts, resultOf]

/-- The line of a pending run goes into the log and the store in one step. -/
theorem commitLine_oneResult {s : ClaimState} {r : ClaimRun} {line : OperationResult} {st : OperationStore}
    (h : OneResult s) (hr : r ∈ s.runs) (hpending : Pending r)
    (hst : Settled (fun op => op ∈ resulted s ∨ op = r.claim.operationId) st) :
    OneResult { commitLine s r line with store := st } := by
  have hmem : ∀ x ∈ (commitLine s r line).runs,
      (x = { r with expected := line, first := some line }) ∨ (x ∈ s.runs ∧ x ≠ r) := by
    intro x hx
    rcases mem_replaceRun hx with ⟨hx, -⟩ | hx
    · exact .inl hx
    · exact .inr hx
  refine ⟨⟨hst.nodup, fun x hx hops => hst.finished x hx ?_⟩, fun x hx hnone hop => ?_,
    fun x hx y hy hxn hyn heq => ?_, fun x hx hsome => ?_, ?_⟩
  · rcases List.mem_cons.mp hops with hops | hops
    · exact .inr hops
    · exact .inl hops
  · rcases hmem x hx with rfl | ⟨hx, hne⟩
    · cases hnone.1
    rcases List.mem_cons.mp hop with hop | hop
    · exact hne (h.alone x hx r hr hnone hpending hop)
    · exact h.pending x hx hnone hop
  · rcases hmem x hx with rfl | ⟨hx, -⟩
    · cases hxn.1
    rcases hmem y hy with rfl | ⟨hy, -⟩
    · cases hyn.1
    · exact h.alone x hx y hy hxn hyn heq
  · rcases hmem x hx with rfl | ⟨hx, -⟩
    · exact List.mem_cons_self
    · exact List.mem_cons_of_mem _ (h.recorded x hx hsome)
  · exact List.nodup_cons.mpr ⟨h.pending r hr hpending, h.unique⟩

theorem commit_oneResult (keep : Nat) {s : ClaimState} {r : ClaimRun} {fate : AppendFate} (h : OneResult s)
    (hr : r ∈ s.runs) (hpending : Pending r) (hclean : CleanFate fate) :
    OneResult (commitInboundEvent keep s r fate).state := by
  unfold commitInboundEvent
  split
  · exact h
  rename_i o hfind
  obtain ⟨-, hhandle⟩ := opFind_mem hfind
  dsimp only
  cases fate with
  | unpopulated => exact h
  | crashedBefore => exact h.replace rfl rfl rfl id
  | failed => exact h.replace rfl rfl rfl id
  | reported readable => exact hclean.elim
  | crashedAfter => exact hclean.elim
  | appended io =>
    have hid : (resultOf o r.number r.claim).handle = r.claim.operationId := hhandle
    have hst := storeApply_result keep io _ h.store (hid ▸ hfind) (resultOf_agrees o r.number r.claim) hclean
    rw [hid] at hst
    exact commitLine_oneResult h hr hpending hst

/-- A commit that reports success leaves the line in the log. -/
theorem commit_ok {keep : Nat} {s : ClaimState} {r : ClaimRun} {fate : AppendFate}
    (h : (commitInboundEvent keep s r fate).ok = true) : (commitInboundEvent keep s r fate).run.first ≠ none := by
  unfold commitInboundEvent at h ⊢
  split at h
  · cases h
  · cases fate with
    | appended io => exact Option.some_ne_none _
    | unpopulated => cases h
    | crashedBefore => cases h
    | failed => cases h
    | reported readable => cases h
    | crashedAfter => cases h

theorem commitState_first (r : ClaimRun) : inboundCommitState r = .absent ↔ r.first = none := by
  unfold inboundCommitState
  cases r.first with
  | none => simp
  | some line => by_cases heq : line = r.expected <;> simp [heq]

/-! ## Steps -/

/-- The condition on a step: no claim is taken in while a claim run of its operation has no first line, a
committed line reaches the store, and no operation starts again once its finished record is gone. -/
def Undisturbed (s : ClaimState) : ClaimInput → Prop
  | .started ev io => ev.handle ∈ resulted s → io.loaded = true ∧ (opFind s.store ev.handle).isSome = true
  | .intake envelopeId _ (.committing fate) =>
    CleanFate fate ∧ ∀ claim ∈ s.inbox, claim.envelopeId = envelopeId →
      ∀ r ∈ s.runs, Pending r → r.claim.operationId ≠ claim.operationId
  | .retry _ fate => CleanFate fate
  | .recover _ fate => CleanFate fate
  | _ => True

instance (s : ClaimState) : (i : ClaimInput) → Decidable (Undisturbed s i)
  | .started .. => inferInstanceAs (Decidable (_ → _))
  | .intake _ _ (.committing _) => inferInstanceAs (Decidable (_ ∧ _))
  | .intake _ _ .crashedRenamed | .intake _ _ .notCreated => isTrue trivial
  | .retry _ fate | .recover _ fate => inferInstanceAs (Decidable (CleanFate fate))
  | .bindSecret .. | .setWorkerHandle .. | .closeWithoutResult .. | .publish _ | .timeout .. | .requeue _ | .discard _
  | .retire _ | .cancel _ | .prune _ | .crash | .start => isTrue trivial

theorem storeStep_oneResult {s : ClaimState} {io : StoreIo} {reduce : OperationStore → Reduced} (h : OneResult s)
    (hreduce : ∀ st', Settled (fun op => op ∈ resulted s) (if io.loaded then s.store else []) →
      reduce (if io.loaded then s.store else []) = .written st' → Settled (fun op => op ∈ resulted s) st') :
    OneResult (storeStep s io reduce) := h.withStore (storeApply_settled h.store hreduce)

theorem openRun_oneResult {s : ClaimState} {o : OperationItem} {claim : CompletionClaim} {number : Nat} (h : OneResult s)
    (hfind : opFind s.store claim.operationId = some o) (hrunning : o.status = .running)
    (halone : ∀ r ∈ s.runs, Pending r → r.claim.operationId ≠ claim.operationId) :
    OneResult (openRun s o claim number).1 := by
  obtain ⟨hmem, hhandle⟩ := opFind_mem hfind
  have hopen : claim.operationId ∉ resulted s := by
    intro hdone
    have := h.store.finished o hmem (hhandle ▸ hdone)
    rw [hrunning] at this
    cases this
  refine ⟨h.store, fun r hr hnone => ?_, fun r hr r' hr' hnone hnone' heq => ?_, fun r hr hsome => ?_, h.unique⟩
  · rcases List.mem_append.mp hr with hr | hr
    · exact h.pending r hr hnone
    · rw [List.mem_singleton.mp hr]
      exact hopen
  · rcases List.mem_append.mp hr with hr | hr
    · rcases List.mem_append.mp hr' with hr' | hr'
      · exact h.alone r hr r' hr' hnone hnone' heq
      · rw [List.mem_singleton.mp hr'] at heq
        exact absurd heq (halone r hr hnone)
    · rw [List.mem_singleton.mp hr] at heq ⊢
      rcases List.mem_append.mp hr' with hr' | hr'
      · exact absurd heq.symm (halone r' hr' hnone')
      · rw [List.mem_singleton.mp hr']
  · rcases List.mem_append.mp hr with hr | hr
    · exact h.recorded r hr hsome
    · rw [List.mem_singleton.mp hr] at hsome
      exact absurd rfl hsome

theorem disposition_running {st : OperationStore} {claim : CompletionClaim} {o : OperationItem}
    (hfind : opFind st claim.operationId = some o) (h : completionClaimDisposition st claim = none) :
    o.status = .running := by
  unfold completionClaimDisposition at h
  rw [hfind] at h
  dsimp only at h
  split at h
  · cases h
  · rename_i hrunning
    simpa using hrunning

theorem settleIntake_oneResult {c : Committed} (h : OneResult c.state) (hok : c.ok = true → c.run.first ≠ none) :
    OneResult (settleIntake c) := by
  unfold settleIntake
  split
  · rename_i hc
    exact h.setPhase (.inl (hok hc))
  split
  · exact h
  split
  · rename_i hexact
    refine h.setPhase (.inl fun hnone => ?_)
    rw [(commitState_first c.run).mpr hnone] at hexact
    cases hexact
  · exact h
  · rename_i hconflict
    refine h.setPhase (.inl fun hnone => ?_)
    rw [(commitState_first c.run).mpr hnone] at hconflict
    cases hconflict

theorem createRun_oneResult (keep : Nat) {s : ClaimState} {claim : CompletionClaim} {number : Nat} {fate : AppendFate}
    (h : OneResult s) (hclean : CleanFate fate)
    (halone : ∀ r ∈ s.runs, Pending r → r.claim.operationId ≠ claim.operationId) :
    OneResult (createRunFromEnvelope keep s claim number (.committing fate)) := by
  unfold createRunFromEnvelope
  dsimp only
  split
  · rename_i o hadmitted hfind
    have hopened : OneResult (openRun s o claim number).1 :=
      openRun_oneResult h hfind (disposition_running hfind hadmitted) halone
    have hmem : (openRun s o claim number).2 ∈ (openRun s o claim number).1.runs := by simp [openRun]
    have hcommitted := commit_oneResult keep hopened hmem ⟨rfl, by simp [openRun]⟩ hclean
    split
    · exact hcommitted.crash
    · exact settleIntake_oneResult hcommitted commit_ok
  · exact h

theorem retry_oneResult (keep : Nat) {s : ClaimState} {r : ClaimRun} {fate : AppendFate} (h : OneResult s)
    (hr : r ∈ s.runs) (hphase : r.phase ≠ .terminal) (hclean : CleanFate fate) :
    OneResult (retryWaitingClaim keep s r fate) := by
  unfold retryWaitingClaim
  split
  · rename_i hexact
    refine h.setPhase (.inl fun hnone => ?_)
    rw [(commitState_first r).mpr hnone] at hexact
    cases hexact
  · exact h.setPhase (.inr rfl)
  rename_i habsent
  have hcommitted := commit_oneResult keep h hr ⟨(commitState_first r).mp habsent, hphase⟩ hclean
  dsimp only
  split
  · exact hcommitted.crash
  split
  · exact hcommitted
  split
  · rename_i hexact
    refine hcommitted.setPhase (.inl fun hnone => ?_)
    rw [(commitState_first _).mpr hnone] at hexact
    cases hexact
  · exact hcommitted.setPhase (.inr rfl)
  · exact hcommitted

theorem restore_oneResult (keep : Nat) {s : ClaimState} {r : ClaimRun} {fate : AppendFate} (h : OneResult s)
    (hr : r ∈ s.runs) (hphase : r.phase ≠ .terminal) (hclean : CleanFate fate) :
    OneResult (restoreRunstate keep s r fate) := by
  unfold restoreRunstate
  split
  · exact h.crash
  rename_i o hfind
  dsimp only
  have hreplaced : OneResult (replaceRun s r { r with expected := resultOf o r.number r.claim }) :=
    h.replace rfl rfl rfl id
  have hmem : { r with expected := resultOf o r.number r.claim } ∈
      (replaceRun s r { r with expected := resultOf o r.number r.claim }).runs :=
    List.mem_map.mpr ⟨r, hr, if_pos rfl⟩
  split
  · rename_i hexact
    refine hreplaced.setPhase (.inl fun hnone => ?_)
    rw [(commitState_first _).mpr hnone] at hexact
    cases hexact
  · exact hreplaced.crash
  rename_i habsent
  have hcommitted := commit_oneResult keep hreplaced hmem ⟨(commitState_first _).mp habsent, hphase⟩ hclean
  split
  · exact hcommitted.crash
  split
  · rename_i hexact
    refine hcommitted.setPhase (.inl fun hnone => ?_)
    rw [(commitState_first _).mpr hnone] at hexact
    cases hexact
  · exact hcommitted.crash

theorem findRun_mem {s : ClaimState} {number : Nat} {r : ClaimRun} (h : findRun s number = some r) : r ∈ s.runs :=
  List.mem_of_find?_eq_some h

theorem publish_oneResult {s : ClaimState} (h : OneResult s) (claim : CompletionClaim) :
    OneResult (busPublishStable s claim) := by
  unfold busPublishStable
  split
  · exact h
  · exact h.fewer rfl (List.Subset.refl _) rfl

theorem timeout_oneResult {s : ClaimState} (h : OneResult s) (op reserved : Bytes) (io : StoreIo) :
    OneResult (publishTimeoutClaim s op reserved io) := by
  have hbound : Settled (fun x => x ∈ resulted s)
      (storeApply io (rtOperationBindClaimEnvelope op reserved) s.store).1 := by
    refine storeApply_settled h.store fun st' hst happly => ?_
    unfold rtOperationBindClaimEnvelope at happly
    split at happly
    · cases happly
    · exact writeRunning_settled hst happly (fun _ => rfl) fun _ => rfl
  unfold publishTimeoutClaim
  split
  · exact h
  split
  · exact h
  dsimp only
  split
  · exact h
  refine publish_oneResult (h.withStore ?_) _
  split
  · exact hbound
  · exact h.store

/-- One step keeps the invariant. -/
theorem step_oneResult {keep : Nat} {s s' : ClaimState} {i : ClaimInput} (h : OneResult s) (hok : Undisturbed s i)
    (hstep : claimStep keep s i = some s') : OneResult s' := by
  cases i with
  | started ev io =>
    cases hstep
    refine storeStep_oneResult h fun st' hst happly => applyStarted_settled hst (fun hops => ?_) happly
    obtain ⟨hloaded, hfound⟩ := hok hops
    rwa [if_pos hloaded]
  | bindSecret op token io =>
    cases hstep
    refine storeStep_oneResult h fun st' hst happly => ?_
    unfold rtOperationBindSecret at happly
    split at happly
    · cases happly
    · exact writeRunning_settled hst happly (fun _ => rfl) fun _ => rfl
  | setWorkerHandle op handle io =>
    cases hstep
    exact storeStep_oneResult h fun st' hst happly => writeRunning_settled hst happly (fun _ => rfl) fun _ => rfl
  | closeWithoutResult op io =>
    cases hstep
    exact storeStep_oneResult h fun st' hst happly => closeWithoutResult_settled hst happly
  | publish claim =>
    cases hstep
    exact publish_oneResult h claim
  | timeout op reserved io =>
    simp only [claimStep, Option.ite_none_right_eq_some, Option.some.injEq] at hstep
    exact hstep.2 ▸ timeout_oneResult h op reserved io
  | intake envelopeId number fate =>
    simp only [claimStep] at hstep
    split at hstep
    · cases hstep
    rename_i claim hclaim
    simp only [Option.ite_none_right_eq_some, Option.some.injEq] at hstep
    obtain ⟨-, rfl⟩ := hstep
    have htaken : OneResult (takeEnvelope s claim) := h.fewer rfl (List.Subset.refl _) rfl
    cases fate with
    | crashedRenamed => exact htaken.crash
    | notCreated => exact htaken
    | committing fate =>
      obtain ⟨hclean, halone⟩ := hok
      exact createRun_oneResult keep htaken hclean
        (halone claim (List.mem_of_find?_eq_some hclaim) (by simpa using List.find?_some hclaim))
  | retry number fate =>
    simp only [claimStep] at hstep
    split at hstep
    · cases hstep
    rename_i r hr
    simp only [Option.ite_none_right_eq_some, Option.some.injEq] at hstep
    exact hstep.2 ▸ retry_oneResult keep h (findRun_mem hr) (by rw [hstep.1.2.2]; simp) hok
  | requeue envelopeId =>
    simp only [claimStep] at hstep
    split at hstep
    · cases hstep
    simp only [Option.ite_none_right_eq_some, Option.some.injEq] at hstep
    exact hstep.2 ▸ h.fewer rfl (List.Subset.refl _) rfl
  | discard envelopeId =>
    simp only [claimStep] at hstep
    split at hstep
    · cases hstep
    split at hstep
    · cases hstep
    split at hstep
    · cases hstep
    · cases hstep
      exact h.fewer rfl (List.Subset.refl _) rfl
  | retire number =>
    simp only [claimStep] at hstep
    split at hstep
    · cases hstep
    simp only [Option.ite_none_right_eq_some, Option.some.injEq] at hstep
    exact hstep.2 ▸ h.setPhase (.inr rfl)
  | cancel number =>
    simp only [claimStep] at hstep
    split at hstep
    · cases hstep
    simp only [Option.ite_none_right_eq_some, Option.some.injEq] at hstep
    exact hstep.2 ▸ h.setPhase (.inr rfl)
  | prune number =>
    simp only [claimStep] at hstep
    split at hstep
    · cases hstep
    simp only [Option.ite_none_right_eq_some, Option.some.injEq] at hstep
    exact hstep.2 ▸ h.fewer rfl (fun _ hx => (List.mem_filter.mp hx).1) rfl
  | crash =>
    cases hstep
    exact h.crash
  | recover number fate =>
    simp only [claimStep] at hstep
    split at hstep
    · cases hstep
    rename_i r hr
    simp only [Option.ite_none_right_eq_some, Option.some.injEq] at hstep
    exact hstep.2 ▸ restore_oneResult keep h (findRun_mem hr) hstep.1.2.2.1 hok
  | start =>
    simp only [claimStep, Option.ite_none_right_eq_some, Option.some.injEq] at hstep
    exact hstep.2 ▸ h.fewer rfl (List.Subset.refl _) rfl

theorem init_oneResult : OneResult claimInit :=
  ⟨Settled.nil _, by simp [claimInit], by simp [claimInit], by simp [claimInit], by simp [claimInit, resulted]⟩

/-! ## The claim -/

/-- A claim on an operation that has its result opens no run. -/
theorem resulted_refused {keep : Nat} {s : ClaimState} {claim : CompletionClaim} {number : Nat} {fate : IntakeFate}
    (h : OneResult s) (hdone : claim.operationId ∈ resulted s) :
    (createRunFromEnvelope keep s claim number fate).runs.map ClaimRun.number = s.runs.map ClaimRun.number := by
  have hcrash : (crash s).runs.map ClaimRun.number = s.runs.map ClaimRun.number := by simp [crash]
  unfold createRunFromEnvelope
  split
  · exact hcrash
  · rfl
  · split
    · rename_i o hadmitted hfind
      obtain ⟨hmem, hhandle⟩ := opFind_mem hfind
      have hfinished := h.store.finished o hmem (hhandle ▸ hdone)
      rw [disposition_running hfind hadmitted] at hfinished
      cases hfinished
    · rfl

/-- An operation is started and bound to its token, and its worker reports twice. -/
def twoReports : List ClaimInput :=
  [.started
      { handle := lit "op_1", action := lit "build", requestId := lit "1", triggerEventId := [], taskId := []
        contextId := lit "chat:cli", channel := lit "cli", adapterId := [], originEventId := [], refJson := [], workRev := 0
        deadlineMs := 1000 } {},
    .bindSecret (lit "op_1") (lit "secret") {},
    .publish { envelopeId := lit "bus_1", operationId := lit "op_1", completionToken := lit "secret", cause := .worker
               status := lit "succeeded", text := lit "done" },
    .publish { envelopeId := lit "bus_2", operationId := lit "op_1", completionToken := lit "secret", cause := .worker
               status := lit "succeeded", text := lit "done" }]

end Floofclaw.Guarantees.ResultRuns
