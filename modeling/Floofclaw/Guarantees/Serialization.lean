import Floofclaw.Guarantees.RunFrames
import Floofclaw.Source.Scheduler

/-!
# Runs of one context take turns

The scheduler lets a run step only where no run before it in the active list is
open in the same context. That the runs before it are the older ones is an
invariant: the list is sorted by run number over every intake, retirement and
restart, and lists the used slots of the pool, each once.
-/

set_option autoImplicit false

namespace Floofclaw.Guarantees.Serialization
open Floofclaw.Lib Floofclaw.Source.Runs Floofclaw.Source.RunSteps Floofclaw.Source.Intake Floofclaw.Source.RunLife
open Floofclaw.Source.Scheduler Floofclaw.Guarantees.RunFrames
open Floofclaw.Source.Actions (Request)

/-! ## Slots -/

theorem slotRun_set (s : RtScheduler) (slot j : Nat) (v : Option RtRun) (hslot : slot < s.pool.length) :
    slotRun { s with pool := s.pool.set slot v } j = if j = slot then v else slotRun s j := by
  unfold slotRun
  by_cases h : j = slot
  · subst h
    simp [hslot]
  · simp [h, Ne.symm h]

theorem slotRun_lt {s : RtScheduler} {slot : Nat} {r : RtRun} (h : slotRun s slot = some r) : slot < s.pool.length := by
  unfold slotRun at h
  by_contra hge
  simp [Nat.not_lt.mp hge] at h

theorem alloc_free {s : RtScheduler} {slot : Nat} (h : rtSchedulerAllocRun s = some slot) :
    slot < s.pool.length ∧ slotRun s slot = none := by
  unfold rtSchedulerAllocRun at h
  obtain ⟨hlt, hnone, -⟩ := List.findIdx?_eq_some_iff_getElem.mp h
  refine ⟨hlt, ?_⟩
  unfold slotRun
  rw [List.getD_eq_getElem?_getD, List.getElem?_eq_getElem hlt]
  simpa using hnone

/-- The active list is sorted by run number and lists exactly the used slots. -/
structure Listing (s : RtScheduler) : Prop where
  size : s.pool.length = rtMaxActiveRuns
  nodup : s.runs.Nodup
  used : ∀ slot, slot ∈ s.runs ↔ (slotRun s slot).isSome = true
  sorted : s.runs.Pairwise fun a b => ∀ r, slotRun s a = some r → ∀ r', slotRun s b = some r' → r.number < r'.number
  below : ∀ slot r, slotRun s slot = some r → r.number < s.nextRunNumber

theorem Listing.active {s : RtScheduler} (h : Listing s) : (activeRuns s).Pairwise fun a b => a.number < b.number :=
  List.pairwise_filterMap.mpr h.sorted

/-- A run that keeps its number may change in its slot. -/
theorem Listing.put {s : RtScheduler} {slot : Nat} {r r' : RtRun} (h : Listing s) (hslot : slotRun s slot = some r)
    (hnumber : r'.number = r.number) : Listing (putRun s slot r') := by
  have hget : ∀ j, slotRun (putRun s slot r') j = if j = slot then some r' else slotRun s j :=
    fun j => slotRun_set s slot j (some r') (slotRun_lt hslot)
  -- the run of a slot has the number it had
  have hold : ∀ j x, slotRun (putRun s slot r') j = some x → ∃ y, slotRun s j = some y ∧ x.number = y.number := by
    intro j x hx
    rw [hget] at hx
    split at hx
    · rename_i hj
      cases hx
      exact ⟨r, hj ▸ hslot, hnumber⟩
    · exact ⟨x, hx, rfl⟩
  refine ⟨by simpa [putRun] using h.size, h.nodup, fun j => ?_, h.sorted.imp fun {a b} hab x hx y hy => ?_,
    fun j x hx => ?_⟩
  · rw [hget]
    split
    · rename_i hj
      simp [hj, show slot ∈ (putRun s slot r').runs from (h.used slot).mpr (by simp [hslot])]
    · exact h.used j
  · obtain ⟨x', hx', hxn⟩ := hold a x hx
    obtain ⟨y', hy', hyn⟩ := hold b y hy
    rw [hxn, hyn]
    exact hab x' hx' y' hy'
  · obtain ⟨y, hy, hxn⟩ := hold j x hx
    rw [hxn]
    exact h.below j y hy

/-- A run with a number above all others goes to the end of the list. -/
theorem Listing.list {s : RtScheduler} {slot : Nat} {r : RtRun} (h : Listing s) (hlt : slot < s.pool.length)
    (hfree : slotRun s slot = none) (hlast : ∀ j x, slotRun s j = some x → x.number < r.number)
    (hnext : r.number < s.nextRunNumber) : Listing (listRun s slot r) := by
  have hget : ∀ j, slotRun (listRun s slot r) j = if j = slot then some r else slotRun s j :=
    fun j => slotRun_set s slot j (some r) hlt
  have hnew : slot ∉ s.runs := fun hmem => by simpa [hfree] using (h.used slot).mp hmem
  have hne : ∀ a ∈ s.runs, a ≠ slot := fun a ha heq => hnew (heq ▸ ha)
  refine ⟨by simpa [listRun, putRun] using h.size, ?_, fun j => ?_, ?_, fun j x hx => ?_⟩
  · rw [listRun, List.nodup_append]
    refine ⟨h.nodup, by simp, fun a ha b hb => ?_⟩
    rw [List.mem_singleton] at hb
    exact hb ▸ hne a ha
  · rw [hget]
    split
    · rename_i hj
      simp [listRun, hj]
    · rename_i hj
      rw [← h.used j]
      simp [listRun, hj]
  · rw [listRun, List.pairwise_append]
    refine ⟨h.sorted.imp_of_mem fun {a b} ha hb hab x hx y hy => ?_, by simp, fun a ha b hb x hx y hy => ?_⟩
    · have hx' := hget a ▸ hx
      have hy' := hget b ▸ hy
      rw [if_neg (hne a ha)] at hx'
      rw [if_neg (hne b hb)] at hy'
      exact hab x hx' y hy'
    · rw [List.mem_singleton] at hb
      subst hb
      have hx' := hget a ▸ hx
      have hy' := hget b ▸ hy
      rw [if_neg (hne a ha)] at hx'
      rw [if_pos rfl] at hy'
      cases hy'
      exact hlast a x hx'
  · rw [hget] at hx
    split at hx
    · cases hx
      exact hnext
    · exact h.below j x hx

theorem free_slots (slots : List Nat) (s : RtScheduler) (hlt : ∀ i ∈ slots, i < s.pool.length) :
    (slots.foldl rtSchedulerFreeRun s).pool.length = s.pool.length ∧
      (slots.foldl rtSchedulerFreeRun s).nextRunNumber = s.nextRunNumber ∧
      ∀ j, slotRun (slots.foldl rtSchedulerFreeRun s) j = if j ∈ slots then none else slotRun s j := by
  induction slots generalizing s with
  | nil => simp
  | cons i slots ih =>
    have hfreed : (rtSchedulerFreeRun s i).pool.length = s.pool.length := by simp [rtSchedulerFreeRun]
    obtain ⟨hsize, hnext, hget⟩ := ih (rtSchedulerFreeRun s i) fun j hj => hfreed ▸ hlt j (by simp [hj])
    refine ⟨hsize.trans hfreed, hnext, fun j => ?_⟩
    rw [List.foldl_cons, hget, rtSchedulerFreeRun, slotRun_set s i j none (hlt i (by simp))]
    by_cases hj : j ∈ slots
    · simp [hj]
    · by_cases hi : j = i <;> simp [hj, hi]

theorem Listing.retire {s : RtScheduler} (h : Listing s) : Listing (retireTerminalRuns s) := by
  have hlt : ∀ i ∈ s.runs.filter (retirable s), i < s.pool.length := by
    intro i hi
    obtain ⟨r, hr⟩ := Option.isSome_iff_exists.mp ((h.used i).mp (List.mem_filter.mp hi).1)
    exact slotRun_lt hr
  obtain ⟨hsize, hnext, hget⟩ := free_slots (s.runs.filter (retirable s)) s hlt
  have hslot : ∀ j, slotRun (retireTerminalRuns s) j = if j ∈ s.runs.filter (retirable s) then none else slotRun s j := hget
  have hold : ∀ j x, slotRun (retireTerminalRuns s) j = some x → slotRun s j = some x := by
    intro j x hx
    rw [hslot] at hx
    split at hx
    · cases hx
    · exact hx
  refine ⟨hsize.trans h.size, h.nodup.filter _, fun j => ?_,
    (h.sorted.filter _).imp fun {a b} hab x hx y hy => hab x (hold a x hx) y (hold b y hy),
    fun j x hx => ?_⟩
  · rw [hslot]
    by_cases hj : j ∈ s.runs
    · cases hr : retirable s j <;> simp [retireTerminalRuns, hj, hr, (h.used j).mp hj]
    · have hnone : (slotRun s j).isSome = false := by
        by_contra hsome
        exact hj ((h.used j).mpr (Bool.eq_true_of_not_eq_false hsome))
      simp [retireTerminalRuns, hj, hnone]
  · rw [show (retireTerminalRuns s).nextRunNumber = s.nextRunNumber from hnext]
    exact h.below j x (hold j x hx)

/-! ## The workspace -/

/-- Every directory has its own number, and a running scheduler lists its runs well. -/
structure Ordered (g : Gateway) : Prop where
  dirs : (g.dirs.map RunDir.number).Nodup
  listing : ∀ s, g.sched = some s → Listing s

theorem putDir_numbers (g : Gateway) (number : Nat) (left : Durable) :
    (putDir g number left).dirs.map RunDir.number = g.dirs.map RunDir.number := by
  simp only [putDir, List.map_map]
  apply List.map_congr_left
  intro d _
  dsimp only [Function.comp]
  split <;> rfl

/-- The directory of a run is written, and the scheduler goes on or is lost. -/
theorem Ordered.put {g : Gateway} (h : Ordered g) (number : Nat) (left : Durable) {sched : Option RtScheduler}
    (hsched : ∀ s, sched = some s → Listing s) : Ordered { putDir g number left with sched := sched } :=
  ⟨by rw [show ({ putDir g number left with sched := sched } : Gateway).dirs = (putDir g number left).dirs from rfl,
      putDir_numbers]; exact h.dirs, hsched⟩

theorem freeNumber_spec {dirs : List RunDir} {attempts n number : Nat} (h : freeNumber dirs attempts n = some number) :
    n ≤ number ∧ number ∉ dirs.map RunDir.number := by
  induction attempts generalizing n with
  | zero => cases h
  | succ attempts ih =>
    rw [freeNumber] at h
    split at h
    · obtain ⟨hle, hfree⟩ := ih h
      exact ⟨by omega, hfree⟩
    · rename_i hfree
      cases h
      refine ⟨Nat.le_refl _, fun hmem => hfree ?_⟩
      obtain ⟨d, hd, hn⟩ := List.mem_map.mp hmem
      exact List.any_eq_true.mpr ⟨d, hd, by simpa using hn⟩

theorem Ordered.made {g : Gateway} (h : Ordered g) {dir : RunDir} (hfree : dir.number ∉ g.dirs.map RunDir.number)
    {sched : Option RtScheduler} (hsched : ∀ s, sched = some s → Listing s) :
    Ordered { g with sched := sched, dirs := g.dirs ++ [dir] } := by
  refine ⟨?_, hsched⟩
  rw [List.map_append, List.nodup_append]
  refine ⟨h.dirs, by simp, fun a ha b hb => ?_⟩
  rw [List.map_singleton, List.mem_singleton] at hb
  exact fun heq => hfree (hb ▸ heq ▸ ha)

/-- The counter may run ahead of the runs. -/
theorem Listing.skip {s : RtScheduler} (h : Listing s) {n : Nat} (hle : s.nextRunNumber ≤ n) :
    Listing { s with nextRunNumber := n } :=
  ⟨h.size, h.nodup, h.used, h.sorted, fun slot r hr => Nat.lt_of_lt_of_le (h.below slot r hr) hle⟩

theorem intake_ordered {g : Gateway} {s : RtScheduler} (h : Ordered g) (hs : Listing s) (e : Envelope) (adm : Admission)
    (stranded : Bool) (w : Weather) : Ordered (intakeEnvelope g s e adm stranded w) := by
  unfold intakeEnvelope
  split
  · exact h
  split
  · exact h
  rename_i slot halloc
  obtain ⟨hlt, hfree⟩ := alloc_free halloc
  split
  · exact h
  split
  · exact h
  rename_i number hnumber
  obtain ⟨hle, hnew⟩ := freeNumber_spec hnumber
  have hskip : Listing { s with nextRunNumber := number + 1 } := hs.skip (by omega)
  have hmade : Ordered { g with
      sched := some { s with nextRunNumber := number + 1 }, dirs := g.dirs ++ [{ number := number, envelope := e }] } :=
    h.made hnew fun s' hs' => by cases hs'; exact hskip
  dsimp only
  split
  · split
    · exact hmade
    · exact h
  have hr := created_number s.host adm number
    (dirDisk { g with sched := some { s with nextRunNumber := number + 1 }
                      dirs := g.dirs ++ [{ number := number, envelope := e }] } { number := number, envelope := e } w) e
  generalize createRunFromEnvelope s.host adm number _ e = c at hr
  obtain ⟨r, d, created⟩ := c
  dsimp only at hr ⊢
  split
  · exact hmade.put number _ nofun
  split
  · exact hmade.put number _ fun s' hs' => by cases hs'; exact hskip
  · refine hmade.put number _ fun s' hs' => ?_
    cases hs'
    refine hskip.list hlt hfree (fun j x hx => ?_) (by rw [hr]; exact Nat.lt_succ_self number)
    rw [hr]
    exact Nat.lt_of_lt_of_le (hs.below j x hx) hle

theorem operate_ordered {g g' : Gateway} {s : RtScheduler} (h : Ordered g) (hs : Listing s) {idx : Nat} {op : RunOp}
    {w : Weather} (hop : operateRun g s idx op w = some g') : Ordered g' := by
  unfold operateRun at hop
  split at hop
  · cases hop
  split at hop
  · cases hop
  rename_i slot _ r hr
  split at hop
  · cases hop
  split at hop
  · cases hop
  rename_i r' d hrun
  cases hop
  refine h.put r.number _ fun s' hs' => ?_
  split at hs'
  · cases hs'
    exact hs.put hr (runOp_number hrun)
  · cases hs'

/-! ## Recovery -/

theorem le_scanNext {dirs : List RunDir} {d : RunDir} (hd : d ∈ dirs) : d.number < scanNextRunNumber dirs := by
  have hfold : ∀ (dirs : List RunDir) (n : Nat), n ≤ dirs.foldl (fun n d => max n d.number) n ∧
      ∀ d ∈ dirs, d.number ≤ dirs.foldl (fun n d => max n d.number) n := by
    intro dirs
    induction dirs with
    | nil => simp
    | cons x dirs ih =>
      intro n
      obtain ⟨hle, hall⟩ := ih (max n x.number)
      refine ⟨by rw [List.foldl_cons]; omega, fun d hd => ?_⟩
      rw [List.foldl_cons]
      rcases List.mem_cons.mp hd with rfl | hd
      · omega
      · exact hall d hd
  exact Nat.lt_succ_of_le ((hfold dirs 0).2 d hd)

/-- The candidates are directories, each number once and in order. -/
theorem candidates_sorted {dirs : List RunDir} (hnodup : (dirs.map RunDir.number).Nodup) :
    (collectCandidates dirs).Pairwise (fun a b => a.number < b.number) ∧ ∀ d ∈ collectCandidates dirs, d ∈ dirs := by
  unfold collectCandidates
  generalize hcandidates : (dirs.filter fun d => d.files.control.any fun c => !rtRunStatusIsTerminal c.status) = found
  have hsub : found.Sublist dirs := hcandidates ▸ List.filter_sublist
  have : Std.Total fun a b : RunDir => a.number ≤ b.number := ⟨fun a b => Nat.le_total a.number b.number⟩
  have : IsTrans RunDir fun a b => a.number ≤ b.number := ⟨fun _ _ _ => Nat.le_trans⟩
  have hperm := List.perm_insertionSort (fun a b : RunDir => a.number ≤ b.number) found
  have hsorted := List.pairwise_insertionSort (fun a b : RunDir => a.number ≤ b.number) found
  have hdistinct : (found.insertionSort fun a b => a.number ≤ b.number).Pairwise fun a b => a.number ≠ b.number := by
    have : ((found.insertionSort fun a b => a.number ≤ b.number).map RunDir.number).Nodup :=
      (hperm.map RunDir.number).nodup_iff.mpr (hnodup.sublist (hsub.map _))
    exact List.pairwise_map.mp this
  refine ⟨(hsorted.and hdistinct).imp fun hab => by omega, fun d hd => hsub.subset (hperm.mem_iff.mp hd)⟩

theorem recover_ordered (reconcile : Nat → Request → Reconciled) (weather : Nat → Weather) (dirs : List RunDir)
    {s : RtScheduler} {g : Gateway} (h : Ordered g) (hs : Listing s) (hsorted : dirs.Pairwise fun a b => a.number < b.number)
    (hnext : ∀ d ∈ dirs, d.number < s.nextRunNumber)
    (hlast : ∀ d ∈ dirs, ∀ j x, slotRun s j = some x → x.number < d.number) :
    Ordered (recoverRuns reconcile weather dirs s g) := by
  induction dirs generalizing s g with
  | nil => exact ⟨h.dirs, fun s' hs' => by cases hs'; exact hs⟩
  | cons dir rest ih =>
    obtain ⟨hbefore, hrest⟩ := List.pairwise_cons.mp hsorted
    unfold recoverRuns
    split
    · exact ⟨h.dirs, nofun⟩
    rename_i slot halloc
    obtain ⟨hlt, hfree⟩ := alloc_free halloc
    have hr := restored_number s.host (reconcile dir.number) dir.number (dirDisk g dir (weather dir.number)) dir.envelope
    dsimp only
    generalize restoreRunstate s.host (reconcile dir.number) dir.number (dirDisk g dir (weather dir.number))
      dir.envelope = m at hr
    obtain ⟨r, d, restored⟩ := m
    dsimp only at hr ⊢
    have hleft : Ordered (putDir g dir.number ((weather dir.number).left d)) :=
      h.put dir.number _ h.listing
    split
    · exact ⟨hleft.dirs, nofun⟩
    split
    · exact ⟨hleft.dirs, nofun⟩
    · exact ih hleft hs hrest (fun x hx => hnext x (by simp [hx])) fun x hx => hlast x (by simp [hx])
    · refine ih hleft (hs.list hlt hfree (fun j x hx => ?_) (hr ▸ hnext dir (by simp))) hrest
        (fun x hx => hnext x (by simp [hx])) fun x hx j y hy => ?_
      · rw [hr]
        exact hlast dir (by simp) j x hx
      · rw [show slotRun (listRun s slot r) j = if j = slot then some r else slotRun s j from
          slotRun_set s slot j (some r) hlt] at hy
        split at hy
        · cases hy
          rw [hr]
          exact hbefore x hx
        · exact hlast x (by simp [hx]) j y hy

theorem init_ordered {g : Gateway} (h : Ordered g) (host : Host) (serializeContexts : Bool)
    (reconcile : Nat → Request → Reconciled) (weather : Nat → Weather) :
    Ordered (rtSchedulerInit g host serializeContexts reconcile weather) := by
  unfold rtSchedulerInit
  dsimp only
  split
  · exact ⟨h.dirs, nofun⟩
  obtain ⟨hsorted, hmem⟩ := candidates_sorted h.dirs
  have hempty : ∀ j, (List.replicate rtMaxActiveRuns (none : Option RtRun)).getD j none = none := by
    intro j
    rw [List.getD_eq_getElem?_getD, List.getElem?_replicate]
    split <;> rfl
  have hnone : ∀ j, slotRun { host := host, serializeContexts := serializeContexts, nextRunNumber := scanNextRunNumber g.dirs
                              pool := List.replicate rtMaxActiveRuns none, runs := [] } j = none := hempty
  refine recover_ordered reconcile weather _ h ⟨by simp, List.nodup_nil, fun j => ?_, List.Pairwise.nil, fun j x hx => ?_⟩
    hsorted (fun d hd => le_scanNext (hmem d hd)) fun d _ j x hx => ?_
  · simp [hnone j]
  · rw [hnone] at hx
    cases hx
  · rw [hnone] at hx
    cases hx

/-! ## Stepping -/

/-- The run at an index may step: with serialized contexts, no run before it is open in its context. -/
def Clear (s : RtScheduler) (idx : Nat) (contextId : Bytes) : Prop :=
  s.serializeContexts = true → contextId ≠ [] → ∀ a ∈ s.runs.take idx, ∀ o, slotRun s a = some o →
    o.state.terminal = false → o.contextId ≠ contextId

theorem clear_of_guard {s : RtScheduler} {idx : Nat} {r : RtRun} (h : serializedBehindOlderRun s idx r = false) :
    Clear s idx r.contextId := by
  intro hserial hcontext a ha o ho hopen heq
  have hfound : ((s.runs.take idx).filterMap (slotRun s)).any
      (fun o => !o.state.terminal && o.contextId = r.contextId) = true := by
    refine List.any_eq_true.mpr ⟨o, List.mem_filterMap.mpr ⟨a, ha, ho⟩, ?_⟩
    simp [hopen, heq]
  simp [serializedBehindOlderRun, hserial, hcontext, hfound] at h

/-- The run that is stepped is listed, and no older run of its context is open. -/
structure Serial (serialized : Bool) (call : Invocation) : Prop where
  listed : call.run ∈ call.listed
  alone : serialized = true → call.run.contextId ≠ [] → ∀ o ∈ call.listed, o.number < call.run.number →
    o.state.terminal = false → o.contextId ≠ call.run.contextId

theorem split_at {l : List Nat} {idx slot : Nat} (h : l[idx]? = some slot) :
    l = l.take idx ++ slot :: l.drop (idx + 1) := by
  obtain ⟨hlt, hget⟩ := List.getElem?_eq_some_iff.mp h
  rw [← hget, ← List.drop_eq_getElem_cons hlt, List.take_append_drop]

theorem Listing.serial {s : RtScheduler} (h : Listing s) {idx slot : Nat} {r : RtRun} (hidx : s.runs[idx]? = some slot)
    (hslot : slotRun s slot = some r) (hclear : Clear s idx r.contextId) :
    Serial s.serializeContexts { listed := activeRuns s, run := r } := by
  have hmem : slot ∈ s.runs := List.mem_of_getElem? hidx
  refine ⟨List.mem_filterMap.mpr ⟨slot, hmem, hslot⟩, fun hserial hcontext o ho holder hopen => ?_⟩
  obtain ⟨a, ha, hao⟩ := List.mem_filterMap.mp ho
  -- an older run stands before the index, since the list is sorted
  have hsplit := split_at hidx
  have hsorted := h.sorted
  rw [hsplit, List.pairwise_append, List.pairwise_cons] at hsorted
  have hplace : a ∈ s.runs.take idx ∨ a = slot ∨ a ∈ s.runs.drop (idx + 1) := by
    rw [hsplit] at ha
    simpa using ha
  rcases hplace with hbefore | rfl | hafter
  · exact hclear hserial hcontext a hbefore o hao hopen
  · rw [hslot] at hao
    cases hao
    exact absurd holder (Nat.lt_irrefl _)
  · have hyounger := hsorted.2.1.1 a hafter r hslot o hao
    exact absurd (Nat.lt_trans holder hyounger) (Nat.lt_irrefl _)

/-- A step in one slot leaves the runs before it alone. -/
theorem Clear.put {s : RtScheduler} {idx slot : Nat} {contextId : Bytes} (h : Listing s) (hidx : s.runs[idx]? = some slot)
    (hclear : Clear s idx contextId) (r : RtRun) (hlt : slot < s.pool.length) : Clear (putRun s slot r) idx contextId := by
  intro hserial hcontext a ha o ho
  have hne : a ≠ slot := by
    rintro rfl
    have hnodup := h.nodup
    rw [split_at hidx, List.nodup_append] at hnodup
    exact hnodup.2.2 a ha a (by simp) rfl
  rw [show slotRun (putRun s slot r) a = if a = slot then some r else slotRun s a from
    slotRun_set s slot a (some r) hlt, if_neg hne] at ho
  exact hclear hserial hcontext a ha o ho

theorem stepWhile_ordered (idx slot : Nat) (oracle : Nat → StepEnv × Weather) (fuel advances : Nat) {g : Gateway}
    {s : RtScheduler} {r : RtRun} (h : Ordered g) (hsched : g.sched = some s) (hidx : s.runs[idx]? = some slot)
    (hslot : slotRun s slot = some r) (hclear : Clear s idx r.contextId) :
    Ordered (stepWhile slot oracle fuel advances g).1 ∧
      ∀ call ∈ (stepWhile slot oracle fuel advances g).2, Serial s.serializeContexts call := by
  induction fuel generalizing g s r advances with
  | zero => exact ⟨h, fun call hmem => absurd hmem List.not_mem_nil⟩
  | succ fuel ih =>
    have hs := h.listing s hsched
    have hcall := hs.serial hidx hslot hclear
    have hone : ∀ call ∈ [({ listed := activeRuns s, run := r } : Invocation)], Serial s.serializeContexts call := by
      intro call hmem
      rw [List.mem_singleton] at hmem
      exact hmem ▸ hcall
    have hnone : ∀ call ∈ ([] : List Invocation), Serial s.serializeContexts call :=
      fun call hmem => absurd hmem List.not_mem_nil
    rw [stepWhile, hsched]
    dsimp only
    rw [hslot]
    dsimp only
    cases findDir g r.number with
    | none => exact ⟨h, hnone⟩
    | some dir =>
    dsimp only
    by_cases hstate : r.state = .ready ∨ r.state = .running
    swap
    · rw [if_neg hstate]
      exact ⟨h, hnone⟩
    rw [if_pos hstate]
    have hsame := step_same s.host.keepFinished s.host.profile (oracle advances).1 r (dirDisk g dir (oracle advances).2)
    generalize rtRunStepReady s.host.keepFinished s.host.profile (oracle advances).1 r
      (dirDisk g dir (oracle advances).2) = m at hsame
    obtain ⟨r', d, result⟩ := m
    dsimp only at hsame ⊢
    have hput : Listing (putRun s slot r') := hs.put hslot hsame.1
    have hnext : Ordered { putDir g r.number ((oracle advances).2.left d) with sched := some (putRun s slot r') } :=
      h.put r.number _ fun s' hs' => by cases hs'; exact hput
    split
    · exact ⟨h.put r.number _ nofun, hone⟩
    split
    · have hslot' : slotRun (putRun s slot r') slot = some r' := by
        rw [show slotRun (putRun s slot r') slot = if slot = slot then some r' else slotRun s slot from
          slotRun_set s slot slot (some r') (slotRun_lt hslot), if_pos rfl]
      have hclear' : Clear (putRun s slot r') idx r'.contextId := by
        rw [hsame.2]
        exact hclear.put hs hidx r' (slotRun_lt hslot)
      obtain ⟨hlast, hcalls⟩ := ih (advances + 1) hnext rfl hidx hslot' hclear'
      refine ⟨hlast, fun call hmem => ?_⟩
      rcases List.mem_cons.mp hmem with rfl | hmem
      · exact hcall
      · exact hcalls call hmem
    · exact ⟨hnext, hone⟩

theorem stepReady_ordered {g g' : Gateway} {s : RtScheduler} {idx : Nat} {oracle : Nat → StepEnv × Weather}
    {calls : List Invocation} (h : Ordered g) (hsched : g.sched = some s)
    (hstep : stepReadyRun g s idx oracle = some (g', calls)) :
    Ordered g' ∧ ∀ call ∈ calls, Serial s.serializeContexts call := by
  unfold stepReadyRun at hstep
  split at hstep
  · cases hstep
  rename_i slot hidx
  split at hstep
  · cases hstep
  rename_i r hslot
  split at hstep
  · cases hstep
    exact ⟨h, fun call hmem => absurd hmem List.not_mem_nil⟩
  · rename_i hguard
    have hspec := stepWhile_ordered idx slot oracle rtMaxPhaseAdvancesPerTick 0 h hsched hidx hslot
      (clear_of_guard (by simpa using hguard))
    rw [Option.some.inj hstep] at hspec
    exact hspec

/-! ## Runs -/

/-- One input keeps the order. -/
theorem sched_ordered {g g' : Gateway} {i : SchedInput} (h : Ordered g) (hstep : schedStep g i = some g') : Ordered g' := by
  have hfew : ∀ {sched : Option RtScheduler}, (∀ s, sched = some s → Listing s) → Ordered { g with sched := sched } :=
    fun hsched => ⟨h.dirs, hsched⟩
  cases hsched : g.sched with
  | none =>
    cases i <;> simp only [schedStep, hsched, reduceCtorEq, Option.some.injEq] at hstep
    case prune number =>
      subst hstep
      exact ⟨h.dirs.sublist (List.filter_sublist.map _), fun s hs => by cases hs⟩
    case others stores =>
      subst hstep
      exact ⟨h.dirs, fun s hs => by cases hs⟩
    case crash =>
      subst hstep
      exact hfew nofun
    case restart host serializeContexts reconcile weather =>
      subst hstep
      exact init_ordered h host serializeContexts reconcile weather
  | some s =>
    have hs := h.listing s hsched
    cases i <;> simp only [schedStep, hsched, reduceCtorEq, Option.some.injEq] at hstep
    case intake e adm stranded w =>
      subst hstep
      exact intake_ordered h hs e adm stranded w
    case step idx oracle =>
      obtain ⟨⟨g1, calls⟩, hrun, rfl⟩ := Option.map_eq_some_iff.mp hstep
      exact (stepReady_ordered h hsched hrun).1
    case job idx jobId ending w => exact operate_ordered h hs hstep
    case slot idx w => exact operate_ordered h hs hstep
    case retry idx readable w => exact operate_ordered h hs hstep
    case cancel idx w => exact operate_ordered h hs hstep
    case retire =>
      subst hstep
      exact hfew fun s' hs' => by cases hs'; exact hs.retire
    case prune number =>
      subst hstep
      exact ⟨h.dirs.sublist (List.filter_sublist.map _), fun s' hs' => by cases hs'; exact hs⟩
    case others stores =>
      subst hstep
      exact ⟨h.dirs, fun s' hs' => by cases hs'; exact hs⟩
    case crash =>
      subst hstep
      exact hfew nofun

def chatHost : Host :=
  { keepFinished := 100
    profile := { name := lit "chat", steps := [{ id := lit "reply", type := lit "agent", target := lit "replier" }] } }

def tickEnvelope (id : Bytes) : Envelope :=
  .ordinary
    { kind := .custom, envelopeId := id, originEventId := [], type := lit "tick", channel := lit "cli", userText := []
      adapterId := [], contextId := [], ref := none, affairId := [], action := [], actionTaskId := [], actionArgs := []
      payload := lit "\x7b\x7d", mediaRef := none, operationId := [], completionToken := [], claimCause := [] }

/-- Every agent is a subprocess. -/
def jobOracle : Nat → StepEnv × Weather := fun _ => ({ launch := fun _ => .failed, agent := .job (lit "job_1") }, {})

/-- Two ticks of one context are taken in: the first is stepped, the second waits behind it. -/
def twoTicks : List SchedInput :=
  [.restart chatHost true (fun _ _ => .failed) (fun _ => {}), .intake (tickEnvelope (lit "bus_000001")) {} false {},
    .intake (tickEnvelope (lit "bus_000002")) {} false {}]

end Floofclaw.Guarantees.Serialization
