import Floofclaw.Lib.Machine
import Floofclaw.Source.Janitor
import Floofclaw.Source.JsonWrite

/-!
# Retention spares live evidence

What each pruning task may not remove is said over the files themselves: a run
by its control state and the publication records, an envelope by the records,
the runs created from it and the operation its claim names, a worker entry by
the operation store. A run is never lost. Envelopes and worker entries are safe
in the passes that meet `Permitted`.
-/

set_option autoImplicit false

namespace Floofclaw.Guarantees.Retention
open Floofclaw.Lib Floofclaw.Source.Json Floofclaw.Source.StoreFile Floofclaw.Source.Inbound Floofclaw.Source.Janitor
open Floofclaw.Source.Outbox (PublicationRecord)

/-! ## Order -/

section Order
variable {es : List DirEntry} (hsorted : es.Pairwise fun a b => a.num ≤ b.num)
include hsorted

/-- Before the `k`-th entry there are fewer than `k`. -/
theorem count_lt_of_mem_take {k : Nat} {y : DirEntry} (hy : y ∈ es.take k) {p : DirEntry → Bool}
    (hp : ∀ z, p z = true → z.num < y.num) : (es.filter p).length < k := by
  obtain ⟨before, after, hsplit⟩ := List.append_of_mem hy
  have hes : es = before ++ (y :: (after ++ es.drop k)) := by
    conv => lhs; rw [← List.take_append_drop k es, hsplit]
    simp
  have hlen : before.length < k := by
    have hle := List.length_take_le k es
    rw [hsplit] at hle
    simp only [List.length_append, List.length_cons] at hle
    omega
  rw [hes] at hsorted ⊢
  have hlate : (y :: (after ++ es.drop k)).filter p = [] := by
    rw [List.filter_eq_nil_iff]
    intro z hz hpz
    have hlt := hp z hpz
    rcases List.mem_cons.mp hz with rfl | hz
    · omega
    · have := (List.pairwise_cons.mp (List.pairwise_append.mp hsorted).2.1).1 z hz
      omega
  rw [List.filter_append, hlate, List.append_nil]
  exact Nat.lt_of_le_of_lt (List.length_filter_le p before) hlen

/-- A prefix of the entries that may go takes the older ones first. -/
theorem before_of_prefix {mayGo : DirEntry → Bool} {removed : List DirEntry} (hpre : removed <+: es.filter mayGo)
    {x y : DirEntry} (hx : x ∈ es) (hgo : mayGo x = true) (hlt : x.num < y.num) {l1 l2 : List DirEntry}
    (hy : removed = l1 ++ y :: l2) : x ∈ l1 := by
  obtain ⟨rest, hrest⟩ := hpre
  have hmem : x ∈ es.filter mayGo := List.mem_filter.mpr ⟨hx, hgo⟩
  have hfiltered := hsorted.sublist (List.filter_sublist (p := mayGo) (l := es))
  rw [← hrest, hy, List.append_assoc, List.cons_append] at hmem hfiltered
  rcases List.mem_append.mp hmem with hx1 | hlate
  · exact hx1
  · rcases List.mem_cons.mp hlate with rfl | hlate
    · omega
    · have := (List.pairwise_cons.mp (List.pairwise_append.mp hfiltered).2.1).1 x hlate
      omega

end Order

theorem runsLoop_prefix (mayGo : DirEntry → Bool) (removes : FileName → Bool) (toDrop dropped : Nat) (es : List DirEntry) :
    runsLoop mayGo removes toDrop dropped es <+: es.filter mayGo := by
  induction es generalizing dropped with
  | nil => exact List.nil_prefix
  | cons e es ih =>
    rw [runsLoop]
    split
    · by_cases hgo : mayGo e = true
      · rw [if_pos hgo, List.filter_cons_of_pos hgo]
        exact List.prefix_cons_inj e |>.mpr (ih _)
      · rw [if_neg hgo, List.filter_cons_of_neg hgo]
        exact ih dropped
    · exact List.nil_prefix

theorem take_filter_prefix (mayGo : DirEntry → Bool) (k : Nat) (es : List DirEntry) :
    (es.take k).filter mayGo <+: es.filter mayGo := by
  conv => rhs; rw [← List.take_append_drop k es, List.filter_append]
  exact List.prefix_append _ _

/-! ## Scans -/

/-- What a scan holds, and what it gave up for it. -/
theorem listSorted_split (q : Qsort) (namePrefix : Bytes) (cap : Nat) (names : List FileName) :
    (listSorted q namePrefix cap names).Pairwise (fun a b => a.num ≤ b.num) ∧
      (listSorted q namePrefix cap names).length = min (entriesOf namePrefix names).length cap ∧
      ∃ rest, (listSorted q namePrefix cap names ++ rest).Perm (entriesOf namePrefix names) ∧
        ∀ x ∈ listSorted q namePrefix cap names, ∀ y ∈ rest, x.num ≤ y.num := by
  have hheld := Heap.holds_foldl DirEntry.num cap (entriesOf namePrefix names)
  obtain ⟨rest, hseen, hroom, hsmall⟩ := hheld.smallest
  have hperm := q.perm ((entriesOf namePrefix names).foldl (Heap.offer DirEntry.num cap) #[]).toList
  have hlen := hseen.length_eq
  have hfits := hheld.fits
  refine ⟨q.sorted _, ?_, rest, (hperm.append_right rest).trans hseen, ?_⟩
  · rw [listSorted, hperm.length_eq]
    rw [List.length_append, Array.length_toList] at hlen
    rw [Array.length_toList]
    by_cases hlt : ((entriesOf namePrefix names).foldl (Heap.offer DirEntry.num cap) #[]).size < cap
    · rw [hroom hlt, List.length_nil] at hlen
      omega
    · omega
  · intro x hx y hy
    exact hsmall x (hperm.mem_iff.mp hx) y hy

/-- The numbers of the entries in ascending order. -/
def sortedNums (entries : List DirEntry) : List Nat := (entries.map DirEntry.num).mergeSort

/-- The numbers a scan holds are the smallest ones, whatever the order of the directory and of equal numbers. -/
theorem listSorted_nums (q : Qsort) (namePrefix : Bytes) (cap : Nat) (names : List FileName) :
    (listSorted q namePrefix cap names).map DirEntry.num = (sortedNums (entriesOf namePrefix names)).take cap := by
  obtain ⟨hsorted, hlen, rest, hperm, hsmall⟩ := listSorted_split q namePrefix cap names
  have hall : (listSorted q namePrefix cap names ++ q.sort rest).map DirEntry.num = sortedNums (entriesOf namePrefix names) := by
    have hordered : ((listSorted q namePrefix cap names ++ q.sort rest).map DirEntry.num).Pairwise (· ≤ ·) := by
      rw [List.pairwise_map, List.pairwise_append]
      exact ⟨hsorted, q.sorted rest, fun x hx y hy => hsmall x hx y ((q.perm rest).mem_iff.mp hy)⟩
    have hsame : ((listSorted q namePrefix cap names ++ q.sort rest).map DirEntry.num).Perm (sortedNums (entriesOf namePrefix names)) :=
      ((((q.perm rest).append_left _).trans hperm).map _).trans (List.mergeSort_perm _ _).symm
    exact hsame.eq_of_pairwise (fun a b _ _ => Nat.le_antisymm) hordered (List.pairwise_mergeSort' _ _)
  have hcount := hperm.length_eq
  rw [List.length_append] at hcount
  rw [← hall, List.map_append]
  by_cases hfull : cap ≤ (entriesOf namePrefix names).length
  · rw [List.take_left' (by rw [List.length_map]; omega)]
  · have hnil : rest = [] := List.length_eq_zero_iff.mp (by omega)
    have hempty : q.sort rest = [] := List.length_eq_zero_iff.mp (by rw [(q.perm rest).length_eq, hnil, List.length_nil])
    rw [hempty, List.map_nil, List.append_nil, List.take_of_length_le (by rw [List.length_map]; omega)]

/-- A scan returns the oldest entries in ascending order; another order of the directory gives the same numbers. -/
theorem listSorted_oldest (q : Qsort) (namePrefix : Bytes) (cap : Nat) (names : List FileName) :
    (listSorted q namePrefix cap names).length = min cap (entriesOf namePrefix names).length ∧
      (listSorted q namePrefix cap names).Pairwise (fun a b => a.num ≤ b.num) ∧
      (∃ omitted, (listSorted q namePrefix cap names ++ omitted).Perm (entriesOf namePrefix names) ∧
        ∀ x ∈ listSorted q namePrefix cap names, ∀ y ∈ omitted, x.num ≤ y.num) ∧
      ∀ (q' : Qsort) (names' : List FileName), names'.Perm names →
        (listSorted q' namePrefix cap names').map DirEntry.num = (listSorted q namePrefix cap names).map DirEntry.num := by
  obtain ⟨hsorted, hlen, hrest⟩ := listSorted_split q namePrefix cap names
  refine ⟨by rw [hlen, Nat.min_comm], hsorted, hrest, fun q' names' hperm => ?_⟩
  have hentries : ((entriesOf namePrefix names').map DirEntry.num).Perm ((entriesOf namePrefix names).map DirEntry.num) :=
    (hperm.filterMap _).map _
  have hnums : sortedNums (entriesOf namePrefix names') = sortedNums (entriesOf namePrefix names) := by
    have hsame : (sortedNums (entriesOf namePrefix names')).Perm (sortedNums (entriesOf namePrefix names)) :=
      ((List.mergeSort_perm _ _).trans hentries).trans (List.mergeSort_perm _ _).symm
    exact hsame.eq_of_pairwise (fun a b _ _ => Nat.le_antisymm) (List.pairwise_mergeSort' _ _) (List.pairwise_mergeSort' _ _)
  rw [listSorted_nums, listSorted_nums, hnums]

/-- How many of the entries are older. -/
def olderCount (entries : List DirEntry) (num : Nat) : Nat := (entries.filter fun z => decide (z.num < num)).length

/-- Not all of the newest `keep` of the `scanned` entries need be younger: a pass may get to this one. -/
def InReach (keep : Int) (scanned : Nat) (entries : List DirEntry) (e : DirEntry) : Prop :=
  0 < keep ∧ (olderCount entries e.num : Int) + keep < scanned

theorem listSorted_reach {q : Qsort} {namePrefix : Bytes} {cap : Nat} {names : List FileName} {k : Nat} {e : DirEntry}
    (he : e ∈ (listSorted q namePrefix cap names).take k) :
    e ∈ entriesOf namePrefix names ∧ olderCount (entriesOf namePrefix names) e.num < k := by
  obtain ⟨hsorted, -, rest, hperm, hsmall⟩ := listSorted_split q namePrefix cap names
  have hin := List.mem_of_mem_take he
  refine ⟨hperm.mem_iff.mp (List.mem_append_left rest hin), ?_⟩
  have hnone : rest.filter (fun z => decide (z.num < e.num)) = [] := by
    rw [List.filter_eq_nil_iff]
    intro z hz hlt
    have := hsmall e hin z hz
    rw [decide_eq_true_eq] at hlt
    omega
  rw [olderCount, ← (hperm.filter _).length_eq, List.filter_append, hnone, List.append_nil]
  exact count_lt_of_mem_take hsorted he fun z hz => of_decide_eq_true hz

/-! ## Live evidence -/

/-- The log holds no complete line: the first event is still to be committed. -/
def awaitsFirstEvent (run : RunDir) : Prop := ch '\n' ∉ cstr (run.log.getD [])

/-- Some run was created from the envelope and has not committed it. -/
def Awaited (ws : Workspace) (id : Bytes) : Prop :=
  ∃ name run, ws.runs.lookup name = some run ∧ run.runstate.bind (createdFrom rtSmall name.val) = some id ∧
    awaitsFirstEvent run

def TerminalRun (ws : Workspace) (name : FileName) : Prop :=
  ∃ runstate, (ws.runs.lookup name).bind RunDir.runstate = some runstate ∧
    Source.Runs.rtRunStatusIsTerminal (rtRunStateStatus runstate) = true

/-- A publication record names the run as its source, or is the wake the run was created from. -/
def PinnedRun (ws : Workspace) (name : FileName) : Prop :=
  ∃ file text record, (file, text) ∈ ws.outbox.getD [] ∧ canonicalRecordName file.val = true ∧
    recordLoad file (some text) = some record ∧ (record.sourceRunId = name.val ∨
      ((ws.runs.lookup name).bind RunDir.runstate).bind (createdFrom rtSmall name.val) = some record.wakeId)

def Running (ws : Workspace) (id : Bytes) : Prop := rtOperationStatus ws.operations id = some (lit "running")

/-- The operation a completion envelope claims. -/
def claimedOperation (ws : Workspace) (text : Bytes) : Option Bytes :=
  match parseInboundEnvelope ws.media text with
  | .ok env => if env.kind = .completion then some env.operationId else none
  | .error _ => none

/-- The envelope is the claim of an operation that runs. -/
def RunningClaim (ws : Workspace) (name : FileName) : Prop :=
  ∃ text id, ws.processed.lookup name = some text ∧ claimedOperation ws text = some id ∧ Running ws id

def Recorded (ws : Workspace) (name : FileName) : Prop := ∃ text, (ws.outbox.getD []).lookup name = some text

/-- The name a worker gives the entry of an operation. -/
def Owns (store : WorkerStore) (handle name : Bytes) : Prop :=
  match store with
  | .codexOps | .claudeOps => name = handle
  | .hermesOps => ∃ requestId, handle = lit "op_" ++ requestId ∧ name = lit "hermes_" ++ requestId ++ lit ".json"

/-- What retention may not remove. -/
def Live (ws : Workspace) (name : FileName) : JanitorTask → Prop
  | .runsPrune => ¬ TerminalRun ws name ∨ PinnedRun ws name
  | .workerStorePrune store => ∃ handle, Running ws handle ∧ Owns store handle name.val
  | .busProcessedPrune =>
    ∃ id, name.val = id ++ lit ".json" ∧ (Recorded ws name ∨ Awaited ws id ∨ RunningClaim ws name)

/-- The numbered entries of the directory a task prunes. -/
def entriesFor (ws : Workspace) : JanitorTask → List DirEntry
  | .runsPrune => entriesOf (lit "run_") (ws.runs.map Prod.fst)
  | .workerStorePrune store => entriesOf [] (ws.workers store)
  | .busProcessedPrune => entriesOf (lit "bus_") (ws.processed.map Prod.fst)

/-- The pass's own tests on an entry. -/
def mayGo (p : Pass) (ws : Workspace) (e : DirEntry) : Bool :=
  match p.task with
  | .runsPrune => runMayGo p.io ws e
  | .workerStorePrune store => workerMayGo p.io ws store e
  | .busProcessedPrune => processedMayGo p.io ws e

def Safe (s : Sweep) : Prop := ∀ e ∈ s.pass.removed s.before, ¬ Live s.before e.name s.pass.task

/-- Among the entries that may go, the older go first. -/
def OldestFirst (s : Sweep) : Prop :=
  ∀ x ∈ entriesFor s.before s.pass.task, mayGo s.pass s.before x = true →
    ∀ older y younger, s.pass.removed s.before = older ++ y :: younger → x.num < y.num → x ∈ older

/-! ## Runs -/

section RunPasses
variable {io : PassIo} {ws : Workspace} {name : FileName}

theorem fsReadText_some {readable : Bool} {file : Option Bytes} {text : Bytes}
    (h : fsReadText { readable := readable } file = some text) : file = some text := by
  unfold fsReadText at h
  split at h
  · exact (Option.filter_eq_some_iff.mp h).1
  · cases h

theorem fsReadText_cases (readable : Bool) (file : Option Bytes) :
    fsReadText { readable := readable } file = none ∨ fsReadText { readable := readable } file = file := by
  obtain h | ⟨text, h⟩ := Option.eq_none_or_eq_some (fsReadText { readable := readable } file)
  · exact .inl h
  · exact .inr (h.trans (fsReadText_some h).symm)

theorem recordLoad_wakeId {text : Option Bytes} {record : PublicationRecord} (h : recordLoad name text = some record) :
    record.wakeId ≠ [] := by
  unfold recordLoad at h
  obtain ⟨_, -, h⟩ := Option.bind_eq_some_iff.mp h
  obtain ⟨_, -, h⟩ := Option.bind_eq_some_iff.mp h
  obtain ⟨wakeId, -, h⟩ := Option.bind_eq_some_iff.mp h
  obtain ⟨_, -, h⟩ := Option.bind_eq_some_iff.mp h
  obtain ⟨_, -, h⟩ := Option.bind_eq_some_iff.mp h
  obtain ⟨_, -, h⟩ := Option.bind_eq_some_iff.mp h
  obtain ⟨_, -, h⟩ := Option.bind_eq_some_iff.mp h
  obtain ⟨_, -, h⟩ := Option.bind_eq_some_iff.mp h
  obtain ⟨_, -, h⟩ := Option.bind_eq_some_iff.mp h
  obtain ⟨_, -, h⟩ := Option.bind_eq_some_iff.mp h
  obtain ⟨_, hids, h⟩ := Option.bind_eq_some_iff.mp h
  obtain ⟨_, -, h⟩ := Option.bind_eq_some_iff.mp h
  obtain ⟨_, -, h⟩ := Option.bind_eq_some_iff.mp h
  cases h
  intro hnil
  rw [show wakeId = [] from hnil, Option.guard_eq_some'] at hids
  exact absurd hids.1 (by decide)

theorem createdFrom_mono {runId runstate wake : Bytes} (h : createdFrom busIdMax runId runstate = some wake) :
    createdFrom rtSmall runId runstate = some wake := by
  simp only [createdFrom, jsonRefObjectGetString, Option.bind_eq_bind, Option.bind_eq_some_iff] at h ⊢
  obtain ⟨root, hroot, stored, hstored, u, hguard, created, hcreated, v, hv, hcopy⟩ := h
  exact ⟨root, hroot, stored, hstored, u, hguard, created, hcreated, v, hv,
    jsonRefStringCopy_mono (by decide) hcopy⟩

/-- A scan that finds nothing has loaded every record, and none of them names the run. -/
theorem runPendingLoop_false {claimed : Option Bytes} {records : List (FileName × Bytes)}
    (h : runPendingLoop io name claimed records = some false) {file : FileName} {text : Bytes} (hin : (file, text) ∈ records)
    (hcanonical : canonicalRecordName file.val = true) {record : PublicationRecord}
    (hload : recordLoad file (some text) = some record) :
    record.sourceRunId ≠ name.val ∧ claimed ≠ some record.wakeId := by
  induction records with
  | nil => cases hin
  | cons head records ih =>
    obtain ⟨file', text'⟩ := head
    rw [runPendingLoop] at h
    split at h
    · rename_i hother
      rcases List.mem_cons.mp hin with heq | hin
      · obtain ⟨rfl, rfl⟩ := Prod.mk.inj heq
        rw [hcanonical] at hother
        cases hother
      · exact ih h hin
    · split at h
      · cases h
      · rename_i record' hload'
        split at h
        · cases h
        · rename_i hnone
          rcases List.mem_cons.mp hin with heq | hin
          · obtain ⟨rfl, rfl⟩ := Prod.mk.inj heq
            rcases fsReadText_cases (io.recordReads name file) (some text) with hread | hread
            · rw [hread] at hload'
              cases hload'
            · rw [hread, hload] at hload'
              obtain rfl := Option.some.inj hload'
              exact not_or.mp hnone
          · exact ih h hin

theorem not_pinned (h : rtPublicationOutboxRunPending io ws name = some false) : ¬ PinnedRun ws name := by
  rintro ⟨file, text, record, hin, hcanonical, hload, hnames⟩
  unfold rtPublicationOutboxRunPending at h
  split at h
  · cases h
  obtain hnone | ⟨records, hrecords⟩ := Option.eq_none_or_eq_some ws.outbox
  · rw [hnone] at hin
    cases hin
  rw [hrecords] at h hin
  obtain ⟨claimed, hclaimed, hloop⟩ := Option.bind_eq_some_iff.mp h
  obtain ⟨hsource, hwake⟩ := runPendingLoop_false hloop hin hcanonical hload
  rcases hnames with hnames | hnames
  · exact hsource hnames
  obtain ⟨runstate, hrunstate, hcreated⟩ := Option.bind_eq_some_iff.mp hnames
  rw [claimedWakeForRun, hrunstate] at hclaimed
  obtain ⟨read, hread, hmap⟩ := Option.bind_eq_some_iff.mp hclaimed
  obtain ⟨wake, hwake', hif⟩ := Option.map_eq_some_iff.mp hmap
  obtain rfl := Option.some.inj (fsReadText_some hread)
  rw [createdFrom_mono hwake'] at hcreated
  obtain rfl := Option.some.inj hcreated
  rw [if_neg (recordLoad_wakeId hload)] at hif
  exact hwake hif.symm

theorem terminal_of_mayGo {e : DirEntry} (h : runMayGo io ws e = true) : TerminalRun ws e.name ∧ ¬ PinnedRun ws e.name := by
  simp only [runMayGo, Bool.and_eq_true, decide_eq_true_eq] at h
  obtain ⟨⟨hpending, hterminal⟩, -⟩ := h
  refine ⟨?_, not_pinned hpending⟩
  unfold runIsTerminal at hterminal
  split at hterminal
  · cases hterminal
  · rename_i text hread
    exact ⟨text, fsReadText_some hread, hterminal⟩

end RunPasses

theorem runs_removed {q : Qsort} {io : PassIo} {keep : Int} {ws : Workspace} :
    taskRunsPrune q io keep ws <+: (runEntries q ws).filter (runMayGo io ws) := by
  unfold taskRunsPrune
  split
  · exact List.nil_prefix
  · split
    · exact List.nil_prefix
    · exact runsLoop_prefix _ _ _ _ _

/-- A run that the pass removes is over, and no publication needs it. -/
theorem runs_safe {q : Qsort} {io : PassIo} {keep : Int} {ws : Workspace} {e : DirEntry} (he : e ∈ taskRunsPrune q io keep ws) :
    ¬ Live ws e.name .runsPrune := by
  obtain ⟨hterminal, hpinned⟩ := terminal_of_mayGo (List.mem_filter.mp (runs_removed.mem he)).2
  rintro (hlive | hlive)
  · exact hlive hterminal
  · exact hpinned hlive

/-- What a heap scan holds is pruned oldest first, and nothing it gave up is older. -/
theorem listed_oldest_first {q : Qsort} {namePrefix : Bytes} {cap : Nat} {names : List FileName} {mayGo : DirEntry → Bool}
    {removed : List DirEntry} (hpre : removed <+: (listSorted q namePrefix cap names).filter mayGo) {x y : DirEntry}
    (hx : x ∈ entriesOf namePrefix names) (hgo : mayGo x = true) {older younger : List DirEntry}
    (hy : removed = older ++ y :: younger) (hlt : x.num < y.num) : x ∈ older := by
  obtain ⟨hsorted, -, rest, hperm, hsmall⟩ := listSorted_split q namePrefix cap names
  rcases List.mem_append.mp (hperm.mem_iff.mpr hx) with hkept | hrest
  · exact before_of_prefix hsorted hpre hkept hgo hlt hy
  · have hin : y ∈ removed := by
      rw [hy]
      simp
    have := hsmall y (List.mem_filter.mp (hpre.mem hin)).1 x hrest
    omega

/-! ## Worker entries -/

theorem running_handle {ws : Workspace} {id : Bytes} (h : Running ws id) :
    id ≠ [] ∧ id.length < rtSmall ∧ rtOperationAnyRunning ws.operations = true := by
  unfold Running rtOperationStatus at h
  split at h
  · cases h
  rename_i hne
  obtain ⟨before, after, hrows, -⟩ := List.lookup_eq_some_iff.mp h
  have hin : (id, lit "running") ∈ operationStatuses ws.operations := by
    rw [hrows]
    simp
  obtain ⟨item, -, hrow⟩ := List.mem_filterMap.mp (List.mem_of_mem_take hin)
  refine ⟨hne, ?_, List.any_eq_true.mpr ⟨_, hin, by simp⟩⟩
  unfold operationRow at hrow
  split at hrow
  · cases hrow
  split at hrow
  · cases hrow
  · cases hrow
  · rename_i handle _ hhandle
    obtain rfl := (Prod.mk.inj (Option.some.inj hrow)).1
    obtain ⟨v, -, hcopy⟩ := Option.bind_eq_some_iff.mp hhandle
    exact jsonRefStringCopy_length hcopy

theorem stripJson_json {s : Bytes} (h : s ≠ []) : stripJson (s ++ lit ".json") = s := by
  have hlen : (lit ".json").length = 5 := lit_length _
  have hpos := List.length_pos_of_ne_nil h
  rw [stripJson, if_pos]
  · rw [List.length_append, hlen, Nat.add_sub_cancel, List.take_left]
  · exact ⟨by rw [List.length_append, hlen]; omega, List.isSuffixOf_iff_suffix.mpr (List.suffix_append _ _)⟩

theorem entryOf_some {namePrefix : Bytes} {name : FileName} {e : DirEntry} (h : entryOf namePrefix name = some e) :
    e.name = name ∧ parseTrailingNumber name.val = some e.num := by
  unfold entryOf at h
  split at h
  · cases h
  · obtain ⟨num, hnum, rfl⟩ := Option.map_eq_some_iff.mp h
    exact ⟨rfl, hnum⟩

theorem entriesOf_number {namePrefix : Bytes} {names : List FileName} {e : DirEntry} (h : e ∈ entriesOf namePrefix names) :
    e.name ∈ names ∧ parseTrailingNumber e.name.val = some e.num := by
  obtain ⟨name, hname, hentry⟩ := List.mem_filterMap.mp h
  obtain ⟨heq, hnum⟩ := entryOf_some hentry
  exact heq ▸ ⟨hname, hnum⟩

/-- The janitor finds the operation an entry belongs to, unless its id ends like a file of a process worker's store. -/
theorem entryOperationId_owns {store : WorkerStore} {handle name : Bytes} {num : Nat} (howns : Owns store handle name)
    (hne : handle ≠ []) (hlen : handle.length < rtSmall) (hnum : parseTrailingNumber name = some num)
    (hsuffix : store ≠ .hermesOps → ¬ lit ".json" <:+ handle) : entryOperationId store.opPrefix name = some handle := by
  have hplain : store ≠ .hermesOps → stripJson handle = handle := by
    intro hstore
    rw [stripJson, if_neg]
    exact fun h => hsuffix hstore (List.isSuffixOf_iff_suffix.mp h.2)
  have hbare : store ≠ .hermesOps → name = handle → entryOperationId [] name = some handle := by
    rintro hstore rfl
    rw [entryOperationId]
    simp only [ne_eq, not_true_eq_false, false_and, if_false, if_true, hplain hstore]
    rw [if_neg (not_or.mpr ⟨hne, by omega⟩)]
  cases store with
  | codexOps => exact hbare (by decide) howns
  | claudeOps => exact hbare (by decide) howns
  | hermesOps =>
    obtain ⟨requestId, rfl, rfl⟩ := howns
    have hsome : requestId ≠ [] := by
      rintro rfl
      rw [show parseTrailingNumber (lit "hermes_" ++ [] ++ lit ".json") = none by (repeat rw [lit_ofList]); decide] at hnum
      cases hnum
    have hpre : (lit "hermes_").isPrefixOf (lit "hermes_" ++ requestId ++ lit ".json") = true := by
      rw [List.isPrefixOf_iff_prefix, List.append_assoc]
      exact List.prefix_append _ _
    have hdrop : (lit "hermes_" ++ requestId ++ lit ".json").drop (lit "hermes_").length = requestId ++ lit ".json" := by
      rw [List.append_assoc, List.drop_left]
    rw [List.length_append] at hlen
    have hlits : lit "hermes_" ≠ [] := by decide
    rw [entryOperationId, WorkerStore.opPrefix]
    simp only [hpre, hdrop, ne_eq, hlits, not_false_eq_true, and_self, if_true]
    rw [stripJson_json hsome, if_neg (not_or.mpr ⟨hsome, by omega⟩), if_neg not_false,
      if_neg (by rw [List.length_append]; omega)]

/-- What a pass over a worker store needs: it reads the operations whose entries it may get to, finds them, and the
entries that its scan had no room for are not older than what it removes. -/
structure WorkerPermits (p : Pass) (store : WorkerStore) (ws : Workspace) : Prop where
  readable : ∀ e ∈ workerScanned ws store, InReach p.keep (workerScanned ws store).length (workerScanned ws store) e →
    ∀ handle, Running ws handle → Owns store handle e.name.val →
      fsReadText { readable := p.io.anyRunningReads } ws.operations = ws.operations ∧
        fsReadText { readable := p.io.operationReads e.name } ws.operations = ws.operations ∧
        (store ≠ .hermesOps → ¬ lit ".json" <:+ handle)
  room : ∀ x ∈ (entriesOf [] (ws.workers store)).drop janitorWorkerStoreScanCap, workerMayGo p.io ws store x = true →
    0 < p.keep → ((workerScanned ws store).length : Int) ≤
      p.keep + ((workerScanned ws store).filter fun z => decide (z.num ≤ x.num)).length

theorem pressed_some {keep : Int} (hkeep : 0 < keep) {entries : List DirEntry} {toDrop : Nat}
    (h : pressed keep entries = some toDrop) : (toDrop : Int) + keep = entries.length := by
  unfold pressed at h
  split at h
  · cases h
  · obtain rfl := Option.some.inj h
    omega

section WorkerPasses
variable {p : Pass} {store : WorkerStore} {ws : Workspace}

theorem worker_removed {e : DirEntry} (he : e ∈ taskWorkerStorePrune p.qsort p.io store p.keep ws) :
    0 < p.keep ∧ ∃ toDrop, pressed p.keep (workerScanned ws store) = some toDrop ∧
      e ∈ (p.qsort.sort (workerScanned ws store)).take toDrop ∧ workerMayGo p.io ws store e = true ∧
      taskWorkerStorePrune p.qsort p.io store p.keep ws =
        ((p.qsort.sort (workerScanned ws store)).take toDrop).filter (workerMayGo p.io ws store) := by
  unfold taskWorkerStorePrune at he ⊢
  split at he
  · cases he
  rename_i hkeep
  rw [if_neg hkeep]
  split at he
  · cases he
  rename_i toDrop hpressed
  obtain ⟨hin, hgo⟩ := List.mem_filter.mp he
  exact ⟨by omega, toDrop, hpressed, hin, hgo, rfl⟩

theorem worker_safe (hok : WorkerPermits p store ws) {e : DirEntry}
    (he : e ∈ taskWorkerStorePrune p.qsort p.io store p.keep ws) : ¬ Live ws e.name (.workerStorePrune store) := by
  rintro ⟨handle, hrunning, howns⟩
  obtain ⟨hkeep, toDrop, hpressed, hin, hgo, -⟩ := worker_removed he
  have hmem : e ∈ workerScanned ws store := (p.qsort.perm _).mem_iff.mp (List.mem_of_mem_take hin)
  have hreach : InReach p.keep (workerScanned ws store).length (workerScanned ws store) e := by
    have hcount := count_lt_of_mem_take (p.qsort.sorted _) hin (p := fun z => decide (z.num < e.num))
      fun z hz => of_decide_eq_true hz
    rw [((p.qsort.perm _).filter _).length_eq] at hcount
    have hdrop := pressed_some hkeep hpressed
    refine ⟨hkeep, ?_⟩
    unfold olderCount
    omega
  obtain ⟨hany, hread, hsuffix⟩ := hok.readable e hmem hreach handle hrunning howns
  obtain ⟨hne, hlen, hanyRunning⟩ := running_handle hrunning
  have hid := entryOperationId_owns howns hne hlen (entriesOf_number (List.mem_of_mem_take hmem)).2 hsuffix
  have hlive : workerStoreEntryIsLive p.io ws store e.name = true := by
    unfold workerStoreEntryIsLive
    rw [hid, hread]
    exact decide_eq_true hrunning
  rw [workerMayGo, hany, hanyRunning, hlive] at hgo
  cases hgo

theorem worker_oldest_first (hok : WorkerPermits p store ws) {x y : DirEntry} (hx : x ∈ entriesOf [] (ws.workers store))
    (hgo : workerMayGo p.io ws store x = true) {older younger : List DirEntry}
    (hy : taskWorkerStorePrune p.qsort p.io store p.keep ws = older ++ y :: younger) (hlt : x.num < y.num) : x ∈ older := by
  have hmem : y ∈ taskWorkerStorePrune p.qsort p.io store p.keep ws := by
    rw [hy]
    simp
  obtain ⟨hkeep, toDrop, hpressed, hin, -, heq⟩ := worker_removed hmem
  have hsorted := p.qsort.sorted (workerScanned ws store)
  rw [← List.take_append_drop janitorWorkerStoreScanCap (entriesOf [] (ws.workers store))] at hx
  rcases List.mem_append.mp hx with hx | hx
  · exact before_of_prefix hsorted (heq ▸ take_filter_prefix _ _ _) ((p.qsort.perm _).mem_iff.mpr hx) hgo hlt hy
  · have hroom := hok.room x hx hgo hkeep
    have hcount := count_lt_of_mem_take hsorted hin (p := fun z => decide (z.num ≤ x.num))
      fun z hz => Nat.lt_of_le_of_lt (of_decide_eq_true hz) hlt
    rw [((p.qsort.perm _).filter _).length_eq] at hcount
    have hdrop := pressed_some hkeep hpressed
    omega

end WorkerPasses

/-! ## Envelopes -/

/-- What a pass over the processed envelopes needs of those it may get to: it sees the record of a pending publication, an
envelope that a run still awaits has such a record or is the claim of an unfinished operation, and a running operation's
claim can be read. -/
structure ProcessedPermits (p : Pass) (ws : Workspace) : Prop where
  stat : ∀ e ∈ entriesFor ws .busProcessedPrune,
    InReach p.keep (min (entriesFor ws .busProcessedPrune).length janitorBusScanCap) (entriesFor ws .busProcessedPrune) e →
      Recorded ws e.name → p.io.recordStats e.name = true
  awaited : ∀ e ∈ entriesFor ws .busProcessedPrune,
    InReach p.keep (min (entriesFor ws .busProcessedPrune).length janitorBusScanCap) (entriesFor ws .busProcessedPrune) e →
      ∀ id, e.name.val = id ++ lit ".json" → safeId id busIdMax = true → ¬ Recorded ws e.name → Awaited ws id →
        rtPortsCompletionClaimPinned p.io ws e.name = true
  claim : ∀ e ∈ entriesFor ws .busProcessedPrune,
    InReach p.keep (min (entriesFor ws .busProcessedPrune).length janitorBusScanCap) (entriesFor ws .busProcessedPrune) e →
      ¬ Recorded ws e.name → RunningClaim ws e.name →
        fsReadText { readable := p.io.envelopeReads e.name } (ws.processed.lookup e.name) = ws.processed.lookup e.name

section ProcessedPasses
variable {p : Pass} {ws : Workspace}

theorem processed_handed {q : Qsort} {io : PassIo} {keep : Int} :
    taskBusProcessedPrune q io keep ws <+: (processedEntries q ws).filter (processedMayGo io ws) := by
  unfold taskBusProcessedPrune
  split
  · exact List.nil_prefix
  · split
    · exact List.nil_prefix
    · exact take_filter_prefix _ _ _

theorem processed_removed {e : DirEntry} (he : e ∈ taskBusProcessedPrune p.qsort p.io p.keep ws) :
    e ∈ entriesFor ws .busProcessedPrune ∧
      InReach p.keep (min (entriesFor ws .busProcessedPrune).length janitorBusScanCap) (entriesFor ws .busProcessedPrune) e := by
  unfold taskBusProcessedPrune at he
  split at he
  · cases he
  rename_i hkeep
  split at he
  · cases he
  rename_i toDrop hpressed
  obtain ⟨hin, hcount⟩ := listSorted_reach (List.mem_filter.mp he).1
  have hdrop := pressed_some (by omega) hpressed
  have hlen : (processedEntries p.qsort ws).length = _ := (listSorted_split p.qsort _ _ _).2.1
  have hentries : entriesFor ws .busProcessedPrune = entriesOf (lit "bus_") (ws.processed.map Prod.fst) := rfl
  rw [hentries]
  exact ⟨hin, by omega, by omega⟩

theorem wakeIdOf_some {name : FileName} {wakeId : Bytes} (h : wakeIdOf name = some wakeId) :
    name.val = wakeId ++ lit ".json" := by
  unfold wakeIdOf at h
  split at h
  · cases h
  rename_i hcond
  obtain rfl := Option.some.inj h
  simp only [not_or, not_not, List.isSuffixOf_iff_suffix] at hcond
  obtain ⟨id, hid⟩ := hcond.2.2
  have hlen : (lit ".json").length = 5 := lit_length _
  rw [← hid, List.length_append, hlen, Nat.add_sub_cancel, List.take_left]

/-- An envelope without a record in sight. -/
theorem unrecorded {io : PassIo} {name : FileName} {wakeId : Bytes}
    (h : rtPublicationOutboxWakePending io ws name wakeId = some false) (hstat : Recorded ws name → io.recordStats name = true) :
    safeId wakeId busIdMax = true ∧ ¬ Recorded ws name := by
  unfold rtPublicationOutboxWakePending at h
  split at h
  · cases h
  rename_i hsafe
  refine ⟨by simpa using hsafe, ?_⟩
  rintro ⟨text, hrecord⟩
  simp only [hrecord, hstat ⟨text, hrecord⟩, Bool.true_eq_false, if_false, Option.map_eq_some_iff, and_false, exists_false] at h

theorem pinned_of_runningClaim {io : PassIo} {name : FileName} (h : RunningClaim ws name)
    (hread : fsReadText { readable := io.envelopeReads name } (ws.processed.lookup name) = ws.processed.lookup name) :
    rtPortsCompletionClaimPinned io ws name = true := by
  obtain ⟨text, id, hlookup, hclaimed, hrunning⟩ := h
  rw [rtPortsCompletionClaimPinned, hread, hlookup]
  unfold claimedOperation at hclaimed
  split at hclaimed
  · rename_i env hparse
    simp only [hparse]
    split at hclaimed
    · rename_i hkind
      obtain rfl := Option.some.inj hclaimed
      rw [if_pos hkind]
      rcases fsReadText_cases (io.operationReads name) ws.operations with hops | hops
      · rw [hops]
        have hnone : rtOperationStatus none env.operationId = none := by
          unfold rtOperationStatus
          split <;> rfl
        rw [hnone]
      · rw [hops, hrunning]
        exact decide_eq_true rfl
    · cases hclaimed
  · cases hclaimed

theorem processed_safe (hok : ProcessedPermits p ws) {e : DirEntry}
    (he : e ∈ taskBusProcessedPrune p.qsort p.io p.keep ws) : ¬ Live ws e.name .busProcessedPrune := by
  rintro ⟨id, hname, hlive⟩
  obtain ⟨hin, hreach⟩ := processed_removed he
  have hgo := (List.mem_filter.mp (processed_handed.mem he)).2
  unfold processedMayGo at hgo
  split at hgo
  · cases hgo
  rename_i wakeId hwake
  simp only [Bool.and_eq_true, decide_eq_true_eq, Bool.not_eq_true'] at hgo
  obtain ⟨⟨hpending, hunpinned⟩, -⟩ := hgo
  obtain rfl : wakeId = id := List.append_cancel_right ((wakeIdOf_some hwake).symm.trans hname)
  obtain ⟨hsafe, hunrecorded⟩ := unrecorded hpending (hok.stat e hin hreach)
  rcases hlive with hrecorded | hawaited | hclaim
  · exact hunrecorded hrecorded
  · have hpinned := hok.awaited e hin hreach wakeId hname hsafe hunrecorded hawaited
    rw [hunpinned] at hpinned
    cases hpinned
  · have hpinned := pinned_of_runningClaim hclaim (hok.claim e hin hreach hunrecorded hclaim)
    rw [hunpinned] at hpinned
    cases hpinned

end ProcessedPasses

/-! ## Every pass -/

def Permitted (s : Retention) : JanitorInput → Prop
  | .world _ => True
  | .pass p =>
    match p.task with
    | .runsPrune => True
    | .workerStorePrune store => WorkerPermits p store s.ws
    | .busProcessedPrune => ProcessedPermits p s.ws

theorem pass_safe {p : Pass} {s : Retention} (hok : Permitted s (.pass p)) : Safe ⟨p, s.ws⟩ := by
  obtain ⟨task, keep, q, io⟩ := p
  intro e he
  cases task with
  | runsPrune => exact runs_safe he
  | workerStorePrune store => exact worker_safe hok he
  | busProcessedPrune => exact processed_safe hok he

theorem pass_oldest_first {p : Pass} {s : Retention} (hok : Permitted s (.pass p)) : OldestFirst ⟨p, s.ws⟩ := by
  obtain ⟨task, keep, q, io⟩ := p
  intro x hx hgo older y younger hy hlt
  cases task with
  | runsPrune => exact listed_oldest_first runs_removed hx hgo hy hlt
  | workerStorePrune store => exact worker_oldest_first hok hx hgo hy hlt
  | busProcessedPrune => exact listed_oldest_first processed_handed hx hgo hy hlt

/-- The names a task's directory holds. -/
def listing (ws : Workspace) : JanitorTask → List FileName
  | .runsPrune => ws.runs.map Prod.fst
  | .workerStorePrune store => ws.workers store
  | .busProcessedPrune => ws.processed.map Prod.fst

/-- Live evidence is still there after the pass. -/
def Spared (s : Sweep) : Prop :=
  ∀ name ∈ listing s.before s.pass.task, Live s.before name s.pass.task → name ∈ listing (s.pass.after s.before) s.pass.task

theorem not_gone {removed : List DirEntry} {deletes : FileName → Bool} {name : FileName}
    (h : ∀ e ∈ removed, e.name ≠ name) : (!gone deletes removed name) = true := by
  rw [Bool.not_eq_true', gone, List.any_eq_false]
  intro e he hgone
  simp only [Bool.and_eq_true, decide_eq_true_eq] at hgone
  exact h e he hgone.1

theorem Safe.spared {s : Sweep} (h : Safe s) : Spared s := by
  intro name hname hlive
  have hkept : ∀ e ∈ s.pass.removed s.before, e.name ≠ name := fun e he heq => h e he (heq ▸ hlive)
  obtain ⟨⟨task, keep, q, io⟩, before⟩ := s
  cases task with
  | runsPrune =>
    obtain ⟨run, hrun, rfl⟩ := List.mem_map.mp hname
    exact List.mem_map.mpr ⟨run, List.mem_filter.mpr ⟨hrun, not_gone hkept⟩, rfl⟩
  | workerStorePrune store =>
    change name ∈ if store = store then _ else _
    rw [if_pos rfl]
    exact List.mem_filter.mpr ⟨hname, not_gone hkept⟩
  | busProcessedPrune =>
    obtain ⟨env, henv, rfl⟩ := List.mem_map.mp hname
    exact List.mem_map.mpr ⟨env, List.mem_filter.mpr ⟨henv, not_gone hkept⟩, rfl⟩

def Kept (s : Retention) : Prop := ∀ sweep ∈ s.sweeps, Safe sweep ∧ Spared sweep ∧ OldestFirst sweep

theorem janitorStep_kept {s s' : Retention} {i : JanitorInput} (hkept : Kept s) (hok : Permitted s i)
    (hstep : janitorStep s i = some s') : Kept s' := by
  intro sweep hsweep
  cases i with
  | world ws' =>
    obtain rfl := Option.some.inj hstep
    exact hkept sweep hsweep
  | pass p =>
    obtain rfl := Option.some.inj hstep
    rcases List.mem_append.mp hsweep with hold | hnew
    · exact hkept sweep hold
    · obtain rfl := List.mem_singleton.mp hnew
      have hsafe := pass_safe hok
      exact ⟨hsafe, hsafe.spared, pass_oldest_first hok⟩

/-- In a run whose passes are all permitted no pass hands live evidence over or loses it, and each takes the oldest first. -/
theorem retention_spares_live {ws : Workspace} {is : List JanitorInput} {s : Retention}
    (hrun : Run janitorStep Permitted { ws := ws } is s) :
    ∀ sweep ∈ s.sweeps, Safe sweep ∧ Spared sweep ∧ OldestFirst sweep := by
  have hkept : Kept s := hrun.invariant nofun fun _ _ _ => janitorStep_kept
  exact hkept

/-- `qsort` as a stable sort. -/
def byNum : Qsort where
  sort := List.insertionSort fun a b => a.num ≤ b.num
  perm := List.perm_insertionSort _
  sorted es := List.pairwise_insertionSort (fun a b : DirEntry => a.num ≤ b.num) es

def file (name : String) (fits : (lit name).length ≤ Source.Janitor.nameMax) : FileName := ⟨lit name, fits⟩

def doneRun : RunDir := ⟨some (lit "\x7b\"status\":\"done\"\x7d"), none⟩

/-- Two finished runs, and three Hermes entries the first of which belongs to a running operation. -/
def busyWorkspace : Workspace where
  runs := [(file "run_002" (by decide), doneRun), (file "run_001" (by decide), doneRun)]
  processed := []
  workers := fun store =>
    match store with
    | .hermesOps => [file "hermes_a_1.json" (by rw [lit_ofList]; decide), file "hermes_a_2.json" (by rw [lit_ofList]; decide), file "hermes_a_3.json" (by rw [lit_ofList]; decide)]
    | _ => []
  outbox := none
  operations := some (lit "\x7b\"operations\":[\x7b\"handle\":\"op_a_1\",\"status\":\"running\"\x7d]\x7d")
  media := fun _ => none

theorem busy_passes : ∃ s, Run janitorStep Permitted { ws := busyWorkspace }
    [.pass ⟨.runsPrune, 1, byNum, {}⟩, .pass ⟨.workerStorePrune .hermesOps, 1, byNum, {}⟩] s ∧
      (s.sweeps.map fun sweep => (sweep.pass.removed sweep.before).map fun e => e.name.val) =
        [[lit "run_001"], [lit "hermes_a_2.json"]] ∧
      ∀ sweep ∈ s.sweeps, Safe sweep ∧ Spared sweep ∧ OldestFirst sweep := by
  have hops : fsReadText {} busyWorkspace.operations = busyWorkspace.operations := by decide +kernel
  have hall : (entriesOf [] (busyWorkspace.workers .hermesOps)).drop janitorWorkerStoreScanCap = [] := by decide +kernel
  have hrun : Run janitorStep Permitted { ws := busyWorkspace }
      [.pass ⟨.runsPrune, 1, byNum, {}⟩, .pass ⟨.workerStorePrune .hermesOps, 1, byNum, {}⟩] _ :=
    .cons trivial rfl <| .cons ⟨?_, ?_⟩ rfl .nil
  · exact ⟨_, hrun, by decide +kernel, retention_spares_live hrun⟩
  · intro e _ _ handle _ _
    exact ⟨hops, hops, fun h => absurd rfl h⟩
  · intro x hx
    change x ∈ (entriesOf [] (busyWorkspace.workers .hermesOps)).drop janitorWorkerStoreScanCap at hx
    rw [hall] at hx
    cases hx

example : olderCount [] 3 = 0 := by decide +kernel

/-- A message whose run has yet to commit it, and a newer envelope. -/
def waitingWorkspace : Workspace where
  runs := [(file "run_001" (by decide), ⟨some (lit
    "\x7b\"run_id\":\"run_001\",\"status\":\"waiting_event\",\"created_from\":\x7b\"event_id\":\"bus_000001\"\x7d\x7d"), none⟩)]
  processed := [(file "bus_000001.json" (by rw [lit_ofList]; decide), lit "\x7b\"type\":\"user_message\",\"payload\":\x7b\"text\":\"hi\"\x7d\x7d"),
    (file "bus_000002.json" (by rw [lit_ofList]; decide), lit "\x7b\"type\":\"user_message\",\"payload\":\x7b\"text\":\"ho\"\x7d\x7d")]
  workers := fun _ => []
  outbox := none
  operations := none
  media := fun _ => none

/-- The pass removes the message that its run still awaits. -/
theorem awaited_message_removed : ∃ s, exec janitorStep { ws := waitingWorkspace } [.pass ⟨.busProcessedPrune, 1, byNum, {}⟩] =
    some s ∧ ∃ sweep ∈ s.sweeps, ¬ Safe sweep := by
  refine ⟨_, rfl, _, List.mem_singleton.mpr rfl, ?_⟩
  intro hsafe
  have hremoved : ⟨1, file "bus_000001.json" (by rw [lit_ofList]; decide)⟩ ∈
      taskBusProcessedPrune byNum {} 1 waitingWorkspace := by
    unfold waitingWorkspace
    repeat rw [lit_ofList]
    decide +kernel
  refine hsafe _ hremoved ⟨lit "bus_000001", by decide, .inr (.inl ⟨file "run_001" (by decide), _, rfl, ?_, ?_⟩)⟩
  · repeat rw [lit_ofList]
    decide +kernel
  · unfold awaitsFirstEvent
    decide

end Floofclaw.Guarantees.Retention
