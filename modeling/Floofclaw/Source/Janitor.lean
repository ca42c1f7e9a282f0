import Mathlib.Data.List.Sort
import Floofclaw.Lib.Heap
import Floofclaw.Source.Inbound
import Floofclaw.Source.OperationStore
import Floofclaw.Source.Outbox
import Floofclaw.Source.Runs

/-!
# Retention

Model of the pruning tasks of `janitor_module.c` with the liveness tests they
ask: `rt_publication_outbox_run_pending`, `rt_publication_outbox_wake_pending`,
`rt_ports_completion_claim_pinned` and the operation store's status. Directories
are the lists `readdir` gives; what an open, a read, a `stat` or a removal
reports is a parameter of the pass. What a pass hands to `rm -rf` or `unlink`
counts as removed by it, in that order.
-/

set_option autoImplicit false

namespace Floofclaw.Source.Janitor
open Floofclaw.Lib Floofclaw.Source.Json Floofclaw.Source.StoreFile Floofclaw.Source.Inbound
open Floofclaw.Source.Outbox (PublicationRecord jsonRefValueCompactDup)

def nameMax : Nat := 255
def busIdMax : Nat := 32
def janitorRunsScanCap : Nat := 2048
def janitorWorkerStoreScanCap : Nat := 4096
def janitorBusScanCap : Nat := 12288
def janitorPathMax : Nat := 512

/-- A name `readdir` can give. -/
structure FileName where
  val : Bytes
  fits : val.length ≤ nameMax
  deriving DecidableEq

/-! ## The workspace -/

inductive WorkerStore
  | codexOps | claudeOps | hermesOps
  deriving DecidableEq, Repr

/-- The files of a run directory that retention turns on. -/
structure RunDir where
  runstate : Option Bytes
  log : Option Bytes

structure Workspace where
  runs : List (FileName × RunDir)
  processed : List (FileName × Bytes)
  workers : WorkerStore → List FileName
  /-- The records, `none` while the directory is missing. -/
  outbox : Option (List (FileName × Bytes))
  operations : Option Bytes
  media : FcMediaManifestRef → Option Bytes

/-- What the calls of one pass report, each for the entry they are made for. -/
structure PassIo where
  scan : Bool := true
  removes : FileName → Bool := fun _ => true
  outboxOpens : FileName → Bool := fun _ => true
  outboxLists : FileName → Bool := fun _ => true
  recordReads : FileName → FileName → Bool := fun _ _ => true
  recordStats : FileName → Bool := fun _ => true
  claimReads : FileName → Bool := fun _ => true
  statusReads : FileName → Bool := fun _ => true
  envelopeReads : FileName → Bool := fun _ => true
  operationReads : FileName → Bool := fun _ => true
  anyRunningReads : Bool := true

/-! ## Listing -/

structure DirEntry where
  num : Nat
  name : FileName
  deriving DecidableEq

/-- The name without a `.json` at its end. -/
def stripJson (name : Bytes) : Bytes :=
  if 5 < name.length ∧ (lit ".json").isSuffixOf name then name.take (name.length - 5) else name

/-- The digits at the end of a name. -/
def trailingDigits (name : Bytes) : Bytes := (name.reverse.takeWhile isDigit).reverse

def numberLoop : Nat → Bytes → Option Nat
  | out, [] => some out
  | out, c :: digits =>
    if 100000000 < out * 10 + (c.toNat - 48) then none else numberLoop (out * 10 + (c.toNat - 48)) digits

def parseTrailingNumber (name : Bytes) : Option Nat :=
  if trailingDigits (stripJson name) = [] then none else numberLoop 0 (trailingDigits (stripJson name))

/-- The entries a scan takes up: not hidden, under the prefix, with a number. -/
def entryOf (namePrefix : Bytes) (name : FileName) : Option DirEntry :=
  if name.val.head? = some (ch '.') ∨ ¬ namePrefix.isPrefixOf name.val then none
  else (parseTrailingNumber name.val).map fun num => ⟨num, name⟩

def entriesOf (namePrefix : Bytes) (names : List FileName) : List DirEntry := names.filterMap (entryOf namePrefix)

/-- `qsort` with `by_num_asc`: the order of equal numbers is its own. -/
structure Qsort where
  sort : List DirEntry → List DirEntry
  perm : ∀ es, (sort es).Perm es
  sorted : ∀ es, (sort es).Pairwise fun a b => a.num ≤ b.num

/-- `list_sorted`: a heap holds the oldest entries while the scan runs. -/
def listSorted (q : Qsort) (namePrefix : Bytes) (cap : Nat) (names : List FileName) : List DirEntry :=
  q.sort ((entriesOf namePrefix names).foldl (Heap.offer DirEntry.num cap) #[]).toList

/-! ## Publication records -/

def isIdByte (c : Byte) : Bool := isLetter c || isDigit c || c = ch '_'

def safeId (s : Bytes) (maxLen : Nat) : Bool := s ≠ [] && decide (s.length < maxLen) && s.all isIdByte

def canonicalRecordName (name : Bytes) : Bool :=
  let id := name.take (name.length - 5)
  decide (5 < name.length) && decide (name.length - 5 < busIdMax) && (lit ".json").isSuffixOf name && safeId id busIdMax &&
    (lit "bus_").isPrefixOf id && id.drop 4 ≠ [] && (id.drop 4).all isDigit

/-- The claimant a record names: nobody, or a run whose id must be well formed. -/
def loadClaimant (root : JsonRef) : Option Bytes :=
  match jsonRefObjectGetString root (lit "claimed_run_id") rtSmall with
  | none => some []
  | some runId => if safeId runId rtSmall then some runId else none

/-- `record_load` of the record file under its name. -/
def recordLoad (name : FileName) (text : Option Bytes) : Option PublicationRecord := do
  let root ← jsonRefTopObject (← text)
  let wakeId ← jsonRefObjectGetString root (lit "wake_id") busIdMax
  let sourceRunId ← jsonRefObjectGetString root (lit "source_run_id") rtSmall
  let sourceEventId ← jsonRefObjectGetString root (lit "source_event_id") rtSmall
  let sourceType ← jsonRefObjectGetString root (lit "source_type") rtSmall
  let channel ← jsonRefObjectGetString root (lit "channel") busChannelMax
  let wakeType ← jsonRefObjectGetString root (lit "wake_type") busTypeMax
  let sourcePayload ← (jsonRefObjectGet root (lit "source_payload")).bind jsonRefValueCompactDup
  let wakePayload ← (jsonRefObjectGet root (lit "wake_payload")).bind jsonRefValueCompactDup
  guard (safeId wakeId busIdMax ∧ safeId sourceRunId rtSmall ∧ safeId sourceEventId rtSmall)
  let claimedRunId ← loadClaimant root
  guard (name.val = wakeId ++ lit ".json")
  return ⟨wakeId, sourceRunId, sourceEventId, sourceType, channel, wakeType, claimedRunId, sourcePayload, wakePayload⟩

/-- What the control state of a run says it was created from; read into a buffer of `cap` bytes. -/
def createdFrom (cap : Nat) (runId : Bytes) (runstate : Bytes) : Option Bytes := do
  let root ← jsonRefTopObject runstate
  let stored ← jsonRefObjectGetString root (lit "run_id") rtSmall
  guard (stored = runId)
  let created ← jsonRefObjectGetObject root (lit "created_from")
  jsonRefObjectGetString created (lit "event_id") cap

/-- `claimed_wake_for_run`: an error, no claim, or the claimed wake. -/
def claimedWakeForRun (io : PassIo) (ws : Workspace) (name : FileName) : Option (Option Bytes) :=
  match (ws.runs.lookup name).bind RunDir.runstate with
  | none => some none
  | some runstate =>
    (fsReadText { readable := io.claimReads name } (some runstate)).bind fun text =>
      (createdFrom busIdMax name.val text).map fun wake => if wake = [] then none else some wake

/-- The loop over the records; `none` is a record that cannot be loaded or a scan that failed. -/
def runPendingLoop (io : PassIo) (name : FileName) (claimed : Option Bytes) : List (FileName × Bytes) → Option Bool
  | [] => if io.outboxLists name then some false else none
  | (file, text) :: records =>
    if canonicalRecordName file.val = false then runPendingLoop io name claimed records
    else
      match recordLoad file (fsReadText { readable := io.recordReads name file } (some text)) with
      | none => none
      | some record =>
        if record.sourceRunId = name.val ∨ claimed = some record.wakeId then some true
        else runPendingLoop io name claimed records

/-- `rt_publication_outbox_run_pending`; `none` is its error. -/
def rtPublicationOutboxRunPending (io : PassIo) (ws : Workspace) (name : FileName) : Option Bool :=
  if safeId name.val rtSmall = false ∨ io.outboxOpens name = false then none
  else
    match ws.outbox with
    | none => some false
    | some records => (claimedWakeForRun io ws name).bind fun claimed => runPendingLoop io name claimed records

/-- The id before `.json`, when the file of an envelope can have it. -/
def wakeIdOf (name : FileName) : Option Bytes :=
  if name.val.length ≤ 5 ∨ rtSmall ≤ name.val.length - 5 ∨ ¬ (lit ".json").isSuffixOf name.val then none
  else some (name.val.take (name.val.length - 5))

/-- `rt_publication_outbox_wake_pending`; the record of an envelope has the name of its file. -/
def rtPublicationOutboxWakePending (io : PassIo) (ws : Workspace) (name : FileName) (wakeId : Bytes) : Option Bool :=
  if safeId wakeId busIdMax = false then none
  else
    match (ws.outbox.getD []).lookup name with
    | none => some false
    | some text =>
      if io.recordStats name = false then some false
      else (recordLoad name (fsReadText { readable := io.recordReads name name } (some text))).map fun _ => true

/-! ## Operations -/

/-- The status of a row; without one it runs. -/
def operationStatusText (item : JsonRef) : Bytes :=
  match jsonRefObjectGetString item (lit "status") rtSmall with
  | none | some [] => lit "running"
  | some status => status

def operationRow (item : JsonRef) : Option (Bytes × Bytes) :=
  if jsonRefInferType item ≠ .object then none
  else
    match jsonRefObjectGetString item (lit "handle") rtSmall with
    | none | some [] => none
    | some handle => some (handle, operationStatusText item)

/-- Handles and statuses of the store as `load_store` fills it. -/
def operationStatuses (text : Option Bytes) : List (Bytes × Bytes) :=
  ((storeRows (lit "operations") text).filterMap operationRow).take Operations.operationMaxItems

/-- `rt_operation_status`: the status of the first record with that id. -/
def rtOperationStatus (text : Option Bytes) (id : Bytes) : Option Bytes :=
  if id = [] then none else (operationStatuses text).lookup id

def rtOperationAnyRunning (text : Option Bytes) : Bool := (operationStatuses text).any fun row => row.2 = lit "running"

/-! ## Runs -/

def fullFits (path : Bytes) (name : FileName) : Bool := decide (path.length + 1 + name.val.length < janitorPathMax)

def runsPath : Bytes := lit "workspace/runs"
def processedPath : Bytes := lit "workspace/bus/processed"

/-- The status a control state holds, read into 32 bytes. -/
def rtRunStateStatus (runstate : Bytes) : Bytes :=
  ((jsonRefFirstObject runstate).bind fun root => jsonRefObjectGetString root (lit "status") 32).getD []

def runIsTerminal (io : PassIo) (ws : Workspace) (name : FileName) : Bool :=
  match fsReadText { readable := io.statusReads name } ((ws.runs.lookup name).bind RunDir.runstate) with
  | none => false
  | some text => Runs.rtRunStatusIsTerminal (rtRunStateStatus text)

/-- The tests of `task_runs_prune` on an entry. -/
def runMayGo (io : PassIo) (ws : Workspace) (e : DirEntry) : Bool :=
  rtPublicationOutboxRunPending io ws e.name = some false && runIsTerminal io ws e.name && fullFits runsPath e.name

/-- `rm_rf` of an entry: it refuses a path with two dots in a row. -/
def rmRf (io : PassIo) (name : FileName) : Bool := !decide (lit ".." <:+: name.val) && io.removes name

/-- The loop of `task_runs_prune`: only what is gone counts. -/
def runsLoop (mayGo : DirEntry → Bool) (removes : FileName → Bool) (toDrop : Nat) : Nat → List DirEntry → List DirEntry
  | _, [] => []
  | dropped, e :: es =>
    if dropped < toDrop then
      if mayGo e then e :: runsLoop mayGo removes toDrop (dropped + if removes e.name then 1 else 0) es
      else runsLoop mayGo removes toDrop dropped es
    else []

/-- The entries of a pass: none when there are no more than are kept. -/
def pressed (keep : Int) (entries : List DirEntry) : Option Nat :=
  if (entries.length : Int) ≤ keep then none else some (entries.length - keep.toNat)

def runEntries (q : Qsort) (ws : Workspace) : List DirEntry :=
  listSorted q (lit "run_") janitorRunsScanCap (ws.runs.map Prod.fst)

def taskRunsPrune (q : Qsort) (io : PassIo) (keep : Int) (ws : Workspace) : List DirEntry :=
  if keep ≤ 0 ∨ io.scan = false then []
  else
    match pressed keep (runEntries q ws) with
    | none => []
    | some toDrop => runsLoop (runMayGo io ws) (rmRf io) toDrop 0 (runEntries q ws)

/-! ## Worker stores -/

def WorkerStore.path : WorkerStore → Bytes
  | .codexOps => lit "workspace/logs/codex_ops"
  | .claudeOps => lit "workspace/logs/claude_ops"
  | .hermesOps => lit "workspace/logs/hermes_ops"

def WorkerStore.opPrefix : WorkerStore → Bytes
  | .codexOps | .claudeOps => []
  | .hermesOps => lit "hermes_"

/-- The operation id `worker_store_entry_is_live` makes of an entry's name. -/
def entryOperationId (opPrefix name : Bytes) : Option Bytes :=
  let base := stripJson (if opPrefix ≠ [] ∧ opPrefix.isPrefixOf name then name.drop opPrefix.length else name)
  if base = [] ∨ rtSmall ≤ base.length then none
  else if opPrefix = [] then some base
  else if rtSmall ≤ (lit "op_" ++ base).length then none
  else some (lit "op_" ++ base)

def workerStoreEntryIsLive (io : PassIo) (ws : Workspace) (store : WorkerStore) (name : FileName) : Bool :=
  match entryOperationId store.opPrefix name.val with
  | none => false
  | some id =>
    rtOperationStatus (fsReadText { readable := io.operationReads name } ws.operations) id = some (lit "running")

def workerMayGo (io : PassIo) (ws : Workspace) (store : WorkerStore) (e : DirEntry) : Bool :=
  !(rtOperationAnyRunning (fsReadText { readable := io.anyRunningReads } ws.operations) &&
    workerStoreEntryIsLive io ws store e.name) && fullFits store.path e.name

/-- The scan of a worker store keeps what arrives first. -/
def workerScanned (ws : Workspace) (store : WorkerStore) : List DirEntry :=
  (entriesOf [] (ws.workers store)).take janitorWorkerStoreScanCap

def taskWorkerStorePrune (q : Qsort) (io : PassIo) (store : WorkerStore) (keep : Int) (ws : Workspace) : List DirEntry :=
  if keep ≤ 0 ∨ io.scan = false then []
  else
    match pressed keep (workerScanned ws store) with
    | none => []
    | some toDrop => ((q.sort (workerScanned ws store)).take toDrop).filter (workerMayGo io ws store)

/-! ## Processed envelopes -/

/-- `rt_ports_completion_claim_pinned`: a claim of an operation that runs, or that the store does not know. -/
def rtPortsCompletionClaimPinned (io : PassIo) (ws : Workspace) (name : FileName) : Bool :=
  match fsReadText { readable := io.envelopeReads name } (ws.processed.lookup name) with
  | none => false
  | some text =>
    match parseInboundEnvelope ws.media text with
    | .error _ => false
    | .ok env =>
      if env.kind = .completion then
        match rtOperationStatus (fsReadText { readable := io.operationReads name } ws.operations) env.operationId with
        | none => true
        | some status => status = lit "running"
      else false

def processedMayGo (io : PassIo) (ws : Workspace) (e : DirEntry) : Bool :=
  match wakeIdOf e.name with
  | none => false
  | some wakeId =>
    rtPublicationOutboxWakePending io ws e.name wakeId = some false && !rtPortsCompletionClaimPinned io ws e.name &&
      fullFits processedPath e.name

def processedEntries (q : Qsort) (ws : Workspace) : List DirEntry :=
  listSorted q (lit "bus_") janitorBusScanCap (ws.processed.map Prod.fst)

def taskBusProcessedPrune (q : Qsort) (io : PassIo) (keep : Int) (ws : Workspace) : List DirEntry :=
  if keep ≤ 0 ∨ io.scan = false then []
  else
    match pressed keep (processedEntries q ws) with
    | none => []
    | some toDrop => ((processedEntries q ws).take toDrop).filter (processedMayGo io ws)

/-! ## Passes -/

inductive JanitorTask
  | runsPrune
  | workerStorePrune (store : WorkerStore)
  | busProcessedPrune
  deriving DecidableEq, Repr

structure Pass where
  task : JanitorTask
  keep : Int
  qsort : Qsort
  io : PassIo

/-- The entries a pass removes, in the order it does so. -/
def Pass.removed (p : Pass) (ws : Workspace) : List DirEntry :=
  match p.task with
  | .runsPrune => taskRunsPrune p.qsort p.io p.keep ws
  | .workerStorePrune store => taskWorkerStorePrune p.qsort p.io store p.keep ws
  | .busProcessedPrune => taskBusProcessedPrune p.qsort p.io p.keep ws

/-- Whether an entry is gone after the pass. -/
def gone (deletes : FileName → Bool) (removed : List DirEntry) (name : FileName) : Bool :=
  removed.any fun e => e.name = name && deletes name

def Pass.after (p : Pass) (ws : Workspace) : Workspace :=
  match p.task with
  | .runsPrune => { ws with runs := ws.runs.filter fun run => !gone (rmRf p.io) (p.removed ws) run.1 }
  | .workerStorePrune store =>
    { ws with workers := fun s =>
        if s = store then (ws.workers s).filter fun name => !gone (rmRf p.io) (p.removed ws) name else ws.workers s }
  | .busProcessedPrune =>
    { ws with processed := ws.processed.filter fun env => !gone p.io.removes (p.removed ws) env.1 }

/-- A pass with the workspace it found. -/
structure Sweep where
  pass : Pass
  before : Workspace

structure Retention where
  ws : Workspace
  sweeps : List Sweep := []

/-- A pass, or what the rest of the runtime makes of the workspace between two. -/
inductive JanitorInput
  | pass (p : Pass)
  | world (ws : Workspace)

def janitorStep (s : Retention) : JanitorInput → Option Retention
  | .pass p => some { ws := p.after s.ws, sweeps := s.sweeps ++ [⟨p, s.ws⟩] }
  | .world ws => some { s with ws := ws }

end Floofclaw.Source.Janitor
