import Mathlib.Data.List.Induction
import Floofclaw.Source.OperationStore
import Floofclaw.Guarantees.ResultRuns
import Floofclaw.Guarantees.StoreText

/-!
# The operation store over every sequence of calls

A call that writes does one of three things to the store it loaded: it adds a
record under a new handle, finishes a running record, or rewrites a text of a
running record. From that and from the round trip of the file follow the bounds
of the store, the fate of running and finished records, and that a finished
record has lost its deadline and its secret.
-/

set_option autoImplicit false

namespace Floofclaw.Guarantees.OperationRecords
open Floofclaw.Lib Floofclaw.Source.Json
open Floofclaw.Source.StoreFile hiding writeStore
open Floofclaw.Source.Operations Floofclaw.Source.OperationStore
open Floofclaw.Source.OperationEvents (storedRef)
open Floofclaw.Guarantees.TaskStoreText (InLong mirror_eq_some)
open Floofclaw.Guarantees.StoreText Floofclaw.Guarantees.ResultRuns

/-! ## One row -/

/-- The raw ref of a record: none, or one value that fits its buffer. -/
def RefField (s : Bytes) : Prop := s = [] ∨ (CleanValue s ∧ s.length < rtMed ∧ s ≠ lit "null")

structure Printable (o : OperationItem) : Prop where
  handle : TextField rtSmall o.handle
  named : o.handle ≠ []
  workerHandle : TextField rtSmall o.workerHandle
  action : TextField rtSmall o.action
  requestId : TextField rtSmall o.requestId
  triggerEventId : TextField rtSmall o.triggerEventId
  taskId : TextField rtSmall o.taskId
  contextId : TextField rtMed o.contextId
  channel : TextField rtSmall o.channel
  adapterId : TextField rtSmall o.adapterId
  originEventId : TextField rtSmall o.originEventId
  refJson : RefField o.refJson
  workRev : InLong o.workRev
  deadlineMs : InLong o.deadlineMs
  completionToken : TextField (rtOperationTokenHex + 1) o.completionToken
  claimEnvelopeId : TextField rtSmall o.claimEnvelopeId

/-- The members of a row whose texts all fit. -/
def members (o : OperationItem) : List (Bytes × Bytes) :=
  [(lit "handle", quoted (escaped o.handle)), (lit "worker_handle", quoted (escaped o.workerHandle)),
    (lit "action", quoted (escaped o.action)), (lit "request_id", quoted (escaped o.requestId)),
    (lit "trigger_event_id", quoted (escaped o.triggerEventId)), (lit "task_id", quoted (escaped o.taskId)),
    (lit "context_id", quoted (escaped o.contextId)), (lit "channel", quoted (escaped o.channel)),
    (lit "adapter_id", quoted (escaped o.adapterId)), (lit "origin_event_id", quoted (escaped o.originEventId)),
    (lit "ref", if o.refJson = [] then lit "null" else o.refJson), (lit "status", quoted (escaped (statusText o.status))),
    (lit "work_rev", decInt o.workRev), (lit "deadline_ms", decInt o.deadlineMs),
    (lit "completion_token", quoted (escaped o.completionToken)),
    (lit "claim_envelope_id", quoted (escaped o.claimEnvelopeId))]

def rowText (o : OperationItem) : Bytes := objText (members o)

theorem statusText_text (s : OperationStatus) : TextField rtSmall (statusText s) := by
  cases s
  · exact ⟨.of_all (by decide), by decide⟩
  · exact ⟨.of_all (by decide), by decide⟩

theorem rowMembers_eq_some {o : OperationItem} (ho : Printable o) {ms : List (Bytes × Bytes)}
    (h : rowMembers o = some ms) : ms = members o := by
  unfold rowMembers at h
  obtain ⟨eh, h1, h⟩ := Option.bind_eq_some_iff.mp h
  obtain ⟨ewh, h2, h⟩ := Option.bind_eq_some_iff.mp h
  obtain ⟨ea, h3, h⟩ := Option.bind_eq_some_iff.mp h
  obtain ⟨erid, h4, h⟩ := Option.bind_eq_some_iff.mp h
  obtain ⟨etrigger, h5, h⟩ := Option.bind_eq_some_iff.mp h
  obtain ⟨et, h6, h⟩ := Option.bind_eq_some_iff.mp h
  obtain ⟨ec, h7, h⟩ := Option.bind_eq_some_iff.mp h
  obtain ⟨ech, h8, h⟩ := Option.bind_eq_some_iff.mp h
  obtain ⟨ead, h9, h⟩ := Option.bind_eq_some_iff.mp h
  obtain ⟨eorigin, h10, h⟩ := Option.bind_eq_some_iff.mp h
  obtain ⟨etoken, h11, h⟩ := Option.bind_eq_some_iff.mp h
  obtain ⟨eclaim, h12, h⟩ := Option.bind_eq_some_iff.mp h
  obtain ⟨es, h13, h⟩ := Option.bind_eq_some_iff.mp h
  cases h
  rw [mirror_eq_some ho.handle.nulFree h1, mirror_eq_some ho.workerHandle.nulFree h2,
    mirror_eq_some ho.action.nulFree h3, mirror_eq_some ho.requestId.nulFree h4,
    mirror_eq_some ho.triggerEventId.nulFree h5, mirror_eq_some ho.taskId.nulFree h6,
    mirror_eq_some ho.contextId.nulFree h7, mirror_eq_some ho.channel.nulFree h8,
    mirror_eq_some ho.adapterId.nulFree h9, mirror_eq_some ho.originEventId.nulFree h10,
    mirror_eq_some ho.completionToken.nulFree h11, mirror_eq_some ho.claimEnvelopeId.nulFree h12,
    mirror_eq_some (statusText_text o.status).nulFree h13]
  rfl

theorem row_prints {o : OperationItem} (ho : Printable o) : Prints row rowText o := by
  intro first pieces h
  simp only [row, Option.bind_eq_bind, Option.bind_eq_some_iff, Option.pure_def, Option.some.injEq] at h
  obtain ⟨ms, hms, -, -, rfl⟩ := h
  rw [rowMembers_eq_some ho hms, List.flatten_singleton]
  rfl

theorem refField_clean {s : Bytes} (h : RefField s) : CleanValue (if s = [] then lit "null" else s) := by
  split
  · exact .null
  · rename_i hne
    exact (h.resolve_left hne).1

theorem members_written {o : OperationItem} (ho : Printable o) : WrittenMembers (members o) :=
  .key (by decide) (.text _) <| .key (by decide) (.text _) <| .key (by decide) (.text _) <|
    .key (by decide) (.text _) <| .key (by decide) (.text _) <| .key (by decide) (.text _) <|
    .key (by decide) (.text _) <| .key (by decide) (.text _) <| .key (by decide) (.text _) <|
    .key (by decide) (.text _) <| .key (by decide) (refField_clean ho.refJson) <| .key (by decide) (.text _) <|
    .key (by decide) (.long _) <| .key (by decide) (.long _) <| .key (by decide) (.text _) <|
    .key (by decide) (.text _) .nil

theorem rowText_clean {o : OperationItem} (ho : Printable o) : CleanValue (rowText o) := .objText (members_written ho)

/-- A printed text member is read back. -/
theorem stringField_printed {obj key s : Bytes} {cap : Nat} (hs : TextField cap s)
    (hget : jsonRefObjectGet obj key = some (quoted (escaped s))) (old : Bytes) : stringField obj key cap old = s := by
  obtain ⟨d, hd, hcstr⟩ := jsonRefStringCopy_eq_some.mp hs.copy
  simp only [stringField, hget, hd]
  exact hcstr.symm

theorem getLong_printed {obj key : Bytes} {z : Int} (hz : InLong z) (hget : jsonRefObjectGet obj key = some (decInt z))
    (old : Int) : jsonRefObjectGetLong obj key old = (z, true) := by
  rw [jsonRefObjectGetLong, hget]
  exact jsonRefGetLong_decInt hz.1 hz.2 old

theorem getString_printed {obj key s : Bytes} {cap : Nat} (hs : TextField cap s)
    (hget : jsonRefObjectGet obj key = some (quoted (escaped s))) : jsonRefObjectGetString obj key cap = some s := by
  rw [jsonRefObjectGetString, hget]
  exact hs.copy

section Row
variable {o : OperationItem} (ho : Printable o)
include ho

theorem row_get (key : Bytes) : jsonRefObjectGet (rowText o) key = assoc key (members o) := (members_written ho).get key

theorem row_status : loadedStatus (rowText o) = o.status := by
  rw [loadedStatus, getString_printed (statusText_text o.status) (row_get ho _)]
  cases o.status <;> (rw [lit_ofList]; decide)

theorem row_ref : storedRef (rowText o) = o.refJson := by
  have hget : jsonRefObjectGet (rowText o) (lit "ref") = some (if o.refJson = [] then lit "null" else o.refJson) :=
    row_get ho _
  rw [storedRef, hget, Option.bind_some]
  rcases ho.refJson with hnil | ⟨-, hfits, hnull⟩
  · rw [if_pos hnil, hnil]
    rfl
  · by_cases hnil : o.refJson = []
    · rw [if_pos hnil, hnil]
      rfl
    · rw [if_neg hnil, jsonRefValueCopy, if_neg (by omega)]
      simp only [if_neg hnull]

/-- A printed row loads as the record it was printed from. -/
theorem loadItem_rowText : loadItem (rowText o) = some o := by
  have hobj : jsonRefInferType (rowText o) = .object := ObjText.inferType (members_written ho).objText
  have hhandle := getString_printed ho.handle (row_get ho (lit "handle"))
  unfold loadItem
  rw [if_neg (by simpa using hobj), hhandle]
  split
  · rename_i h
    cases h
  · rename_i h
    exact absurd (Option.some.inj h) ho.named
  · rename_i h
    cases h
    rw [stringField_printed ho.workerHandle (row_get ho _), stringField_printed ho.action (row_get ho _),
      stringField_printed ho.requestId (row_get ho _), stringField_printed ho.triggerEventId (row_get ho _),
      stringField_printed ho.taskId (row_get ho _), stringField_printed ho.contextId (row_get ho _),
      stringField_printed ho.channel (row_get ho _), stringField_printed ho.adapterId (row_get ho _),
      stringField_printed ho.originEventId (row_get ho _), row_ref ho, row_status ho,
      getLong_printed ho.workRev (row_get ho _), getLong_printed ho.deadlineMs (row_get ho _),
      stringField_printed ho.completionToken (row_get ho _), stringField_printed ho.claimEnvelopeId (row_get ho _)]

end Row

/-- Printable records that were written are what the next call loads. -/
theorem loadStore_writeStore {st : OperationStore} (h : ∀ o ∈ st, Printable o) (hroom : st.length ≤ operationMaxItems)
    {text : Bytes} (hw : writeStore st = some text) :
    loadStore (some text) = st ∧ text.length < rtXl * 2 := by
  have hrows : ∀ o ∈ st, Prints row rowText o ∧ CleanValue (rowText o) ∧ loadItem (rowText o) = some o :=
    fun o ho => ⟨row_prints (h o ho), rowText_clean (h o ho), loadItem_rowText (h o ho)⟩
  have hkey : plainKey (lit "operations") = true := plainKey_lit (by decide)
  have hhead : lit "\x7b\"operations\":[" = ch '{' :: (quoted (lit "operations") ++ lit ":[") := by (repeat rw [lit_ofList]); decide
  rw [writeStore, hhead] at hw
  refine ⟨?_, (writeStore_eq (fun o ho => (hrows o ho).1) hw).2⟩
  rw [loadStore, loaded_rows hkey hrows hw, List.take_of_length_le hroom]

/-! ## What a call writes -/

/-- The call is the terminal transition of the operation. -/
def Ends : Call → Bytes → Prop
  | .applyEvent type payloadJson, id =>
    type = lit "operation_result" ∧ ∃ payload, jsonRefTopObject payloadJson = some payload ∧
      jsonRefObjectGetString payload (lit "handle") rtSmall = some id
  | .closeWithoutResult operationId, id => cstr operationId = id
  | _, _ => False

/-- A finished record has neither a deadline nor a secret. -/
def Closed (o : OperationItem) : Prop := o.status = .finished → o.deadlineMs = 0 ∧ o.completionToken = []

/-- What the call `c` makes of the store it loaded, when it writes. -/
inductive Wrote (keep : Nat) (c : Call) (st : OperationStore) : OperationStore → Prop
  | added {kept : OperationStore} {o : OperationItem} (hsub : kept.Sublist st)
      (hroom : kept.length < operationMaxItems) (hrunning : ∀ x ∈ st, x.status = .running → x ∈ kept)
      (hnew : ∀ x ∈ st, x.handle ≠ o.handle) (ho : Printable o) (hclosed : Closed o) :
      Wrote keep c st (purgeFinishedOverCap keep (kept ++ [o]))
  | finished {id : Bytes} {o : OperationItem} (hfind : opFind st id = some o) (hends : Ends c id) :
      Wrote keep c st (purgeFinishedOverCap keep (opUpdate id finishItem st))
  | touched {id : Bytes} {change : OperationItem → OperationItem} {o : OperationItem} (hfind : opFind st id = some o)
      (hrunning : o.status = .running)
      (hsame : ∀ x, (change x).handle = x.handle ∧ (change x).status = x.status)
      (hprint : ∀ x, Printable x → Printable (change x)) : Wrote keep c st (opUpdate id change st)

theorem running_of_not_finished {o : OperationItem} (h : o.status ≠ .finished) : o.status = .running := by
  cases hs : o.status with
  | running => rfl
  | finished => exact absurd hs h

theorem dropFinished_running (n : Nat) {st : OperationStore} {o : OperationItem} (ho : o ∈ st)
    (hrunning : o.status = .running) : o ∈ dropFinished n st := by
  induction st generalizing n with
  | nil => cases ho
  | cons x st ih =>
    cases n with
    | zero => exact ho
    | succ n =>
      rw [dropFinished]
      rcases List.mem_cons.mp ho with rfl | ho
      · rw [if_neg (by simp [hrunning])]
        exact List.mem_cons_self
      · split
        · exact ih n ho
        · exact List.mem_cons_of_mem _ (ih (n + 1) ho)

theorem dropFinished_count (n : Nat) (st : OperationStore) :
    (dropFinished n st).countP (fun o => o.status = .finished) = st.countP (fun o => o.status = .finished) - n := by
  induction st generalizing n with
  | nil => cases n <;> simp [dropFinished]
  | cons o st ih =>
    cases n with
    | zero => simp [dropFinished]
    | succ n =>
      rw [dropFinished]
      split
      · rename_i hfin
        rw [ih n, List.countP_cons_of_pos (by simpa using hfin)]
        omega
      · rename_i hfin
        rw [List.countP_cons_of_neg (by simpa using hfin), List.countP_cons_of_neg (by simpa using hfin), ih (n + 1)]

/-- Where there is a finished record to drop, dropping makes room. -/
theorem dropFinished_length (n : Nat) (st : OperationStore) :
    (dropFinished n st).length + min n (st.countP fun o => o.status = .finished) = st.length := by
  induction st generalizing n with
  | nil => cases n <;> simp [dropFinished]
  | cons o st ih =>
    cases n with
    | zero => simp [dropFinished]
    | succ n =>
      rw [dropFinished]
      split
      · rename_i hfin
        have := ih n
        rw [List.countP_cons_of_pos (by simpa using hfin), List.length_cons]
        omega
      · rename_i hfin
        have := ih (n + 1)
        rw [List.countP_cons_of_neg (by simpa using hfin), List.length_cons, List.length_cons]
        omega

theorem purge_count (keep : Nat) (st : OperationStore) :
    (purgeFinishedOverCap keep st).countP (fun o => o.status = .finished) ≤ keep := by
  rw [purgeFinishedOverCap, dropFinished_count]
  omega

theorem storedRef_field {payload : JsonRef} (h : CleanObject payload) : RefField (storedRef payload) := by
  unfold storedRef
  split
  · exact .inl rfl
  · rename_i raw hraw
    obtain ⟨v, hv, hcopy⟩ := Option.bind_eq_some_iff.mp hraw
    rw [jsonRefValueCopy] at hcopy
    split at hcopy
    · cases hcopy
    · rename_i hfits
      cases hcopy
      split
      · exact .inl rfl
      · rename_i hnull
        exact .inr ⟨h.get hv, by omega, hnull⟩

theorem zero_inLong : InLong 0 := by
  constructor <;> decide

theorem getLong_inLong (payload : JsonRef) (key : Bytes) : InLong (jsonRefObjectGetLong payload key 0).1 :=
  jsonRefObjectGetLong_range payload key zero_inLong

theorem startedItem_printable {payload handle : Bytes} (h : CleanObject payload) (hh : TextField rtSmall handle)
    (hne : handle ≠ []) : Printable (startedItem (startedOf handle payload)) :=
  { handle := hh, named := hne, workerHandle := textField_nil (by decide)
    action := stringField_text (textField_nil (by decide)), requestId := stringField_text (textField_nil (by decide))
    triggerEventId := stringField_text (textField_nil (by decide)), taskId := stringField_text (textField_nil (by decide))
    contextId := stringField_text (textField_nil (by decide)), channel := stringField_text (textField_nil (by decide))
    adapterId := stringField_text (textField_nil (by decide))
    originEventId := stringField_text (textField_nil (by decide)), refJson := storedRef_field h
    workRev := getLong_inLong _ _, deadlineMs := getLong_inLong _ _
    completionToken := textField_nil (by decide), claimEnvelopeId := textField_nil (by decide) }

theorem resultItem_printable {payload handle : Bytes} (h : CleanObject payload) (hh : TextField rtSmall handle)
    (hne : handle ≠ []) : Printable (resultItem (resultOf handle payload)) :=
  { handle := hh, named := hne, workerHandle := textField_nil (by decide)
    action := stringField_text (textField_nil (by decide)), requestId := stringField_text (textField_nil (by decide))
    triggerEventId := stringField_text (textField_nil (by decide)), taskId := stringField_text (textField_nil (by decide))
    contextId := stringField_text (textField_nil (by decide)), channel := stringField_text (textField_nil (by decide))
    adapterId := stringField_text (textField_nil (by decide))
    originEventId := stringField_text (textField_nil (by decide)), refJson := storedRef_field h
    workRev := getLong_inLong _ _, deadlineMs := zero_inLong
    completionToken := textField_nil (by decide), claimEnvelopeId := textField_nil (by decide) }

theorem applyStarted_wrote {keep : Nat} {c : Call} {ev : OperationStarted} {st st' : OperationStore}
    (ho : Printable (startedItem ev)) (hroom : st.length ≤ operationMaxItems)
    (h : applyStarted keep ev st = .written st') : Wrote keep c st st' := by
  unfold applyStarted at h
  split at h
  · cases h
  rename_i hne
  split at h
  · split at h <;> cases h
  rename_i hnone
  split at h
  · cases h
  rename_i hfull
  cases h
  have hnew : ∀ x ∈ st, x.handle ≠ (startedItem ev).handle := opFind_none hne hnone
  have hclosed : Closed (startedItem ev) := fun hfin => by cases hfin
  split
  · rename_i hlen
    have hcount : 0 < st.countP fun o => o.status = .finished := by
      rw [List.countP_pos_iff]
      simpa [hlen] using hfull
    have hlength := dropFinished_length 1 st
    exact .added (dropFinished_sublist 1 st) (by omega) (fun x hx => dropFinished_running 1 hx) hnew ho hclosed
  · rename_i hlen
    exact .added (List.Sublist.refl st) (by omega) (fun x hx _ => hx) hnew ho hclosed

theorem applyResult_wrote {keep : Nat} {c : Call} {ev : OperationResult} {st st' : OperationStore}
    (ho : Printable (resultItem ev)) (hends : Ends c ev.handle) (h : applyResult keep ev st = .written st') :
    Wrote keep c st st' := by
  unfold applyResult at h
  split at h
  · cases h
  rename_i hne
  split at h
  · rename_i hnone
    have hnew : ∀ x ∈ st, x.handle ≠ (resultItem ev).handle := opFind_none hne hnone
    have hclosed : Closed (resultItem ev) := fun _ => ⟨rfl, rfl⟩
    have hkept : ∃ room, room = (if st.length ≥ operationMaxItems then purgeFinishedOverCap keep st else st) ∧
        room.Sublist st ∧ ∀ x ∈ st, x.status = .running → x ∈ room := by
      refine ⟨_, rfl, ?_⟩
      split
      · exact ⟨purge_sublist keep st, fun x hx => dropFinished_running _ hx⟩
      · exact ⟨List.Sublist.refl st, fun x hx _ => hx⟩
    obtain ⟨room, hroom, hsub, hrunning⟩ := hkept
    dsimp only at h
    rw [← hroom] at h
    split at h
    · cases h
    · cases h
      exact .added hsub (by omega) hrunning hnew ho hclosed
  · rename_i o hfind
    split at h
    · cases h
    split at h
    · cases h
    · cases h
      exact .finished hfind hends

theorem writeRunning_wrote {keep : Nat} {c : Call} {id : Bytes} {change : OperationItem → OperationItem}
    {st st' : OperationStore} (hsame : ∀ x, (change x).handle = x.handle ∧ (change x).status = x.status)
    (hprint : ∀ x, Printable x → Printable (change x)) (h : writeRunning id change st = .written st') :
    Wrote keep c st st' := by
  unfold writeRunning at h
  split at h
  · cases h
  rename_i o hfind
  split at h
  · cases h
  · rename_i hrunning
    cases h
    exact .touched hfind (running_of_not_finished hrunning) hsame hprint

/-- Every call that writes adds, finishes or rewrites one record. -/
theorem wrote_of_reduce {keep : Nat} {c : Call} {st st' : OperationStore} (hroom : st.length ≤ operationMaxItems)
    (h : reduce keep c st = .written st') : Wrote keep c st st' := by
  cases c with
  | applyEvent type payloadJson =>
    simp only [reduce, rtOperationApplyEvent] at h
    split at h
    swap
    · cases h
    rename_i htype
    split at h
    · cases h
    rename_i payload handle hpayload
    obtain ⟨top, htop, hhandle⟩ := Option.bind_eq_some_iff.mp hpayload
    obtain ⟨name, hname, hpair⟩ := Option.map_eq_some_iff.mp hhandle
    cases hpair
    have hclean := CleanObject.of_top htop
    split at h
    · cases h
    rename_i hne
    split at h
    · exact applyStarted_wrote (startedItem_printable hclean (getString_text hname) hne) hroom h
    · rename_i hstarted
      have hresult : type = lit "operation_result" := by
        simpa [rtOperationIsEventType, hstarted] using htype
      exact applyResult_wrote (resultItem_printable hclean (getString_text hname) hne)
        ⟨hresult, payload, htop, hname⟩ h
  | bindSecret id token =>
    simp only [reduce, rtOperationBindSecret] at h
    split at h
    · cases h
    · refine writeRunning_wrote ?_ ?_ h
      · exact fun x => ⟨rfl, rfl⟩
      · exact fun x hx => { hx with completionToken := clip_text (by decide) (cstr_nulFree _) }
  | setWorkerHandle id handle =>
    refine writeRunning_wrote ?_ ?_ h
    · exact fun x => ⟨rfl, rfl⟩
    · exact fun x hx => { hx with workerHandle := clip_text (by decide) (cstr_nulFree _) }
  | bindClaimEnvelope id envelope =>
    simp only [reduce, rtOperationBindClaimEnvelope] at h
    split at h
    · cases h
    · refine writeRunning_wrote ?_ ?_ h
      · exact fun x => ⟨rfl, rfl⟩
      · exact fun x hx => { hx with claimEnvelopeId := clip_text (by decide) (cstr_nulFree _) }
  | closeWithoutResult id =>
    simp only [reduce, rtOperationCloseWithoutResult] at h
    split at h
    · cases h
    rename_i o hfind
    split at h
    · cases h
    · cases h
      exact .finished hfind rfl

/-! ## What a call keeps -/

/-- The invariant of the store. -/
structure Sound (keep : Nat) (st : OperationStore) : Prop where
  room : st.length ≤ operationMaxItems
  nodup : (st.map OperationItem.handle).Nodup
  capped : st.countP (fun o => o.status = .finished) ≤ keep
  closed : ∀ o ∈ st, Closed o
  printable : ∀ o ∈ st, Printable o

theorem Sound.nil (keep : Nat) : Sound keep [] :=
  ⟨Nat.zero_le _, List.nodup_nil, Nat.zero_le _, by simp, by simp⟩

theorem Sound.same {keep : Nat} {st : OperationStore} (h : Sound keep st) {x y : OperationItem} (hx : x ∈ st)
    (hy : y ∈ st) (hxy : x.handle = y.handle) : x = y :=
  List.inj_on_of_nodup_map h.nodup hx hy hxy

theorem opUpdate_length {id : Bytes} {change : OperationItem → OperationItem}
    (hkeep : ∀ o, (change o).handle = o.handle) (st : OperationStore) : (opUpdate id change st).length = st.length := by
  rw [← List.length_map (f := OperationItem.handle), opUpdate_handles hkeep, List.length_map]

theorem finishItem_printable {o : OperationItem} (h : Printable o) : Printable (finishItem o) :=
  { h with deadlineMs := zero_inLong, completionToken := textField_nil (by decide) }

/-- An update that leaves the status of the record it finds leaves the number of finished ones. -/
theorem opUpdate_count {id : Bytes} {change : OperationItem → OperationItem}
    (hsame : ∀ x, (change x).status = x.status) (st : OperationStore) :
    (opUpdate id change st).countP (fun o => o.status = .finished) = st.countP (fun o => o.status = .finished) := by
  induction st with
  | nil => rfl
  | cons o st ih =>
    rw [opUpdate]
    split
    · simp [List.countP_cons, hsame]
    · simp [List.countP_cons, ih]

theorem Wrote.sound {keep : Nat} {c : Call} {st st' : OperationStore} (h : Sound keep st) (hw : Wrote keep c st st') :
    Sound keep st' := by
  cases hw with
  | @added kept o hsub hroom hrunning hnew ho hclosed =>
    have hpurge := purge_sublist keep (kept ++ [o])
    have hnodup : ((kept ++ [o]).map OperationItem.handle).Nodup := by
      have hsettled : Settled (fun _ => False) st := ⟨h.nodup, by simp⟩
      exact ((hsettled.sublist hsub).append (fun x hx => hnew x (hsub.subset hx)) (by simp)).nodup
    refine ⟨?_, hnodup.sublist (hpurge.map _), purge_count keep _, fun x hx => ?_, fun x hx => ?_⟩
    · have := hpurge.length_le
      simp only [List.length_append, List.length_singleton] at this
      omega
    · rcases List.mem_append.mp (hpurge.subset hx) with hx | hx
      · exact h.closed x (hsub.subset hx)
      · rw [List.mem_singleton.mp hx]
        exact hclosed
    · rcases List.mem_append.mp (hpurge.subset hx) with hx | hx
      · exact h.printable x (hsub.subset hx)
      · rw [List.mem_singleton.mp hx]
        exact ho
  | @finished id o hfind hends =>
    have hkeep : ∀ x, (finishItem x).handle = x.handle := fun _ => rfl
    have hpurge := purge_sublist keep (opUpdate id finishItem st)
    refine ⟨?_, ?_, purge_count keep _, fun x hx => ?_, fun x hx => ?_⟩
    · have := hpurge.length_le
      rw [opUpdate_length hkeep] at this
      exact this.trans h.room
    · refine List.Nodup.sublist (hpurge.map _) ?_
      rw [opUpdate_handles hkeep]
      exact h.nodup
    · rcases mem_opUpdate (hpurge.subset hx) with hx | ⟨y, hy, -, rfl⟩
      · exact h.closed x hx
      · exact fun _ => ⟨rfl, rfl⟩
    · rcases mem_opUpdate (hpurge.subset hx) with hx | ⟨y, hy, -, rfl⟩
      · exact h.printable x hx
      · exact finishItem_printable (h.printable y hy)
  | @touched id change o hfind hrunning hsame hprint =>
    have hkeep : ∀ x, (change x).handle = x.handle := fun x => (hsame x).1
    refine ⟨by rw [opUpdate_length hkeep]; exact h.room, by rw [opUpdate_handles hkeep]; exact h.nodup,
      by rw [opUpdate_count fun x => (hsame x).2]; exact h.capped, fun x hx => ?_, fun x hx => ?_⟩
    · rcases mem_opUpdate hx with hx | ⟨y, hy, hid, rfl⟩
      · exact h.closed x hx
      · have hyo := h.same hy (opFind_mem hfind).1 (hid.trans (opFind_mem hfind).2.symm)
        intro hfin
        rw [(hsame y).2, hyo, hrunning] at hfin
        cases hfin
    · rcases mem_opUpdate hx with hx | ⟨y, hy, -, rfl⟩
      · exact h.printable x hx
      · exact hprint y (h.printable y hy)

/-- A record under another handle is not touched by an update. -/
theorem mem_opUpdate_of_ne {id : Bytes} {change : OperationItem → OperationItem} {st : OperationStore}
    {x : OperationItem} (hx : x ∈ st) (hne : x.handle ≠ id) : x ∈ opUpdate id change st := by
  induction st with
  | nil => cases hx
  | cons o st ih =>
    rw [opUpdate]
    split
    · rename_i hid
      rcases List.mem_cons.mp hx with rfl | hx
      · exact absurd hid hne
      · exact List.mem_cons_of_mem _ hx
    · rcases List.mem_cons.mp hx with rfl | hx
      · exact List.mem_cons_self
      · exact List.mem_cons_of_mem _ (ih hx)

theorem mem_opUpdate_self {id : Bytes} {change : OperationItem → OperationItem} {st : OperationStore}
    {x : OperationItem} (hnodup : (st.map OperationItem.handle).Nodup) (hx : x ∈ st) (hid : x.handle = id) :
    change x ∈ opUpdate id change st := by
  induction st with
  | nil => cases hx
  | cons o st ih =>
    rw [List.map_cons, List.nodup_cons] at hnodup
    rw [opUpdate]
    split
    · rename_i ho
      rcases List.mem_cons.mp hx with rfl | hx
      · exact List.mem_cons_self
      · refine absurd (List.mem_map_of_mem (f := OperationItem.handle) hx) ?_
        rw [hid, ← ho]
        exact hnodup.1
    · rename_i ho
      rcases List.mem_cons.mp hx with rfl | hx
      · exact absurd hid ho
      · exact List.mem_cons_of_mem _ (ih hnodup.2 hx)

/-- A running record leaves the store by its own terminal transition only. -/
theorem Wrote.running {keep : Nat} {c : Call} {st st' : OperationStore} (h : Sound keep st) (hw : Wrote keep c st st')
    {o : OperationItem} (ho : o ∈ st) (hrun : o.status = .running) :
    Ends c o.handle ∨ ∃ x ∈ st', x.handle = o.handle ∧ x.status = .running := by
  cases hw with
  | @added kept new hsub hroom hrunning hnew hprint hclosed =>
    have hkept := List.mem_append_left [new] (hrunning o ho hrun)
    exact .inr ⟨o, dropFinished_running _ hkept hrun, rfl, hrun⟩
  | @finished id x hfind hends =>
    by_cases hid : o.handle = id
    · exact .inl (hid ▸ hends)
    · exact .inr ⟨o, dropFinished_running _ (mem_opUpdate_of_ne ho hid) hrun, rfl, hrun⟩
  | @touched id change x hfind hrunning hsame hprint =>
    by_cases hid : o.handle = id
    · exact .inr ⟨change o, mem_opUpdate_self h.nodup ho hid, (hsame o).1, (hsame o).2.trans hrun⟩
    · exact .inr ⟨o, mem_opUpdate_of_ne ho hid, rfl, hrun⟩

/-- A finished record that is still there is finished. -/
theorem Wrote.finished_stays {keep : Nat} {c : Call} {st st' : OperationStore} (h : Sound keep st)
    (hw : Wrote keep c st st') {o x : OperationItem} (ho : o ∈ st) (hfin : o.status = .finished) (hx : x ∈ st')
    (hxo : x.handle = o.handle) : x.status = .finished := by
  have hold : x ∈ st → x.status = .finished := fun hx => h.same hx ho hxo ▸ hfin
  cases hw with
  | @added kept y hsub hroom hrunning hnew hprint hclosed =>
    rcases List.mem_append.mp ((purge_sublist keep _).subset hx) with hx | hx
    · exact hold (hsub.subset hx)
    · rw [List.mem_singleton.mp hx] at hxo
      exact absurd hxo.symm (hnew o ho)
  | @finished id y hfind hends =>
    rcases mem_opUpdate ((purge_sublist keep _).subset hx) with hx | ⟨z, hz, -, rfl⟩
    · exact hold hx
    · rfl
  | @touched id change y hfind hrunning hsame hprint =>
    rcases mem_opUpdate hx with hx | ⟨z, hz, -, rfl⟩
    · exact hold hx
    · rw [(hsame z).1] at hxo
      rw [(hsame z).2, h.same hz ho hxo]
      exact hfin

/-! ## Every sequence of calls -/

/-- The file after a sequence of calls that found none. -/
def fileAfter (config : Option Bytes) (calls : List (FileIo × Call)) : Option Bytes :=
  calls.foldl (fun file x => (call config x.1 x.2 file).1) none

/-- The store the file holds then. -/
def storeAfter (config : Option Bytes) (calls : List (FileIo × Call)) : OperationStore :=
  loadStore (fileAfter config calls)

/-- The file holds a sound store that any read gives back. -/
def Holds (keep : Nat) (file : Option Bytes) : Prop :=
  Sound keep (loadStore file) ∧ ∀ text, file = some text → text.length < rtXl * 2

theorem Holds.none (keep : Nat) : Holds keep none := ⟨.nil keep, by simp⟩

theorem Holds.read {keep : Nat} {file : Option Bytes} (h : Holds keep file) {io : FileIo} :
    loadStore (fsReadText io file) = if io.readable then loadStore file else [] := by
  cases hio : io.readable with
  | false =>
    rw [fsReadText, hio]
    rfl
  | true =>
    cases file with
    | none =>
      rw [fsReadText, hio]
      rfl
    | some text =>
      have hlen := h.2 text rfl
      rw [fsReadText_some hio (hlen.le.trans (by decide))]
      rfl

theorem Holds.loaded {keep : Nat} {file : Option Bytes} (h : Holds keep file) (io : FileIo) :
    Sound keep (loadStore (fsReadText io file)) := by
  rw [h.read]
  split
  · exact h.1
  · exact .nil keep

/-- What a call does to the file: nothing, or it replaces it by what it wrote. -/
theorem call_cases {config : Option Bytes} (io : FileIo) (c : Call) {file : Option Bytes}
    (h : Holds (keepFinished config) file) :
    (call config io c file).1 = file ∨
      (∃ st', Wrote (keepFinished config) c (loadStore (fsReadText io file)) st' ∧
        Holds (keepFinished config) (call config io c file).1 ∧ loadStore (call config io c file).1 = st') := by
  have hloaded := h.loaded io
  unfold call
  split
  · exact .inl rfl
  · exact .inl rfl
  · rename_i st' hreduce
    have hwrote := wrote_of_reduce hloaded.room hreduce
    have hsound := hwrote.sound hloaded
    split
    · exact .inl rfl
    · rename_i text htext
      have hback := loadStore_writeStore hsound.printable hsound.room htext
      split
      · refine .inr ⟨st', hwrote, ⟨?_, ?_⟩, hback.1⟩
        · rw [hback.1]
          exact hsound
        · rintro _ ⟨rfl⟩
          exact hback.2
      · exact .inl rfl

theorem call_holds {config : Option Bytes} {io : FileIo} {c : Call} {file : Option Bytes}
    (h : Holds (keepFinished config) file) : Holds (keepFinished config) (call config io c file).1 := by
  rcases call_cases io c h with hsame | ⟨st', -, hholds, -⟩
  · rw [hsame]
    exact h
  · exact hholds

theorem fileAfter_holds (config : Option Bytes) (calls : List (FileIo × Call)) :
    Holds (keepFinished config) (fileAfter config calls) := by
  induction calls using List.reverseRecOn with
  | nil => exact .none _
  | append_singleton calls x ih =>
    rw [fileAfter, List.foldl_append]
    exact call_holds ih

theorem call_running {config : Option Bytes} {io : FileIo} {c : Call} {file : Option Bytes}
    (h : Holds (keepFinished config) file) {o : OperationItem} (ho : o ∈ loadStore (fsReadText io file))
    (hrun : o.status = .running) :
    Ends c o.handle ∨ ∃ x ∈ loadStore (call config io c file).1, x.handle = o.handle ∧ x.status = .running := by
  rcases call_cases io c h with hsame | ⟨st', hwrote, -, hback⟩
  · rw [hsame]
    refine .inr ⟨o, ?_, rfl, hrun⟩
    rw [h.read] at ho
    split at ho
    · exact ho
    · cases ho
  · rw [hback]
    exact hwrote.running (h.loaded io) ho hrun

theorem call_finished {config : Option Bytes} {io : FileIo} {c : Call} {file : Option Bytes}
    (h : Holds (keepFinished config) file) {o x : OperationItem} (ho : o ∈ loadStore (fsReadText io file))
    (hfin : o.status = .finished) (hx : x ∈ loadStore (call config io c file).1) (hxo : x.handle = o.handle) :
    x.status = .finished := by
  rcases call_cases io c h with hsame | ⟨st', hwrote, -, hback⟩
  · rw [hsame] at hx
    rw [h.read] at ho
    split at ho
    · rw [h.1.same hx ho hxo]
      exact hfin
    · cases ho
  · rw [hback] at hx
    exact hwrote.finished_stays (h.loaded io) ho hfin hx hxo

/-- The record of an operation is there at every call of a sequence: in the store the call loads, and in the one it
leaves. -/
def Retained (config : Option Bytes) (id : Bytes) : Option Bytes → List (FileIo × Call) → Prop
  | _, [] => True
  | file, x :: calls =>
    id ∈ (loadStore (fsReadText x.1 file)).map OperationItem.handle ∧
      Retained config id (call config x.1 x.2 file).1 calls

/-- The record of an operation is finished in a store that has one. -/
def FinishedIn (st : OperationStore) (id : Bytes) : Prop := ∀ o ∈ st, o.handle = id → o.status = .finished

theorem retained_finished {config : Option Bytes} {id : Bytes} {calls : List (FileIo × Call)} {file : Option Bytes}
    (h : Holds (keepFinished config) file) (hret : Retained config id file calls)
    (hfin : FinishedIn (loadStore file) id) :
    FinishedIn (loadStore (calls.foldl (fun file x => (call config x.1 x.2 file).1) file)) id := by
  induction calls generalizing file with
  | nil => exact hfin
  | cons x calls ih =>
    refine ih (call_holds h) hret.2 fun y hy hid => ?_
    obtain ⟨o, ho, hoid⟩ := List.mem_map.mp hret.1
    have hofin : o.status = .finished := by
      have hread := ho
      rw [h.read] at hread
      split at hread
      · exact hfin o hread hoid
      · cases hread
    exact call_finished h ho hofin hy (hid.trans hoid.symm)

/-! ## Queries -/

theorem not_due {keep : Nat} {st : OperationStore} (h : Sound keep st) {o : OperationItem} (ho : o ∈ st)
    (hfin : o.status = .finished) (nowMs : Int) (max : Nat) : o.handle ∉ rtOperationListDeadlineDue nowMs max st := by
  intro hmem
  obtain ⟨x, hx, hxo⟩ := List.mem_map.mp (List.mem_of_mem_take hmem)
  obtain ⟨hxmem, hrun⟩ := List.mem_filter.mp hx
  rw [decide_eq_true_eq] at hrun
  rw [h.same hxmem ho hxo, hfin] at hrun
  cases hrun.1

theorem no_match {keep : Nat} {st : OperationStore} (h : Sound keep st) {o : OperationItem} (ho : o ∈ st)
    (hfin : o.status = .finished) (token : Bytes) : rtOperationTokenMatches st o.handle token = false := by
  unfold rtOperationTokenMatches
  split
  · rfl
  · rename_i x hfind
    obtain ⟨hx, hxo⟩ := opFind_mem hfind
    have hsecret := (h.closed o ho hfin).2
    rw [h.same hx ho hxo, hsecret]
    simp

theorem keepFinished_le_setting (config : Option Bytes) : (keepFinished config : Int) ≤ keepFinishedSetting config := by
  have hpos : 0 < keepFinishedSetting config := by
    have hpos_or : ∀ v : Int, 0 < if 0 < v then v else operationDefaultKeepFinished := by
      intro v
      split
      · assumption
      · decide
    exact hpos_or _
  have hmod : (keepFinishedSetting config).bmod (2 ^ 32) ≤ keepFinishedSetting config := by
    rw [Int.bmod_def]
    split <;> omega
  rw [keepFinished, keepFinishedCap]
  omega

/-- Over every sequence of calls from the empty store: the bounds, and what becomes of running and finished
records. -/
theorem operation_store_invariant (config : Option Bytes) (calls : List (FileIo × Call)) :
    (storeAfter config calls).length ≤ operationMaxItems ∧
    ((storeAfter config calls).map OperationItem.handle).Nodup ∧
    ((storeAfter config calls).countP (fun o => o.status = .finished) : Int) ≤ keepFinishedSetting config ∧
    (∀ o ∈ storeAfter config calls, o.status = .finished →
      o.deadlineMs = 0 ∧ o.completionToken = [] ∧
      (∀ nowMs max, o.handle ∉ rtOperationListDeadlineDue nowMs max (storeAfter config calls)) ∧
      ∀ token, rtOperationTokenMatches (storeAfter config calls) o.handle token = false) ∧
    (∀ io c, ∀ o ∈ loadStore (fsReadText io (fileAfter config calls)), o.status = .running →
      Ends c o.handle ∨
        ∃ x ∈ storeAfter config (calls ++ [(io, c)]), x.handle = o.handle ∧ x.status = .running) ∧
    ∀ more id, Retained config id (fileAfter config calls) more → FinishedIn (storeAfter config calls) id →
      FinishedIn (storeAfter config (calls ++ more)) id := by
  have hholds := fileAfter_holds config calls
  have hsound : Sound (keepFinished config) (storeAfter config calls) := hholds.1
  refine ⟨hsound.room, hsound.nodup, ?_, ?_, ?_, ?_⟩
  · have := keepFinished_le_setting config
    have := hsound.capped
    omega
  · intro o ho hfin
    have hclosed := hsound.closed o ho hfin
    exact ⟨hclosed.1, hclosed.2, fun nowMs max => not_due hsound ho hfin nowMs max,
      fun token => no_match hsound ho hfin token⟩
  · intro io c o ho hrun
    rw [storeAfter, fileAfter, List.foldl_append]
    exact call_running hholds ho hrun
  · intro more id hret hfin
    rw [storeAfter, fileAfter, List.foldl_append]
    exact retained_finished hholds hret hfin

end Floofclaw.Guarantees.OperationRecords
