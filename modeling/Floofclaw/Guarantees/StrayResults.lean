import Floofclaw.Guarantees.OperationFits

/-!
# A result nobody started

A result whose operation the store does not know leaves a finished record
behind, so that a later stray event finds it. A full table keeps it out although
a finished record could go: the purge that should make room has nothing to drop
in a store that already keeps its cap.
-/

set_option autoImplicit false

namespace Floofclaw.Guarantees.StrayResults
open Floofclaw.Lib Floofclaw.Source.Json Floofclaw.Source.Operations Floofclaw.Source.OperationStore
open Floofclaw.Source.StoreFile hiding writeStore
open Floofclaw.Source.OperationEvents (storedRef)
open Floofclaw.Guarantees.StoreText Floofclaw.Guarantees.ResultRuns Floofclaw.Guarantees.OperationRecords
open Floofclaw.Guarantees.OperationFits (mirroredTexts row_iff)

/-- The result names an operation the store does not hold. -/
structure Stray (st : OperationStore) (payloadJson handle : Bytes) (payload : JsonRef) : Prop where
  top : jsonRefTopObject payloadJson = some payload
  names : jsonRefObjectGetString payload (lit "handle") rtSmall = some handle
  named : handle ≠ []
  unknown : ∀ o ∈ st, o.handle ≠ handle

/-- Every slot holds a running operation. -/
def AllRunning (st : OperationStore) : Prop := operationMaxItems ≤ st.length ∧ ∀ o ∈ st, o.status = .running

/-- The store holds a finished record of the operation. -/
def Recorded (st : OperationStore) (handle : Bytes) : Prop := ∃ o ∈ st, o.handle = handle ∧ o.status = .finished

/-- The call of the reducer, on a file system that reads and writes. -/
def resultCall (config : Option Bytes) (payloadJson : Bytes) (file : Option Bytes) : Option Bytes × Bool :=
  call config {} (.applyEvent (lit "operation_result") payloadJson) file

/-! ## The insertion -/

theorem opFind_unknown {st : OperationStore} {handle : Bytes} (h : ∀ o ∈ st, o.handle ≠ handle) : opFind st handle = none := by
  rw [opFind]
  split
  · rfl
  · rw [List.find?_eq_none]
    intro o ho
    simpa using h o ho

theorem dropFinished_last {x : OperationItem} {st : OperationStore} {n : Nat}
    (h : n ≤ st.countP fun o => o.status = .finished) : x ∈ dropFinished n (st ++ [x]) := by
  induction st generalizing n with
  | nil =>
    have hzero : n = 0 := Nat.le_zero.mp h
    rw [hzero, dropFinished]
    exact List.mem_cons_self
  | cons o st ih =>
    cases n with
    | zero => exact List.mem_append_right _ List.mem_cons_self
    | succ n =>
      rw [List.cons_append, dropFinished]
      rw [List.countP_cons] at h
      split
      · rename_i hfinished
        rw [if_pos (by simpa using hfinished)] at h
        exact ih (Nat.le_of_succ_le_succ h)
      · rename_i hrunning
        rw [if_neg (by simpa using hrunning)] at h
        exact List.mem_cons_of_mem _ (ih h)

/-- The purge that follows an insertion spares the new record, unless no finished record may stay at all. -/
theorem purge_new {keep : Nat} {st : OperationStore} (hcapped : (st.countP fun o => o.status = .finished) ≤ keep)
    (x : OperationItem) (hkeep : 0 < keep) : x ∈ purgeFinishedOverCap keep (st ++ [x]) := by
  refine dropFinished_last ?_
  rw [List.countP_append, List.countP_singleton]
  split <;> omega

/-- The purge that should make room drops nothing of a store within its cap. -/
theorem purge_capped {keep : Nat} {st : OperationStore} (hcapped : (st.countP fun o => o.status = .finished) ≤ keep) :
    purgeFinishedOverCap keep st = st := by
  rw [purgeFinishedOverCap, Nat.sub_eq_zero_of_le hcapped]
  cases st <;> rfl

theorem applyResult_stray {keep : Nat} {st : OperationStore} {ev : OperationResult} (h : Sound keep st) (hnamed : ev.handle ≠ [])
    (hunknown : ∀ o ∈ st, o.handle ≠ ev.handle) : applyResult keep ev st =
      if operationMaxItems ≤ st.length then .refused else .written (purgeFinishedOverCap keep (st ++ [resultItem ev])) := by
  rw [applyResult, if_neg hnamed, opFind_unknown hunknown]
  dsimp only
  rw [purge_capped h.capped, ite_self]

theorem reduce_stray {keep : Nat} {st : OperationStore} {payloadJson handle : Bytes} {payload : JsonRef} (h : Sound keep st)
    (hstray : Stray st payloadJson handle payload) : reduce keep (.applyEvent (lit "operation_result") payloadJson) st =
      if operationMaxItems ≤ st.length then .refused
      else .written (purgeFinishedOverCap keep (st ++ [resultItem (resultOf handle payload)])) := by
  have htype : rtOperationIsEventType (lit "operation_result") = true := by rw [lit_ofList]; decide
  have hother : lit "operation_result" ≠ lit "operation_started" := by decide
  rw [reduce, rtOperationApplyEvent, if_pos htype, hstray.top, Option.bind_some, hstray.names, Option.map_some]
  dsimp only
  rw [if_neg hstray.named, if_neg hother]
  exact applyResult_stray h hstray.named hstray.unknown

/-- The new store can be printed. -/
def Fits (config : Option Bytes) (st : OperationStore) (handle : Bytes) (payload : JsonRef) : Prop :=
  (writeStore
    (purgeFinishedOverCap (keepFinished config) (st ++ [resultItem (resultOf handle payload)]))).isSome = true

theorem loaded_default {keep : Nat} {file : Option Bytes} (h : Holds keep file) :
    loadStore (fsReadText {} file) = loadStore file := by
  rw [h.read]
  rfl

/-- A call that writes leaves the store it wrote. -/
theorem call_writes {config file : Option Bytes} {c : Call} {st' : OperationStore} {text : Bytes}
    (h : Holds (keepFinished config) file) (hreduce : reduce (keepFinished config) c (loadStore file) = .written st')
    (htext : writeStore st' = some text) :
    loadStore (call config {} c file).1 = st' ∧ Sound (keepFinished config) st' := by
  have hsound := (wrote_of_reduce h.1.room hreduce).sound h.1
  rw [call, loaded_default h, hreduce]
  dsimp only
  rw [htext]
  exact ⟨(loadStore_writeStore hsound.printable hsound.room htext).1, hsound⟩

theorem recorded_iff {config file : Option Bytes} {payloadJson handle : Bytes} {payload : JsonRef}
    (h : Holds (keepFinished config) file) (hstray : Stray (loadStore file) payloadJson handle payload) :
    Recorded (loadStore (resultCall config payloadJson file).1) handle ↔
      (loadStore file).length < operationMaxItems ∧ 0 < keepFinished config ∧ Fits config (loadStore file) handle payload := by
  have hreduce := reduce_stray h.1 hstray
  have hunchanged : ¬ Recorded (loadStore file) handle := fun ⟨o, ho, hhandle, _⟩ => hstray.unknown o ho hhandle
  by_cases hroom : operationMaxItems ≤ (loadStore file).length
  · rw [resultCall, call, loaded_default h, hreduce, if_pos hroom]
    exact iff_of_false hunchanged fun hc => Nat.not_le.mpr hc.1 hroom
  rw [if_neg hroom] at hreduce
  rw [Fits, resultCall]
  cases htext : writeStore
      (purgeFinishedOverCap (keepFinished config) (loadStore file ++ [resultItem (resultOf handle payload)])) with
  | none =>
    rw [call, loaded_default h, hreduce]
    dsimp only
    rw [htext]
    exact iff_of_false hunchanged fun hc => by cases hc.2.2
  | some text =>
    obtain ⟨hback, hsound⟩ := call_writes h hreduce htext
    rw [hback]
    constructor
    · rintro ⟨o, ho, -, hfinished⟩
      refine ⟨Nat.not_le.mp hroom, Nat.pos_of_ne_zero fun hzero => ?_, rfl⟩
      have hcount := List.countP_eq_zero.mp (Nat.le_zero.mp (hsound.capped.trans hzero.le))
      exact hcount o ho (by simpa using hfinished)
    · rintro ⟨-, hkeep, -⟩
      exact ⟨_, purge_new h.1.capped _ hkeep, rfl, rfl⟩

/-! ## Printing a store of short rows -/

theorem writeRows_short {α : Type} {cap n : Nat} {row : Bool → α → Option (List Bytes)} {xs : List α} {first : Bool}
    {out : Bytes} (hrows : ∀ x ∈ xs, ∀ first, ∃ text, row first x = some [text] ∧ text.length ≤ n)
    (hcap : out.length + n * xs.length < cap) :
    ∃ r, writeRows cap row first out xs = some r ∧ r.length ≤ out.length + n * xs.length := by
  induction xs generalizing first out with
  | nil => exact ⟨out, rfl, Nat.le_add_right _ _⟩
  | cons x xs ih =>
    obtain ⟨text, htext, hshort⟩ := hrows x List.mem_cons_self first
    rw [List.length_cons, Nat.mul_succ] at hcap
    have happend : rtAppendText cap out text = some (out ++ text) :=
      rtAppendText_eq_some.mpr ⟨rfl, by rw [List.length_append]; omega⟩
    have hlength : (out ++ text).length ≤ out.length + n := by
      rw [List.length_append]
      omega
    have hrest : (out ++ text).length + n * xs.length < cap := by omega
    obtain ⟨r, hr, hle⟩ := ih (fun y hy => hrows y (List.mem_cons_of_mem _ hy)) hrest
    refine ⟨r, ?_, ?_⟩
    · rw [writeRows, htext]
      dsimp only
      rw [appendPieces, happend, Option.bind_some, appendPieces, Option.bind_some, hr]
    · rw [List.length_cons, Nat.mul_succ]
      omega

/-- A full table of rows below a thousand octets is printed. -/
theorem writeStore_short {st : OperationStore} (hroom : st.length ≤ operationMaxItems)
    (hrows : ∀ o ∈ st, ∀ first, ∃ text, row first o = some [text] ∧ text.length ≤ 1000) :
    ∃ text, writeStore st = some text := by
  have hhead : rtAppendText (rtXl * 2) [] (lit "\x7b\"operations\":[") = some (lit "\x7b\"operations\":[") :=
    rtAppendText_eq_some.mpr ⟨rfl, by decide⟩
  have hlength : (lit "\x7b\"operations\":[").length = 15 := by decide
  have hxl : rtXl * 2 = 131072 := rfl
  have hmax : operationMaxItems = 128 := rfl
  have hshort : ∃ r, writeRows (rtXl * 2) row true (lit "\x7b\"operations\":[") st = some r ∧
      r.length ≤ (lit "\x7b\"operations\":[").length + 1000 * st.length := writeRows_short hrows (by omega)
  obtain ⟨r, hr, hle⟩ := hshort
  have htail : (lit "]\x7d\n").length = 3 := lit_length _
  refine ⟨r ++ lit "]\x7d\n", ?_⟩
  rw [writeStore, Source.StoreFile.writeStore, hhead, Option.bind_some, hr, Option.bind_some]
  exact rtAppendText_eq_some.mpr ⟨rfl, by rw [List.length_append]; omega⟩

/-- Over every sequence of calls: a stray result leaves its record wherever a slot is free of running operations, exactly
when that store had a slot left, one finished record may stay, and the new rows can be printed. -/
theorem stray_result_recorded (config : Option Bytes) (calls : List (FileIo × Call)) (payloadJson handle : Bytes)
    (payload : JsonRef) (hstray : Stray (storeAfter config calls) payloadJson handle payload) :
    (¬ AllRunning (storeAfter config calls) →
        Recorded (loadStore (resultCall config payloadJson (fileAfter config calls)).1) handle) ↔
      (¬ AllRunning (storeAfter config calls) → (storeAfter config calls).length < operationMaxItems ∧
        0 < keepFinished config ∧ Fits config (storeAfter config calls) handle payload) := by
  have hiff := recorded_iff (fileAfter_holds config calls) hstray
  exact ⟨fun h hfree => hiff.mp (h hfree), fun h hfree => hiff.mpr (h hfree)⟩

theorem stray_result_recorded_first :
    ¬ AllRunning (storeAfter none []) ∧
      Recorded (loadStore (resultCall none (lit "\x7b\"handle\":\"z\"\x7d") (fileAfter none [])).1) (lit "z") := by
  have hfree : ¬ AllRunning (storeAfter none []) := fun h => absurd h.1 (by decide)
  have hstray : Stray (storeAfter none []) (lit "\x7b\"handle\":\"z\"\x7d") (lit "z") (lit "\x7b\"handle\":\"z\"\x7d") :=
    ⟨by decide +kernel, by decide +kernel, by decide, fun o ho => by cases ho⟩
  refine ⟨hfree, (stray_result_recorded none [] _ _ _ hstray).mpr ?_ hfree⟩
  refine fun _ => ⟨by decide, by decide, ?_⟩
  rw [Fits]
  decide +kernel

/-! ## A full table with one finished record -/

/-- One hundred and twenty-eight different handles. -/
def handleOf (i : Nat) : Bytes := [UInt8.ofNat (97 + i / 16), UInt8.ofNat (97 + i % 16)]

def payloadOf (handle : Bytes) : Bytes := objText [(lit "handle", quoted handle)]

/-- The first operation is over, the others run. -/
def slotCall (i : Nat) : Call :=
  .applyEvent (if i = 0 then lit "operation_result" else lit "operation_started") (payloadOf (handleOf i))

def slot (i : Nat) : OperationItem :=
  if i = 0 then resultItem (resultOf (handleOf i) (payloadOf (handleOf i)))
  else startedItem (startedOf (handleOf i) (payloadOf (handleOf i)))

def slotCalls (n : Nat) : List (FileIo × Call) := (List.range n).map fun i => ({}, slotCall i)

def slots (n : Nat) : OperationStore := (List.range n).map slot

theorem slot_handle (i : Nat) : (slot i).handle = handleOf i := by
  rw [slot]
  split <;> rfl

theorem handleOf_fresh : ∀ i < 128, ∀ j < i, handleOf j ≠ handleOf i := by
  intro i hi j hj hsame
  obtain ⟨hhigh, htail⟩ := List.cons.inj hsame
  have hlow := (List.cons.inj htail).1
  rw [← UInt8.toNat_inj, UInt8.toNat_ofNat', UInt8.toNat_ofNat'] at hhigh hlow
  omega

theorem handleOf_plain : ∀ i < 128, (handleOf i).all isPlain = true := by decide +kernel

example : handleOf 17 = lit "bb" := by decide +kernel

theorem payloadOf_written {handle : Bytes} (h : handle.all isPlain = true) : WrittenMembers [(lit "handle", quoted handle)] := by
  have hescaped := escaped_plain (List.all_eq_true.mp h)
  exact .key (by decide) (hescaped ▸ .text handle) .nil

theorem payloadOf_reads : ∀ i < 128, jsonRefTopObject (payloadOf (handleOf i)) = some (payloadOf (handleOf i)) ∧
    jsonRefObjectGetString (payloadOf (handleOf i)) (lit "handle") rtSmall = some (handleOf i) := by
  intro i hi
  have hplain := List.all_eq_true.mp (handleOf_plain i hi)
  have hwritten := payloadOf_written (handleOf_plain i hi)
  have hfield : TextField rtSmall (handleOf i) := ⟨fun c hc => isPlain_ne_zero (hplain c hc), Nat.le_of_ble_eq_true rfl⟩
  refine ⟨jsonRefTopObject_complete hwritten.objText (CleanValue.objText hwritten).nulFree, getString_printed hfield ?_⟩
  rw [payloadOf, hwritten.get, escaped_plain hplain]
  rfl

/-- A record of which only the handle is known. -/
def bareItem (handle : Bytes) (status : OperationStatus) : OperationItem :=
  { handle := handle, action := [], requestId := [], triggerEventId := [], taskId := [], contextId := [], channel := []
    adapterId := [], originEventId := [], refJson := [], status := status, workRev := 0 }

theorem slot_bare {i : Nat} (hi : i < 128) : slot i = bareItem (handleOf i) (if i = 0 then .finished else .running) := by
  have hwritten := payloadOf_written (handleOf_plain i hi)
  have habsent : ∀ {cs : List Char}, (("handle".toList.map ch) == cs.map ch) = false →
      jsonRefObjectGet (payloadOf (handleOf i)) (lit (String.ofList cs)) = none := by
    intro cs hkey
    have hne : lit "handle" ≠ lit (String.ofList cs) := lit_ne hkey
    rw [payloadOf, hwritten.get, assoc, if_neg hne, assoc]
  have hempty : ∀ {cs : List Char} {cap : Nat}, (("handle".toList.map ch) == cs.map ch) = false →
      stringField (payloadOf (handleOf i)) (lit (String.ofList cs)) cap [] = [] := by
    intro cs cap hkey
    rw [stringField, habsent hkey]
  have hlong : ∀ {cs : List Char}, (("handle".toList.map ch) == cs.map ch) = false →
      (jsonRefObjectGetLong (payloadOf (handleOf i)) (lit (String.ofList cs)) 0).1 = 0 := by
    intro cs hkey
    rw [jsonRefObjectGetLong, habsent hkey]
  have href : storedRef (payloadOf (handleOf i)) = [] := by
    rw [storedRef, habsent (by decide)]
    rfl
  rw [slot]
  split
  · rw [resultItem, resultOf, href, hlong (by decide), hempty (by decide), hempty (by decide), hempty (by decide),
      hempty (by decide), hempty (by decide), hempty (by decide), hempty (by decide), hempty (by decide)]
    rfl
  · rw [startedItem, startedOf, href, hlong (by decide), hlong (by decide), hempty (by decide), hempty (by decide),
      hempty (by decide), hempty (by decide), hempty (by decide), hempty (by decide), hempty (by decide), hempty (by decide)]
    rfl

theorem bareItem_printable {handle : Bytes} (h : TextField rtSmall handle) (hnamed : handle ≠ []) (status : OperationStatus) :
    Printable (bareItem handle status) where
  handle := h
  named := hnamed
  workerHandle := textField_nil (by decide)
  action := textField_nil (by decide)
  requestId := textField_nil (by decide)
  triggerEventId := textField_nil (by decide)
  taskId := textField_nil (by decide)
  contextId := textField_nil (by decide)
  channel := textField_nil (by decide)
  adapterId := textField_nil (by decide)
  originEventId := textField_nil (by decide)
  refJson := .inl rfl
  workRev := zero_inLong
  deadlineMs := zero_inLong
  completionToken := textField_nil (by decide)
  claimEnvelopeId := textField_nil (by decide)

/-- The handle takes its own room and no more. -/
theorem bareItem_length {handle : Bytes} (h : escaped handle = handle) (status : OperationStatus) :
    (rowText (bareItem handle status)).length = (rowText (bareItem [] status)).length + handle.length := by
  rw [rowText, rowText, objText_length (by simp [members]), objText_length (by simp [members])]
  simp only [members, bareItem, List.map_cons, List.sum_cons, h, quoted, List.length_cons, List.length_append]
  have hnil : escaped [] = [] := rfl
  rw [hnil, List.length_nil]
  omega

theorem slot_short : ∀ i < 128, ∀ first, ∃ text, row first (slot i) = some [text] ∧ text.length ≤ 1000 := by
  intro i hi first
  have hplain := List.all_eq_true.mp (handleOf_plain i hi)
  have hescaped := escaped_plain hplain
  have hbare : ∀ status, (rowText (bareItem [] status)).length ≤ 900 := by
    intro status
    cases status <;> decide +kernel
  have hfield : TextField rtSmall (handleOf i) := ⟨fun c hc => isPlain_ne_zero (hplain c hc), Nat.le_of_ble_eq_true rfl⟩
  have hsep : (separator first).length ≤ 1 := by cases first <;> decide
  rw [slot_bare hi]
  generalize (if i = 0 then OperationStatus.finished else .running) = status
  have hlength := bareItem_length hescaped status
  have hroom := hbare status
  have htwo : (handleOf i).length = 2 := rfl
  have htexts : ∀ s ∈ mirroredTexts (bareItem (handleOf i) status), (escaped s).length < rtMed := by
    simp only [mirroredTexts, bareItem, List.forall_mem_cons, hescaped, htwo]
    decide
  have hrow := (row_iff (bareItem_printable hfield (List.cons_ne_nil _ _) status) first _).mpr
    ⟨⟨htexts, (by decide : 0 < rtOperationTokenHex * 2 + 2), by unfold rtLarge; omega⟩, rfl⟩
  refine ⟨_, hrow, ?_⟩
  rw [List.length_append]
  omega

example : payloadOf (lit "h") = lit "\x7b\"handle\":\"h\"\x7d" := by decide +kernel

theorem slots_fresh {i : Nat} (hi : i < 128) : ∀ o ∈ slots i, o.handle ≠ handleOf i := by
  intro o ho
  obtain ⟨j, hj, rfl⟩ := List.mem_map.mp ho
  rw [slot_handle]
  exact handleOf_fresh i hi j (List.mem_range.mp hj)

theorem slots_succ (n : Nat) : slots (n + 1) = slots n ++ [slot n] := by
  rw [slots, List.range_succ, List.map_append]
  rfl

theorem slots_capped (n : Nat) : (slots n).countP (fun o => o.status = .finished) ≤ 100 := by
  have hone : (slots n).countP (fun o => o.status = .finished) ≤ 1 := by
    induction n with
    | zero => exact Nat.zero_le 1
    | succ n ih =>
      rw [slots_succ, List.countP_append, List.countP_singleton]
      cases n with
      | zero => exact (Nat.add_comm _ _).trans_le (by decide)
      | succ n => exact ih
  exact hone.trans (by decide)

theorem applyStarted_fresh {keep : Nat} {st : OperationStore} {ev : OperationStarted} (hroom : st.length < operationMaxItems)
    (hnamed : ev.handle ≠ []) (hunknown : ∀ o ∈ st, o.handle ≠ ev.handle) :
    applyStarted keep ev st = .written (purgeFinishedOverCap keep (st ++ [startedItem ev])) := by
  rw [applyStarted, if_neg hnamed, opFind_unknown hunknown]
  dsimp only
  rw [if_neg fun hfull => Nat.not_le.mpr hroom hfull.1, if_neg (Nat.not_le.mpr hroom)]

theorem slotCall_reduce {i : Nat} (hi : i < 128) (hsound : Sound 100 (slots i)) :
    reduce 100 (slotCall i) (slots i) = .written (slots (i + 1)) := by
  obtain ⟨htop, hname⟩ := payloadOf_reads i hi
  have hlength : (slots i).length = i := by rw [slots, List.length_map, List.length_range]
  have hnamed : handleOf i ≠ [] := List.cons_ne_nil _ _
  have hcapped := slots_capped (i + 1)
  rw [slots_succ] at hcapped ⊢
  by_cases hzero : i = 0
  · have hstray : Stray (slots i) (payloadOf (handleOf i)) (handleOf i) (payloadOf (handleOf i)) :=
      ⟨htop, hname, hnamed, slots_fresh hi⟩
    have hroom : ¬ operationMaxItems ≤ (slots i).length := by
      rw [hlength]
      exact Nat.not_le.mpr hi
    rw [slot, if_pos hzero] at hcapped ⊢
    rw [slotCall, if_pos hzero, reduce_stray hsound hstray, if_neg hroom, purge_capped hcapped]
  · have htype : rtOperationIsEventType (lit "operation_started") = true := by rw [lit_ofList]; decide
    rw [slot, if_neg hzero] at hcapped ⊢
    rw [slotCall, if_neg hzero, reduce, rtOperationApplyEvent, if_pos htype, htop, Option.bind_some, hname, Option.map_some]
    dsimp only
    rw [if_neg hnamed, if_pos rfl, applyStarted_fresh (hlength.trans_lt hi) hnamed (slots_fresh hi), purge_capped hcapped]

theorem storeAfter_slots {n : Nat} (hn : n ≤ 128) : storeAfter none (slotCalls n) = slots n := by
  induction n with
  | zero => rfl
  | succ n ih =>
    have hi : n < 128 := hn
    have hholds := fileAfter_holds none (slotCalls n)
    have hstore := ih hi.le
    have hreduce : reduce (keepFinished none) (slotCall n) (loadStore (fileAfter none (slotCalls n))) =
        .written (slots (n + 1)) := by
      have hsound : Sound 100 (storeAfter none (slotCalls n)) := hholds.1
      rw [hstore] at hsound
      rw [storeAfter] at hstore
      rw [hstore]
      exact slotCall_reduce hi hsound
    have hrows : ∀ o ∈ slots (n + 1), ∀ first, ∃ text, row first o = some [text] ∧ text.length ≤ 1000 := by
      intro o ho
      obtain ⟨j, hj, rfl⟩ := List.mem_map.mp ho
      exact slot_short j ((List.mem_range.mp hj).trans_le hn)
    have hroom : (slots (n + 1)).length ≤ operationMaxItems := by
      rw [slots, List.length_map, List.length_range]
      exact hn
    obtain ⟨text, htext⟩ := writeStore_short hroom hrows
    have hwritten := (call_writes hholds hreduce htext).1
    rw [slotCalls, List.range_succ, List.map_append, storeAfter, fileAfter, List.foldl_append]
    exact hwritten

/-- One finished record among the running ones, and the stray result is refused all the same. -/
theorem full_table_drops_stray :
    ¬ AllRunning (storeAfter none (slotCalls 128)) ∧
      Stray (storeAfter none (slotCalls 128)) (payloadOf (lit "z")) (lit "z") (payloadOf (lit "z")) ∧
      ¬ Recorded (loadStore (resultCall none (payloadOf (lit "z")) (fileAfter none (slotCalls 128))).1) (lit "z") := by
  have hstore := storeAfter_slots (Nat.le_refl 128)
  have hfree : ¬ AllRunning (slots 128) := by
    intro hall
    have hfirst : slot 0 ∈ slots 128 := List.mem_map_of_mem (List.mem_range.mpr (by decide))
    cases hall.2 (slot 0) hfirst
  have hstray : Stray (slots 128) (payloadOf (lit "z")) (lit "z") (payloadOf (lit "z")) := by
    refine ⟨by decide +kernel, by decide +kernel, by decide, fun o ho => ?_⟩
    obtain ⟨j, -, rfl⟩ := List.mem_map.mp ho
    rw [slot_handle]
    intro hhandle
    have hone : (lit "z").length = 1 := by decide
    rw [← hhandle] at hone
    cases hone
  rw [← hstore] at hfree hstray
  refine ⟨hfree, hstray, fun hrecorded => ?_⟩
  have hroom := ((recorded_iff (fileAfter_holds none (slotCalls 128)) hstray).mp hrecorded).1
  rw [storeAfter] at hstore
  rw [hstore, slots, List.length_map, List.length_range] at hroom
  exact absurd hroom (by decide)

end Floofclaw.Guarantees.StrayResults
