import Mathlib.Data.Option.Basic
import Floofclaw.Guarantees.OperationRecords

/-!
# When the operation store can be written

A store is printed into buffers: every text into a mirror, every row into four
KiB, all rows into 128 KiB. It is written exactly when its texts, rows and their
sum stay below these, and a store that is written reads back as it was.
-/

set_option autoImplicit false

namespace Floofclaw.Guarantees.OperationFits
open Floofclaw.Lib Floofclaw.Source.Json
open Floofclaw.Source.StoreFile hiding writeStore
open Floofclaw.Source.Operations Floofclaw.Source.OperationStore
open Floofclaw.Guarantees.TaskStoreText (elemsText_cons)
open Floofclaw.Guarantees.StoreText Floofclaw.Guarantees.OperationRecords

/-! ## Rows in a buffer -/

section Rows
variable {α : Type} {cap : Nat} {row : Bool → α → Option (List Bytes)} {text : α → Bytes} {ok : Bool → α → Prop}

/-- A row is one piece, behind its separator, and is there exactly when it fits. -/
def RowIff (row : Bool → α → Option (List Bytes)) (text : α → Bytes) (ok : Bool → α → Prop) (x : α) : Prop :=
  ∀ first pieces, row first x = some pieces ↔ ok first x ∧ pieces = [separator first ++ text x]

/-- Every row of a store, the first one without a comma. -/
def RowsOk (ok : Bool → α → Prop) : Bool → List α → Prop
  | _, [] => True
  | first, x :: xs => ok first x ∧ RowsOk ok false xs

def rowsText (text : α → Bytes) (first : Bool) (xs : List α) : Bytes :=
  if first then elemsText (xs.map text) else xs.flatMap fun x => ch ',' :: text x

theorem rowsText_cons (first : Bool) (x : α) (xs : List α) :
    rowsText text first (x :: xs) = separator first ++ text x ++ rowsText text false xs := by
  cases first
  · simp [rowsText, separator, lit]
  · simp [rowsText, separator, elemsText_cons, List.flatMap_map]

theorem writeRows_iff {xs : List α} (h : ∀ x ∈ xs, RowIff row text ok x) {first : Bool} {out r : Bytes} (hout : out.length < cap) :
    writeRows cap row first out xs = some r ↔
      RowsOk ok first xs ∧ r = out ++ rowsText text first xs ∧ r.length < cap := by
  induction xs generalizing first out with
  | nil =>
    have hnil : rowsText text first [] = [] := by cases first <;> rfl
    rw [writeRows, Option.some.injEq, hnil, List.append_nil]
    refine ⟨?_, fun hr => hr.2.1.symm⟩
    rintro rfl
    exact ⟨trivial, rfl, hout⟩
  | cons x xs ih =>
    have hx := h x List.mem_cons_self first
    have hxs := fun y hy => h y (List.mem_cons_of_mem x hy)
    have hstep : ∀ out1 : Bytes, rtAppendText cap out (separator first ++ text x) = some out1 ↔
        out1 = out ++ (separator first ++ text x) ∧ out1.length < cap := fun out1 => rtAppendText_eq_some
    rw [writeRows, rowsText_cons, RowsOk]
    constructor
    · intro hw
      split at hw
      · cases hw
      · rename_i pieces hpieces
        obtain ⟨hok, rfl⟩ := (hx pieces).mp hpieces
        obtain ⟨out1, hout1, hrest⟩ := Option.bind_eq_some_iff.mp hw
        obtain ⟨out2, hout2, hlast⟩ := Option.bind_eq_some_iff.mp hout1
        cases hlast
        obtain ⟨hcat, hlen⟩ := (hstep out1).mp hout2
        obtain ⟨hrows, hr, hroom⟩ := (ih hxs hlen).mp hrest
        rw [hcat, List.append_assoc] at hr
        exact ⟨⟨hok, hrows⟩, by rw [hr, List.append_assoc], hroom⟩
    · rintro ⟨⟨hok, hrows⟩, hr, hroom⟩
      have hcat : r = (out ++ (separator first ++ text x)) ++ rowsText text false xs := by rw [hr, ← List.append_assoc]
      have hlen : (out ++ (separator first ++ text x)).length < cap := by
        have hwhole := congrArg List.length hcat
        rw [List.length_append] at hwhole
        omega
      rw [(hx _).mpr ⟨hok, rfl⟩]
      dsimp only
      rw [appendPieces, (hstep _).mpr ⟨rfl, hlen⟩, Option.bind_some, appendPieces, Option.bind_some]
      exact (ih hxs hlen).mpr ⟨hrows, hcat, hroom⟩

/-- A store file is written exactly when its rows are printed and all of it fits. -/
theorem writeStore_iff {key : Bytes} {xs : List α} (h : ∀ x ∈ xs, RowIff row text ok x) {r : Bytes} :
    Source.StoreFile.writeStore cap (ch '{' :: (quoted key ++ lit ":[")) row xs = some r ↔
      RowsOk ok true xs ∧ r = fileText key (xs.map text) ∧ r.length < cap := by
  have hfile : fileText key (xs.map text) = ch '{' :: (quoted key ++ lit ":[") ++ rowsText text true xs ++ lit "]\x7d\n" := by
    rw [rowsText, if_pos rfl]
    simp [fileText, objText, membersText, arrText, lit]
  rw [hfile]
  constructor
  · intro hw
    obtain ⟨out, hout, hw⟩ := Option.bind_eq_some_iff.mp hw
    obtain ⟨out1, hout1, hlast⟩ := Option.bind_eq_some_iff.mp hw
    obtain ⟨hhead, hlen⟩ := rtAppendText_eq_some.mp hout
    obtain ⟨hrows, hcat, -⟩ := (writeRows_iff h hlen).mp hout1
    obtain ⟨hr, hroom⟩ := rtAppendText_eq_some.mp hlast
    rw [hcat, hhead, List.nil_append] at hr
    exact ⟨hrows, hr, hroom⟩
  · rintro ⟨hrows, hr, hroom⟩
    have hlen : (ch '{' :: (quoted key ++ lit ":[")).length < cap ∧
        (ch '{' :: (quoted key ++ lit ":[") ++ rowsText text true xs).length < cap := by
      rw [hr, List.length_append, List.length_append] at hroom
      rw [List.length_append]
      omega
    have hhead : rtAppendText cap [] (ch '{' :: (quoted key ++ lit ":[")) = some (ch '{' :: (quoted key ++ lit ":[")) :=
      rtAppendText_eq_some.mpr ⟨rfl, hlen.1⟩
    rw [Source.StoreFile.writeStore, hhead, Option.bind_some, (writeRows_iff h hlen.1).mpr ⟨hrows, rfl, hlen.2⟩, Option.bind_some]
    exact rtAppendText_eq_some.mpr ⟨hr, hroom⟩

end Rows

/-! ## Rows of the operation store -/

/-- The texts a row escapes into mirrors of `RT_MED` octets. -/
def mirroredTexts (o : OperationItem) : List Bytes :=
  [o.handle, o.workerHandle, o.action, o.requestId, o.triggerEventId, o.taskId, o.contextId, o.channel, o.adapterId,
    o.originEventId, o.claimEnvelopeId]

/-- Each text fits its mirror, and the row with its comma its buffer. -/
structure RowFits (first : Bool) (o : OperationItem) : Prop where
  texts : ∀ s ∈ mirroredTexts o, (escaped s).length < rtMed
  token : (escaped o.completionToken).length < rtOperationTokenHex * 2 + 2
  item : (separator first).length + (rowText o).length < rtLarge

/-- What `write_store` needs of a store: rows that fit, and room for all of them. -/
def Fits (st : OperationStore) : Prop :=
  RowsOk RowFits true st ∧ (fileText (lit "operations") (st.map rowText)).length < rtXl * 2

theorem mirrored {cap : Nat} {s e : Bytes} (hs : NulFree s) (h : mirror cap s = some e) : (escaped s).length < cap := by
  rw [mirror_eq hs] at h
  exact (Option.ite_none_right_eq_some.mp h).1

theorem mirror_room {cap : Nat} {s : Bytes} (hs : NulFree s) (h : (escaped s).length < cap) : mirror cap s = some (escaped s) := by
  rw [mirror_eq hs, if_pos h]

section Row
variable {o : OperationItem} (ho : Printable o)
include ho

theorem mirroredTexts_nulFree : ∀ s ∈ mirroredTexts o, NulFree s := by
  have hcontext := ho.contextId.nulFree
  simp only [mirroredTexts, List.forall_mem_cons]
  exact ⟨ho.handle.nulFree, ho.workerHandle.nulFree, ho.action.nulFree, ho.requestId.nulFree, ho.triggerEventId.nulFree,
    ho.taskId.nulFree, hcontext, ho.channel.nulFree, ho.adapterId.nulFree, ho.originEventId.nulFree, ho.claimEnvelopeId.nulFree,
    List.forall_mem_nil _⟩

theorem rowMembers_fits {ms : List (Bytes × Bytes)} (h : rowMembers o = some ms) :
    (∀ s ∈ mirroredTexts o, (escaped s).length < rtMed) ∧ (escaped o.completionToken).length < rtOperationTokenHex * 2 + 2 := by
  unfold rowMembers at h
  obtain ⟨_, h1, h⟩ := Option.bind_eq_some_iff.mp h
  obtain ⟨_, h2, h⟩ := Option.bind_eq_some_iff.mp h
  obtain ⟨_, h3, h⟩ := Option.bind_eq_some_iff.mp h
  obtain ⟨_, h4, h⟩ := Option.bind_eq_some_iff.mp h
  obtain ⟨_, h5, h⟩ := Option.bind_eq_some_iff.mp h
  obtain ⟨_, h6, h⟩ := Option.bind_eq_some_iff.mp h
  obtain ⟨_, h7, h⟩ := Option.bind_eq_some_iff.mp h
  obtain ⟨_, h8, h⟩ := Option.bind_eq_some_iff.mp h
  obtain ⟨_, h9, h⟩ := Option.bind_eq_some_iff.mp h
  obtain ⟨_, h10, h⟩ := Option.bind_eq_some_iff.mp h
  obtain ⟨_, h11, h⟩ := Option.bind_eq_some_iff.mp h
  obtain ⟨_, h12, -⟩ := Option.bind_eq_some_iff.mp h
  refine ⟨?_, mirrored ho.completionToken.nulFree h11⟩
  simp only [mirroredTexts, List.forall_mem_cons]
  exact ⟨mirrored ho.handle.nulFree h1, mirrored ho.workerHandle.nulFree h2, mirrored ho.action.nulFree h3,
    mirrored ho.requestId.nulFree h4, mirrored ho.triggerEventId.nulFree h5, mirrored ho.taskId.nulFree h6,
    mirrored ho.contextId.nulFree h7, mirrored ho.channel.nulFree h8, mirrored ho.adapterId.nulFree h9,
    mirrored ho.originEventId.nulFree h10, mirrored ho.claimEnvelopeId.nulFree h12, List.forall_mem_nil _⟩

theorem rowMembers_room (htexts : ∀ s ∈ mirroredTexts o, (escaped s).length < rtMed)
    (htoken : (escaped o.completionToken).length < rtOperationTokenHex * 2 + 2) : rowMembers o = some (members o) := by
  have hmirror : ∀ s ∈ mirroredTexts o, mirror rtMed s = some (escaped s) :=
    fun s hs => mirror_room (mirroredTexts_nulFree ho s hs) (htexts s hs)
  simp only [mirroredTexts, List.forall_mem_cons] at hmirror
  obtain ⟨h1, h2, h3, h4, h5, h6, h7, h8, h9, h10, h12, -⟩ := hmirror
  have hstatus : mirror rtMed (statusText o.status) = some (escaped (statusText o.status)) := by cases o.status <;> decide
  unfold rowMembers
  simp only [h1, h2, h3, h4, h5, h6, h7, h8, h9, h10, h12, mirror_room ho.completionToken.nulFree htoken, hstatus,
    Option.bind_eq_bind, Option.bind_some]
  rfl

theorem row_iff : RowIff row rowText RowFits o := by
  intro first pieces
  constructor
  · intro h
    obtain ⟨ms, hms, h⟩ := Option.bind_eq_some_iff.mp h
    obtain ⟨_, hlen, h⟩ := Option.bind_eq_some_iff.mp h
    cases h
    obtain ⟨htexts, htoken⟩ := rowMembers_fits ho hms
    have hmembers := rowMembers_eq_some ho hms
    have hitem := (Option.guard_eq_some' _).mp hlen
    rw [hmembers, List.length_append] at hitem
    exact ⟨⟨htexts, htoken, hitem⟩, by rw [hmembers, rowText]⟩
  · rintro ⟨⟨htexts, htoken, hitem⟩, rfl⟩
    have hlen : (separator first ++ objText (members o)).length < rtLarge := by
      rw [List.length_append]
      exact hitem
    have hguard : (guard ((separator first ++ objText (members o)).length < rtLarge) : Option Unit) = some () := if_pos hlen
    rw [row, rowMembers_room ho htexts htoken]
    simp only [Option.bind_eq_bind, Option.bind_some, hguard]
    rfl

end Row

theorem writeStore_fits {st : OperationStore} (h : ∀ o ∈ st, Printable o) :
    (∃ text, writeStore st = some text) ↔ Fits st := by
  have hhead : lit "\x7b\"operations\":[" = ch '{' :: (quoted (lit "operations") ++ lit ":[") := by (repeat rw [lit_ofList]); decide
  unfold writeStore
  rw [hhead]
  constructor
  · rintro ⟨text, hw⟩
    obtain ⟨hrows, htext, hroom⟩ := (writeStore_iff fun o ho => row_iff (h o ho)).mp hw
    exact ⟨hrows, htext ▸ hroom⟩
  · rintro ⟨hrows, hroom⟩
    exact ⟨_, (writeStore_iff fun o ho => row_iff (h o ho)).mpr ⟨hrows, rfl, hroom⟩⟩

/-! ## Every sequence of calls -/

/-- A call that has a store to write, and a file it may write to, leaves just that store. -/
def Recorded (config : Option Bytes) (x : FileIo × Call) (file : Option Bytes) : Prop :=
  ∀ st, x.1.writable = true → reduce (keepFinished config) x.2 (loadStore (fsReadText x.1 file)) = .written st →
    ∃ text, call config x.1 x.2 file = (some text, true) ∧ loadStore (some text) = st

/-- The store a call has to write fits the buffers. -/
def FitsIn (config : Option Bytes) (x : FileIo × Call) (file : Option Bytes) : Prop :=
  ∀ st, x.1.writable = true → reduce (keepFinished config) x.2 (loadStore (fsReadText x.1 file)) = .written st → Fits st

/-- A property of every step of a sequence of calls. -/
def Throughout (config : Option Bytes) (p : FileIo × Call → Option Bytes → Prop) : Option Bytes → List (FileIo × Call) → Prop
  | _, [] => True
  | file, x :: calls => p x file ∧ Throughout config p (call config x.1 x.2 file).1 calls

theorem recorded_iff_fits {config : Option Bytes} {x : FileIo × Call} {file : Option Bytes} (h : Holds (keepFinished config) file) :
    Recorded config x file ↔ FitsIn config x file := by
  have hloaded := h.loaded x.1
  refine forall_congr' fun st => forall_congr' fun hwritable => forall_congr' fun hreduce => ?_
  have hsound := (wrote_of_reduce hloaded.room hreduce).sound hloaded
  rw [← writeStore_fits hsound.printable, call, hreduce]
  dsimp only
  constructor
  · rintro ⟨text, hcall, -⟩
    cases hwrite : writeStore st with
    | none =>
      rw [hwrite] at hcall
      cases hcall
    | some written => exact ⟨written, rfl⟩
  · rintro ⟨text, hwrite⟩
    rw [hwrite]
    exact ⟨text, if_pos hwritable, (loadStore_writeStore hsound.printable hsound.room hwrite).1⟩

/-- A sequence of calls records all it has to record exactly when every store to be written fits. -/
theorem records_survive_iff (config : Option Bytes) (calls : List (FileIo × Call)) :
    Throughout config (Recorded config) none calls ↔ Throughout config (FitsIn config) none calls := by
  have hgeneral : ∀ file, Holds (keepFinished config) file →
      (Throughout config (Recorded config) file calls ↔ Throughout config (FitsIn config) file calls) := by
    induction calls with
    | nil => exact fun _ _ => Iff.rfl
    | cons x calls ih => exact fun file h => and_congr (recorded_iff_fits h) (ih _ (call_holds h))
  exact hgeneral none (.none _)

deriving instance DecidableEq for Reduced

/-- A start in a context whose name is as long as its field allows, and doubles when it is escaped. -/
def quoteStart : Bytes :=
  objText [(lit "handle", quoted (lit "op_1")), (lit "context_id", quoted (escaped (List.replicate 300 (ch '"'))))]

def quoteCall : FileIo × Call := ({}, .applyEvent (lit "operation_started") quoteStart)

/-- One start is accepted by the reducer and cannot be written: it leaves no record. -/
theorem quoted_context_lost :
    (∃ o, reduce (keepFinished none) quoteCall.2 (loadStore (fsReadText quoteCall.1 none)) = .written [o] ∧
      o.contextId.length < rtMed ∧ writeStore [o] = none) ∧
    call none quoteCall.1 quoteCall.2 none = (none, false) ∧ ¬ Recorded none quoteCall none := by
  obtain ⟨hcall, hreduce, hlost⟩ : call none quoteCall.1 quoteCall.2 none = (none, false) ∧
      reduce (keepFinished none) quoteCall.2 (loadStore (fsReadText quoteCall.1 none)) =
        .written [startedItem (startedOf (lit "op_1") quoteStart)] ∧
      (startedItem (startedOf (lit "op_1") quoteStart)).contextId.length < rtMed ∧
        writeStore [startedItem (startedOf (lit "op_1") quoteStart)] = none := by decide +kernel
  refine ⟨⟨_, hreduce, hlost⟩, hcall, fun hrecorded => ?_⟩
  obtain ⟨text, htext, -⟩ := hrecorded _ rfl hreduce
  rw [hcall] at htext
  cases htext

end Floofclaw.Guarantees.OperationFits
