import Floofclaw.Source.AffairEvents
import Floofclaw.Guarantees.Affairs
import Floofclaw.Guarantees.TaskPayloads

/-!
# What an update of an affair touches

A patch travels through the normalizer and the reducer, and each fills in what
it does not find. A missing purpose, note or review time leaves the affair as it
was; a missing status arrives as `active`.
-/

set_option autoImplicit false

namespace Floofclaw.Guarantees.AffairUpdates
open Floofclaw.Lib Floofclaw.Source.Json Floofclaw.Source.AffairState Floofclaw.Source.AffairEvents
open Floofclaw.Source.TaskEvents (TaskOrigin contextFromCtx)
open Floofclaw.Guarantees.TaskPayloads (mirror_clean written_top written_text written_absent)
open Floofclaw.Guarantees.Affairs (affairFind_some)

/-- The payload has a member of this name. -/
def Mentions (payload : JsonRef) (key : Bytes) : Prop := jsonRefObjectGet payload key ≠ none

instance (payload : JsonRef) (key : Bytes) : Decidable (Mentions payload key) := inferInstanceAs (Decidable (_ ≠ _))

/-- What the payload does not mention is as it was. -/
structure Untouched (payload : JsonRef) (a a' : AffairItem) : Prop where
  status : ¬ Mentions payload (lit "status") → a'.status = a.status
  manage : ¬ Mentions payload (lit "manage") → a'.manage = a.manage
  nextReviewAtMs : ¬ Mentions payload (lit "next_review_at_ms") → a'.nextReviewAtMs = a.nextReviewAtMs
  notes : ¬ Mentions payload (lit "note_text") → a'.notes = a.notes
  counters : a'.counters = a.counters
  taskIds : a'.taskIds = a.taskIds

theorem stringField_read {obj key s : Bytes} {cap : Nat} (h : jsonRefObjectGetString obj key cap = some s) (old : Bytes) :
    stringField obj key cap old = s := by
  obtain ⟨v, hv, hcopy⟩ := Option.bind_eq_some_iff.mp h
  obtain ⟨out, hrun, hout⟩ := stringCopyWrite_of_copy hcopy
  simp only [stringField, hv, hrun, hout]

theorem stringField_unmentioned {payload : JsonRef} {key : Bytes} (h : ¬ Mentions payload key) (cap : Nat) (old : Bytes) :
    stringField payload key cap old = old := by
  rw [stringField, not_not.mp h]

theorem nextReview_unmentioned {payload : JsonRef} (h : ¬ Mentions payload (lit "next_review_at_ms")) :
    nextReviewMember payload = [] := by
  rw [nextReviewMember, jsonRefObjectGetLong, not_not.mp h]

/-! ## The normalized payload -/

theorem nextReviewMember_cases (payload : JsonRef) :
    nextReviewMember payload = [] ∨ ∃ nra : Int, nextReviewMember payload = [(lit "next_review_at_ms", decInt nra)] := by
  unfold nextReviewMember
  split
  · rename_i nra _
    split
    · exact .inr ⟨nra, rfl⟩
    · exact .inl rfl
  · exact .inl rfl

/-- What the reducer reads of the normalized payload. -/
structure Reads (payload : JsonRef) (action affairId : Bytes) (members : List (Bytes × Bytes)) : Prop where
  written : WrittenMembers members
  action : jsonRefObjectGetString (objText members) (lit "action") rtSmall = some action
  affairId : jsonRefObjectGetString (objText members) (lit "affair_id") rtSmall = some affairId
  manage : jsonRefObjectGetString (objText members) (lit "manage") rtMed = some (stringField payload (lit "manage") rtMed [])
  noteText : jsonRefObjectGetString (objText members) (lit "note_text") rtMed =
    some (stringField payload (lit "note_text") rtMed [])
  status : jsonRefObjectGetString (objText members) (lit "status") rtSmall =
    some (statusText ((affairStatusCanonical (stringField payload (lit "status") rtSmall [])).getD .active))
  nextReviewAtMs : assoc (lit "next_review_at_ms") members = assoc (lit "next_review_at_ms") (nextReviewMember payload)

theorem statusText_text (s : AffairStatus) : TextField rtSmall (statusText s) := by
  cases s <;> exact ⟨.of_all (by decide), by decide⟩

theorem patchMembers_reads {ms : Int} {context affairId action : Bytes} {payload : JsonRef} {members : List (Bytes × Bytes)}
    (haction : TextField rtSmall action) (hid : TextField rtSmall affairId)
    (h : patchMembers ms context affairId action payload = some members) : Reads payload action affairId members := by
  unfold patchMembers at h
  obtain ⟨eaction, h1, h⟩ := Option.bind_eq_some_iff.mp h
  obtain ⟨emanage, h2, h⟩ := Option.bind_eq_some_iff.mp h
  obtain ⟨enote, h3, h⟩ := Option.bind_eq_some_iff.mp h
  obtain ⟨estatus, h4, h⟩ := Option.bind_eq_some_iff.mp h
  obtain ⟨eaffair, h5, h⟩ := Option.bind_eq_some_iff.mp h
  obtain ⟨ectx, h6, h⟩ := Option.bind_eq_some_iff.mp h
  have hmanage : TextField rtMed (stringField payload (lit "manage") rtMed []) := stringField_text (textField_nil (by decide))
  have hnote : TextField rtMed (stringField payload (lit "note_text") rtMed []) :=
    stringField_text (textField_nil (by decide))
  have htimes : WrittenMembers [(lit "created_ms", decInt ms), (lit "updated_ms", decInt ms)] :=
    .key (by decide) (.long _) <| .key (by decide) (.long _) .nil
  have htail : WrittenMembers (nextReviewMember payload ++ [(lit "created_ms", decInt ms), (lit "updated_ms", decInt ms)]) := by
    rcases nextReviewMember_cases payload with hnone | ⟨nra, hnra⟩
    · rw [hnone]
      exact htimes
    · rw [hnra]
      exact .key (by decide) (.long _) htimes
  have hwritten : WrittenMembers members := by
    cases h
    exact .key (by decide) (mirror_clean h1) <| .key (by decide) (mirror_clean h5) <|
      .key (by decide) (mirror_clean h6) <| .key (by decide) (mirror_clean h2) <|
      .key (by decide) (mirror_clean h3) <| .key (by decide) (mirror_clean h4) htail
  cases h
  exact
    { written := hwritten
      action := written_text hwritten haction h1 rfl
      affairId := written_text hwritten hid h5 rfl
      manage := written_text hwritten hmanage h2 rfl
      noteText := written_text hwritten hnote h3 rfl
      status := written_text hwritten (statusText_text _) h4 rfl
      nextReviewAtMs := by
        rcases nextReviewMember_cases payload with hnone | ⟨nra, hnra⟩
        · rw [hnone]
          rfl
        · rw [hnra]
          rfl }

/-- The status a payload asks for; a missing one asks for `active`. -/
def askedStatus (payload : JsonRef) : AffairStatus :=
  (affairStatusCanonical (stringField payload (lit "status") rtSmall [])).getD .active

theorem askedStatus_unmentioned {payload : JsonRef} (h : ¬ Mentions payload (lit "status")) : askedStatus payload = .active := by
  rw [askedStatus, stringField_unmentioned h]
  rfl

theorem canonical_statusText (s : AffairStatus) : affairStatusCanonical (statusText s) = some s := by
  cases s <;> decide

/-- The patch the reducer finds in the normalized payload. -/
theorem patchOf_reads {now : Int} {payload : JsonRef} {action affairId : Bytes} {members : List (Bytes × Bytes)}
    (h : Reads payload action affairId members) {p : AffairPatch} (hp : patchOf now (objText members) = some p) :
    p.action = action ∧ p.affairId = affairId ∧ p.manage = stringField payload (lit "manage") rtMed [] ∧
      p.noteText = stringField payload (lit "note_text") rtMed [] ∧ p.status = askedStatus payload ∧
      (nextReviewMember payload = [] → p.nextReviewAtMs = none) := by
  obtain ⟨action', haction, hp⟩ := Option.bind_eq_some_iff.mp hp
  obtain ⟨id', hid, hp⟩ := Option.bind_eq_some_iff.mp hp
  obtain ⟨ctx, -, hp⟩ := Option.bind_eq_some_iff.mp hp
  cases h.action.symm.trans haction
  cases h.affairId.symm.trans hid
  cases hp
  refine ⟨rfl, rfl, stringField_read h.manage _, stringField_read h.noteText _, ?_, fun hnone => ?_⟩
  · dsimp only
    rw [stringField_read h.status, canonical_statusText]
    rfl
  · have hget := h.nextReviewAtMs
    rw [hnone] at hget
    dsimp only
    rw [written_absent h.written hget]

/-! ## The update -/

theorem noteAppend_keeps (now ms : Int) (text : Bytes) (a : AffairItem) :
    (noteAppend now ms text a).status = a.status ∧ (noteAppend now ms text a).manage = a.manage ∧
      (noteAppend now ms text a).nextReviewAtMs = a.nextReviewAtMs ∧ (noteAppend now ms text a).counters = a.counters ∧
      (noteAppend now ms text a).taskIds = a.taskIds := by
  rw [noteAppend]
  split
  · exact ⟨rfl, rfl, rfl, rfl, rfl⟩
  · exact ⟨rfl, rfl, rfl, rfl, rfl⟩

/-- The item an update leaves, field by field. -/
theorem patchedItem_update (now : Int) {p : AffairPatch} (haction : p.action = lit "update") (a : AffairItem) :
    (patchedItem now p a).status = p.status ∧
      (patchedItem now p a).manage = (if p.manage = [] then a.manage else p.manage) ∧
      (p.nextReviewAtMs = none → (patchedItem now p a).nextReviewAtMs = a.nextReviewAtMs) ∧
      (p.noteText = [] → (patchedItem now p a).notes = a.notes) ∧
      (patchedItem now p a).counters = a.counters ∧ (patchedItem now p a).taskIds = a.taskIds := by
  rw [patchedItem, if_pos haction]
  dsimp only
  have hmanaged : ∃ b : AffairItem, b = (if p.manage = [] then a else { a with manage := p.manage }) ∧
      b.manage = (if p.manage = [] then a.manage else p.manage) ∧ b.nextReviewAtMs = a.nextReviewAtMs ∧
      b.notes = a.notes ∧ b.counters = a.counters ∧ b.taskIds = a.taskIds := by
    refine ⟨_, rfl, ?_⟩
    split
    · exact ⟨rfl, rfl, rfl, rfl, rfl⟩
    · exact ⟨rfl, rfl, rfl, rfl, rfl⟩
  obtain ⟨b, hb, hmanage, hnext, hnotes, hcounters, htasks⟩ := hmanaged
  rw [← hb]
  obtain ⟨-, hkeptManage, hkeptNext, hkeptCounters, hkeptTasks⟩ := noteAppend_keeps now p.updatedMs p.noteText b
  refine ⟨rfl, hkeptManage.trans hmanage, fun hnone => ?_, fun hnote => ?_, hkeptCounters.trans hcounters,
    hkeptTasks.trans htasks⟩
  · rw [hnone]
    exact hkeptNext.trans hnext
  · rw [noteAppend, if_pos hnote]
    exact hnotes

/-- Only the status of an update can be out of what was mentioned. -/
theorem patchedItem_untouched {now : Int} {payload : JsonRef} {affairId : Bytes} {members : List (Bytes × Bytes)}
    (h : Reads payload (lit "update") affairId members) {p : AffairPatch} (hp : patchOf now (objText members) = some p)
    (a : AffairItem) :
    Untouched payload a (patchedItem now p a) ↔ Mentions payload (lit "status") ∨ a.status = .active := by
  obtain ⟨haction, -, hmanage, hnote, hstatus, hnext⟩ := patchOf_reads h hp
  obtain ⟨hstatus', hmanage', hnext', hnotes', hcounters, htasks⟩ := patchedItem_update now haction a
  constructor
  · intro huntouched
    by_cases hmention : Mentions payload (lit "status")
    · exact .inl hmention
    · refine .inr ?_
      rw [← huntouched.status hmention, hstatus', hstatus]
      exact askedStatus_unmentioned hmention
  · intro hkept
    refine ⟨fun hmention => ?_, fun hmention => ?_, fun hmention => ?_, fun hmention => ?_, hcounters, htasks⟩
    · rw [hstatus', hstatus, askedStatus_unmentioned hmention]
      exact (hkept.resolve_left hmention).symm
    · rw [hmanage', hmanage, stringField_unmentioned hmention, if_pos rfl]
    · exact hnext' (hnext (nextReview_unmentioned hmention))
    · refine hnotes' ?_
      rw [hnote, stringField_unmentioned hmention]

/-- What the reducer does with a patch that is not a creation. -/
theorem applyAffairPatch_update {now : Int} {p : AffairPatch} {st st' : AffairStore} (haction : p.action ≠ lit "create")
    (h : applyAffairPatch now p st = some st') :
    ∃ a, affairFind st p.affairId = some a ∧ st' = patchedItem now p a :: st.eraseP (hasId p.affairId) := by
  rw [applyAffairPatch, if_neg haction] at h
  split at h
  · cases h
  · rename_i a hfind
    split at h
    · cases h
    · cases h
      exact ⟨a, hfind, rfl⟩

/-- An update keeps what it does not mention exactly when it mentions the status or the affair is active. -/
theorem update_touches_named (o : TaskOrigin) (ms now : Int) (eventSeq outLen : Nat) (st st' : AffairStore)
    (payload : JsonRef) (text : Bytes)
    (haction : jsonRefObjectGetString payload (lit "action") rtSmall = some (lit "update"))
    (hnormal : rtAffairNormalizeEvent o ms eventSeq outLen st payload = .payload text)
    (happly : rtAffairApplyEvent now (lit "affair_patch") text st = some st') :
    ∃ id a a', jsonRefObjectGetString payload (lit "affair_id") rtSmall = some id ∧ affairFind st id = some a ∧
      affairFind st' id = some a' ∧ (Untouched payload a a' ↔ Mentions payload (lit "status") ∨ a.status = .active) := by
  have hnames : lit "update" ≠ lit "none" ∧ lit "update" ≠ lit "create" := by (repeat rw [lit_ofList]); decide
  rw [rtAffairNormalizeEvent] at hnormal
  split at hnormal
  · cases hnormal
  rw [haction] at hnormal
  dsimp only at hnormal
  rw [if_neg hnames.1, if_neg (not_not.mpr (.inr (.inr rfl)))] at hnormal
  split at hnormal
  · cases hnormal
  rename_i members hmembers
  cases hnormal
  obtain ⟨id, hid, hmembers⟩ := Option.bind_eq_some_iff.mp hmembers
  rw [patchAffair, if_neg hnames.2, Option.filter_eq_some_iff] at hid
  have hreads := patchMembers_reads (getString_text haction) (getString_text hid.1) (Option.filter_eq_some_iff.mp hmembers).1
  have htype : rtAffairIsEventType (lit "affair_patch") = true := by rw [lit_ofList]; decide
  rw [rtAffairApplyEvent, htype, Bool.not_true, if_neg Bool.false_ne_true, written_top hreads.written] at happly
  dsimp only at happly
  rw [if_pos rfl] at happly
  obtain ⟨p, hp, happlied⟩ := Option.bind_eq_some_iff.mp happly
  obtain ⟨hpaction, hpid, -⟩ := patchOf_reads hreads hp
  obtain ⟨a, hfind, rfl⟩ := applyAffairPatch_update (hpaction ▸ hnames.2) happlied
  rw [hpid] at hfind
  refine ⟨id, a, patchedItem now p a, hid.1, hfind, ?_, patchedItem_untouched hreads hp a⟩
  obtain ⟨haid, hne, -⟩ := affairFind_some hfind
  have hkept := (Affairs.patchedItem_same now p a).1
  rw [affairFind, if_neg hne, List.find?_cons_of_pos]
  rw [hasId, decide_eq_true_eq, hkept, haid]

/-! ## A note-only update of a paused affair -/

def pausedAffair : AffairItem :=
  { affairId := lit "a1", contextId := lit "chat:x", status := .paused, manage := lit "watch", nextReviewAtMs := 0
    taskIds := [], notes := [], counters := [], createdMs := 1, updatedMs := 1 }

def noteOnly : Bytes := lit "\x7b\"action\":\"update\",\"affair_id\":\"a1\",\"note_text\":\"seen\"\x7d"

def chatX : TaskOrigin := { run := 1, contextId := lit "chat:x" }

theorem update_touches_named_status : ∃ id a a',
    jsonRefObjectGetString (lit "\x7b\"action\":\"update\",\"affair_id\":\"a1\",\"status\":\"closed\"\x7d") (lit "affair_id") rtSmall = some id ∧
      affairFind [pausedAffair] id = some a ∧
      affairFind [{ pausedAffair with status := .closed, updatedMs := 7 }] id = some a' ∧
      Untouched (lit "\x7b\"action\":\"update\",\"affair_id\":\"a1\",\"status\":\"closed\"\x7d") a a' := by
  obtain ⟨id, a, a', hid, ha, ha', hiff⟩ := update_touches_named chatX 7 7 1 rtXl [pausedAffair]
    [{ pausedAffair with status := .closed, updatedMs := 7 }]
    (lit "\x7b\"action\":\"update\",\"affair_id\":\"a1\",\"status\":\"closed\"\x7d")
    (lit "\x7b\"action\":\"update\",\"affair_id\":\"a1\",\"context_id\":\"chat:x\",\"manage\":\"\",\"note_text\":\"\",\"status\":\"closed\",\"created_ms\":7,\"updated_ms\":7\x7d")
    (by rw [lit_ofList]; decide +kernel) (by rw [lit_ofList, lit_ofList]; decide +kernel) (by rw [lit_ofList, lit_ofList]; decide +kernel)
  exact ⟨id, a, a', hid, ha, ha', hiff.mpr (.inl (by rw [lit_ofList]; decide +kernel))⟩

/-- The note reactivates the affair. -/
theorem note_reactivates : ∃ text st',
    rtAffairNormalizeEvent chatX 7 1 rtXl [pausedAffair] noteOnly = .payload text ∧
      rtAffairApplyEvent 7 (lit "affair_patch") text [pausedAffair] = some st' ∧
      ¬ Mentions noteOnly (lit "status") ∧ (affairFind [pausedAffair] (lit "a1")).map (·.status) = some .paused ∧
      (affairFind st' (lit "a1")).map (·.status) = some .active := by
  refine ⟨lit "\x7b\"action\":\"update\",\"affair_id\":\"a1\",\"context_id\":\"chat:x\",\"manage\":\"\",\"note_text\":\"seen\",\"status\":\"active\",\"created_ms\":7,\"updated_ms\":7\x7d",
    [{ pausedAffair with status := .active, notes := [⟨lit "1970-01-01T00:00:00Z", lit "seen"⟩], updatedMs := 7 }], ?_⟩
  rw [show noteOnly = _ from lit_ofList _]
  repeat rw [lit_ofList]
  decide +kernel

end Floofclaw.Guarantees.AffairUpdates
