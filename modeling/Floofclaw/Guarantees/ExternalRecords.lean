import Floofclaw.Source.Workers
import Floofclaw.Guarantees.TaskPayloads

/-!
# The external record of a task

What the driver writes into a task is read back by the phase: the update the
driver prints names the task, brings no work of its own, and leaves a record
whose attempt is the operation at its revision. No other event touches it.
-/

set_option autoImplicit false

namespace Floofclaw.Guarantees.ExternalRecords
open Floofclaw.Lib Floofclaw.Source.Json Floofclaw.Source.TaskState Floofclaw.Source.TaskEvents Floofclaw.Source.Workers
open Floofclaw.Guarantees.TaskStoreText Floofclaw.Guarantees.TaskRoundTrip Floofclaw.Guarantees.TaskPayloads
open Floofclaw.Guarantees.TaskStates

/-! ## The printed record -/

theorem mirror_squeezes {cap : Nat} {s e : Bytes} (h : mirror cap s = some e) : Squeezes (quoted e) (quoted e) := by
  rw [mirror] at h
  split at h
  · rename_i out hout
    cases h
    rw [(jsonEscape_fits hout).1]
    exact .text _
  · cases h

theorem externalMembers_written {eh ea es ex : Bytes} (hh : CleanValue (quoted eh)) (ha : CleanValue (quoted ea))
    (hs : CleanValue (quoted es)) (hx : CleanValue (quoted ex)) (workRev : Int) :
    WrittenMembers (externalMembers eh ea es ex workRev) :=
  .key (by decide) hh (.key (by decide) ha (.key (by decide) hs (.key (by decide) (.long workRev)
    (.key (by decide) hx .nil))))

theorem externalMembers_squeezes {eh ea es ex : Bytes} (hh : Squeezes (quoted eh) (quoted eh))
    (ha : Squeezes (quoted ea) (quoted ea)) (hs : Squeezes (quoted es) (quoted es)) (hx : Squeezes (quoted ex) (quoted ex))
    (workRev : Int) : Squeezes (objText (externalMembers eh ea es ex workRev)) (objText (externalMembers eh ea es ex workRev)) := by
  have hrev : Squeezes (decInt workRev) (decInt workRev) := .solid (numText_solid (decInt_numText workRev))
  have hkey {k : Bytes} (h : plainKey k = true) : StrBody k := plainKey_strBody h
  refine .objText ?_
  simp only [externalMembers, List.forall_mem_cons, List.not_mem_nil, false_implies, implies_true, and_true]
  exact ⟨⟨hkey (plainKey_lit (by decide)), hh⟩, ⟨hkey (plainKey_lit (by decide)), ha⟩, ⟨hkey (plainKey_lit (by decide)), hs⟩, ⟨hkey (plainKey_lit (by decide)), hrev⟩, hkey (plainKey_lit (by decide)), hx⟩

/-- What the readers meet of an update that carries an attempt. -/
structure Carries (payload taskId handle : Bytes) (workRev : Int) (record : Bytes) : Prop where
  top : jsonRefTopObject payload = some payload
  id : jsonRefObjectGetString payload (lit "task_id") rtSmall = some taskId
  external : rtTaskJsonStateValue payload (lit "external") = some record
  quiet : bringsWork (lit "task_updated") payload = false
  clean : CleanValue record
  squeezes : Squeezes record record
  attempt : InLong workRev → ∃ a, attemptOf record = some a ∧ a.handle = handle ∧ a.workRev = workRev

/-- The printed record is read back as an attempt. -/
theorem attemptOf_printed {handle eh ea es ex : Bytes} {workRev : Int} (hms : WrittenMembers (externalMembers eh ea es ex workRev))
    (hhandle : TextField rtSmall handle) (hne : handle ≠ []) (heh : mirror rtMed handle = some eh) (hrev : InLong workRev) :
    ∃ a, attemptOf (objText (externalMembers eh ea es ex workRev)) = some a ∧ a.handle = handle ∧ a.workRev = workRev := by
  have hfrom : jsonRefFromText (objText (externalMembers eh ea es ex workRev)) =
      some (objText (externalMembers eh ea es ex workRev)) :=
    jsonRefFromText_complete (CleanValue.objText hms).value (CleanValue.objText hms).nulFree
  have hobj := ObjText.inferType hms.objText
  have hget : jsonRefObjectGetString (objText (externalMembers eh ea es ex workRev)) (lit "handle") rtSmall = some handle :=
    written_text hms hhandle heh rfl
  have hlong : jsonRefObjectGetLong (objText (externalMembers eh ea es ex workRev)) (lit "work_rev") 0 = (workRev, true) := by
    rw [written_long hms rfl, jsonRefGetLong_decInt hrev.1 hrev.2]
  have hhead : (objText (externalMembers eh ea es ex workRev)).head? = some (ch '{') := rfl
  have hnull : objText (externalMembers eh ea es ex workRev) ≠ [] ∧
      objText (externalMembers eh ea es ex workRev) ≠ lit "null" := by
    refine ⟨nofun, fun heq => ?_⟩
    rw [heq] at hhead
    exact absurd hhead (by decide)
  rw [attemptOf, hfrom]
  simp only [Option.filter_some, hobj, decide_true, if_true, Option.bind_eq_bind, Option.bind_some, hget, hlong, guard]
  rw [if_pos hnull, if_pos hne]
  exact ⟨_, rfl, rfl, rfl⟩

theorem stateMembers_absent {etask key : Bytes} {ms : List (Bytes × Bytes)} (htask : CleanValue (quoted etask))
    (hms : WrittenMembers ms) (hkey : key ≠ lit "task_id" ∧ key ≠ lit "state") (habsent : assoc key ms = none) (cap : Nat) :
    rtTaskJsonStateString (objText [(lit "task_id", quoted etask), (lit "state", objText ms)]) key cap = none := by
  have htop : WrittenMembers [(lit "task_id", quoted etask), (lit "state", objText ms)] :=
    .key (by decide) htask (.key (by decide) (.objText hms) .nil)
  have hstate : jsonRefObjectGetObject (objText [(lit "task_id", quoted etask), (lit "state", objText ms)]) (lit "state") =
      some (objText ms) := by
    rw [jsonRefObjectGetObject, htop.get]
    exact Option.filter_eq_some_iff.mpr ⟨rfl, by simp [ObjText.inferType hms.objText]⟩
  have hnone : assoc key [(lit "task_id", quoted etask), (lit "state", objText ms)] = none := by
    simp [assoc, hkey.1.symm, hkey.2.symm]
  rw [rtTaskJsonStateString, hstate, Option.bind_some, jsonRefObjectGetString, hms.get, habsent]
  rw [Option.bind_none, jsonRefObjectGetString, htop.get, hnone]
  rfl

theorem externalPayload_carries {taskId handle action status excerpt payload : Bytes} {workRev : Int}
    (hid : TextField rtSmall taskId) (hhandle : TextField rtSmall handle) (hne : handle ≠ [])
    (h : externalPayload taskId handle action status excerpt workRev = some payload) :
    ∃ record, Carries payload taskId handle workRev record := by
  simp only [externalPayload, Option.bind_eq_bind, Option.bind_eq_some_iff, Option.pure_def, Option.some.injEq] at h
  obtain ⟨etask, htask, eh, heh, ea, hea, es, hes, ex, hex, -, -, rfl⟩ := h
  have hms := externalMembers_written (mirror_clean heh) (mirror_clean hea) (mirror_clean hes) (mirror_clean hex) workRev
  have hstate : WrittenMembers [(lit "external", objText (externalMembers eh ea es ex workRev))] :=
    .key (by decide) (.objText hms) .nil
  have htop : WrittenMembers [(lit "task_id", quoted etask),
      (lit "state", objText [(lit "external", objText (externalMembers eh ea es ex workRev))])] :=
    .key (by decide) (mirror_clean htask) (.key (by decide) (.objText hstate) .nil)
  refine ⟨objText (externalMembers eh ea es ex workRev), written_top htop, written_text htop hid htask rfl, ?_, ?_, .objText hms,
    externalMembers_squeezes (mirror_squeezes heh) (mirror_squeezes hea) (mirror_squeezes hes) (mirror_squeezes hex) workRev,
    attemptOf_printed hms hhandle hne heh⟩
  · rw [rtTaskJsonStateValue, jsonRefObjectGetObject, htop.get]
    have hobj : jsonRefInferType (objText [(lit "external", objText (externalMembers eh ea es ex workRev))]) = .object :=
      ObjText.inferType hstate.objText
    have hlook : assoc (lit "state") [(lit "task_id", quoted etask),
        (lit "state", objText [(lit "external", objText (externalMembers eh ea es ex workRev))])] =
          some (objText [(lit "external", objText (externalMembers eh ea es ex workRev))]) := rfl
    rw [hlook, Option.filter_some, if_pos (by simp [hobj]), Option.bind_some, hstate.get]
    rfl
  · rw [bringsWork_updated, stateMembers_absent (mirror_clean htask) hstate (by decide) rfl,
      stateMembers_absent (mirror_clean htask) hstate (by decide) rfl]
    rfl

/-! ## The reducer -/

/-- A compact text that fits stays as it is. -/
theorem valueCompact_stable {v old out : Bytes} {cap : Nat} (hv : CleanValue v) (hs : Squeezes v v)
    (h : valueCompact v cap old = (out, true)) : out = v := by
  have hcompact := jsonCompact_eq hv.nulFree (Compacts.of_stable hv.value hs) cap
  rw [valueCompact] at h
  split at h
  · cases h
  · rename_i raw hraw
    rw [valueCopy_eq hraw] at h
    split at h
    · rename_i o ho
      cases h
      rw [jsonCompact, ho] at hcompact
      by_cases hfit : v.length < cap
      · rw [if_pos hfit] at hcompact
        exact Option.some.inj hcompact
      · rw [if_neg hfit] at hcompact
        cases hcompact
    · cases h

theorem reduceArtifacts_external {t t' : TaskItem} {payload : JsonRef} (h : reduceArtifacts t payload = some t') :
    t'.external = t.external := by
  rw [reduceArtifacts] at h
  split at h
  · cases h
    rfl
  · split at h
    · obtain ⟨a, -, rfl⟩ := Option.map_eq_some_iff.mp h
      rfl
    · cases h

theorem stampUpdated_external (t : TaskItem) (updated : Int) : (stampUpdated t updated).external = t.external := by
  rw [stampUpdated]
  split <;> rfl

theorem reduceWorkingMemory_external {t t' : TaskItem} {payload : JsonRef} (h : reduceWorkingMemory t payload = some t') :
    t'.external = t.external := by
  rw [reduceWorkingMemory] at h
  split at h
  · cases h
  · cases h
  · split at h
    · cases h
    · split at h
      · cases h
        exact stampUpdated_external _ _
      · cases h
        rfl

/-- What an update makes of the record. -/
def ExternalSet (payload : JsonRef) (t t' : TaskItem) : Prop :=
  (rtTaskJsonStateValue payload (lit "external") = none ∧ t'.external = t.external) ∨
    ∃ v old, rtTaskJsonStateValue payload (lit "external") = some v ∧ valueCompact v taskExternalMax old = (t'.external, true)

theorem reduceUpdated_external {t t' : TaskItem} {payload : JsonRef} (h : reduceUpdated t payload = some t') :
    ExternalSet payload t t' := by
  rw [reduceUpdated] at h
  dsimp only at h
  split at h
  · cases h
  · split at h
    · rename_i hnone
      cases h
      exact .inl ⟨hnone, rfl⟩
    · rename_i v hv
      split at h
      · rename_i out hout
        cases h
        exact .inr ⟨v, _, hv, hout⟩
      · cases h

/-- The record of a row moves with the update that carries one, and with no other event. -/
theorem reduceItem_external {t t' : TaskItem} {type : Bytes} {payload : JsonRef} (h : reduceItem t type payload = some t') :
    if type = lit "task_updated" then ExternalSet payload t t' else t'.external = t.external := by
  rw [reduceItem] at h
  split at h
  · cases h
  · split at h
    · rename_i htype
      rw [if_neg (by rw [htype]; decide)]
      exact reduceWorkingMemory_external h
    · split at h
      · cases h
      · split at h
        · cases h
        · split at h
          · cases h
          · rename_i u hu
            have harts := reduceArtifacts_external h
            rw [reduceState] at hu
            split at hu
            · rename_i htype
              rw [if_pos htype]
              have hset := reduceUpdated_external hu
              rw [ExternalSet] at hset ⊢
              rw [stampUpdated_external] at hset
              rwa [harts]
            · rename_i htype
              rw [if_neg htype, harts]
              split at hu
              · cases hu
              · split at hu
                · cases hu
                  exact stampUpdated_external _ _
                · cases hu

/-- The row an update of the driver changes: its record becomes the attempt, and nothing of its work moves. -/
structure Recorded (rows : List TaskItem) (taskId : Bytes) (workRev : Int) (rows' : List TaskItem) (i : Nat)
    (t t' : TaskItem) : Prop where
  row : rows[i]? = some t
  result : rows' = rows.set i t'
  name : t.taskId = taskId
  named : taskId ≠ []
  id : t'.taskId = t.taskId
  kind : t'.kind = t.kind
  rev : t'.workRev = t.workRev
  attempt : InLong workRev → ∃ a, attemptOf t'.external = some a ∧ a.workRev = workRev

theorem applied_records {rows rows' : List TaskItem} {payload taskId handle record : Bytes} {workRev : Int}
    (hc : Carries payload taskId handle workRev record) (h : applyTaskEvent rows (lit "task_updated") payload = some rows') :
    ∃ i t t', Recorded rows taskId workRev rows' i t t' := by
  obtain ⟨payload', htop, hchange⟩ := applyTaskEvent_change h
  rw [hc.top] at htop
  cases htop
  cases hchange with
  | created _ _ htype => exact absurd htype (lit_ne (by decide))
  | recycled _ _ _ _ htype => exact absurd htype (by decide)
  | @changed _ i t t' hrow hname hid hitem =>
    have hchange := (reduceItem_change hitem).1
    have hexternal := reduceItem_external hitem
    rw [if_pos rfl] at hexternal
    rw [hc.id] at hname
    have hname : t.taskId = taskId := (Option.some.inj hname).symm
    have hrev : t'.workRev = t.workRev := by
      rw [hchange.rev, nextRev, hc.quiet]
      rfl
    have hrecord : t'.external = record := by
      rcases hexternal with ⟨hnone, -⟩ | ⟨v, old, hv, hcompact⟩
      · rw [hc.external] at hnone
        cases hnone
      · rw [hc.external] at hv
        cases hv
        exact valueCompact_stable hc.clean hc.squeezes hcompact
    refine ⟨i, t, t', hrow, rfl, hname, hname ▸ hid, hchange.id, hchange.kind, hrev, fun hlong => ?_⟩
    obtain ⟨a, ha, -, harev⟩ := hc.attempt hlong
    exact ⟨a, hrecord ▸ ha, harev⟩

end Floofclaw.Guarantees.ExternalRecords
