import Floofclaw.Guarantees.FirstEvent
import Floofclaw.Source.WorkOutcome

/-!
# Room for the outcome of a work task

The outcome of a work task repeats the result it was concluded from, inside an
event and a wake of their own. The wake has the room of the event that brought
the result, and holds more besides: an admitted result can be too long to be
concluded.
-/

set_option autoImplicit false

namespace Floofclaw.Guarantees.WorkOutcomes
open Floofclaw.Lib Floofclaw.Source.Json Floofclaw.Source.EventLog Floofclaw.Source.Inbound Floofclaw.Source.WorkOutcome
open Floofclaw.Guarantees.FirstEvent

/-- The octets a text takes when escaped. -/
def escLen (s : Bytes) : Nat := (escaped (cstr s)).length

/-- A member with a text, and one with a value as it stands, each with its comma. -/
def textSize (key s : Bytes) : Nat := key.length + escLen s + 6
def rawSize (key v : Bytes) : Nat := key.length + v.length + 4

theorem mirror_cases (cap : Nat) (s : Bytes) :
    mirror cap s = if escLen s < cap then some (escaped (cstr s)) else none := by
  by_cases hfit : escLen s < cap
  · rw [if_pos hfit, mirror, jsonEscape_complete hfit]
  · rw [if_neg hfit, mirror]
    split
    · rename_i out hout
      obtain ⟨rfl, hlt⟩ := jsonEscape_fits hout
      exact absurd hlt hfit
    · rfl

theorem mirror_some {cap : Nat} {s e : Bytes} (h : mirror cap s = some e) : e = escaped (cstr s) ∧ escLen s < cap := by
  rw [mirror_cases] at h
  split at h
  · rename_i hfit
    exact ⟨(Option.some.inj h).symm, hfit⟩
  · cases h

theorem escLen_nil : escLen [] = 0 := rfl

/-! ## The sizes -/

/-- Every id fits the buffer it is escaped into. -/
structure IdsFit (call : BoundCall) (parts : OutcomeParts) : Prop where
  task : escLen call.taskId < rtMed
  context : escLen call.contextId < rtLarge
  affair : escLen parts.affairId < rtMed
  channel : escLen call.originChannel < rtMed
  adapter : escLen call.originAdapterId < rtMed
  origin : escLen call.originEventId < rtMed
  request : escLen call.requestId < rtMed
  action : escLen call.action < rtMed
  trigger : escLen call.triggerEventId < rtMed
  source : escLen call.sourceEventId < rtMed

def affairSize (affairId : Bytes) : Nat := if affairId = [] then 4 else escLen affairId + 2

def refSize (refJson : Bytes) : Nat := if refJson = [] then 4 else refJson.length

/-- A reference of more than 512 octets is left out of the wake. -/
def wakeRefSize (refJson : Bytes) : Nat := if refJson ≠ [] ∧ refJson.length ≤ 512 then refJson.length else 4

def statusSize (blocked : Bool) : Nat := if blocked then 7 else 9

/-- What the ids take in the event and in the wake alike. -/
def idsSize (call : BoundCall) (parts : OutcomeParts) : Nat :=
  textSize (lit "task_id") call.taskId + rawSize (lit "work_rev") (decInt call.workRev) +
    textSize (lit "context_id") call.contextId + textSize (lit "request_id") call.requestId +
    textSize (lit "action") call.action + textSize (lit "trigger_event_id") call.triggerEventId +
    textSize (lit "source_event_id") call.sourceEventId + (12 + statusSize call.blocked) + (13 + affairSize parts.affairId) +
    textSize (lit "adapter_id") call.originAdapterId + textSize (lit "origin_event_id") call.originEventId

/-- The octets of the terminal event's payload. -/
def payloadSize (call : BoundCall) (parts : OutcomeParts) : Nat :=
  1 + idsSize call parts + textSize (lit "channel") call.originChannel + (7 + refSize call.originRefJson) +
    textSize (lit "summary") parts.summary + textSize (lit "result_text") parts.resultText +
    (if call.blocked then textSize (lit "blocker") parts.blocker + textSize (lit "needed") parts.needed else 0) +
    rawSize (lit "operation_ref") parts.operation + rawSize (lit "artifacts") parts.artifacts +
    rawSize (lit "evidence_refs") parts.evidence +
    (10 + statusSize call.blocked + 12 + rawSize (lit "updated_ms") (decInt parts.updatedMs))

/-- The text of a wake: the result, or the bounded summary when there is none. -/
def wakeText (parts : OutcomeParts) : Bytes := if parts.resultText = [] then boundedText parts.summary else parts.resultText

/-- The octets of the wake. -/
def wakeSize (call : BoundCall) (parts : OutcomeParts) : Nat :=
  1 + idsSize call parts + textSize (lit "summary") (boundedText parts.summary) + textSize (lit "text") (wakeText parts) +
    (if call.blocked then textSize (lit "blocker") (boundedText parts.summary) +
      textSize (lit "needed") (boundedText parts.needed) else 0) + (7 + wakeRefSize call.originRefJson)

/-- The outcome fits: its ids, its event and its wake. -/
structure Room (call : BoundCall) (parts : OutcomeParts) : Prop where
  ids : IdsFit call parts
  payload : payloadSize call parts < rtXl
  wake : wakeSize call parts < rtEventPayloadMax

/-! ## The texts -/

def escapedIds (call : BoundCall) (parts : OutcomeParts) : EscapedIds :=
  { etask := escaped (cstr call.taskId), ectx := escaped (cstr call.contextId), eaffair := escaped (cstr parts.affairId)
    echannel := escaped (cstr call.originChannel), eadapter := escaped (cstr call.originAdapterId)
    eorigin := escaped (cstr call.originEventId), erid := escaped (cstr call.requestId), eaction := escaped (cstr call.action)
    etrigger := escaped (cstr call.triggerEventId), esource := escaped (cstr call.sourceEventId) }

def escapedTexts (parts : OutcomeParts) : EscapedTexts :=
  { esummary := escaped (cstr parts.summary), eblocker := escaped (cstr parts.blocker)
    eneeded := escaped (cstr parts.needed), eresult := escaped (cstr parts.resultText) }

section Write
variable (call : BoundCall) (parts : OutcomeParts)

theorem escapeIds_of_fit {call : BoundCall} {parts : OutcomeParts} (h : IdsFit call parts) :
    escapeIds call parts = some (escapedIds call parts) := by
  simp only [escapeIds, mirror_cases, if_pos h.task, if_pos h.context, if_pos h.affair, if_pos h.channel, if_pos h.adapter,
    if_pos h.origin, if_pos h.request, if_pos h.action, if_pos h.trigger, if_pos h.source, Option.bind_eq_bind,
    Option.bind_some]
  rfl

theorem idsFit_of_some {call : BoundCall} {parts : OutcomeParts} {ids : EscapedIds} (h : escapeIds call parts = some ids) :
    IdsFit call parts := by
  unfold escapeIds at h
  obtain ⟨_, h1, h⟩ := Option.bind_eq_some_iff.mp h
  obtain ⟨_, h2, h⟩ := Option.bind_eq_some_iff.mp h
  obtain ⟨_, h3, h⟩ := Option.bind_eq_some_iff.mp h
  obtain ⟨_, h4, h⟩ := Option.bind_eq_some_iff.mp h
  obtain ⟨_, h5, h⟩ := Option.bind_eq_some_iff.mp h
  obtain ⟨_, h6, h⟩ := Option.bind_eq_some_iff.mp h
  obtain ⟨_, h7, h⟩ := Option.bind_eq_some_iff.mp h
  obtain ⟨_, h8, h⟩ := Option.bind_eq_some_iff.mp h
  obtain ⟨_, h9, h⟩ := Option.bind_eq_some_iff.mp h
  obtain ⟨_, h10, -⟩ := Option.bind_eq_some_iff.mp h
  exact ⟨(mirror_some h1).2, (mirror_some h2).2, (mirror_some h3).2, (mirror_some h4).2, (mirror_some h5).2,
    (mirror_some h6).2, (mirror_some h7).2, (mirror_some h8).2, (mirror_some h9).2, (mirror_some h10).2⟩

theorem quoted_size (s : Bytes) : (quoted (escaped (cstr s))).length = escLen s + 2 := by
  simp [quoted, escLen]

theorem statusText_size (blocked : Bool) : (quoted (statusText blocked)).length = statusSize blocked + 2 := by
  cases blocked <;> rfl

theorem affairField_size (affairId : Bytes) : (affairField affairId (escaped (cstr affairId))).length = affairSize affairId := by
  rw [affairField, affairSize]
  split
  · rfl
  · exact quoted_size affairId

theorem status_key : (lit "status").length = 6 := rfl
theorem affair_key : (lit "affair_id").length = 9 := rfl
theorem ref_key : (lit "ref").length = 3 := rfl
theorem state_key : (lit "state").length = 5 := rfl

theorem state_size : (objText [(lit "status", quoted (statusText call.blocked)),
    (lit "updated_ms", decInt parts.updatedMs)]).length =
      13 + statusSize call.blocked + rawSize (lit "updated_ms") (decInt parts.updatedMs) := by
  rw [objText_length (by simp)]
  simp only [List.map_cons, List.map_nil, List.sum_cons, List.sum_nil, statusText_size, status_key, rawSize]
  omega

theorem ref_size (refJson : Bytes) : (if refJson = [] then lit "null" else refJson).length = refSize refJson := by
  rw [refSize]
  split <;> rfl

theorem wakeRef_size (refJson : Bytes) :
    (if refJson ≠ [] ∧ refJson.length ≤ 512 then refJson else lit "null").length = wakeRefSize refJson := by
  rw [wakeRefSize]
  split <;> rfl

theorem payload_length (hneeded : call.blocked = true → parts.needed ≠ []) :
    (objText (payloadMembers call parts (escapedIds call parts) (escapedTexts parts))).length = payloadSize call parts := by
  have hextra : ((if call.blocked then [(lit "blocker", quoted (escaped (cstr parts.blocker)))] else []) ++
      if call.blocked ∧ parts.needed ≠ [] then [(lit "needed", quoted (escaped (cstr parts.needed)))] else []).map
        (fun m => m.1.length + m.2.length + 4) =
      if call.blocked then [textSize (lit "blocker") parts.blocker, textSize (lit "needed") parts.needed] else [] := by
    cases hblocked : call.blocked with
    | false => simp
    | true => simp [hneeded hblocked, quoted_size, textSize, Nat.add_assoc]
  rw [objText_length (by simp [payloadMembers]), payloadMembers, ← List.append_assoc (if call.blocked then _ else _),
    List.map_append, List.map_append]
  simp only [escapedTexts]
  rw [hextra]
  simp only [List.sum_append, List.map_cons, List.map_nil, List.sum_cons, List.sum_nil, escapedIds, quoted_size,
    statusText_size, affairField_size, ref_size, state_size, status_key, affair_key, ref_key, state_key, payloadSize, idsSize,
    textSize, rawSize]
  cases call.blocked with
  | false =>
    simp only [Bool.false_eq_true, if_false, List.sum_nil]
    omega
  | true =>
    simp only [if_true, List.sum_cons, List.sum_nil]
    omega

theorem wake_length :
    (objText (wakeMembers call parts (escapedIds call parts) (escapedTexts parts) (escaped (cstr (boundedText parts.summary)))
      (escaped (cstr (boundedText parts.needed))))).length = wakeSize call parts := by
  have htext : (if parts.resultText = [] then escaped (cstr (boundedText parts.summary)) else
      escaped (cstr parts.resultText)) = escaped (cstr (wakeText parts)) := by
    rw [wakeText]
    split <;> rfl
  rw [objText_length (by simp [wakeMembers]), wakeMembers]
  simp only [escapedTexts, htext, List.map_append, List.sum_append, List.map_cons, List.map_nil, List.sum_cons, List.sum_nil,
    escapedIds, quoted_size, statusText_size, affairField_size, wakeRef_size, status_key, affair_key, ref_key, wakeSize, idsSize,
    textSize, rawSize]
  cases call.blocked with
  | false =>
    simp only [Bool.false_eq_true, if_false, List.map_nil, List.sum_nil]
    omega
  | true =>
    simp only [if_true, List.map_cons, List.map_nil, List.sum_cons, List.sum_nil, quoted_size]
    omega

/-- A bounded text always fits its mirror. -/
theorem bounded_mirror (s : Bytes) : mirror rtLarge (boundedText s) = some (escaped (cstr (boundedText s))) := by
  have hlen : (cstr (boundedText s)).length ≤ 384 := by
    have hle := cstr_length_le (boundedText s)
    rw [boundedText, List.length_take] at hle
    rw [boundedText]
    omega
  have hsix := (escaped_length (cstr (boundedText s))).2
  have hcap : rtLarge = 4096 := rfl
  rw [mirror_cases, if_pos (by rw [escLen]; omega)]

/-- What is not read of an outcome that is not blocked. -/
structure Read (call : BoundCall) (parts : OutcomeParts) : Prop where
  summary : parts.summary ≠ []
  needed : call.blocked = true → parts.needed ≠ []
  plain : call.blocked = false → parts.blocker = [] ∧ parts.needed = []

theorem escapeTexts_of_room {call : BoundCall} {parts : OutcomeParts} (hread : Read call parts)
    (h : payloadSize call parts < rtXl) : escapeTexts parts = some (escapedTexts parts) := by
  have hxl : rtXl = 65536 := rfl
  simp only [payloadSize, textSize] at h
  have hblocker : escLen parts.blocker < rtXl ∧ escLen parts.needed < rtXl := by
    cases hblocked : call.blocked with
    | false =>
      obtain ⟨hb, hn⟩ := hread.plain hblocked
      rw [hb, hn, escLen_nil]
      omega
    | true =>
      rw [hblocked, if_pos rfl] at h
      omega
  simp only [escapeTexts, mirror_cases, if_pos hblocker.1, if_pos hblocker.2, if_pos (show escLen parts.summary < rtXl by omega),
    if_pos (show escLen parts.resultText < rtXl by omega), Option.bind_eq_bind, Option.bind_some]
  rfl

theorem escapeTexts_some {parts : OutcomeParts} {texts : EscapedTexts} (h : escapeTexts parts = some texts) :
    texts = escapedTexts parts := by
  simp only [escapeTexts, Option.bind_eq_bind, Option.bind_eq_some_iff, Option.pure_def, Option.some.injEq] at h
  obtain ⟨_, h1, _, h2, _, h3, _, h4, rfl⟩ := h
  rw [(mirror_some h1).1, (mirror_some h2).1, (mirror_some h3).1, (mirror_some h4).1]
  rfl

/-- The texts are written exactly when there is room for them. -/
theorem writeOutcome_ok_iff {call : BoundCall} {parts : OutcomeParts} (hread : Read call parts) :
    (∃ texts, writeOutcome call parts = .ok texts) ↔ Room call parts := by
  have hvalid : ¬ (parts.summary = [] ∨ (call.blocked = true ∧ parts.needed = [])) := by
    rintro (h | ⟨hb, hn⟩)
    · exact hread.summary h
    · exact hread.needed hb hn
  constructor
  · rintro ⟨texts, h⟩
    rw [writeOutcome, if_neg hvalid] at h
    split at h
    · rename_i ids etexts hids htexts
      have hfit := idsFit_of_some hids
      rw [escapeIds_of_fit hfit, Option.some.injEq] at hids
      rw [← hids, escapeTexts_some htexts, bounded_mirror, bounded_mirror] at h
      dsimp only at h
      rw [payload_length call parts hread.needed, wake_length] at h
      split at h
      · cases h
      · rename_i hpayload
        split at h
        · cases h
        · rename_i hwake
          exact ⟨hfit, Nat.lt_of_not_le hpayload, Nat.lt_of_not_le hwake⟩
    · cases h
  · intro hroom
    have hids := escapeIds_of_fit hroom.ids
    have htexts := escapeTexts_of_room hread hroom.payload
    rw [writeOutcome, if_neg hvalid, hids, htexts]
    dsimp only
    rw [payload_length call parts hread.needed, if_neg (Nat.not_le.mpr hroom.payload), bounded_mirror, bounded_mirror]
    dsimp only
    rw [wake_length, if_neg (Nat.not_le.mpr hroom.wake)]
    exact ⟨_, rfl⟩

end Write

/-! ## The verdict -/

/-- The call is turned away because a text does not fit: an escaped id or text, the event, the wake, or the wake in the
outbox. -/
def RefusedForRoom (env : WorkEnv) (call : BoundCall) : Prop :=
  terminalizeBoundWork env call = .error .outcomeInvalid ∨ terminalizeBoundWork env call = .error .exceedsBoundary ∨
    terminalizeBoundWork env call = .error .wakeTooLong ∨
    ∃ parts payload wake compact, readOutcome env call = .ok parts ∧ writeOutcome call parts = .ok (payload, wake) ∧
      jsonCompact (wake.length + 1) wake = some compact ∧ busPayloadMax ≤ compact.length

theorem writeOutcome_error {call : BoundCall} {parts : OutcomeParts} {refusal : Refusal}
    (h : writeOutcome call parts = .error refusal) :
    refusal = .outcomeInvalid ∨ refusal = .exceedsBoundary ∨ refusal = .wakeTooLong := by
  rw [writeOutcome] at h
  split at h
  · cases h
    exact .inl rfl
  · split at h
    · dsimp only at h
      split at h
      · cases h
        exact .inr (.inl rfl)
      · split at h
        · split at h
          · cases h
            exact .inr (.inr rfl)
          · cases h
        · cases h
          exact .inr (.inr rfl)
    · cases h
      exact .inl rfl

/-- What `readOutcome` gives is blank where the kind of the outcome has nothing to read. -/
theorem readOutcome_plain {env : WorkEnv} {call : BoundCall} {parts : OutcomeParts} (h : readOutcome env call = .ok parts)
    (hblocked : call.blocked = false) : parts.blocker = [] ∧ parts.needed = [] := by
  simp only [readOutcome, hblocked, Bool.false_eq_true, if_false] at h
  repeat' split at h
  all_goals cases h
  all_goals exact ⟨rfl, rfl⟩

theorem compactLoop_length_le (outLen : Nat) (inString : Bool) (src out : Bytes) :
    (compactLoop outLen inString src out).1.length ≤ out.length + src.length := by
  fun_induction compactLoop outLen inString src out <;>
    simp only [List.length_append, List.length_cons, List.length_nil] at * <;> omega

/-- A compacted wake is no longer than the wake, so the check of the outbox asks for nothing more. -/
theorem wake_fits_outbox {call : BoundCall} {parts : OutcomeParts} {payload wake compact : Bytes}
    (h : writeOutcome call parts = .ok (payload, wake)) (hcompact : jsonCompact (wake.length + 1) wake = some compact) :
    compact.length < busPayloadMax := by
  have hwake : wake.length < rtEventPayloadMax := by
    rw [writeOutcome] at h
    split at h
    · cases h
    · split at h
      · dsimp only at h
        split at h
        · cases h
        · split at h
          · split at h
            · cases h
            · rename_i hfit
              cases h
              exact Nat.lt_of_not_le hfit
          · cases h
      · cases h
  have hle : compact.length ≤ wake.length := by
    rw [jsonCompact, jsonCompactWrite, if_neg (by omega)] at hcompact
    have hloop := compactLoop_length_le (wake.length + 1) false (cstr wake) []
    have hcstr := cstr_length_le wake
    split at hcompact
    · rename_i out hout
      rw [hout] at hloop
      cases hcompact
      simp only [List.length_nil] at hloop
      omega
    · cases hcompact
  exact Nat.lt_of_le_of_lt hle hwake

theorem refused_of_error {env : WorkEnv} {call : BoundCall} {parts : OutcomeParts} {refusal : Refusal}
    (hread : readOutcome env call = .ok parts) (hwrite : writeOutcome call parts = .error refusal) : RefusedForRoom env call := by
  have hverdict : terminalizeBoundWork env call = .error refusal := by
    rw [terminalizeBoundWork, hread]
    dsimp only
    rw [hwrite]
  rcases writeOutcome_error hwrite with rfl | rfl | rfl
  · exact .inl hverdict
  · exact .inr (.inl hverdict)
  · exact .inr (.inr (.inl hverdict))

theorem not_refused_of_ok {env : WorkEnv} {call : BoundCall} {parts : OutcomeParts} {texts : Bytes × Bytes}
    (hread : readOutcome env call = .ok parts) (hwrite : writeOutcome call parts = .ok texts) : ¬ RefusedForRoom env call := by
  obtain ⟨payload, wake⟩ := texts
  have hverdict : ∀ refusal, terminalizeBoundWork env call = .error refusal →
      refusal = .prepareFailed ∨ refusal = .appendFailed := by
    intro refusal h
    rw [terminalizeBoundWork, hread] at h
    dsimp only at h
    rw [hwrite] at h
    dsimp only at h
    split at h
    · cases h
      exact .inl rfl
    · split at h
      · cases h
      · cases h
        exact .inr rfl
  rintro (h | h | h | ⟨parts', payload', wake', compact, hread', hwrite', hcompact, hlong⟩)
  · rcases hverdict _ h with h | h <;> cases h
  · rcases hverdict _ h with h | h <;> cases h
  · rcases hverdict _ h with h | h <;> cases h
  · exact absurd (wake_fits_outbox hwrite' hcompact) (Nat.not_lt.mpr hlong)

/-- For a current binding and valid arguments, the outcome of a work task is turned away for lack of room exactly when its
ids, its event and its wake do not all fit. -/
theorem outcome_concluded_iff {env : WorkEnv} {call : BoundCall} {parts : OutcomeParts} (hread : readOutcome env call = .ok parts)
    (hsummary : parts.summary ≠ []) (hneeded : call.blocked = true → parts.needed ≠ []) :
    ¬ RefusedForRoom env call ↔ Room call parts := by
  have hparts : Read call parts := ⟨hsummary, hneeded, readOutcome_plain hread⟩
  rw [← writeOutcome_ok_iff hparts]
  cases hwrite : writeOutcome call parts with
  | error refusal =>
    constructor
    · intro hno
      exact absurd (refused_of_error hread hwrite) hno
    · rintro ⟨texts, htexts⟩
      cases htexts
  | ok texts =>
    constructor
    · intro _
      exact ⟨texts, rfl⟩
    · intro _
      exact not_refused_of_ok hread hwrite

/-! ## An admitted result that cannot be concluded -/

/-- The record of an operation of a work task. -/
def workRecord : RtOperationSnapshot :=
  { handle := lit "h", workerHandle := [], action := lit "a", requestId := lit "r", triggerEventId := lit "e", taskId := lit "t"
    contextId := lit "chat:c", channel := lit "c", adapterId := [], originEventId := [], refJson := [], workRev := 1
    nulFree := by
      have hall : ∀ s ∈ [lit "h", [], lit "a", lit "r", lit "e", lit "t", lit "chat:c", lit "c", [], []], s.all (· ≠ 0) = true := by
        (repeat rw [lit_ofList]); decide
      intro s hs c hc
      simpa using List.all_eq_true.mp (hall s hs) c hc
    routed := by decide
    refOk := .inl rfl }

/-- The members of a claim with a text. -/
def claimMembers (text : Bytes) : List (Bytes × Bytes) :=
  [(lit "result", objText [(lit "status", quoted (lit "succeeded")), (lit "text", quoted (escaped text))])]

def workClaim (text : Bytes) : ParsedEnvelope :=
  { kind := .completion, envelopeId := lit "b", originEventId := [], type := lit "operation_completed", channel := lit "bus"
    userText := [], adapterId := [], contextId := [], ref := none, affairId := [], action := [], actionTaskId := []
    actionArgs := [], payload := objText (claimMembers text), mediaRef := none, operationId := lit "h"
    completionToken := [], claimCause := [] }

theorem resultRun_lt : 2 < 2 ^ 31 := by decide

def resultRun : RunNumber := ⟨2, resultRun_lt⟩

def summaryText : Bytes := List.replicate 140 (ch 'a')

/-- The run of the result concludes its task with a summary. -/
def concludingCall (text : Bytes) : BoundCall :=
  { eventKind := lit "operation_result", eventPayload := objText (completionMembers [] (runIdOf resultRun) workRecord (workClaim text))
    contextId := workRecord.contextId, originChannel := workRecord.channel, originAdapterId := workRecord.adapterId
    originEventId := workRecord.originEventId, originRefJson := workRecord.refJson, taskId := workRecord.taskId, workRev := 1
    requestId := lit "r2", action := lit "work_complete", triggerEventId := lit "e2", sourceEventId := lit "e3"
    args := objText [(lit "summary", quoted summaryText)], blocked := false }

/-- The binding of an open task. -/
def openTask : JsonRef := lit "\x7b\"state\":\x7b\"status\":\"open\",\"work_rev\":1\x7d\x7d"

/-- The task is open at revision 1, its ledger has no steps, the outbox and the log take what they are given. -/
def openWork : WorkEnv :=
  { bindingJson := fun _ _ _ => some openTask
    evidenceRefs := fun _ _ => some (lit "[]"), prepares := fun _ _ => true, appends := fun _ => true }

def concludingParts (text : Bytes) : OutcomeParts :=
  { affairId := [], summary := summaryText, blocker := [], needed := [], resultText := text, artifacts := lit "[]"
    operation := lit "null", evidence := lit "[]", updatedMs := 1 }

theorem resultMembers_written (text : Bytes) :
    WrittenMembers [(lit "status", quoted (lit "succeeded")), (lit "text", quoted (escaped text))] :=
  .key (by decide) (PlainText.of_all (lit_all (by decide))).clean (.key (by decide) (.text text) .nil)

theorem claimMembers_written (text : Bytes) : WrittenMembers (claimMembers text) :=
  .key (by decide) (.objText (resultMembers_written text)) .nil

theorem claim_result (text : Bytes) : claimResult (workClaim text) =
    some (objText [(lit "status", quoted (lit "succeeded")), (lit "text", quoted (escaped text))]) := by
  have hms := claimMembers_written text
  have htop : jsonRefTopObject (objText (claimMembers text)) = some (objText (claimMembers text)) :=
    jsonRefTopObject_complete hms.objText (CleanValue.objText hms).nulFree
  rw [claimResult, show (workClaim text).payload = objText (claimMembers text) from rfl, htop, Option.bind_some,
    jsonRefObjectGetObject, hms.get]
  rfl

theorem claim_status (text : Bytes) : resultStatus (workClaim text) = lit "succeeded" := by
  have hstatus : claimStatus (workClaim text) = lit "succeeded" := by
    rw [claimStatus, claim_result text]
    dsimp only
    rw [stringField, (resultMembers_written text).get,
      show assoc (lit "status") [(lit "status", quoted (lit "succeeded")), (lit "text", quoted (escaped text))] =
        some (quoted (lit "succeeded")) from rfl]
    decide +kernel
  have hcause : (workClaim text).claimCause ≠ lit "timeout" := by
    show [] ≠ lit "timeout"
    decide
  rw [resultStatus, if_neg hcause, hstatus]
  (repeat rw [lit_ofList]); decide

/-- The members of the result's event before its text. -/
def otherMembers : List (Bytes × Bytes) :=
  [(lit "handle", quoted (escaped workRecord.handle)), (lit "worker_handle", quoted (escaped workRecord.workerHandle)),
    (lit "action", quoted (escaped workRecord.action)), (lit "request_id", quoted (escaped workRecord.requestId)),
    (lit "trigger_event_id", quoted (escaped workRecord.triggerEventId)), (lit "work_rev", decInt workRecord.workRev),
    (lit "source_event_id", quoted (escaped (eventIdText (runIdOf resultRun) 1)))] ++ recordMembers workRecord ++
  [(lit "status", quoted (escaped (lit "succeeded")))]

section Result
variable {text : Bytes} (htext : TextField (rtOperationResultTextMax + 1) text)
include htext

theorem result_text : resultText [] workRecord (workClaim text) = text := by
  have hget : assoc (lit "text") [(lit "status", quoted (lit "succeeded")), (lit "text", quoted (escaped text))] =
      some (quoted (escaped text)) := rfl
  have hcopy := htext.copy
  have hclaim : claimText [] (workClaim text) = text := by
    rw [claimText, claim_result text]
    dsimp only
    rw [stringField, (resultMembers_written text).get, hget]
    dsimp only
    obtain ⟨out, hrun, hout⟩ := stringCopyWrite_of_copy hcopy
    simp only [hrun, hout]
    exact cstr_eq_self htext.nulFree
  have hcause : (workClaim text).claimCause ≠ lit "timeout" := by
    show [] ≠ lit "timeout"
    decide
  rw [resultText, if_neg fun h => hcause h.1, hclaim]

/-- The octets of the event around the text. -/
theorem completion_length : (objText (completionMembers [] (runIdOf resultRun) workRecord (workClaim text))).length =
    (escaped text).length + (otherMembers.map fun m => m.1.length + m.2.length + 4).sum + 11 := by
  have hsplit : completionMembers [] (runIdOf resultRun) workRecord (workClaim text) =
      otherMembers ++ [(lit "text", quoted (escaped text))] := by
    rw [completionMembers, result_text htext, claim_status]
    rfl
  have htext : (quoted (escaped text)).length = (escaped text).length + 2 := by simp [quoted]
  have hkey : (lit "text").length = 4 := rfl
  rw [objText_length (by simp [completionMembers]), hsplit, List.map_append, List.sum_append, List.map_singleton,
    List.sum_singleton, htext, hkey]
  omega

theorem call_text : currentWorkResultText (concludingCall text) = some text := by
  have hms : WrittenMembers (completionMembers [] (runIdOf resultRun) workRecord (workClaim text)) :=
    completionMembers_written workRecord
  have htop : jsonRefTopObject (objText (completionMembers [] (runIdOf resultRun) workRecord (workClaim text))) =
      some (objText (completionMembers [] (runIdOf resultRun) workRecord (workClaim text))) :=
    jsonRefTopObject_complete hms.objText (CleanValue.objText hms).nulFree
  have hget : assoc (lit "text") (completionMembers [] (runIdOf resultRun) workRecord (workClaim text)) =
      some (quoted (escaped (resultText [] workRecord (workClaim text)))) := rfl
  have hpayload : (concludingCall text).eventPayload =
      objText (completionMembers [] (runIdOf resultRun) workRecord (workClaim text)) := rfl
  have hkind : ¬ ((concludingCall text).eventKind ≠ lit "operation_result" ∧
      (concludingCall text).eventKind ≠ lit "work_step_result") := fun h => h.1 rfl
  rw [currentWorkResultText, if_neg hkind, hpayload, if_neg (by simp [objText]), htop, Option.bind_some, jsonRefObjectGetString,
    hms.get, hget, result_text htext, Option.bind_some]
  exact htext.copy

theorem call_read : readOutcome openWork (concludingCall text) = .ok (concludingParts text) := by
  have hbinding : (if (concludingCall text).taskId = [] ∨ (concludingCall text).workRev ≤ 0 then none
      else openWork.bindingJson (concludingCall text).contextId (concludingCall text).taskId (concludingCall text).workRev) =
      some openTask := rfl
  have hstate : jsonRefObjectGetObject openTask (lit "state") = some (lit "\x7b\"status\":\"open\",\"work_rev\":1\x7d") := by
    decide +kernel
  have hartifacts : compactTaskStateValue openTask (lit "artifacts") (lit "[]") rtLarge = some (lit "[]") := by decide +kernel
  have hexternal : compactTaskStateValue openTask (lit "external") (lit "null") rtLarge = some (lit "null") := by decide +kernel
  have hevidence : evidenceOf openWork (concludingCall text) (lit "[]") = some (lit "[]") := rfl
  have hupdated : jsonRefObjectGetLong (lit "\x7b\"status\":\"open\",\"work_rev\":1\x7d") (lit "updated_ms") 0 = (0, false) := by
    decide +kernel
  have haffair : stringField (lit "\x7b\"status\":\"open\",\"work_rev\":1\x7d") (lit "affair_id") rtSmall [] = [] := by
    decide +kernel
  have hargs : argText (concludingCall text).args (lit "summary") = summaryText := by
    show argText (objText [(lit "summary", quoted summaryText)]) (lit "summary") = summaryText
    decide +kernel
  have hblocked : (concludingCall text).blocked = false := rfl
  simp only [readOutcome, hbinding, Option.bind_some, hstate, Option.map_some, hartifacts, hexternal, hevidence, hblocked,
    Bool.false_eq_true, if_false, call_text htext, haffair, hupdated, hargs]
  rfl

example : escLen (lit "a\"b") = 4 := by decide +kernel

end Result

/-- Eight thousand quotation marks. -/
def longResult : Bytes := List.replicate 8000 (ch '"')

theorem escaped_replicate_length (n : Nat) (c : Byte) : (escaped (List.replicate n c)).length = n * (escapeByte c).length := by
  induction n with
  | zero => simp [escaped]
  | succ n ih =>
    rw [escaped, List.replicate_succ, List.flatMap_cons, List.length_append, ← escaped, ih, Nat.succ_mul, Nat.add_comm]

theorem longResult_field : TextField (rtOperationResultTextMax + 1) longResult := by
  refine ⟨fun c hc => ?_, by rw [longResult, List.length_replicate]; decide⟩
  rw [(List.mem_replicate.mp hc).2]
  decide

theorem longResult_escLen : escLen longResult = 16000 := by
  rw [escLen, cstr_eq_self longResult_field.nulFree, longResult, escaped_replicate_length]
  rfl

/-- The result is admitted: its canonical event fits. -/
theorem longResult_admitted : CompletionFits [] (runIdOf resultRun) workRecord (workClaim longResult) := by
  have hesc : (escaped longResult).length = 16000 := by
    rw [longResult, escaped_replicate_length]
    rfl
  refine ⟨by decide, ?_, by decide, ?_⟩
  · rw [result_text longResult_field, escapeFits, hesc]
    decide
  · rw [completion_length longResult_field, hesc]
    decide +kernel

theorem longResult_wake : rtEventPayloadMax ≤ wakeSize (concludingCall longResult) (concludingParts longResult) := by
  have htext : wakeText (concludingParts longResult) = longResult := by
    have hne : longResult ≠ [] := fun h => absurd (congrArg List.length h) (by rw [longResult, List.length_replicate]; decide)
    rw [wakeText]
    exact if_neg hne
  have hsize : textSize (lit "text") longResult = 16010 := by
    rw [textSize, longResult_escLen]
    rfl
  rw [wakeSize, htext, hsize]
  decide +kernel

example : textSize (lit "status") (lit "done") = 16 := by decide +kernel

/-- An admitted result of eight thousand quotation marks leaves no room for the wake that would conclude its task. -/
theorem admitted_result_not_concluded : ∃ c,
    populateCompletionContext [] (runIdOf resultRun) workRecord (workClaim longResult) = some c ∧
      (concludingCall longResult).eventPayload = c.payload ∧
      readOutcome openWork (concludingCall longResult) = .ok (concludingParts longResult) ∧
      RefusedForRoom openWork (concludingCall longResult) := by
  refine ⟨_, populateCompletion_iff.mpr ⟨longResult_admitted, rfl⟩, rfl, call_read longResult_field, ?_⟩
  have hread := call_read longResult_field
  have hparts : Read (concludingCall longResult) (concludingParts longResult) :=
    ⟨by show summaryText ≠ []; decide, fun h => (nomatch h), fun _ => ⟨rfl, rfl⟩⟩
  cases hwrite : writeOutcome (concludingCall longResult) (concludingParts longResult) with
  | error refusal => exact refused_of_error hread hwrite
  | ok texts =>
    have hroom := (writeOutcome_ok_iff hparts).mp ⟨texts, hwrite⟩
    exact absurd hroom.wake (Nat.not_lt.mpr longResult_wake)

/-- A short result is concluded. -/
theorem short_result_concluded : ¬ RefusedForRoom openWork (concludingCall (lit "done")) := by
  have htext : TextField (rtOperationResultTextMax + 1) (lit "done") := by
    refine ⟨fun c hc => ?_, by decide⟩
    exact (PlainText.of_all (by decide)).nulFree c hc
  refine (outcome_concluded_iff (call_read htext) ?_ (fun h => nomatch h)).mpr ?_
  · show summaryText ≠ []
    decide
  · exact ⟨⟨by decide, by rw [lit_ofList]; decide, by decide, by decide, by decide, by decide, by decide, by rw [lit_ofList]; decide, by decide, by decide⟩,
      by decide +kernel, by decide +kernel⟩

end Floofclaw.Guarantees.WorkOutcomes
