import Floofclaw.Source.OperationEvents
import Floofclaw.Guarantees.FileReports
import Floofclaw.Guarantees.FirstEvent

/-!
# Operation payloads

The payloads of operation events splice a ref between escaped fields. Built
from a durable record they are JSON objects with the record's ref. The
allocation copies the ref of its run through a shorter buffer, and an object cut
there never closes again: its payload is well formed exactly when the ref fits
that buffer or the payload is refused for its size.
-/

set_option autoImplicit false

namespace Floofclaw.Guarantees.OperationPayloads
open Floofclaw.Lib Floofclaw.Source.Json Floofclaw.Source.Inbound Floofclaw.Source.OperationEvents
open Floofclaw.Guarantees.FirstEvent
open Floofclaw.Guarantees.FileReports (objText_cut)

/-- One JSON object, whose ref is the given one or `null`. -/
def RefExact (ref payload : Bytes) : Prop :=
  (∃ ms, ObjText payload ms) ∧
    ∃ v, jsonRefObjectGet payload (lit "ref") = some v ∧ (v = lit "null" ∨ v = ref ∧ ref ≠ [])

/-- The texts an allocation escapes, each in its mirror. -/
def startedFields (origin : Origin) (call : ManagedCall) : List Bytes :=
  [call.opId, call.action, call.requestId, call.triggerEventId, origin.contextId, origin.channel, origin.adapterId,
    call.taskId, origin.originEventId]

def startedCorrelation (origin : Origin) (call : ManagedCall) : List (Bytes × Bytes) :=
  (allocatedRecord origin call).members (escaped call.taskId) (escaped origin.contextId) (escaped origin.channel)
    (escaped origin.adapterId) (escaped origin.originEventId)

def startedMembers (origin : Origin) (call : ManagedCall) : List (Bytes × Bytes) :=
  [(lit "handle", quoted (escaped call.opId)), (lit "action", quoted (escaped call.action)),
    (lit "request_id", quoted (escaped call.requestId)), (lit "trigger_event_id", quoted (escaped call.triggerEventId))] ++
  startedCorrelation origin call ++ [(lit "work_rev", decInt call.workRev), (lit "deadline_ms", decInt call.deadlineMs)]

/-- Every escaped field, the correlation block and the whole payload fit their buffers. -/
def StartedFits (origin : Origin) (call : ManagedCall) : Prop :=
  (∀ s ∈ startedFields origin call, escapeFits rtMed s) ∧
    (membersText (startedCorrelation origin call)).length < rtLarge ∧
    (objText (startedMembers origin call)).length < rtLarge

/-! ## Members -/

theorem mirror_clean {cap : Nat} {s e : Bytes} (h : mirror cap s = some e) : CleanValue (quoted e) := by
  unfold mirror at h
  split at h
  · rename_i out hout
    rw [Option.some.injEq] at h
    rw [← h, (jsonEscape_fits hout).1]
    exact .text _
  · cases h

theorem refExact_of_written {ref v : Bytes} {ms : List (Bytes × Bytes)} (hms : WrittenMembers ms)
    (hget : assoc (lit "ref") ms = some v) (hv : v = lit "null" ∨ v = ref ∧ ref ≠ []) : RefExact ref (objText ms) :=
  ⟨⟨ms, hms.objText⟩, v, (hms.get _).trans hget, hv⟩

/-- The ref of a record as it is spliced. -/
def refValue (ref : Bytes) : Bytes := if ref = [] then lit "null" else ref

theorem refValue_cases (ref : Bytes) : refValue ref = lit "null" ∨ refValue ref = ref ∧ ref ≠ [] := by
  unfold refValue
  split
  · exact .inl rfl
  · rename_i h
    exact .inr ⟨rfl, h⟩

theorem refValue_written {ref : Bytes} (h : ref = [] ∨ CleanValue ref) : CleanValue (refValue ref) := by
  unfold refValue
  split
  · exact .null
  · rename_i hne
    exact h.resolve_left hne

theorem correlation_some {op : Correlation} {corr : List (Bytes × Bytes)} (h : correlationFieldsFromOp op = some corr) :
    ∃ etask ectx ech ead eorigin, corr = op.members etask ectx ech ead eorigin ∧
      (∀ e ∈ [etask, ectx, ech, ead, eorigin], CleanValue (quoted e)) ∧ (membersText corr).length < rtLarge := by
  simp only [correlationFieldsFromOp, Option.bind_eq_bind, Option.bind_eq_some_iff] at h
  obtain ⟨ectx, hctx, ech, hch, ead, had, etask, htask, eorigin, horigin, u, hguard, hcorr⟩ := h
  have hfit : (membersText (op.members etask ectx ech ead eorigin)).length < rtLarge := by simpa [guard] using hguard
  rw [Option.pure_def, Option.some.injEq] at hcorr
  subst hcorr
  refine ⟨etask, ectx, ech, ead, eorigin, rfl, ?_, hfit⟩
  simp only [List.forall_mem_cons]
  exact ⟨mirror_clean htask, mirror_clean hctx, mirror_clean hch, mirror_clean had, mirror_clean horigin, by simp⟩

theorem correlation_written {op : Correlation} {etask ectx ech ead eorigin : Bytes}
    (h : ∀ e ∈ [etask, ectx, ech, ead, eorigin], CleanValue (quoted e)) (href : CleanValue (refValue op.refJson)) :
    WrittenMembers (op.members etask ectx ech ead eorigin) := by
  simp only [List.forall_mem_cons] at h
  obtain ⟨htask, hctx, hch, had, horigin, -⟩ := h
  exact .key (by decide) htask (.key (by decide) hctx (.key (by decide) hch
    (.key (by decide) had (.key (by decide) horigin (.key (by decide) href .nil)))))

/-! ## Payloads from a record -/

theorem wake_refExact {op : RtOperationSnapshot} {eh ea erid etrigger esource estatus etext wake : Bytes}
    (hfields : ∀ e ∈ [eh, ea, erid, etrigger, esource, estatus, etext], CleanValue (quoted e))
    (h : resultWake op eh ea erid etrigger esource estatus etext = some wake) : RefExact op.refJson wake := by
  simp only [resultWake, Option.bind_eq_bind, Option.bind_eq_some_iff] at h
  obtain ⟨etask, htask, econtext, hctx, echannel, hch, eorigin, horigin, eadapter, had, -, -, hwake⟩ := h
  rw [Option.pure_def, Option.some.injEq] at hwake
  subst hwake
  simp only [List.forall_mem_cons] at hfields
  obtain ⟨h1, h2, h3, h4, h5, h6, h7, -⟩ := hfields
  have href : CleanValue (if op.refJson ≠ [] ∧ op.refJson.length ≤ 512 then op.refJson else lit "null") := by
    split
    · rename_i hne
      exact op.refOk.resolve_left hne.1
    · exact .null
  refine refExact_of_written (.key (by decide) h1 (.key (by decide) h2 (.key (by decide) h3
    (.key (by decide) h4 (.key (by decide) (mirror_clean htask) (.key (by decide) (.long _)
    (.key (by decide) h5 (.key (by decide) (mirror_clean hctx)
    (.key (by decide) (mirror_clean hch) (.key (by decide) h6 (.key (by decide) h7
    (.key (by decide) (mirror_clean horigin) (.key (by decide) (mirror_clean had)
    (.key (by decide) href .nil)))))))))))))) rfl ?_
  split
  · rename_i hne
    exact .inr ⟨rfl, hne.1⟩
  · exact .inl rfl

theorem terminalize_refExact {op : RtOperationSnapshot} {source : Option Bytes} {status text : Bytes} {deliver : Bool}
    {out : Terminalized} (h : terminalizeInRun op source status text deliver = some out) :
    RefExact op.refJson out.payload ∧ ∀ wake, out.wake = some wake → RefExact op.refJson wake := by
  unfold terminalizeInRun at h
  obtain ⟨eh, h1, h⟩ := Option.bind_eq_some_iff.mp h
  obtain ⟨ea, h2, h⟩ := Option.bind_eq_some_iff.mp h
  obtain ⟨erid, h3, h⟩ := Option.bind_eq_some_iff.mp h
  obtain ⟨etrigger, h4, h⟩ := Option.bind_eq_some_iff.mp h
  obtain ⟨estatus, h5, h⟩ := Option.bind_eq_some_iff.mp h
  obtain ⟨etext, h6, h⟩ := Option.bind_eq_some_iff.mp h
  obtain ⟨id, -, h⟩ := Option.bind_eq_some_iff.mp h
  obtain ⟨esource, h7, h⟩ := Option.bind_eq_some_iff.mp h
  obtain ⟨corr, hcorr, h⟩ := Option.bind_eq_some_iff.mp h
  obtain ⟨_, -, hout⟩ := Option.bind_eq_some_iff.mp h
  obtain ⟨etask, ectx, ech, ead, eorigin, rfl, hfields, -⟩ := correlation_some hcorr
  have href : CleanValue (refValue (recordCorrelation op).refJson) := refValue_written op.refOk
  have hcorrMs := correlation_written hfields href
  have hpayload : RefExact op.refJson (objText ([(lit "handle", quoted eh), (lit "action", quoted ea),
      (lit "request_id", quoted erid), (lit "trigger_event_id", quoted etrigger), (lit "work_rev", decInt op.workRev),
      (lit "source_event_id", quoted esource)] ++ (recordCorrelation op).members etask ectx ech ead eorigin ++
      [(lit "status", quoted estatus), (lit "text", quoted etext)])) :=
    refExact_of_written (.append (.append (.key (by decide) (mirror_clean h1)
      (.key (by decide) (mirror_clean h2) (.key (by decide) (mirror_clean h3)
      (.key (by decide) (mirror_clean h4) (.key (by decide) (.long _)
      (.key (by decide) (mirror_clean h7) .nil)))))) hcorrMs) (.key (by decide) (mirror_clean h5)
      (.key (by decide) (mirror_clean h6) .nil))) rfl (refValue_cases op.refJson)
  split at hout
  · obtain ⟨wake, hwake, hout⟩ := Option.bind_eq_some_iff.mp hout
    rw [Option.pure_def, Option.some.injEq] at hout
    subst hout
    refine ⟨hpayload, fun w hw => ?_⟩
    rw [Option.some.injEq] at hw
    subst hw
    refine wake_refExact ?_ hwake
    simp only [List.forall_mem_cons]
    exact ⟨mirror_clean h1, mirror_clean h2, mirror_clean h3, mirror_clean h4, mirror_clean h7, mirror_clean h5,
      mirror_clean h6, by simp⟩
  · rw [Option.pure_def, Option.some.injEq] at hout
    subst hout
    exact ⟨hpayload, fun w hw => by cases hw⟩

theorem completion_refExact {heap : Bytes} {n : RunNumber} {record : RtOperationSnapshot} {env : ParsedEnvelope}
    {inbound : InboundContext} (h : populateCompletionContext heap (runIdOf n) record env = some inbound) :
    RefExact record.refJson inbound.payload := by
  obtain ⟨-, rfl⟩ := populateCompletion_iff.mp h
  exact refExact_of_written (completionMembers_written record) rfl (refValue_cases record.refJson)

/-! ## The payload of an allocation -/

theorem allocate_iff {lookup : Lookup} {origin : Origin} {call : ManagedCall} {payload : Bytes} :
    rtOperationAllocateForCall lookup origin call = some payload ↔
      lookup = .absent ∧ StartedFits origin call ∧ payload = objText (startedMembers origin call) := by
  have hcall := call.fieldsOk
  have hroute := origin.routeOk
  simp only [List.forall_mem_cons] at hcall hroute
  obtain ⟨h1, h2, h3, h4, h5, -⟩ := hcall
  obtain ⟨h6, h7, h8, -⟩ := hroute
  have h9 := origin.contextOk
  -- every buffer but the ref's is as long as the one it is copied from
  have hrecord : allocatedRecord origin call =
      { taskId := call.taskId, contextId := origin.contextId, channel := origin.channel, adapterId := origin.adapterId
        originEventId := origin.originEventId, refJson := clip rtMed origin.refJson } := by
    simp only [allocatedRecord, clip_eq_self h5.fits, clip_eq_self h6.fits, clip_eq_self h7.fits, clip_eq_self h8.fits,
      clip_eq_self h9.fits]
  unfold rtOperationAllocateForCall
  by_cases hlookup : lookup = .absent
  · rw [if_pos hlookup]
    rw [hrecord, correlationFieldsFromOp]
    simp only [Option.bind_eq_bind, Option.pure_def]
    rw [escape_bind h1.nulFree, escape_bind h2.nulFree, escape_bind h3.nulFree, escape_bind h4.nulFree, Option.bind_assoc,
      escape_bind h9.nulFree, Option.bind_assoc, escape_bind h6.nulFree, Option.bind_assoc, escape_bind h7.nulFree,
      Option.bind_assoc, escape_bind h5.nulFree, Option.bind_assoc, escape_bind h8.nulFree, Option.bind_assoc, guard_bind,
      Option.bind_some, guard_bind, Option.some.injEq]
    simp only [StartedFits, startedFields, startedMembers, startedCorrelation, List.forall_mem_cons, hrecord]
    constructor
    · rintro ⟨f1, f2, f3, f4, f5, f6, f7, f8, f9, fcorr, fwhole, rfl⟩
      exact ⟨hlookup, ⟨⟨f1, f2, f3, f4, f5, f6, f7, f8, f9, by simp⟩, fcorr, fwhole⟩, rfl⟩
    · rintro ⟨-, ⟨⟨f1, f2, f3, f4, f5, f6, f7, f8, f9, -⟩, fcorr, fwhole⟩, rfl⟩
      exact ⟨f1, f2, f3, f4, f5, f6, f7, f8, f9, fcorr, fwhole, rfl⟩
  · rw [if_neg hlookup]
    constructor
    · intro h
      cases h
    · intro h
      exact absurd h.1 hlookup

/-- The members in front of the ref. -/
def startedHead (origin : Origin) (call : ManagedCall) : List (Bytes × Bytes) :=
  [(lit "handle", quoted (escaped call.opId)), (lit "action", quoted (escaped call.action)),
    (lit "request_id", quoted (escaped call.requestId)), (lit "trigger_event_id", quoted (escaped call.triggerEventId)),
    (lit "task_id", quoted (escaped call.taskId)), (lit "context_id", quoted (escaped origin.contextId)),
    (lit "channel", quoted (escaped origin.channel)), (lit "adapter_id", quoted (escaped origin.adapterId)),
    (lit "origin_event_id", quoted (escaped origin.originEventId))]

def startedTail (call : ManagedCall) : List (Bytes × Bytes) :=
  [(lit "work_rev", decInt call.workRev), (lit "deadline_ms", decInt call.deadlineMs)]

theorem startedMembers_split (origin : Origin) (call : ManagedCall) :
    startedMembers origin call =
      startedHead origin call ++ (lit "ref", refValue (clip rtMed origin.refJson)) :: startedTail call := rfl

theorem startedHead_written (origin : Origin) (call : ManagedCall) : WrittenMembers (startedHead origin call) :=
  .key (by decide) (.text _) (.key (by decide) (.text _) (.key (by decide) (.text _)
    (.key (by decide) (.text _) (.key (by decide) (.text _) (.key (by decide) (.text _)
      (.key (by decide) (.text _) (.key (by decide) (.text _)
        (.key (by decide) (.text _) .nil))))))))

theorem started_refExact {origin : Origin} (call : ManagedCall) (h : origin.refJson.length < rtMed) :
    RefExact origin.refJson (objText (startedMembers origin call)) ∧
      storedRef (objText (startedMembers origin call)) = origin.refJson := by
  have hclean : origin.refJson = [] ∨ CleanValue origin.refJson := by
    refine origin.refOk.imp id fun hobj => ?_
    obtain ⟨ms, hms⟩ := hobj.text
    exact ⟨hms.isValue, hobj.nulFree⟩
  have hms : WrittenMembers (startedMembers origin call) := by
    rw [startedMembers_split, clip_eq_self h]
    exact (startedHead_written origin call).append (.key (by decide) (refValue_written hclean)
      (.key (by decide) (.long _) (.key (by decide) (.long _) .nil)))
  have hget : assoc (lit "ref") (startedMembers origin call) = some (refValue (clip rtMed origin.refJson)) := rfl
  rw [clip_eq_self h] at hget
  refine ⟨refExact_of_written hms hget (refValue_cases _), ?_⟩
  rw [storedRef, hms.get, hget, Option.bind_some, jsonRefValueCopy]
  by_cases hnil : origin.refJson = []
  · rw [refValue, if_pos hnil, if_neg (by decide), hnil]
    rfl
  · rw [refValue, if_neg hnil, if_neg (by omega)]
    have hnull : origin.refJson ≠ lit "null" := by
      intro heq
      obtain ⟨ms, hobj⟩ := (origin.refOk.resolve_left hnil).text
      have htype := ObjText.inferType hobj
      rw [heq] at htype
      cases htype
    simp [hnull]

/-! ### A ref that is cut -/

theorem startedTail_noBrace (call : ManagedCall) : ch '}' ∉ membersText (startedTail call) := by
  have hint : ∀ z : Int, ch '}' ∉ decInt z := by
    intro z hmem
    have hdigit : ∀ n : Nat, ch '}' ∉ decNat n := fun n h => absurd (decNat_digits n _ h) (by decide)
    cases z with
    | ofNat n => exact hdigit n hmem
    | negSucc n =>
      rw [decInt, List.mem_cons] at hmem
      rcases hmem with hmem | hmem
      · exact absurd hmem (by decide)
      · exact hdigit _ hmem
  have hkeys : ch '}' ∉ quoted (lit "work_rev") ∧ ch '}' ∉ quoted (lit "deadline_ms") ∧ ch '}' ≠ ch ':' ∧
      ch '}' ≠ ch ',' := by (repeat rw [lit_ofList]); decide
  simp only [startedTail, membersText, List.mem_append, List.mem_cons, not_or]
  exact ⟨hkeys.1, hkeys.2.2.1, hint _, hkeys.2.2.2, hkeys.2.1, hkeys.2.2.1, hint _⟩

/-- No object text is both longer than a cut of another one and followed by text whose only brace is the last. -/
theorem cut_object_open {ref v t tail : Bytes} {ms : List (Bytes × Bytes)} {n : Nat} (href : ObjText ref ms)
    (hcut : n < ref.length) (hn : 0 < n) (hv : IsValue v) (htail : ch '}' ∉ tail)
    (h : v ++ (t ++ [ch '}']) = ref.take n ++ (tail ++ [ch '}'])) : False := by
  obtain ⟨u, hu⟩ := href.brace
  have hobj : ∃ ms', ObjText v ms' := by
    refine isValue_object hv ?_
    obtain ⟨m, rfl⟩ : ∃ m, n = m + 1 := ⟨n - 1, by omega⟩
    obtain ⟨c, v', rfl⟩ := List.exists_cons_of_ne_nil hv.ne_nil
    rw [hu, List.take_succ_cons, List.cons_append, List.cons_append, List.cons.injEq] at h
    rw [h.1]
    rfl
  obtain ⟨ms', hms'⟩ := hobj
  rw [← List.append_assoc, ← List.append_assoc] at h
  have hbody := List.append_cancel_right h
  rcases Nat.le_total v.length n with hle | hle
  · -- inside the cut ref: a shorter object in front of a longer one
    have hextends : v = ref.take v.length := by
      have htake := congrArg (List.take v.length) hbody
      rw [List.take_left, List.take_append_of_le_length (by rw [List.length_take]; omega), List.take_take,
        Nat.min_eq_left hle] at htake
      exact htake
    rw [hextends] at hv
    exact objText_cut href (by omega) hv
  · -- past the cut: the object would have to close on a brace of the tail
    obtain ⟨w, hw⟩ : ∃ w, v = ref.take n ++ w := by
      refine ⟨v.drop n, ?_⟩
      have htake := congrArg (List.take n) hbody
      rw [List.take_append_of_le_length hle, List.take_append_of_le_length (by rw [List.length_take]; omega),
        List.take_take, Nat.min_self] at htake
      rw [← htake, List.take_append_drop]
    have htailEq : w ++ t = tail := by
      rw [hw, List.append_assoc] at hbody
      exact List.append_cancel_left hbody
    rcases List.eq_nil_or_concat w with rfl | ⟨w', c, rfl⟩
    · rw [List.append_nil] at hw
      rw [hw] at hv
      exact objText_cut href hcut hv
    · have hlast : v.getLast? = some (ch '}') := by
        cases hms' with
        | @empty x hx => rw [← List.cons_append, List.getLast?_concat]
        | @some x body _ hx hb => rw [← List.append_assoc, ← List.cons_append, List.getLast?_concat]
      rw [hw, List.concat_eq_append, ← List.append_assoc, List.getLast?_concat, Option.some.injEq] at hlast
      exact htail (htailEq ▸ by simp [hlast])

theorem started_cut {origin : Origin} (call : ManagedCall) (h : ¬ origin.refJson.length < rtMed) {ms : List (Bytes × Bytes)} :
    ¬ ObjText (objText (startedMembers origin call)) ms := by
  intro hobj
  have hne : origin.refJson ≠ [] := by
    rintro hnil
    rw [hnil] at h
    exact h (by decide)
  obtain ⟨rms, href⟩ := (origin.refOk.resolve_left hne).text
  have hvalue : refValue (clip rtMed origin.refJson) = origin.refJson.take (rtMed - 1) := by
    have hcut : clip rtMed origin.refJson ≠ [] := by
      intro hnil
      have := congrArg List.length hnil
      rw [clip, List.length_take, List.length_nil] at this
      simp only [rtMed] at *
      omega
    rw [refValue, if_neg hcut, clip]
  have hself : objText (startedMembers origin call) ++ [] = objText (startedMembers origin call) ++ [] := rfl
  obtain ⟨inner, hreads, heq⟩ := objText_members hobj hself
  have hform : inner ++ [ch '}'] = membersText (startedHead origin call ++
      (lit "ref", origin.refJson.take (rtMed - 1)) :: startedTail call) ++ [ch '}'] := by
    rw [← hvalue]
    exact heq
  obtain ⟨ms', body', rfl, hreads', heq'⟩ := members_peel (startedHead_written origin call).wellformed hreads hform
  have hspace : NoSpaceHead (origin.refJson.take (rtMed - 1) ++ (ch ',' :: membersText (startedTail call) ++ [ch '}'])) := by
    obtain ⟨u, hu⟩ := href.brace
    rw [hu]
    exact NoSpaceHead.cons (by decide)
  have hkey : StrBody (lit "ref") := plainKey_strBody (plainKey_lit (by decide))
  have hbody : body' ++ ch '}' :: [] = quoted (lit "ref") ++ ch ':' :: (origin.refJson.take (rtMed - 1) ++
      (ch ',' :: membersText (startedTail call) ++ [ch '}'])) := by
    rw [heq']
    simp [membersText, startedTail]
  obtain ⟨v, ms'', t, rfl, hv, -, hrest⟩ := members_head hreads' hkey hspace hbody
  refine cut_object_open href (Nat.lt_of_lt_of_le (by decide) (Nat.le_of_not_lt h)) (by decide) hv ?_ hrest
  simp only [List.mem_cons, not_or]
  exact ⟨by decide, startedTail_noBrace call⟩

/-! ## Every payload -/

/-- Every operation payload is refused or is an object with its origin's ref or none, and the store takes the
origin's ref over. -/
def PayloadsWellformed (lookup : Lookup) (origin : Origin) (call : ManagedCall) : Prop :=
  (∀ payload, rtOperationAllocateForCall lookup origin call = some payload →
    RefExact origin.refJson payload ∧ storedRef payload = origin.refJson) ∧
  (∀ record source status text deliver out, terminalizeInRun record source status text deliver = some out →
    RefExact record.refJson out.payload ∧ ∀ wake, out.wake = some wake → RefExact record.refJson wake) ∧
  ∀ heap (n : RunNumber) record env inbound, populateCompletionContext heap (runIdOf n) record env = some inbound →
    RefExact record.refJson inbound.payload

theorem operation_payloads_wellformed_iff (lookup : Lookup) (origin : Origin) (call : ManagedCall) :
    PayloadsWellformed lookup origin call ↔
      origin.refJson.length < rtMed ∨ lookup ≠ .absent ∨ ¬ StartedFits origin call := by
  constructor
  · rintro ⟨hallocate, -, -⟩
    by_contra hbad
    simp only [not_or, not_not, ne_eq] at hbad
    obtain ⟨hlong, hlookup, hfits⟩ := hbad
    obtain ⟨⟨⟨ms, hms⟩, -⟩, -⟩ := hallocate _ (allocate_iff.mpr ⟨hlookup, hfits, rfl⟩)
    exact started_cut call hlong hms
  · intro hcond
    refine ⟨fun payload hpayload => ?_, fun _ _ _ _ _ _ h => terminalize_refExact h, fun _ _ _ _ _ h => completion_refExact h⟩
    obtain ⟨hlookup, hfits, rfl⟩ := allocate_iff.mp hpayload
    rcases hcond with hshort | hfound | hrefused
    · exact started_refExact call hshort
    · exact absurd hlookup hfound
    · exact absurd hfits hrefused

/-! ## A long ref -/

/-- A ref of 608 octets. -/
def longRef : Bytes := objText [(lit "n", quoted (List.replicate 600 (ch 'a')))]

theorem longRef_object : CleanObject longRef := by
  have hplain : PlainText (List.replicate 600 (ch 'a')) := by
    intro c hc
    rw [List.eq_of_mem_replicate hc]
    decide
  have hms : WrittenMembers [(lit "n", quoted (List.replicate 600 (ch 'a')))] := .key (by decide) hplain.clean .nil
  exact ⟨⟨_, hms.objText⟩, (CleanValue.objText hms).nulFree⟩

theorem textField_plain {cap : Nat} {s : Bytes} (h : s.all isPlain = true) (hlen : s.length < cap) : TextField cap s :=
  ⟨(PlainText.of_all h).nulFree, hlen⟩

def longRefOrigin : Origin where
  contextId := lit "chat:1"
  channel := lit "chat"
  adapterId := lit "irc"
  originEventId := lit "evt_1"
  refJson := longRef
  contextOk := textField_plain (lit_all (by decide)) (by decide)
  routeOk := by
    simp only [List.forall_mem_cons]
    exact ⟨textField_plain (lit_all (by decide)) (by decide), textField_plain (lit_all (by decide)) (by decide),
      textField_plain (lit_all (by decide)) (by decide), by simp⟩
  refOk := .inr longRef_object
  refFits := by decide +kernel

def bashCall : ManagedCall where
  opId := lit "op_req_run_001_000002"
  action := lit "bash"
  requestId := lit "req_run_001_000002"
  triggerEventId := []
  taskId := []
  workRev := 0
  deadlineMs := 1735732800000
  fieldsOk := by
    simp only [List.forall_mem_cons]
    exact ⟨textField_plain (lit_all (by decide)) (by decide), textField_plain (lit_all (by decide)) (by decide),
      textField_plain (lit_all (by decide)) (by decide), textField_plain (by decide) (by decide),
      textField_plain (by decide) (by decide), by simp⟩

/-- The allocation for a run with this ref appends a payload that is no JSON object. -/
theorem long_ref_breaks_payload : ¬ PayloadsWellformed .absent longRefOrigin bashCall := by
  rintro ⟨hallocate, -, -⟩
  have hfits : StartedFits longRefOrigin bashCall := ⟨by decide +kernel, by decide +kernel, by decide +kernel⟩
  obtain ⟨⟨⟨ms, hms⟩, -⟩, -⟩ := hallocate _ (allocate_iff.mpr ⟨rfl, hfits, rfl⟩)
  exact started_cut bashCall (by decide +kernel) hms

end Floofclaw.Guarantees.OperationPayloads
