import Floofclaw.Source.ActionSubprocess
import Floofclaw.Guarantees.ActionOutputs

/-!
# The envelope of a subprocess call

The envelope a launch writes carries the whole call exactly where its
identifiers need no escape and the text fits the 8 KiB it is printed into. A
longer one is cut and written all the same.
-/

set_option autoImplicit false

namespace Floofclaw.Guarantees.ActionEnvelopes
open Floofclaw.Lib Floofclaw.Source.Json Floofclaw.Source.ActionSubprocess
open Floofclaw.Source.Inbound (escapeOrEmpty)
open Floofclaw.Source.FileIntrinsics (pathMax)
open Floofclaw.Guarantees.FileReports Floofclaw.Guarantees.FirstEvent Floofclaw.Guarantees.ActionOutputs

/-- The arguments the call is launched with. -/
def effectiveArgs (call : SubprocessCall) : Bytes := if call.args = [] then lit "\x7b\x7d" else call.args

/-- One JSON object with the fields of the pending entry. -/
def CarriesCall (call : SubprocessCall) (text : Bytes) : Prop :=
  ∃ obj w ms, Ws w ∧ text = obj ++ w ∧ ObjText obj ms ∧
    Says obj (lit "request_id") call.requestId ∧ Says obj (lit "action") call.action ∧ Says obj (lit "run_id") call.runId ∧
    jsonRefObjectGet obj (lit "args") = some (effectiveArgs call) ∧
    (if call.taskId = [] then jsonRefObjectGet obj (lit "task_id") = none else Says obj (lit "task_id") call.taskId)

/-- What a launch writes carries the call, or the call has failed. -/
def DeliversCall (env : LaunchEnv) (call : SubprocessCall) : Prop :=
  ∀ text, (rtActionSubprocessLaunch env call).envelope = some text →
    (∃ reason, (rtActionSubprocessLaunch env call).outcome = .terminated reason) ∨ CarriesCall call text

/-- The launch gets as far as writing. -/
structure Writes (env : LaunchEnv) (call : SubprocessCall) (callId bodyPath : Bytes) : Prop where
  free : env.slotBusy = false
  paths : rtActionCallPathsNext env.fileExists call.runDir call.requestId = some (callId, bodyPath)
  workspace : (workspaceRootFromRunDir call.runDir).isSome = true
  written : env.writes = true

/-- The identifiers are their own escapes and the envelope fits. -/
structure EnvelopeFits (call : SubprocessCall) (callId bodyPath : Bytes) : Prop where
  requestId : PlainText call.requestId
  action : PlainText call.action
  runId : PlainText call.runId
  taskId : PlainText call.taskId
  short : (objText (envelopeMembers call callId bodyPath)).length < rtLarge * 2

theorem launch_writes {env : LaunchEnv} {call : SubprocessCall} {text : Bytes} :
    (rtActionSubprocessLaunch env call).envelope = some text ↔
      ∃ callId bodyPath, Writes env call callId bodyPath ∧ text = envelopeText call callId bodyPath := by
  unfold rtActionSubprocessLaunch
  constructor
  · intro h
    split at h
    · cases h
    rename_i hfree
    split at h
    · cases h
    rename_i callId bodyPath hpaths
    split at h
    · cases h
    rename_i root hroot
    split at h
    · cases h
    rename_i hwrites
    cases h
    exact ⟨callId, bodyPath, ⟨by simpa using hfree, hpaths, by rw [hroot]; rfl, by simpa using hwrites⟩, rfl⟩
  · rintro ⟨callId, bodyPath, ⟨hfree, hpaths, hroot, hwrites⟩, rfl⟩
    obtain ⟨root, hroot⟩ := Option.isSome_iff_exists.mp hroot
    rw [hfree, hpaths, hroot, hwrites]
    simp

theorem launch_outcome {env : LaunchEnv} {call : SubprocessCall} {callId bodyPath : Bytes} (h : Writes env call callId bodyPath) :
    (rtActionSubprocessLaunch env call).outcome = env.continue := by
  obtain ⟨root, hroot⟩ := Option.isSome_iff_exists.mp h.workspace
  rw [rtActionSubprocessLaunch, h.free, h.paths, hroot, h.written]
  simp

theorem callId_plain {fileExists : Bytes → Bool} {runDir rid callId bodyPath : Bytes}
    (h : rtActionCallPathsNext fileExists runDir rid = some (callId, bodyPath)) (hrid : PlainText rid) : PlainText callId := by
  rw [rtActionCallPathsNext] at h
  split at h
  · cases h
  · obtain ⟨root, -, heq⟩ := Option.map_eq_some_iff.mp h
    cases heq
    have hseq : PlainText (decPadded 3 (callSeq fileExists runDir rid 999 1)) :=
      fun c hc => isDigit_plain (decPadded_digits 3 _ c hc)
    have hwhole : PlainText (decPadded 3 (callSeq fileExists runDir rid 999 1) ++ lit "_" ++ rid) :=
      (hseq.append (PlainText.of_all (by decide))).append hrid
    exact fun c hc => hwhole c (List.mem_of_mem_take hc)

/-! ## What the envelope says -/

theorem effectiveArgs_eq (call : SubprocessCall) : (if call.args = [] then lit "\x7b\x7d" else call.args) = effectiveArgs call := rfl

theorem envelope_laid {call : SubprocessCall} {callId : Bytes} (bodyPath : Bytes) (hargs : IsValue (effectiveArgs call))
    (hrid : PlainText call.requestId) (haction : PlainText call.action) (hrun : PlainText call.runId)
    (htask : PlainText call.taskId) (hcall : PlainText callId) :
    Laid (envelopeMembers call callId bodyPath) ∧ ∀ m ∈ envelopeMembers call callId bodyPath, plainKey m.1 = true := by
  have hbody : Laid [(lit "body", quoted (escapeOrEmpty (pathMax * 2) bodyPath))] := by
    refine ⟨by simp, ?_⟩
    simp only [List.forall_mem_cons]
    exact ⟨⟨strBody_key (lit_all (by decide)), isValue_quoted (escapeOrEmpty_strBody _ _)⟩, by simp⟩
  rw [envelopeMembers, effectiveArgs_eq]
  refine ⟨⟨by simp, ?_⟩, ?_⟩
  · simp only [List.forall_mem_append, List.forall_mem_cons]
    refine ⟨⟨⟨⟨strBody_key (lit_all (by decide)), isValue_quoted (.of_plain hrid)⟩,
      ⟨strBody_key (lit_all (by decide)), isValue_quoted (.of_plain haction)⟩, ⟨strBody_key (lit_all (by decide)), hargs⟩,
      ⟨strBody_key (lit_all (by decide)), isValue_quoted (.of_plain hrun)⟩, by simp⟩, ?_⟩,
      ⟨strBody_key (lit_all (by decide)), isValue_quoted (.of_plain hcall)⟩, ⟨strBody_key (lit_all (by decide)), hbody.objText.isValue⟩, by simp⟩
    split
    · simp
    · simp only [List.forall_mem_cons]
      exact ⟨⟨strBody_key (lit_all (by decide)), isValue_quoted (.of_plain htask)⟩, by simp⟩
  · simp only [List.forall_mem_append, List.forall_mem_cons]
    refine ⟨⟨⟨by decide, by decide, by decide, by decide, by simp⟩, ?_⟩, by decide, by decide, by simp⟩
    split
    · simp
    · simp only [List.forall_mem_cons]
      exact ⟨by decide, by simp⟩

/-- A text that was not cut says what the call says. -/
theorem envelope_carries {call : SubprocessCall} {callId bodyPath : Bytes} (hargs : IsValue (effectiveArgs call))
    (hcall : PlainText call.requestId → PlainText callId) (h : EnvelopeFits call callId bodyPath) :
    CarriesCall call (envelopeText call callId bodyPath) := by
  obtain ⟨hlaid, hkeys⟩ :=
    envelope_laid bodyPath hargs h.requestId h.action h.runId h.taskId (hcall h.requestId)
  have hget : ∀ key, jsonRefObjectGet (objText (envelopeMembers call callId bodyPath)) key =
      assoc key (envelopeMembers call callId bodyPath) := fun key => by
    rw [jsonRefObjectGet_eq hlaid.objText, memberLookup_plain hkeys]
  have hshort := h.short
  refine ⟨objText (envelopeMembers call callId bodyPath), (lit "\n").take (rtLarge * 2 - 1 - (objText (envelopeMembers call callId bodyPath)).length),
    _, fun c hc => newline_ws.2 c (List.mem_of_mem_take hc), ?_, hlaid.objText, ⟨_, hget _, decodes_plain h.requestId⟩,
    ⟨_, hget _, decodes_plain h.action⟩, ⟨_, hget _, decodes_plain h.runId⟩, hget _, ?_⟩
  · rw [envelopeText, clip, List.take_append, List.take_of_length_le (by omega)]
  · split
    · rename_i htask
      rw [hget, envelopeMembers, if_pos htask]
      rfl
    · rename_i htask
      refine ⟨_, ?_, decodes_plain h.taskId⟩
      rw [hget, envelopeMembers, if_neg htask]
      rfl

/-- A text that says what the call says was not cut, and nothing spliced into it needs an escape. -/
theorem envelope_whole {call : SubprocessCall} {callId bodyPath : Bytes} (hargs : IsValue (effectiveArgs call))
    (hcall : PlainText call.requestId → PlainText callId) (h : CarriesCall call (envelopeText call callId bodyPath)) :
    EnvelopeFits call callId bodyPath := by
  obtain ⟨obj, w, ms, -, htext, hobj, hrid, haction, hrun, -, htask⟩ := h
  have hsplit : obj ++ (w ++ (objText (envelopeMembers call callId bodyPath) ++ lit "\n").drop (rtLarge * 2 - 1)) =
      objText (envelopeMembers call callId bodyPath) ++ lit "\n" := by
    rw [← List.append_assoc, ← htext, envelopeText, clip, List.take_append_drop]
  obtain ⟨artifacts, hartifacts⟩ : ∃ artifacts,
      artifacts = objText [(lit "body", quoted (escapeOrEmpty (pathMax * 2) bodyPath))] := ⟨_, rfl⟩
  have hmembers : envelopeMembers call callId bodyPath = (lit "request_id", quoted call.requestId) ::
      (lit "action", quoted call.action) :: (lit "args", effectiveArgs call) :: (lit "run_id", quoted call.runId) ::
      ((if call.taskId = [] then [] else [(lit "task_id", quoted call.taskId)]) ++
        [(lit "call_id", quoted callId), (lit "artifacts", artifacts)]) := by
    rw [hartifacts]
    rfl
  have hmemberSplit := hsplit
  rw [hmembers] at hmemberSplit
  have hpreNone : ∀ m ∈ ([] : List (Bytes × Bytes)), StrBody m.1 ∧ IsValue m.2 := by simp
  have hplainRid : PlainText call.requestId :=
    (spliced_carries [] rfl hpreNone (by decide) (plainKey_lit (by decide)) (by decide) hobj hmemberSplit hrid (Nat.le_refl _)).2
  have hpreRid : ∀ m ∈ [(lit "request_id", quoted call.requestId)], StrBody m.1 ∧ IsValue m.2 := by
    simp only [List.forall_mem_cons]
    exact ⟨⟨strBody_key (by decide), isValue_quoted (.of_plain hplainRid)⟩, by simp⟩
  have hplainAction : PlainText call.action :=
    (spliced_carries [lit "request_id"] rfl hpreRid (by decide) (plainKey_lit (by decide)) (by decide) hobj hmemberSplit haction
      (Nat.le_refl _)).2
  have hpreArgs : ∀ m ∈ [(lit "request_id", quoted call.requestId), (lit "action", quoted call.action),
      (lit "args", effectiveArgs call)], StrBody m.1 ∧ IsValue m.2 := by
    simp only [List.forall_mem_cons]
    exact ⟨⟨strBody_key (by decide), isValue_quoted (.of_plain hplainRid)⟩,
      ⟨strBody_key (by decide), isValue_quoted (.of_plain hplainAction)⟩, ⟨strBody_key (by decide), hargs⟩, by simp⟩
  have hplain : PlainText call.runId ∧ PlainText call.taskId := by
    by_cases hnone : call.taskId = []
    · rw [if_pos hnone] at hmemberSplit
      refine ⟨(spliced_carries [lit "request_id", lit "action", lit "args"] rfl hpreArgs (by decide) (by decide) (by decide)
        hobj hmemberSplit hrun (Nat.le_refl _)).2, ?_⟩
      rw [hnone]
      exact fun c hc => absurd hc List.not_mem_nil
    · rw [if_neg hnone] at hmemberSplit htask
      have hplainRun : PlainText call.runId :=
        (spliced_carries [lit "request_id", lit "action", lit "args"] rfl hpreArgs (by decide) (by decide) (by decide)
          hobj hmemberSplit hrun (Nat.le_refl _)).2
      have hpreRun : ∀ m ∈ [(lit "request_id", quoted call.requestId), (lit "action", quoted call.action),
          (lit "args", effectiveArgs call), (lit "run_id", quoted call.runId)], StrBody m.1 ∧ IsValue m.2 := by
        simp only [List.forall_mem_cons] at hpreArgs ⊢
        exact ⟨hpreArgs.1, hpreArgs.2.1, hpreArgs.2.2.1, ⟨strBody_key (by decide), isValue_quoted (.of_plain hplainRun)⟩,
          by simp⟩
      exact ⟨hplainRun, (spliced_carries [lit "request_id", lit "action", lit "args", lit "run_id"] rfl hpreRun (by decide)
        (plainKey_lit (by decide)) (by decide) hobj hmemberSplit htask (Nat.le_refl _)).2⟩
  -- with every splice read back, the whole is an object, and the one at its start is all of it
  obtain ⟨hlaid, -⟩ := envelope_laid bodyPath hargs hplainRid hplainAction hplain.1 hplain.2 (hcall hplainRid)
  refine ⟨hplainRid, hplainAction, hplain.1, hplain.2, ?_⟩
  obtain ⟨rfl, -⟩ := object_inj hobj hlaid.objText hsplit
  have hcut := congrArg List.length htext
  rw [List.length_append] at hcut
  have hbuffer : (envelopeText call callId bodyPath).length < rtLarge * 2 := clip_length_lt (by decide) _
  omega

/-! ## Every launch -/

theorem subprocess_receives_call {env : LaunchEnv} {call : SubprocessCall} (hargs : IsValue (effectiveArgs call)) :
    DeliversCall env call ↔
      ∀ callId bodyPath, Writes env call callId bodyPath →
        (∃ reason, env.continue = .terminated reason) ∨ EnvelopeFits call callId bodyPath := by
  constructor
  · intro h callId bodyPath hwrites
    rcases h _ (launch_writes.mpr ⟨callId, bodyPath, hwrites, rfl⟩) with hfailed | hcarries
    · rw [launch_outcome hwrites] at hfailed
      exact .inl hfailed
    · exact .inr (envelope_whole hargs (callId_plain hwrites.paths) hcarries)
  · intro h text htext
    obtain ⟨callId, bodyPath, hwrites, rfl⟩ := launch_writes.mp htext
    rw [launch_outcome hwrites]
    exact (h callId bodyPath hwrites).imp id (envelope_carries hargs (callId_plain hwrites.paths))

/-! ## A call of 9000 octets -/

/-- Nothing goes wrong around the envelope. -/
def openLaunch : LaunchEnv where
  slotBusy := false
  fileExists _ := false
  writes := true
  execReadable := true
  emitsStarted := true
  managed := false
  allocates := true
  configured := true
  starts := true
  emitsTerminal _ := true

/-- A call of the first run with the arguments. -/
def writeCall (args : List (Bytes × Bytes)) : SubprocessCall where
  requestId := lit "actionreq_run_001_000003"
  action := lit "post_page"
  taskId := lit "task_run_001_001"
  args := objText args
  runId := lit "run_001"
  runDir := lit "/srv/workspace/runs/run_001"

theorem openLaunch_writes (args : List (Bytes × Bytes)) :
    Writes openLaunch (writeCall args) (lit "001_actionreq_run_001_000003")
      (lit "runs/run_001/action_calls/001_actionreq_run_001_000003.body.html") where
  free := rfl
  paths := by
    change rtActionCallPathsNext (fun _ => false) (lit "/srv/workspace/runs/run_001") (lit "actionreq_run_001_000003") = _
    decide +kernel
  workspace := by
    change (workspaceRootFromRunDir (lit "/srv/workspace/runs/run_001")).isSome = true
    decide +kernel
  written := rfl

theorem writeCall_args {args : List (Bytes × Bytes)} (h : Laid args) :
    effectiveArgs (writeCall args) = objText args ∧ IsValue (effectiveArgs (writeCall args)) := by
  have hargs : effectiveArgs (writeCall args) = objText args := if_neg h.objText.isValue.ne_nil
  exact ⟨hargs, hargs ▸ h.objText.isValue⟩

theorem subprocess_receives_call_short : DeliversCall openLaunch (writeCall [(lit "title", quoted (lit "notes"))]) := by
  have hlaid : Laid [(lit "title", quoted (lit "notes"))] := ⟨by simp, by
    simp only [List.forall_mem_cons]
    exact ⟨⟨strBody_key (lit_all (by decide)), isValue_plain (lit_all (by decide))⟩, by simp⟩⟩
  refine (subprocess_receives_call (writeCall_args hlaid).2).mpr fun callId bodyPath hwrites => .inr ?_
  have hpaths := hwrites.paths
  rw [(openLaunch_writes _).paths] at hpaths
  cases hpaths
  exact ⟨PlainText.of_all (by (repeat rw [lit_ofList]); decide), PlainText.of_all (by (repeat rw [lit_ofList]); decide), PlainText.of_all (by (repeat rw [lit_ofList]); decide),
    PlainText.of_all (by (repeat rw [lit_ofList]); decide), by decide +kernel⟩

/-- A page of 9000 octets is admitted by the event log and cut in the envelope, and the process is started on it. -/
theorem long_args_cut :
    IsValue (effectiveArgs (writeCall [(lit "page", quoted (List.replicate 9000 (ch 'x')))])) ∧
      (rtActionSubprocessLaunch openLaunch (writeCall [(lit "page", quoted (List.replicate 9000 (ch 'x')))])).outcome =
        .started ∧
      ¬ DeliversCall openLaunch (writeCall [(lit "page", quoted (List.replicate 9000 (ch 'x')))]) := by
  obtain ⟨page, hpage⟩ : ∃ page, page = List.replicate 9000 (ch 'x') := ⟨_, rfl⟩
  have hplain : PlainText page := fun c hc => by
    rw [hpage] at hc
    rw [List.eq_of_mem_replicate hc]
    decide
  have hlong : page.length = 9000 := by rw [hpage, List.length_replicate]
  rw [← hpage]
  have hlaid : Laid [(lit "page", quoted page)] := ⟨by simp, by
    simp only [List.forall_mem_cons]
    exact ⟨⟨strBody_key (lit_all (by decide)), isValue_quoted (.of_plain hplain)⟩, by simp⟩⟩
  obtain ⟨hargs, hvalue⟩ := writeCall_args hlaid
  have hwrites := openLaunch_writes [(lit "page", quoted page)]
  have houtcome := launch_outcome hwrites
  refine ⟨hvalue, houtcome.trans rfl, fun hdelivers => ?_⟩
  rcases hdelivers _ (launch_writes.mpr ⟨_, _, hwrites, rfl⟩) with ⟨reason, hfailed⟩ | hcarries
  · rw [houtcome] at hfailed
    cases hfailed
  · have hfits := (envelope_whole hvalue (callId_plain hwrites.paths) hcarries).short
    have hroom : page.length ≤ (objText (envelopeMembers (writeCall [(lit "page", quoted page)])
        (lit "001_actionreq_run_001_000003")
        (lit "runs/run_001/action_calls/001_actionreq_run_001_000003.body.html"))).length := by
      rw [envelopeMembers, effectiveArgs_eq, hargs]
      simp only [List.cons_append, List.nil_append, objText, membersText, quoted, List.length_cons, List.length_append]
      omega
    simp only [rtLarge] at hfits
    omega

end Floofclaw.Guarantees.ActionEnvelopes
