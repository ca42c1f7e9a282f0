import Floofclaw.Source.OperationDriver
import Floofclaw.Guarantees.FinishedResults
import Floofclaw.Guarantees.Snapshot

/-!
# Reading a file page by page

A page reaches the agent whole exactly where it has no NUL, where the text with
its header is at most the 8 KiB that are forwarded, where nothing in it makes
the result look as if it had a status, and where the two events that carry it
fit. Then, and only then, the pages put together are the file.
-/

set_option autoImplicit false

namespace Floofclaw.Guarantees.FilePages
open Floofclaw.Lib Floofclaw.Source.Json Floofclaw.Source.Inbound Floofclaw.Source.RunState Floofclaw.Source.ActionReports
open Floofclaw.Source.FileIntrinsics Floofclaw.Source.OperationEvents Floofclaw.Source.OperationDriver
open Floofclaw.Guarantees.FileReports Floofclaw.Guarantees.FirstEvent
open Floofclaw.Guarantees.FinishedResults

/-! ## Searching a text -/

theorem before_eq_none {needle s : Bytes} : before needle s = none ↔ ¬ needle <:+: s := by
  induction s with
  | nil =>
    rw [before, List.infix_nil]
    split
    · rename_i h
      simp [h]
    · rename_i h
      simp [h]
  | cons c s ih =>
    rw [before, List.infix_cons_iff, ← List.isPrefixOf_iff_prefix]
    split
    · rename_i h
      simp [h]
    · rename_i h
      simp [h, ih]

/-- An octet that the needle does not have separates the places to look at. -/
theorem infix_separated {needle x y : Bytes} {c : Byte} (hc : c ∉ needle) (h : needle <:+: x ++ c :: y) :
    needle <:+: x ∨ needle <:+: y := by
  obtain ⟨s, t, hst⟩ := h
  rcases List.append_eq_append_iff.mp hst with ⟨e, hx, -⟩ | ⟨e, hsn, hct⟩
  · exact .inl ⟨s, e, hx.symm⟩
  · cases e with
    | nil => exact .inl ⟨s, [], by simpa using hsn⟩
    | cons d e =>
      rw [List.cons_append, List.cons.injEq] at hct
      obtain ⟨rfl, rfl⟩ := hct
      have hsplit : s ++ needle = (x ++ [c]) ++ e := by simpa using hsn
      rcases List.append_eq_append_iff.mp hsplit with ⟨f, hf, hneedle⟩ | ⟨f, -, he⟩
      · rcases List.eq_nil_or_concat f with rfl | ⟨f', d, rfl⟩
        · exact .inr ⟨[], t, by simp [hneedle]⟩
        · have hlast := congrArg List.getLast? hf
          rw [List.concat_eq_append, ← List.append_assoc, List.getLast?_concat, List.getLast?_concat, Option.some.injEq] at hlast
          exact absurd (by rw [hneedle, hlast]; simp) hc
      · exact .inr ⟨f, t, by rw [he]⟩

theorem before_separated {needle x y : Bytes} {c : Byte} (hc : c ∉ needle) :
    before needle (x ++ c :: y) = none ↔ before needle x = none ∧ before needle y = none := by
  rw [before_eq_none, before_eq_none, before_eq_none, ← not_or]
  refine not_congr ⟨infix_separated hc, ?_⟩
  rintro (⟨s, t, h⟩ | ⟨s, t, h⟩)
  · exact ⟨s, t ++ c :: y, by rw [← h]; simp⟩
  · exact ⟨x ++ c :: s, t, by rw [← h]; simp⟩

def statusWord : Bytes := lit "\"status\""

theorem statusWord_plain {s : Bytes} (h : ch '"' ∉ s) : before statusWord s = none := by
  rw [before_eq_none]
  intro hin
  exact h (hin.subset (by decide))

theorem before_members {ms : List (Bytes × Bytes)} (hne : ms ≠ []) :
    before statusWord (membersText ms) = none ↔
      ∀ m ∈ ms, before statusWord (quoted m.1) = none ∧ before statusWord m.2 = none := by
  induction ms with
  | nil => exact absurd rfl hne
  | cons m ms ih =>
    obtain ⟨k, v⟩ := m
    cases ms with
    | nil =>
      rw [membersText, before_separated (by decide)]
      simp
    | cons m2 ms =>
      rw [membersText, before_separated (by decide), before_separated (by decide), ih (by simp), ← and_assoc]
      exact (List.forall_mem_cons (a := (k, v)) (p := fun m : Bytes × Bytes =>
        before statusWord (quoted m.1) = none ∧ before statusWord m.2 = none)).symm

/-- An object is silent where its keys and values are. -/
theorem before_object {ms : List (Bytes × Bytes)} (hne : ms ≠ []) :
    before statusWord (objText ms) = none ↔
      ∀ m ∈ ms, before statusWord (quoted m.1) = none ∧ before statusWord m.2 = none := by
  have hnil : before statusWord [] = none := by decide
  rw [objText, ← List.nil_append (ch '{' :: _), before_separated (by decide), before_separated (by decide), before_members hne]
  simp [hnil]

/-! ## A page -/

theorem size_long {content : Bytes} (h : (content.length : Int) ≤ int64Max) :
    int64Min ≤ (content.length : Int) ∧ (content.length : Int) ≤ int64Max := by
  refine ⟨?_, h⟩
  simp only [int64Min]
  omega

/-- A file of the content, with every read of it served in full. -/
def fileOf (content : Bytes) (h : (content.length : Int) ≤ int64Max) : OpenFile where
  tell := some ⟨content.length, size_long h⟩
  seek _ := true
  read offset n := (content.drop offset.toNat).take n

/-- The path names a file that opens, for an action that is a managed operation, as `read_file` is. -/
structure Readable (env : DriverEnv) (path content : Bytes) : Prop where
  given : path ≠ []
  size : (content.length : Int) ≤ int64Max
  opens : ∃ abs, rtActionResolveWorkspacePath env.fs env.runDir path = .ok abs ∧ env.fs.openRead abs = some (fileOf content size)
  allocates : ∀ n, env.fs.allocates n = true
  managed : env.call.managedOperation = true
  id : NulFree env.call.requestId
  source : ∀ s, env.sourceEventId = some s → NulFree s

/-- The arguments ask for the path, from the offset on. -/
structure CallsAt (path args : Bytes) (offset : Nat) : Prop where
  named : pathField args [] = path
  placed : positiveArg args (lit "offset") 0 = offset

/-- The length a call asks for, within the limit of a read. -/
def pageLength (args : Bytes) : Nat := (min (positiveArg args (lit "length") readCap) readCap).toNat

def chunk (content args : Bytes) (offset : Nat) : Bytes := (content.drop offset).take (pageLength args)

def pageHeader (env : DriverEnv) (path content args : Bytes) (offset : Nat) : Bytes :=
  readHeader (escapeOrEmpty rtMed (baseName path)) (clip rtSmall (if env.call.action = [] then lit "tool" else env.call.action))
    content.length offset (chunk content args offset).length

/-- The text of a page: its header, and behind an empty line what was read. -/
def pageText (env : DriverEnv) (path content args : Bytes) (offset : Nat) : Bytes :=
  pageHeader env path content args offset ++
    (if chunk content args offset = [] then [] else lit "\n\n" ++ chunk content args offset)

def pageMembers (env : DriverEnv) (path content args : Bytes) (offset : Nat) : List (Bytes × Bytes) :=
  [(lit "path", quoted (escaped path)), (lit "text", quoted (escaped (pageText env path content args offset))),
    (lit "truncated", boolText ((offset : Int) + (chunk content args offset).length < content.length)),
    (lit "bytes", decInt content.length), (lit "content_bytes", decInt (chunk content args offset).length),
    (lit "offset", decInt offset), (lit "next_offset", decInt (offset + (chunk content args offset).length))]

/-- Room for the terminal of a call with a wrapped result, and for the members of the step it is bound to. -/
def TerminalRoom (call : Call) (result : Bytes) : Prop :=
  (terminalPayload call true [] result (lit "null")).length < rtXl ∧
    ∀ b, call.binding = some b → ∃ bind, bindText call b = some bind ∧
      (terminalPayload call true [] result (lit "null")).length - 1 + bind.length +
        ((continuationOf call true result).length + 20) + 2 < rtXl

/-- The operation result with a text. -/
def resultMembers (op : RtOperationSnapshot) (source text : Bytes) : List (Bytes × Bytes) :=
  [(lit "handle", quoted (escaped op.handle)), (lit "action", quoted (escaped op.action)),
    (lit "request_id", quoted (escaped op.requestId)), (lit "trigger_event_id", quoted (escaped op.triggerEventId)),
    (lit "work_rev", decInt op.workRev), (lit "source_event_id", quoted (escaped source))] ++
  (recordCorrelation op).members (escaped op.taskId) (escaped op.contextId) (escaped op.channel) (escaped op.adapterId)
    (escaped op.originEventId) ++
  [(lit "status", quoted (escaped (lit "succeeded"))), (lit "text", quoted (escaped text))]

def wakeMembers (op : RtOperationSnapshot) (source text : Bytes) : List (Bytes × Bytes) :=
  [(lit "handle", quoted (escaped op.handle)), (lit "action", quoted (escaped op.action)),
    (lit "request_id", quoted (escaped op.requestId)), (lit "trigger_event_id", quoted (escaped op.triggerEventId)),
    (lit "task_id", quoted (escaped op.taskId)), (lit "work_rev", decInt op.workRev),
    (lit "source_event_id", quoted (escaped source)), (lit "context_id", quoted (escaped op.contextId)),
    (lit "channel", quoted (escaped op.channel)), (lit "status", quoted (escaped (lit "succeeded"))),
    (lit "text", quoted (escaped text)), (lit "origin_event_id", quoted (escaped op.originEventId)),
    (lit "adapter_id", quoted (escaped op.adapterId)),
    (lit "ref", if op.refJson ≠ [] ∧ op.refJson.length ≤ 512 then op.refJson else lit "null")]

/-- Every field fits its mirror, and the operation result and its wake their events. -/
structure ResultRoom (op : RtOperationSnapshot) (source text : Bytes) : Prop where
  fields : ∀ s ∈ [op.handle, op.action, op.requestId, op.triggerEventId, source, op.taskId, op.contextId, op.channel,
    op.adapterId, op.originEventId], escapeFits rtMed s
  mirrored : escapeFits rtEventPayloadMax text
  correlation : (membersText ((recordCorrelation op).members (escaped op.taskId) (escaped op.contextId) (escaped op.channel)
    (escaped op.adapterId) (escaped op.originEventId))).length < rtLarge
  payload : (objText (resultMembers op source text)).length < rtEventPayloadMax
  wake : op.channel ≠ [] → (objText (wakeMembers op source text)).length < busPayloadMax

/-- The condition on a page. -/
structure PageFits (env : DriverEnv) (path content args : Bytes) (offset : Nat) : Prop where
  pathFits : (escaped path).length < pathMax * 2
  clean : NulFree (pageText env path content args offset)
  short : (pageText env path content args offset).length ≤ rtOperationResultTextMax
  quietPath : before statusWord (quoted (escaped path)) = none
  quietText : before statusWord (quoted (escaped (pageText env path content args offset))) = none
  requestId : env.call.requestId ≠ [] ∧ (escaped env.call.requestId).length < rtSmall
  reported : TerminalRoom env.call (objText (finishedMembers env.call.requestId ++ pageMembers env path content args offset))
  published : ∃ source, env.sourceEventId = some source ∧
    ResultRoom env.operation source (pageText env path content args offset)

theorem appendEscapedBytes_append {cap reserve : Nat} (s t out : Bytes) :
    appendEscapedBytes cap reserve (s ++ t) out =
      (appendEscapedBytes cap reserve s out).bind (appendEscapedBytes cap reserve t) := by
  induction s generalizing out with
  | nil => rfl
  | cons c s ih =>
    rw [List.cons_append, appendEscapedBytes, appendEscapedBytes]
    split
    · rfl
    · exact ih _

theorem appendEscapedBytes_nulFree {cap reserve : Nat} {s out text : Bytes}
    (h : appendEscapedBytes cap reserve s out = some text) : NulFree s := by
  induction s generalizing out with
  | nil => simp [NulFree]
  | cons c s ih =>
    rw [appendEscapedBytes] at h
    split at h
    · cases h
    · rename_i hc
      exact List.forall_mem_cons.mpr ⟨fun h0 => hc (.inl h0), ih h⟩

theorem appendEscapedBytes_complete {cap reserve : Nat} {s out : Bytes} (hs : NulFree s)
    (hfit : (out ++ escaped s).length + reserve < cap) : appendEscapedBytes cap reserve s out = some (out ++ escaped s) := by
  induction s generalizing out with
  | nil => simp [appendEscapedBytes, escaped]
  | cons c s ih =>
    obtain ⟨hc, hrest⟩ := List.forall_mem_cons.mp hs
    have hcons : escaped (c :: s) = escapeByte c ++ escaped s := by simp [escaped]
    rw [hcons, ← List.append_assoc] at hfit ⊢
    have hlen : (out ++ escapeByte c ++ escaped s).length = out.length + (escapeByte c).length + (escaped s).length := by
      simp only [List.length_append]
    rw [appendEscapedBytes, if_neg (by rw [not_or]; exact ⟨hc, by omega⟩), ih hrest hfit]

/-! ### The report of a page -/

theorem pageLength_pos (args : Bytes) : 0 < pageLength args := by
  have hpos : 0 < positiveArg args (lit "length") readCap := by
    unfold positiveArg
    split
    · decide
    · split
      · split
        · assumption
        · decide
      · decide
  have hcap : readCap = 32768 := rfl
  rw [pageLength]
  omega

theorem fcReadFile_page {env : DriverEnv} {path content args : Bytes} {offset : Nat} (hfile : Readable env path content)
    (hcall : CallsAt path args offset) (hoffset : offset ≤ content.length) :
    fcReadFile env.fs env.runDir env.call.action args =
      readReport path (clip rtSmall (if env.call.action = [] then lit "tool" else env.call.action))
        (chunk content args offset) content.length offset := by
  obtain ⟨abs, hresolve, hopen⟩ := hfile.opens
  have htotal : (fileOf content hfile.size).total = content.length := by
    simp only [OpenFile.total, fileOf, Option.map_some, Option.getD_some]
    omega
  have hmin : min (positiveArg args (lit "offset") 0) (fileOf content hfile.size).total = offset := by
    rw [hcall.placed, htotal]
    omega
  rw [fcReadFile, hcall.named]
  dsimp only
  rw [if_neg hfile.given, hresolve]
  dsimp only
  rw [hopen]
  dsimp only
  rw [hmin, if_neg (by simp [fileOf]), if_neg (by simp [hfile.allocates]), htotal]
  have hread : ((fileOf content hfile.size).read (offset : Int) (pageLength args)).take (pageLength args) =
      chunk content args offset := by
    simp [fileOf, chunk, List.take_take]
  rw [← hread]
  rfl

theorem pathField_nulFree (args : Bytes) : NulFree (pathField args []) := by
  unfold pathField
  split
  · simp [NulFree]
  · exact (stringField_text (textField_nil (by decide))).nulFree

/-- Header and content are escaped as one text. -/
theorem pageAppend_eq (env : DriverEnv) (path content args : Bytes) (offset : Nat) (opening : Bytes) :
    ((appendEscapedBytes rtXl 384 (pageHeader env path content args offset) opening).bind fun text =>
        if chunk content args offset = [] then some text
        else (appendEscapedBytes rtXl 384 (lit "\n\n") text).bind (appendEscapedBytes rtXl 384 (chunk content args offset))) =
      appendEscapedBytes rtXl 384 (pageText env path content args offset) opening := by
  rw [pageText, appendEscapedBytes_append]
  congr 1
  funext text
  split
  · rfl
  · rw [appendEscapedBytes_append]

theorem pageMembers_text (env : DriverEnv) (path content args : Bytes) (offset : Nat) :
    readOpening (escaped path) ++ escaped (pageText env path content args offset) ++
        readClosing content.length offset (chunk content args offset).length =
      objText (pageMembers env path content args offset) := by
  simp [pageMembers, readOpening, readClosing, objText, membersText, quoted, lit]

/-- A page that is reported is the object of its members. -/
theorem pageReport_done {env : DriverEnv} {path content args : Bytes} {offset : Nat} {result : Bytes} (hpath : NulFree path)
    (h : readReport path (clip rtSmall (if env.call.action = [] then lit "tool" else env.call.action))
      (chunk content args offset) content.length offset = .done result) :
    (escaped path).length < pathMax * 2 ∧ NulFree (pageText env path content args offset) ∧
      result = objText (pageMembers env path content args offset) ∧ result.length < rtXl := by
  rw [readReport, mirror_eq hpath] at h
  by_cases hfit : (escaped path).length < pathMax * 2
  · rw [if_pos hfit] at h
    dsimp only at h
    split at h
    · cases h
    · rw [← pageHeader, pageAppend_eq] at h
      split at h
      · cases h
      · rename_i text htext
        split at h
        · cases h
        · rename_i hshort
          cases h
          have heq := appendEscapedBytes_text htext
          refine ⟨hfit, appendEscapedBytes_nulFree htext, ?_, Nat.not_le.mp hshort⟩
          rw [heq, pageMembers_text]
  · rw [if_neg hfit] at h
    cases h

theorem readClosing_length {total offset nread : Int} (ht : int64Min ≤ total ∧ total ≤ int64Max)
    (ho : int64Min ≤ offset ∧ offset ≤ int64Max) (hn : int64Min ≤ nread ∧ nread ≤ int64Max)
    (hr : int64Min ≤ offset + nread ∧ offset + nread ≤ int64Max) : (readClosing total offset nread).length ≤ 151 := by
  have h1 : (decInt total).length ≤ 20 := decInt_short ⟨total, ht⟩
  have h2 : (decInt offset).length ≤ 20 := decInt_short ⟨offset, ho⟩
  have h3 : (decInt nread).length ≤ 20 := decInt_short ⟨nread, hn⟩
  have h4 : (decInt (offset + nread)).length ≤ 20 := decInt_short ⟨offset + nread, hr⟩
  have hbool : ∀ b, (boolText b).length ≤ 5 := by decide
  have h5 := hbool (offset + nread < total)
  have hlits : (lit "\",\"truncated\":").length = 14 ∧ (lit ",\"bytes\":").length = 9 ∧
      (lit ",\"content_bytes\":").length = 17 ∧ (lit ",\"offset\":").length = 10 ∧
      (lit ",\"next_offset\":").length = 15 ∧ (lit "\x7d").length = 1 := ⟨lit_length _, lit_length _, lit_length _, lit_length _, lit_length _, lit_length _⟩
  simp only [readClosing, List.length_append]
  omega

/-- The room around the text of a page. -/
theorem pageMembers_length {env : DriverEnv} {path content args : Bytes} {offset : Nat} (hsize : (content.length : Int) ≤ int64Max)
    (hoffset : offset ≤ content.length) :
    (objText (pageMembers env path content args offset)).length ≤
      (escaped path).length + (escaped (pageText env path content args offset)).length + 170 := by
  have hchunk : offset + (chunk content args offset).length ≤ content.length := by
    rw [chunk, List.length_take, List.length_drop]
    omega
  have hclosing : (readClosing content.length offset (chunk content args offset).length).length ≤ 151 := by
    have hmin : int64Min ≤ 0 := by decide
    refine readClosing_length ⟨?_, ?_⟩ ⟨?_, ?_⟩ ⟨?_, ?_⟩ ⟨?_, ?_⟩ <;> omega
  have hopening : (readOpening (escaped path)).length = (escaped path).length + 19 := by
    have hlits : (lit "\x7b\"path\":\"").length = 9 ∧ (lit "\",\"text\":\"").length = 10 := ⟨lit_length _, lit_length _⟩
    simp only [readOpening, List.length_append]
    omega
  rw [← pageMembers_text, List.length_append, List.length_append]
  omega

/-- A page of at most 8 KiB without NUL is reported. -/
theorem pageReport_fits {env : DriverEnv} {path content args : Bytes} {offset : Nat} (hpath : NulFree path)
    (hsize : (content.length : Int) ≤ int64Max) (hoffset : offset ≤ content.length)
    (hfit : (escaped path).length < pathMax * 2) (hclean : NulFree (pageText env path content args offset))
    (hshort : (pageText env path content args offset).length ≤ rtOperationResultTextMax) :
    readReport path (clip rtSmall (if env.call.action = [] then lit "tool" else env.call.action))
      (chunk content args offset) content.length offset = .done (objText (pageMembers env path content args offset)) := by
  have hlong := (escaped_length (pageText env path content args offset)).2
  have hwhole : (objText (pageMembers env path content args offset)).length ≤
      (escaped path).length + (escaped (pageText env path content args offset)).length + 170 :=
    pageMembers_length hsize hoffset
  simp only [pathMax, rtOperationResultTextMax] at hfit hshort
  have hopening : (readOpening (escaped path)).length ≤ (escaped path).length + 19 := by
    have hlits : (lit "\x7b\"path\":\"").length = 9 ∧ (lit "\",\"text\":\"").length = 10 := ⟨lit_length _, lit_length _⟩
    simp only [readOpening, List.length_append]
    omega
  rw [readReport, mirror_eq hpath, if_pos (by simp only [pathMax]; omega)]
  dsimp only
  rw [if_neg (by simp only [rtXl]; omega), ← pageHeader, pageAppend_eq,
    appendEscapedBytes_complete hclean (by rw [List.length_append]; simp only [rtXl]; omega)]
  dsimp only
  rw [pageMembers_text, if_neg (by simp only [rtXl]; omega)]

/-! ### The page behind its status -/

theorem pageMembers_written (env : DriverEnv) (path content args : Bytes) (offset : Nat) :
    WrittenMembers (pageMembers env path content args offset) := by
  have hbool : ∀ b, NulFree (boolText b) := by
    intro b
    cases b <;> exact .of_all (by decide)
  exact .key (by decide) (.text _) (.key (by decide) (.text _) (.key (by decide) ⟨isValue_bool _, hbool _⟩
    (.key (by decide) (.long _) (.key (by decide) (.long _) (.key (by decide) (.long _) (.key (by decide) (.long _) .nil))))))

theorem wrapped_written (env : DriverEnv) (path content args : Bytes) (offset : Nat) :
    WrittenMembers (finishedMembers env.call.requestId ++ pageMembers env path content args offset) :=
  .key (by decide) ⟨isValue_plain (lit_all (by decide)), .of_all (by decide)⟩
    (.key (by decide) (.text _) (pageMembers_written env path content args offset))

theorem wrappedText_objText {ms : List (Bytes × Bytes)} (h : ms ≠ []) (requestId : Bytes) :
    wrappedText (objText ms) requestId = objText (finishedMembers requestId ++ ms) := by
  have hlong : (objText ms).length > 2 := by
    obtain ⟨m, ms', rfl⟩ := List.exists_cons_of_ne_nil h
    obtain ⟨u, hu⟩ := membersText_cons_quote m ms'
    simp [objText, hu]
  rw [wrappedText, if_pos hlong, objText, objText, membersText_append (by simp [finishedMembers]) h]
  simp

theorem finishedMembers_length {requestId : Bytes} (h : (escaped requestId).length < rtSmall) :
    (membersText (finishedMembers requestId)).length ≤ 160 := by
  have hlits : (lit "status").length = 6 ∧ (lit "finished").length = 8 ∧ (lit "handle").length = 6 := ⟨lit_length _, lit_length _, lit_length _⟩
  simp only [rtSmall] at h
  simp only [finishedMembers, membersText, quoted, List.length_append, List.length_cons, List.length_nil]
  omega

/-- Only the page's own texts can hide the word that stops the wrapping. -/
theorem page_silent (env : DriverEnv) (path content args : Bytes) (offset : Nat) :
    before statusWord (objText (pageMembers env path content args offset)) = none ↔
      before statusWord (quoted (escaped path)) = none ∧
        before statusWord (quoted (escaped (pageText env path content args offset))) = none := by
  have hdigit : isDigit (ch '"') = false := by decide
  have hnum : ∀ z, before statusWord (decInt z) = none := by
    refine fun z => statusWord_plain fun hmem => ?_
    cases z with
    | ofNat n => exact absurd (decNat_digits n _ hmem) (by simp [hdigit])
    | negSucc n =>
      rcases List.mem_cons.mp hmem with hminus | hmem
      · exact absurd hminus (by decide)
      · exact absurd (decNat_digits _ _ hmem) (by simp [hdigit])
  have hbool : ∀ b, before statusWord (boolText b) = none := by decide
  have hkeys : ∀ k ∈ [lit "path", lit "text", lit "truncated", lit "bytes", lit "content_bytes", lit "offset", lit "next_offset"],
      before statusWord (quoted k) = none := by (repeat rw [lit_ofList]); decide
  rw [before_object (by simp [pageMembers])]
  simp only [List.forall_mem_cons, pageMembers, hnum, hbool, List.not_mem_nil, false_implies, implies_true, and_true] at hkeys ⊢
  simp only [hkeys, true_and, and_true]

theorem page_spliced {env : DriverEnv} {path content args : Bytes} {offset : Nat}
    (h : Spliced (objText (pageMembers env path content args offset)) env.call.requestId) :
    before statusWord (quoted (escaped path)) = none ∧
      before statusWord (quoted (escaped (pageText env path content args offset))) = none ∧
      env.call.requestId ≠ [] ∧ (escaped env.call.requestId).length < rtSmall := by
  obtain ⟨hpath, htext⟩ := (page_silent env path content args offset).mp h.silent
  exact ⟨hpath, htext, h.id, h.handle⟩

theorem PageFits.spliced {env : DriverEnv} {path content args : Bytes} {offset : Nat}
    (h : PageFits env path content args offset) (hsize : (content.length : Int) ≤ int64Max) (hoffset : offset ≤ content.length) :
    Spliced (objText (pageMembers env path content args offset)) env.call.requestId := by
  have hlong : 2 ≤ (objText (pageMembers env path content args offset)).length := by
    simp [objText]
  refine ⟨hlong, h.requestId.1, rfl, getLast?_objText _,
    (page_silent env path content args offset).mpr ⟨h.quietPath, h.quietText⟩, h.requestId.2, ?_⟩
  have hwhole : (objText (pageMembers env path content args offset)).length ≤
      (escaped path).length + (escaped (pageText env path content args offset)).length + 170 :=
    pageMembers_length hsize hoffset
  have hesc := (escaped_length (pageText env path content args offset)).2
  have hshort := h.short
  have hpath := h.pathFits
  have hhandle := finishedMembers_length h.requestId.2
  simp only [pathMax, rtOperationResultTextMax] at hshort hpath
  simp only [wrappedText, List.length_append, List.length_cons, List.length_drop, rtXl]
  split <;> simp only [List.length_cons, List.length_nil] <;> omega

/-! ### The text that is forwarded -/

/-- The text member of a page, as `result_text_excerpt` copies it. -/
def forwarded (env : DriverEnv) (path content args : Bytes) (offset : Nat) : Bytes :=
  cstr (stringCopyWrite (rtOperationResultTextMax + 1) (quoted (escaped (pageText env path content args offset)))).1

theorem forwarded_length (env : DriverEnv) (path content args : Bytes) (offset : Nat) :
    (forwarded env path content args offset).length ≤ rtOperationResultTextMax :=
  (cstr_length_le _).trans (Nat.lt_succ_iff.mp (stringCopyWrite_length (Nat.succ_pos _) _))

theorem forwarded_short {env : DriverEnv} {path content args : Bytes} {offset : Nat}
    (hclean : NulFree (pageText env path content args offset))
    (hshort : (pageText env path content args offset).length ≤ rtOperationResultTextMax) :
    forwarded env path content args offset = pageText env path content args offset := by
  have hcopy := jsonRefStringCopy_escaped hclean (Nat.lt_succ_of_le hshort)
  obtain ⟨d, hd, htext⟩ := jsonRefStringCopy_eq_some.mp hcopy
  rw [forwarded, hd]
  exact htext.symm

/-- A result without a status ends no operation with a text. -/
theorem onSucceeded_bare (env : DriverEnv) (path content args : Bytes) (offset : Nat) :
    onSucceeded (objText (pageMembers env path content args offset)) = none := by
  have hw := pageMembers_written env path content args offset
  have hclean := CleanValue.objText hw
  have hstatus : jsonRefObjectGetString (objText (pageMembers env path content args offset)) (lit "status") rtSmall = none := by
    rw [jsonRefObjectGetString, jsonRefObjectGet_eq hw.objText, memberLookup_plain fun m hm => (hw m hm).1]
    rfl
  rw [onSucceeded, Snapshot.jsonRefFirstObject_whole ⟨⟨_, hw.objText⟩, hclean.nulFree⟩]
  dsimp only
  rw [hstatus]
  rfl

theorem onSucceeded_wrapped (env : DriverEnv) (path content args : Bytes) (offset : Nat) :
    onSucceeded (objText (finishedMembers env.call.requestId ++ pageMembers env path content args offset)) =
      some (lit "succeeded", forwarded env path content args offset) := by
  have hw := wrapped_written env path content args offset
  have hclean := CleanValue.objText hw
  have hget : ∀ key, jsonRefObjectGet (objText (finishedMembers env.call.requestId ++ pageMembers env path content args offset)) key =
      assoc key (finishedMembers env.call.requestId ++ pageMembers env path content args offset) := fun key => by
    rw [jsonRefObjectGet_eq hw.objText, memberLookup_plain fun m hm => (hw m hm).1]
  have hstatus : assoc (lit "status") (finishedMembers env.call.requestId ++ pageMembers env path content args offset) =
      some (quoted (lit "finished")) := rfl
  have hstate : assoc (lit "state") (finishedMembers env.call.requestId ++ pageMembers env path content args offset) = none := rfl
  have htext : assoc (lit "text") (finishedMembers env.call.requestId ++ pageMembers env path content args offset) =
      some (quoted (escaped (pageText env path content args offset))) := rfl
  rw [onSucceeded, Snapshot.jsonRefFirstObject_whole ⟨⟨_, hw.objText⟩, hclean.nulFree⟩]
  dsimp only
  rw [jsonRefObjectGetString, jsonRefObjectGetString, hget, hget, hstatus, hstate, if_pos (by rw [lit_ofList]; decide), if_neg (by decide),
    resultTextExcerpt, excerptValue, hget, htext]
  rfl

/-! ### The events that carry it -/

/-- The step of a bound call goes on with the operation, so that no wake is prepared for it. -/
theorem emit_room {env : DriverEnv} {path content args : Bytes} {offset : Nat} (hmanaged : env.call.managedOperation = true) :
    (rtActionEmitTerminal env.prepare env.call true []
        (objText (finishedMembers env.call.requestId ++ pageMembers env path content args offset)) (lit "null")).isSome = true ↔
      TerminalRoom env.call (objText (finishedMembers env.call.requestId ++ pageMembers env path content args offset)) := by
  have hw := wrapped_written env path content args offset
  have hget : jsonRefObjectGetString (objText (finishedMembers env.call.requestId ++ pageMembers env path content args offset))
      (lit "status") rtSmall = some (lit "finished") := by
    rw [jsonRefObjectGetString, jsonRefObjectGet_eq hw.objText, memberLookup_plain fun m hm => (hw m hm).1]
    have hstatus : jsonRefStringCopy rtSmall (quoted (lit "finished")) = some (lit "finished") := by rw [lit_ofList]; decide
    exact hstatus
  generalize hresult : objText (finishedMembers env.call.requestId ++ pageMembers env path content args offset) = result at hget
  have htop : jsonRefTopObject result = some result :=
    hresult ▸ jsonRefTopObject_complete hw.objText (CleanValue.objText hw).nulFree
  have hcont : continuationOf env.call true result ≠ [] := by
    have hdisposition : managedContractDisposition env.call true result = true := by
      rw [managedContractDisposition, htop, Option.bind_some, hget, hmanaged]
      rfl
    rw [continuationOf, hdisposition]
    split <;> (rw [lit_ofList]; decide)
  have hlast : (terminalPayload env.call true [] result (lit "null")).getLast? = some (ch '}') := getLast?_objText _
  rw [rtActionEmitTerminal, TerminalRoom]
  cases hb : env.call.binding with
  | none =>
    dsimp only
    split
    · rename_i hlong
      simp [Nat.not_lt.mpr hlong]
    · rename_i hshort
      simp [Nat.not_le.mp hshort]
  | some b =>
    dsimp only
    cases hbind : bindText env.call b with
    | none => simp [hbind]
    | some bind =>
      have hroom : ∀ payload : Bytes, payload.getLast? = some (ch '}') →
          ((bindPayload payload bind (continuationOf env.call true result)).isSome = true ↔
            payload.length - 1 + bind.length + ((continuationOf env.call true result).length + 20) + 2 < rtXl) := by
        intro payload hlast
        rw [bindPayload, if_neg hcont]
        split
        · rename_i hlong
          have := hlong.resolve_left fun h => h hlast
          simp only [Option.isSome_none, Bool.false_eq_true, false_iff]
          omega
        · rename_i hshort
          rw [not_or] at hshort
          simp only [Option.isSome_some, true_iff]
          omega
      have hwhole := hroom _ hlast
      dsimp only
      split
      · rename_i hlong
        simp [Nat.not_lt.mpr hlong]
      · rename_i hshort
        cases hpayload : bindPayload (terminalPayload env.call true [] result (lit "null")) bind
            (continuationOf env.call true result) with
        | none =>
          rw [hpayload] at hwhole
          simpa [hbind, Nat.not_le.mp hshort] using hwhole
        | some payload =>
          rw [hpayload] at hwhole
          simpa [hbind, Nat.not_le.mp hshort, hcont] using hwhole

theorem correlation_room {op : RtOperationSnapshot} {corr : List (Bytes × Bytes)} :
    correlationFieldsFromOp (recordCorrelation op) = some corr ↔
      (∀ s ∈ [op.taskId, op.contextId, op.channel, op.adapterId, op.originEventId], escapeFits rtMed s) ∧
        corr = (recordCorrelation op).members (escaped op.taskId) (escaped op.contextId) (escaped op.channel)
          (escaped op.adapterId) (escaped op.originEventId) ∧ (membersText corr).length < rtLarge := by
  have hfields := op.nulFree
  simp only [List.forall_mem_cons] at hfields
  obtain ⟨-, -, -, -, -, n1, n2, n3, n4, n5, -⟩ := hfields
  simp only [correlationFieldsFromOp, recordCorrelation, mirror_fits n1, mirror_fits n2, mirror_fits n3, mirror_fits n4,
    mirror_fits n5, Option.bind_eq_bind, Option.pure_def, fits_bind, List.forall_mem_cons]
  constructor
  · rintro ⟨f2, f3, f4, f1, f5, hrest⟩
    obtain ⟨hshort, hcorr⟩ := guard_bind.mp hrest
    cases hcorr
    exact ⟨⟨f1, f2, f3, f4, f5, by simp⟩, rfl, hshort⟩
  · rintro ⟨⟨f1, f2, f3, f4, f5, -⟩, rfl, hshort⟩
    exact ⟨f2, f3, f4, f1, f5, guard_bind.mpr ⟨hshort, rfl⟩⟩

theorem wake_room {op : RtOperationSnapshot} {source text wake : Bytes}
    (hfields : ∀ s ∈ [op.taskId, op.contextId, op.channel, op.adapterId, op.originEventId], escapeFits rtMed s) :
    resultWake op (escaped op.handle) (escaped op.action) (escaped op.requestId) (escaped op.triggerEventId) (escaped source)
        (escaped (lit "succeeded")) (escaped text) = some wake ↔
      (objText (wakeMembers op source text)).length < busPayloadMax ∧ wake = objText (wakeMembers op source text) := by
  have hnul := op.nulFree
  simp only [List.forall_mem_cons] at hnul hfields
  obtain ⟨-, -, -, -, -, n1, n2, n3, n4, n5, -⟩ := hnul
  obtain ⟨f1, f2, f3, f4, f5, -⟩ := hfields
  simp only [resultWake, mirror_fits n1, mirror_fits n2, mirror_fits n3, mirror_fits n4, mirror_fits n5, Option.bind_eq_bind,
    Option.pure_def, fits_bind, guard_bind, Option.some.injEq]
  constructor
  · rintro ⟨-, -, -, -, -, hshort, hwake⟩
    exact ⟨hshort, hwake.symm⟩
  · rintro ⟨hshort, hwake⟩
    exact ⟨f1, f2, f3, f5, f4, hshort, hwake.symm⟩

theorem terminalize_room {op : RtOperationSnapshot} {sourceEventId : Option Bytes} {text : Bytes}
    (hsource : ∀ s, sourceEventId = some s → NulFree s) (htext : NulFree text) :
    (terminalizeInRun op sourceEventId (lit "succeeded") text true).isSome = true ↔
      ∃ source, sourceEventId = some source ∧ ResultRoom op source text := by
  have hnul := op.nulFree
  simp only [List.forall_mem_cons] at hnul
  obtain ⟨n1, -, n2, n3, n4, -⟩ := hnul
  have nstatus : NulFree (lit "succeeded") := .of_all (lit_all (by decide))
  have hstatus : escapeFits rtMed (lit "succeeded") := by rw [lit_ofList]; decide
  cases sourceEventId with
  | none => simp [terminalizeInRun]
  | some source =>
    have nsource := hsource source rfl
    rw [Option.isSome_iff_exists]
    simp only [terminalizeInRun, Option.bind_eq_bind, Option.pure_def]
    constructor
    · rintro ⟨out, hout⟩
      rw [escape_bind n1, escape_bind n2, escape_bind n3, escape_bind n4, escape_bind nstatus, escape_bind htext, Option.bind_some,
        escape_bind nsource, Option.bind_eq_some_iff] at hout
      obtain ⟨f1, f2, f3, f4, -, fitText, f5, corr, hcorr, hrest⟩ := hout
      obtain ⟨hfields, rfl, hcorrShort⟩ := correlation_room.mp hcorr
      obtain ⟨hshort, hrest⟩ := guard_bind.mp hrest
      refine ⟨source, rfl, ?_, fitText, hcorrShort, hshort, fun hchannel => ?_⟩
      · simp only [List.forall_mem_cons] at hfields ⊢
        exact ⟨f1, f2, f3, f4, f5, hfields⟩
      · rw [if_pos ⟨trivial, hchannel⟩] at hrest
        obtain ⟨wake, hwake, -⟩ := Option.bind_eq_some_iff.mp hrest
        exact ((wake_room hfields).mp hwake).1
    · rintro ⟨_, hsome, h⟩
      cases hsome
      have hall := h.fields
      simp only [List.forall_mem_cons] at hall
      obtain ⟨f1, f2, f3, f4, f5, hrest⟩ := hall
      have hfields : ∀ s ∈ [op.taskId, op.contextId, op.channel, op.adapterId, op.originEventId], escapeFits rtMed s := by
        simp only [List.forall_mem_cons]
        exact hrest
      have hcorr := correlation_room.mpr ⟨hfields, rfl, h.correlation⟩
      by_cases hchannel : op.channel = []
      · refine ⟨⟨objText (resultMembers op source text), none⟩, ?_⟩
        rw [escape_bind n1, escape_bind n2, escape_bind n3, escape_bind n4, escape_bind nstatus, escape_bind htext, Option.bind_some,
          escape_bind nsource, Option.bind_eq_some_iff]
        refine ⟨f1, f2, f3, f4, hstatus, h.mirrored, f5, _, hcorr, guard_bind.mpr ⟨h.payload, ?_⟩⟩
        rw [if_neg fun hdeliver => hdeliver.2 hchannel]
        rfl
      · refine ⟨⟨objText (resultMembers op source text), some (objText (wakeMembers op source text))⟩, ?_⟩
        rw [escape_bind n1, escape_bind n2, escape_bind n3, escape_bind n4, escape_bind nstatus, escape_bind htext, Option.bind_some,
          escape_bind nsource, Option.bind_eq_some_iff]
        refine ⟨f1, f2, f3, f4, hstatus, h.mirrored, f5, _, hcorr, guard_bind.mpr ⟨h.payload, ?_⟩⟩
        rw [if_pos ⟨trivial, hchannel⟩, (wake_room hfields).mpr ⟨h.wake hchannel, rfl⟩]
        rfl

/-! ### One page -/

section Page
variable {env : DriverEnv} {path content args : Bytes} {offset : Nat}

theorem readFileText_eq (hfile : Readable env path content) (hcall : CallsAt path args offset) (hoffset : offset ≤ content.length)
    {result : Bytes} (hreport : readReport path (clip rtSmall (if env.call.action = [] then lit "tool" else env.call.action))
      (chunk content args offset) content.length offset = .done result) (hfit : result.length < rtXl) :
    readFileText env args = do
      let _ ← rtActionEmitTerminal env.prepare env.call true [] (rtActionWrapFinishedResult result env.call.requestId) (lit "null")
      let (status, text) ← onSucceeded (rtActionWrapFinishedResult result env.call.requestId)
      let _ ← terminalizeInRun env.operation env.sourceEventId status text true
      return text := by
  have hmanaged := hfile.managed
  rw [readFileText, fcReadFile_page hfile hcall hoffset, hreport, operationText, if_neg (by simp [Outcome.ok, hmanaged])]
  simp only [reportIntrinsic, reportedResult, reportedReason, reportedError, Outcome.ok, Outcome.result, clip_eq_self hfit,
    hmanaged, if_true]

/-- A page that is forwarded is spliced behind a status. -/
theorem page_forwarded (hfile : Readable env path content) (hcall : CallsAt path args offset) (hoffset : offset ≤ content.length)
    {text : Bytes} (h : readFileText env args = some text) :
    text = forwarded env path content args offset ∧ (escaped path).length < pathMax * 2 ∧
      NulFree (pageText env path content args offset) ∧
      Spliced (objText (pageMembers env path content args offset)) env.call.requestId ∧
      TerminalRoom env.call (objText (finishedMembers env.call.requestId ++ pageMembers env path content args offset)) ∧
      (terminalizeInRun env.operation env.sourceEventId (lit "succeeded") text true).isSome = true := by
  have hpath : NulFree path := hcall.named ▸ pathField_nulFree args
  have hne : pageMembers env path content args offset ≠ [] := by simp [pageMembers]
  cases hreport : readReport path (clip rtSmall (if env.call.action = [] then lit "tool" else env.call.action))
      (chunk content args offset) content.length offset with
  | failed frame raw shown =>
    rw [readFileText, fcReadFile_page hfile hcall hoffset, hreport, operationText, if_pos (.inl rfl)] at h
    cases h
  | failedEscaped message =>
    rw [readFileText, fcReadFile_page hfile hcall hoffset, hreport, operationText, if_pos (.inl rfl)] at h
    cases h
  | done result =>
    obtain ⟨hfit, hclean, rfl, hroom⟩ := pageReport_done hpath hreport
    rw [readFileText_eq hfile hcall hoffset hreport hroom] at h
    by_cases hs : Spliced (objText (pageMembers env path content args offset)) env.call.requestId
    · rw [wrap_spliced hfile.id hs, wrappedText_objText hne, onSucceeded_wrapped] at h
      simp only [Option.bind_eq_bind, Option.bind_some, Option.pure_def, Option.bind_eq_some_iff, Option.some.injEq] at h
      obtain ⟨reported, hreported, published, hpublished, rfl⟩ := h
      exact ⟨rfl, hfit, hclean, hs, (emit_room hfile.managed).mp (by rw [hreported]; rfl), by rw [hpublished]; rfl⟩
    · rw [wrap_unspliced hfile.id hs, onSucceeded_bare] at h
      simp at h

/-- A page that fits is forwarded whole. -/
theorem page_whole (hfile : Readable env path content) (hcall : CallsAt path args offset) (hoffset : offset ≤ content.length)
    (hfits : PageFits env path content args offset) :
    readFileText env args = some (pageText env path content args offset) := by
  have hpath : NulFree path := hcall.named ▸ pathField_nulFree args
  have hne : pageMembers env path content args offset ≠ [] := by simp [pageMembers]
  have hreport : readReport path (clip rtSmall (if env.call.action = [] then lit "tool" else env.call.action))
      (chunk content args offset) content.length offset = .done (objText (pageMembers env path content args offset)) :=
    pageReport_fits hpath hfile.size hoffset hfits.pathFits hfits.clean hfits.short
  obtain ⟨-, -, -, hroom⟩ := pageReport_done hpath hreport
  obtain ⟨reported, hreported⟩ := Option.isSome_iff_exists.mp ((emit_room hfile.managed).mpr hfits.reported)
  obtain ⟨published, hpublished⟩ := Option.isSome_iff_exists.mp ((terminalize_room hfile.source hfits.clean).mpr hfits.published)
  rw [readFileText_eq hfile hcall hoffset hreport hroom, wrap_spliced hfile.id (hfits.spliced hfile.size hoffset),
    wrappedText_objText hne, onSucceeded_wrapped, forwarded_short hfits.clean hfits.short, hreported]
  simp only [Option.bind_eq_bind, Option.bind_some, Option.pure_def, hpublished]

theorem pageHeader_length (env : DriverEnv) (path content args : Bytes) (offset : Nat) :
    (pageHeader env path content args offset).length < rtMed := by
  rw [pageHeader, readHeader]
  split
  · exact clip_length_lt (by decide) _
  · split
    · exact clip_length_lt (by decide) _
    · exact clip_length_lt (by decide) _

/-- Behind the header of a page stands what was read. -/
theorem pageText_content (env : DriverEnv) (path content args : Bytes) (offset : Nat) :
    (pageText env path content args offset).drop ((pageHeader env path content args offset).length + 2) =
      chunk content args offset := by
  rw [pageText, ← List.drop_drop, List.drop_left]
  split
  · rename_i hnil
    rw [hnil, List.drop_nil]
  · rfl

/-- A page brings no more than was read, and all of it only if it fits. -/
theorem page_content (hfile : Readable env path content) (hcall : CallsAt path args offset) (hoffset : offset ≤ content.length)
    {text : Bytes} (h : readFileText env args = some text) :
    (text.drop ((pageHeader env path content args offset).length + 2)).length ≤ (chunk content args offset).length ∧
      ((text.drop ((pageHeader env path content args offset).length + 2)).length = (chunk content args offset).length →
        PageFits env path content args offset) := by
  obtain ⟨rfl, hfit, hclean, hs, hreported, hpublished⟩ := page_forwarded hfile hcall hoffset h
  obtain ⟨hquiet, hquietText, hid, hhandle⟩ := page_spliced hs
  by_cases hshort : (pageText env path content args offset).length ≤ rtOperationResultTextMax
  · rw [forwarded_short hclean hshort, pageText_content]
    rw [forwarded_short hclean hshort] at hpublished
    exact ⟨Nat.le_refl _, fun _ => ⟨hfit, hclean, hshort, hquiet, hquietText, ⟨hid, hhandle⟩, hreported,
      (terminalize_room hfile.source hclean).mp hpublished⟩⟩
  · -- the copy stops at the limit, and the page does not
    have hcut := forwarded_length env path content args offset
    have hheader := pageHeader_length env path content args offset
    have hcontent := congrArg List.length (pageText_content env path content args offset)
    simp only [List.length_drop, rtOperationResultTextMax, rtMed] at *
    omega

end Page

/-! ## Page by page -/

/-- A call of `read_file`. -/
structure ReadCall where
  env : DriverEnv
  args : Bytes

/-- How far a call reads. -/
def ReadCall.next (call : ReadCall) (content : Bytes) (offset : Nat) : Nat := offset + (chunk content call.args offset).length

/-- A call for the rest of a file from the offset on. -/
structure ReadsAt (path content : Bytes) (call : ReadCall) (offset : Nat) : Prop where
  file : Readable call.env path content
  asks : CallsAt path call.args offset

/-- One call behind the other, each where the one before stopped, until the end of the file is reported. -/
inductive PagesFrom (path content : Bytes) : Nat → List ReadCall → Prop
  | last {offset : Nat} {call : ReadCall} (h : ReadsAt path content call offset) (hend : content.length ≤ call.next content offset) :
    PagesFrom path content offset [call]
  | more {offset : Nat} {call : ReadCall} {calls : List ReadCall} (h : ReadsAt path content call offset)
    (hmore : call.next content offset < content.length) (hrest : PagesFrom path content (call.next content offset) calls) :
    PagesFrom path content offset (call :: calls)

/-- The calls with the offsets they read at. -/
def pages (content : Bytes) : Nat → List ReadCall → List (Nat × ReadCall)
  | _, [] => []
  | offset, call :: calls => (offset, call) :: pages content (call.next content offset) calls

/-- What the texts of the calls hold behind their headers, put together; `none` when a call brings no text. -/
def received (path content : Bytes) : Nat → List ReadCall → Option Bytes
  | _, [] => some []
  | offset, call :: calls => do
    let text ← readFileText call.env call.args
    let rest ← received path content (call.next content offset) calls
    return text.drop ((pageHeader call.env path content call.args offset).length + 2) ++ rest

theorem chunk_length (content args : Bytes) (offset : Nat) :
    (chunk content args offset).length = min (pageLength args) (content.length - offset) := by
  rw [chunk, List.length_take, List.length_drop]

/-- A call in front of the end of the file gets on. -/
theorem ReadCall.next_advances (call : ReadCall) {content : Bytes} {offset : Nat} (h : offset < content.length) :
    offset < call.next content offset := by
  have := pageLength_pos call.args
  rw [ReadCall.next, chunk_length]
  omega

theorem chunk_drop (call : ReadCall) (content : Bytes) (offset : Nat) :
    chunk content call.args offset ++ content.drop (call.next content offset) = content.drop offset := by
  have hsplit : (content.drop offset).drop (chunk content call.args offset).length = content.drop (call.next content offset) := by
    rw [List.drop_drop, ReadCall.next]
  rw [← hsplit]
  conv_rhs => rw [← List.take_append_drop (chunk content call.args offset).length (content.drop offset)]
  congr 1
  rw [chunk, List.length_take, List.take_eq_take_iff]
  omega

theorem pages_whole {path content : Bytes} {offset : Nat} {calls : List ReadCall} (h : PagesFrom path content offset calls)
    (hoffset : offset ≤ content.length)
    (hfit : ∀ page ∈ pages content offset calls, PageFits page.2.env path content page.2.args page.1) :
    received path content offset calls = some (content.drop offset) := by
  induction h with
  | @last offset call h hend =>
    rw [pages, List.forall_mem_cons] at hfit
    have hdrop := chunk_drop call content offset
    rw [List.drop_eq_nil_of_le hend] at hdrop
    simp only [received, page_whole h.file h.asks hoffset hfit.1, pageText_content, Option.bind_eq_bind, Option.bind_some,
      Option.pure_def, hdrop]
  | @more offset call calls h hmore hrest ih =>
    rw [pages, List.forall_mem_cons] at hfit
    simp only [received, page_whole h.file h.asks hoffset hfit.1, ih (Nat.le_of_lt hmore) hfit.2, pageText_content,
      Option.bind_eq_bind, Option.bind_some, Option.pure_def, chunk_drop]

/-- What is received is no longer than the file, and as long only if every page fits. -/
theorem pages_short {path content : Bytes} {offset : Nat} {calls : List ReadCall} (h : PagesFrom path content offset calls)
    (hoffset : offset ≤ content.length) {text : Bytes} (hreceived : received path content offset calls = some text) :
    text.length ≤ content.length - offset ∧ (text.length = content.length - offset →
      ∀ page ∈ pages content offset calls, PageFits page.2.env path content page.2.args page.1) := by
  induction h generalizing text with
  | @last offset call h hend =>
    simp only [received, Option.bind_eq_bind, Option.bind_some, Option.pure_def, Option.bind_eq_some_iff, Option.some.injEq,
      List.append_nil] at hreceived
    obtain ⟨page, hpage, rfl⟩ := hreceived
    obtain ⟨hle, heq⟩ := page_content h.file h.asks hoffset hpage
    have hlen := chunk_length content call.args offset
    rw [ReadCall.next] at hend
    refine ⟨by omega, fun hall => ?_⟩
    rw [pages, pages, List.forall_mem_singleton]
    exact heq (by omega)
  | @more offset call calls h hmore hrest ih =>
    simp only [received, Option.bind_eq_bind, Option.pure_def, Option.bind_eq_some_iff, Option.some.injEq] at hreceived
    obtain ⟨page, hpage, rest, hrec, rfl⟩ := hreceived
    obtain ⟨hle, heq⟩ := page_content h.file h.asks hoffset hpage
    obtain ⟨hrestLe, hrestEq⟩ := ih (Nat.le_of_lt hmore) hrec
    rw [List.length_append]
    rw [ReadCall.next] at hmore hrestLe hrestEq
    refine ⟨by omega, fun hall => ?_⟩
    rw [pages, List.forall_mem_cons]
    exact ⟨heq (by omega), hrestEq (by omega)⟩

/-- The pages put together are the file exactly when every page fits, and every call but the last gets on. -/
theorem pages_give_file {path content : Bytes} {calls : List ReadCall} (h : PagesFrom path content 0 calls) :
    (received path content 0 calls = some content ∧
        ∀ page ∈ pages content 0 calls, page.1 < content.length → page.1 < page.2.next content page.1) ↔
      ∀ page ∈ pages content 0 calls, PageFits page.2.env path content page.2.args page.1 := by
  constructor
  · rintro ⟨hreceived, -⟩
    exact (pages_short h (Nat.zero_le _) hreceived).2 (by simp)
  · intro hfit
    exact ⟨by simpa using pages_whole h (Nat.zero_le _) hfit, fun page _ => page.2.next_advances⟩

/-! ## Two files -/

/-- A workspace `/w` with a file `log.txt`. -/
def workspaceWith (content : Bytes) (h : (content.length : Int) ≤ int64Max) : FileSystem :=
  { closedWorkspace with
    realpath := fun path =>
      if path = lit "/w" then some ⟨lit "/w", .of_all (by decide)⟩
      else if path = lit "/w/log.txt" then some ⟨lit "/w/log.txt", .of_all (lit_all (by decide))⟩
      else none
    openRead := fun path => if path = lit "/w/log.txt" then some (fileOf content h) else none }

theorem readOperation_nulFree : ∀ s ∈ [lit "op_run_001_000002", [], lit "read_file", lit "req_run_001_000002", lit "evt_run_001_000003", [],
    lit "chat:a", lit "chat", lit "chat", lit "m1"], NulFree s := by
  simp only [List.forall_mem_cons]
  exact ⟨.of_all (lit_all (by decide)), .of_all (by decide), .of_all (lit_all (by decide)), .of_all (lit_all (by decide)), .of_all (lit_all (by decide)),
    .of_all (by decide), .of_all (lit_all (by decide)), .of_all (by decide), .of_all (by decide), .of_all (by decide), by simp⟩

theorem chat_routed : (lit "chat").length < rtSmall ∧ (lit "chat").length < rtSmall := by decide

theorem emptyRef_ok : ([] : Bytes) = [] ∨ CleanValue [] := .inl rfl

def readOperation : RtOperationSnapshot where
  handle := lit "op_run_001_000002"
  workerHandle := []
  action := lit "read_file"
  requestId := lit "req_run_001_000002"
  triggerEventId := lit "evt_run_001_000003"
  taskId := []
  contextId := lit "chat:a"
  channel := lit "chat"
  adapterId := lit "chat"
  originEventId := lit "m1"
  refJson := []
  workRev := 0
  nulFree := readOperation_nulFree
  routed := chat_routed
  refOk := emptyRef_ok

def pathArgs : Bytes := lit "\x7b\"path\":\"log.txt\"\x7d"

/-- One call for the whole of the file. -/
def wholeCall (content : Bytes) (h : (content.length : Int) ≤ int64Max) : ReadCall where
  env :=
    { fs := workspaceWith content h, runDir := lit "/w/runs/run_001", call := readCall, prepare := fun _ => true
      operation := readOperation, sourceEventId := some (lit "evt_run_001_000005") }
  args := pathArgs

theorem wholeCall_reads {content : Bytes} {h : (content.length : Int) ≤ int64Max}
    (hresolve : (rtActionResolveWorkspacePath (workspaceWith content h) (lit "/w/runs/run_001") (lit "log.txt")).toOption =
      some (lit "/w/log.txt")) (hshort : content.length ≤ 32768) :
    PagesFrom (lit "log.txt") content 0 [wholeCall content h] := by
  have hlength : pageLength pathArgs = 32768 := by decide +kernel
  have hpath : pathField pathArgs [] = lit "log.txt" := by decide +kernel
  have hoffset : positiveArg pathArgs (lit "offset") 0 = (0 : Nat) := by decide +kernel
  have hid : NulFree readCall.requestId := .of_all (by decide)
  have hopen : (wholeCall content h).env.fs.openRead (lit "/w/log.txt") = some (fileOf content h) := by
    simp [wholeCall, workspaceWith]
  refine .last ⟨⟨by decide, h, ?_, fun _ => rfl, rfl, hid, ?_⟩, hpath, hoffset⟩ ?_
  · cases hok : rtActionResolveWorkspacePath (workspaceWith content h) (lit "/w/runs/run_001") (lit "log.txt") with
    | error e =>
      rw [hok] at hresolve
      cases hresolve
    | ok abs =>
      rw [hok] at hresolve
      cases hresolve
      exact ⟨_, hok, hopen⟩
  · intro s hs
    cases hs
    exact .of_all (lit_all (by decide))
  · have hargs : (wholeCall content h).args = pathArgs := rfl
    rw [ReadCall.next, chunk_length, hargs, hlength]
    omega

example : pageLength (lit "\x7b\"length\":5\x7d") = 5 := by decide +kernel

theorem pages_give_file_short :
    received (lit "log.txt") (lit "ready\n") 0 [wholeCall (lit "ready\n") (by decide)] = some (lit "ready\n") := by
  have htext : pageText (wholeCall (lit "ready\n") (by decide)).env (lit "log.txt") (lit "ready\n")
      (wholeCall (lit "ready\n") (by decide)).args 0 =
        lit "[file: log.txt | total: 6 bytes | read: bytes 0-5]\n[END OF FILE - no further content.]\n\nready\n" := by
    refine Eq.trans ?_ (lit_ofList _).symm
    decide +kernel
  have hpage := htext.trans (lit_ofList _)
  refine ((pages_give_file (wholeCall_reads (by decide +kernel) (by decide))).mpr ?_).1
  rw [pages, pages, List.forall_mem_singleton]
  dsimp only
  refine ⟨by decide +kernel, ?_, ?_, by decide +kernel, ?_, ⟨by decide, by decide +kernel⟩, ⟨?_, fun b hb => by cases hb⟩, _, rfl, ?_⟩
  · rw [hpage]
    exact .of_all (by decide)
  · rw [hpage]
    decide
  · rw [hpage]
    decide +kernel
  · rw [pageMembers, hpage]
    decide +kernel
  · rw [hpage]
    exact ⟨by decide +kernel, by decide +kernel, by decide +kernel, by decide +kernel, fun _ => by decide +kernel⟩

example : chunk (lit "abcdef") (lit "\x7b\"length\":2\x7d") 3 = lit "de" := by decide +kernel

def longContent : Bytes := List.replicate 9000 (ch 'x')

theorem longContent_size : (longContent.length : Int) ≤ int64Max := by
  rw [longContent, List.length_replicate]
  decide

/-- A file of 9000 octets, read whole with one call, does not reach the agent. -/
theorem long_page_cut :
    PagesFrom (lit "log.txt") longContent 0 [wholeCall longContent longContent_size] ∧
      received (lit "log.txt") longContent 0 [wholeCall longContent longContent_size] ≠ some longContent := by
  have hlen : longContent.length = 9000 := List.length_replicate
  have hpages : PagesFrom (lit "log.txt") longContent 0 [wholeCall longContent longContent_size] :=
    wholeCall_reads (by decide +kernel) (by rw [hlen]; decide)
  refine ⟨hpages, fun hreceived => ?_⟩
  have hfit := (pages_short hpages (Nat.zero_le _) hreceived).2 (by simp) _ List.mem_cons_self
  have hshort := hfit.short
  have hchunk : (chunk longContent (wholeCall longContent longContent_size).args 0).length = 9000 := by
    have hlength : pageLength (wholeCall longContent longContent_size).args = 32768 := by decide +kernel
    rw [chunk_length, hlength, hlen]
    rfl
  have hcontent := congrArg List.length
    (pageText_content (wholeCall longContent longContent_size).env (lit "log.txt") longContent
      (wholeCall longContent longContent_size).args 0)
  rw [hchunk, List.length_drop] at hcontent
  simp only [rtOperationResultTextMax] at hshort
  omega

end Floofclaw.Guarantees.FilePages
