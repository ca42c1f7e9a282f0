import Floofclaw.Source.AgentSelected
import Floofclaw.Guarantees.IteratedMembers

/-!
# The requests of a speaker's output

The router makes one request of every member it may route, in order, and the
message last, exactly where every key of the output fits the buffer of the
iterator. Behind a key that does not fit the iterator reports the end of the
object: later requests are lost, and an extra key beside `affair` is not seen.
-/

set_option autoImplicit false

namespace Floofclaw.Guarantees.RoutedOutputs
open Floofclaw.Lib Floofclaw.Source.Json Floofclaw.Source.AgentExec Floofclaw.Source.AgentSelected
open Floofclaw.Source.Inbound (jsonRefStringDup)
open Floofclaw.Guarantees.CallEvents Floofclaw.Guarantees.IteratedMembers
open Floofclaw.Guarantees.ActionOutputs (Decodes Says decodes_escaped)
open Floofclaw.Guarantees.ArgumentCoercion (decodes_copy)

/-! ## What is asked of the events -/

def reservedKeys : List Bytes := lit "message" :: runtimeOwnedKeys

/-- The members that are neither the message nor the runtime's. -/
def routedMembers (ms : List (Bytes × Bytes)) : List (Bytes × Bytes) := unreserved reservedKeys ms

/-- The event asks for the action with these arguments. -/
structure Asks (event : JsonRef) (name : Bytes) (args payload : JsonRef) : Prop where
  ofType : Says event (lit "type") (lit "action_request")
  inPayload : jsonRefObjectGet event (lit "payload") = some payload
  ofAction : Says payload (lit "action") name
  withArgs : jsonRefObjectGet payload (lit "args") = some args

/-- An object as it is, up to the white space around its parts, and another value under `value`. -/
def ArgsOf (value args : JsonRef) : Prop :=
  if jsonRefInferType value = .object then Compacts value args
  else ∃ v, ObjText args [(lit "value", v)] ∧ Compacts value v

def CarriesMember (m : Bytes × Bytes) (event : JsonRef) : Prop :=
  ∃ name args payload, Names m name ∧ Asks event name args payload ∧ ArgsOf m.2 args

def CarriesMessage (v : JsonRef) (taskId : Bytes) (event : JsonRef) : Prop :=
  ∃ message args payload, Decodes v message ∧ Asks event (lit "message") args payload ∧ Says args (lit "message") message ∧
    Says payload (lit "task_id") taskId

/-- One request of each member that may be routed, in order, and the message last. -/
def Routed (ms : List (Bytes × Bytes)) (v : JsonRef) (taskId events : Bytes) : Prop :=
  ∃ requests message, eventsOf events = some (requests ++ [message]) ∧
    List.Forall₂ CarriesMember (routedMembers ms) requests ∧ CarriesMessage v taskId message

/-- The first object of the output has the members. -/
def Holds (output : Bytes) (ms : List (Bytes × Bytes)) : Prop := ∃ root, jsonRefFirstObject output = some root ∧ ObjText root ms

/-- The message of the output is the string. -/
structure Speaks (output : Bytes) (ms : List (Bytes × Bytes)) (v : JsonRef) : Prop where
  object : Holds output ms
  message : (ms.find? fun m => Names m (lit "message")).map Prod.snd = some v
  string : jsonRefInferType v = .string

def compacted (v : JsonRef) : Bytes := (jsonCompact (v.length + 1) v).getD []

def argsText (value : JsonRef) : Bytes :=
  if jsonRefInferType value = .object then compacted value else objText [(lit "value", compacted value)]

def askMembers (key : Bytes) (value : JsonRef) : List (Bytes × Bytes) :=
  [(lit "action", quoted (escaped key)), (lit "args", argsText value)]

def requestText (key : Bytes) (value : JsonRef) : Bytes := payloadEvent (lit "action_request") (askMembers key value)

def messageArgs (message : Bytes) : List (Bytes × Bytes) := [(lit "message", quoted (escaped message))]

def messageMembers (message taskId : Bytes) : List (Bytes × Bytes) :=
  [(lit "action", quoted (lit "message")), (lit "args", objText (messageArgs message)), (lit "task_id", quoted (escaped taskId))]

def messageText (message taskId : Bytes) : Bytes := payloadEvent (lit "action_request") (messageMembers message taskId)

/-- The events that are asked for, as they are printed. -/
def routedText (ms : List (Bytes × Bytes)) (v : JsonRef) (taskId : Bytes) : Bytes :=
  objText [(lit "events", arrText ((routedMembers ms).map (fun m => requestText (decoded (quoted m.1)) m.2) ++
    [messageText (decoded v) taskId]))]

/-- Every key, and the message, is read whole; the names and the events fit their buffers. -/
structure Routable (outLen : Nat) (ms : List (Bytes × Bytes)) (v : JsonRef) (taskId : Bytes) : Prop where
  keys : Legible ms
  message : ∃ message, Decodes v message ∧ NulFree message
  names : ∀ m ∈ routedMembers ms, (escaped (decoded (quoted m.1))).length < rtMed
  task : (escaped taskId).length < rtMed
  fits : (routedText ms v taskId).length < outLen

/-- The value of `affair` that the affair agent may hand on. -/
def Acceptable (outLen : Nat) (affair : JsonRef) : Prop :=
  if jsonRefInferType affair = .null then (lit "\x7b\"events\":[]\x7d").length < outLen
  else jsonRefInferType affair = .object ∧ ∃ action, jsonRefObjectGetString affair (lit "action") rtSmall = some action ∧
    (action = lit "none" ∧ (lit "\x7b\"events\":[]\x7d").length < outLen ∨
      action ∈ affairActions ∧ (objText [(lit "events", arrText [objText [(lit "type", quoted (lit "affair_patch")),
        (lit "payload", compacted affair)]])]).length < outLen)

/-- One member, and its key is `affair`. -/
def OnlyAffair (ms : List (Bytes × Bytes)) : Prop := ∃ m, ms = [m] ∧ Names m (lit "affair")

/-- Either `affair` is alone, or another key stands before every key that does not fit the buffer of the iterator. -/
def Exposed (ms : List (Bytes × Bytes)) : Prop := OnlyAffair ms ∨ ∃ m ∈ seen ms, keyOf m ≠ some (lit "affair")

theorem reservedKeys_short : Short reservedKeys := .of_all (by decide)

/-- The items of the router's loop. -/
theorem sent_reserved (key : Bytes) (value : JsonRef) :
    sent reservedKeys (key, value) = !(key = lit "message" || runtimeOwnedKey key) := by
  rw [Bool.eq_iff_iff, sent_iff]
  simp [runtimeOwnedKey, reservedKeys]

/-! ## One request -/

theorem compacted_spec {v : JsonRef} (h : CleanValue v) :
    Compacts v (compacted v) ∧ jsonRefValueCompactDup v = some (compacted v) := by
  obtain ⟨c, hc⟩ := isValue_compacts h.value
  have hrun : jsonCompact (v.length + 1) v = some c := by
    rw [jsonCompact_eq h.nulFree hc, if_pos (Nat.lt_succ_of_le hc.length_le)]
  rw [jsonRefValueCompactDup, compacted, hrun, Option.getD_some]
  exact ⟨hc, rfl⟩

theorem compacted_clean {v : JsonRef} (h : CleanValue v) : CleanValue (compacted v) :=
  ⟨(compacted_spec h).1.value, (compacted_spec h).1.nulFree h.nulFree⟩

theorem valueMember_written {v : JsonRef} (h : CleanValue v) : WrittenMembers [(lit "value", compacted v)] :=
  .key (by decide) (compacted_clean h) .nil

theorem argsText_clean {v : JsonRef} (h : CleanValue v) : CleanValue (argsText v) := by
  rw [argsText]
  split
  · exact compacted_clean h
  · exact .objText (valueMember_written h)

theorem argsText_argsOf {v : JsonRef} (h : CleanValue v) : ArgsOf v (argsText v) := by
  rw [ArgsOf, argsText]
  split
  · exact (compacted_spec h).1
  · exact ⟨_, (valueMember_written h).objText, (compacted_spec h).1⟩

theorem memberArgs_eq {v : JsonRef} (h : CleanValue v) : memberArgs v = some (argsText v) := by
  have hhead : lit "\x7b\"value\":" = ch '{' :: (quoted (lit "value") ++ [ch ':']) := by (repeat rw [lit_ofList]); decide
  have hclose : lit "\x7d" = [ch '}'] := by decide
  rw [memberArgs, (compacted_spec h).2, Option.map_some, argsText, objText_tail, hhead, hclose]
  split
  · rfl
  · simp [tailText]

theorem askMembers_written {key : Bytes} {value : JsonRef} (h : CleanValue value) : WrittenMembers (askMembers key value) :=
  .key (by decide) (.text key) <| .key (by decide) (argsText_clean h) .nil

theorem actionRequest_text : EventText (lit "action_request") := .of_plain (lit_all (by decide)) (by decide)

theorem says_payloadEvent {ms : List (Bytes × Bytes)} (h : CleanValue (objText ms)) :
    Says (payloadEvent (lit "action_request") ms) (lit "type") (lit "action_request") ∧
      jsonRefObjectGet (payloadEvent (lit "action_request") ms) (lit "payload") = some (objText ms) := by
  have hwritten := eventMembers_written actionRequest_text h
  refine ⟨⟨quoted (lit "action_request"), ?_, ?_⟩, ?_⟩
  · rw [payloadEvent, hwritten.get]
    rfl
  · exact ActionOutputs.decodes_plain (.of_all (lit_all (by decide)))
  · rw [payloadEvent, hwritten.get]
    rfl

theorem requestText_asks (key : Bytes) {value : JsonRef} (h : CleanValue value) :
    Asks (requestText key value) key (argsText value) (objText (askMembers key value)) where
  ofType := (says_payloadEvent (.objText (askMembers_written h))).1
  inPayload := (says_payloadEvent (.objText (askMembers_written h))).2
  ofAction := ⟨quoted (escaped key), by rw [(askMembers_written h).get]; rfl, decodes_escaped key⟩
  withArgs := by
    rw [(askMembers_written h).get]
    rfl

theorem requestText_clean (key : Bytes) {value : JsonRef} (h : CleanValue value) : CleanValue (requestText key value) :=
  .objText (eventMembers_written actionRequest_text (.objText (askMembers_written h)))

theorem memberRequest_eq {key : Bytes} {value : JsonRef} (hkey : NulFree key) (h : CleanValue value) :
    memberRequest key value = if (escaped key).length < rtMed then some (requestText key value) else none := by
  have hhead : lit "\x7b\"type\":\"action_request\",\"payload\":\x7b\"action\":\"" =
      ch '{' :: (quoted (lit "type") ++ ch ':' :: (quoted (lit "action_request") ++ ch ',' :: (quoted (lit "payload") ++
        ch ':' :: ch '{' :: (quoted (lit "action") ++ [ch ':', ch '"'])))) := by (repeat rw [lit_ofList]); decide
  have hargs : lit "\",\"args\":" = ch '"' :: ch ',' :: (quoted (lit "args") ++ [ch ':']) := by (repeat rw [lit_ofList]); decide
  have hclose : lit "\x7d\x7d" = [ch '}', ch '}'] := by decide
  rw [memberRequest, mirror_eq hkey, memberArgs_eq h]
  split
  · rw [Option.bind_some, Option.map_some, requestText, payloadEvent, askMembers, objText_tail, objText_tail, hhead, hargs, hclose]
    simp [tailText, quoted]
  · rfl

/-- The requests of the members that are passed on, where every name fits. -/
theorem memberRequests_eq {items : List (Bytes × JsonRef)} (h : ∀ x ∈ items, NulFree x.1 ∧ CleanValue x.2) :
    memberRequests items = if ∀ x ∈ items.filter (sent reservedKeys), (escaped x.1).length < rtMed
      then some ((items.filter (sent reservedKeys)).map fun x => requestText x.1 x.2) else none := by
  induction items with
  | nil => simp [memberRequests]
  | cons x items ih =>
    obtain ⟨⟨hkey, hvalue⟩, hrest⟩ := List.forall_mem_cons.mp h
    obtain ⟨key, value⟩ := x
    rw [memberRequests, ih hrest]
    by_cases hsent : sent reservedKeys (key, value) = true
    · have hpass : (key = lit "message" || runtimeOwnedKey key) = false := by
        rwa [sent_reserved, Bool.not_eq_true'] at hsent
      rw [hpass, if_neg Bool.false_ne_true, memberRequest_eq hkey hvalue, List.filter_cons_of_pos hsent]
      simp only [List.forall_mem_cons, List.map_cons]
      by_cases hfit : (escaped key).length < rtMed
      · rw [if_pos hfit, Option.bind_some]
        split
        · rename_i hall
          rw [if_pos ⟨hfit, hall⟩, Option.map_some]
        · rename_i hall
          rw [if_neg fun hboth => hall hboth.2, Option.map_none]
      · rw [if_neg hfit, Option.bind_none, if_neg fun hboth => hfit hboth.1]
    · have hskip : (key = lit "message" || runtimeOwnedKey key) = true := by
        rwa [sent_reserved, Bool.not_eq_true', Bool.not_eq_false] at hsent
      rw [hskip, if_pos rfl, List.filter_cons_of_neg hsent]

theorem actionMessage_clean : CleanValue (quoted (lit "message")) := by
  rw [← escaped_plain (s := lit "message") (List.all_eq_true.mp (by decide))]
  exact .text _

theorem messageArgs_written (message : Bytes) : WrittenMembers (messageArgs message) := .key (by decide) (.text message) .nil

theorem messageMembers_written (message taskId : Bytes) : WrittenMembers (messageMembers message taskId) :=
  .key (by decide) actionMessage_clean <|
    .key (by decide) (.objText (messageArgs_written message)) <| .key (by decide) (.text taskId) .nil

theorem messageText_args (message taskId : Bytes) :
    jsonRefObjectGet (messageText message taskId) (lit "payload") = some (objText (messageMembers message taskId)) ∧
      jsonRefObjectGet (objText (messageMembers message taskId)) (lit "args") = some (objText (messageArgs message)) ∧
        Says (objText (messageArgs message)) (lit "message") message ∧
          Says (objText (messageMembers message taskId)) (lit "task_id") taskId := by
  refine ⟨(says_payloadEvent (.objText (messageMembers_written message taskId))).2, ?_,
    ⟨quoted (escaped message), ?_, decodes_escaped message⟩, ⟨quoted (escaped taskId), ?_, decodes_escaped taskId⟩⟩
  · rw [(messageMembers_written message taskId).get]
    rfl
  · rw [(messageArgs_written message).get]
    rfl
  · rw [(messageMembers_written message taskId).get]
    rfl

theorem messageText_asks (message taskId : Bytes) :
    Asks (messageText message taskId) (lit "message") (objText (messageArgs message)) (objText (messageMembers message taskId)) where
  ofType := (says_payloadEvent (.objText (messageMembers_written message taskId))).1
  inPayload := (messageText_args message taskId).1
  ofAction := ⟨quoted (lit "message"), by rw [(messageMembers_written message taskId).get]; rfl,
    ActionOutputs.decodes_plain (.of_all (lit_all (by decide)))⟩
  withArgs := (messageText_args message taskId).2.1

theorem messageRequest_eq (message taskId : Bytes) :
    messageRequest (escaped message) (escaped taskId) = messageText message taskId := by
  have hhead : lit "\x7b\"type\":\"action_request\",\"payload\":\x7b\"action\":\"message\",\"args\":\x7b\"message\":\"" =
      ch '{' :: (quoted (lit "type") ++ ch ':' :: (quoted (lit "action_request") ++ ch ',' :: (quoted (lit "payload") ++
        ch ':' :: ch '{' :: (quoted (lit "action") ++ ch ':' :: (quoted (lit "message") ++ ch ',' :: (quoted (lit "args") ++
          ch ':' :: ch '{' :: (quoted (lit "message") ++ [ch ':', ch '"']))))))) := by (repeat rw [lit_ofList]); decide
  have htask : lit "\"\x7d,\"task_id\":\"" =
      ch '"' :: ch '}' :: ch ',' :: (quoted (lit "task_id") ++ [ch ':', ch '"']) := by (repeat rw [lit_ofList]); decide
  have hclose : lit "\"\x7d\x7d" = [ch '"', ch '}', ch '}'] := by decide
  rw [messageRequest, messageText, payloadEvent, messageMembers, messageArgs, objText_tail, objText_tail, objText_tail, hhead,
    htask, hclose]
  simp [tailText, quoted]

/-! ## The events -/

theorem messageText_clean (message taskId : Bytes) : CleanValue (messageText message taskId) :=
  .objText (eventMembers_written actionRequest_text (.objText (messageMembers_written message taskId)))

theorem elemsText_last (requests : List Bytes) (message : Bytes) :
    elemsText (requests ++ [message]) = requests.flatMap (fun request => request ++ lit ",") ++ message := by
  have hcomma : lit "," = [ch ','] := by decide
  induction requests with
  | nil => simp [elemsText]
  | cons request requests ih =>
    rw [List.cons_append, TaskStoreText.elemsText_cons, List.flatMap_cons, List.append_assoc, ← ih, hcomma]
    cases requests with
    | nil => simp [elemsText]
    | cons next rest => simp [TaskStoreText.elemsText_cons]

theorem eventsText_eq (requests : List Bytes) (message : Bytes) :
    eventsText requests message = lit "\x7b\"events\":[" ++ elemsText (requests ++ [message]) ++ lit "]\x7d" := by
  rw [eventsText, elemsText_last]
  simp only [List.append_assoc]

theorem eventsText_reads {requests : List Bytes} {message : Bytes} (h : ∀ e ∈ requests, CleanValue e) (hm : CleanValue message) :
    eventsOf (eventsText requests message) = some (requests ++ [message]) := by
  rw [eventsText_eq, eventsOf_written]
  exact fun e he => (List.mem_append.mp he).elim (h e) fun hlast => List.mem_singleton.mp hlast ▸ hm

theorem noEvents_reads {outLen : Nat} {events : Bytes} (h : noEvents outLen = some events) : eventsOf events = some [] := by
  rw [noEvents] at h
  split at h
  · cases h
  · have htext : lit "\x7b\"events\":[]\x7d" = lit "\x7b\"events\":[" ++ elemsText [] ++ lit "]\x7d" := by (repeat rw [lit_ofList]); decide
    have hnone : ∀ e ∈ ([] : List Bytes), CleanValue e := nofun
    obtain rfl := Option.some.inj h
    rw [htext, eventsOf_written hnone]

def passedText (ms : List (Bytes × Bytes)) (message taskId : Bytes) : Bytes :=
  eventsText ((passed reservedKeys ms).map fun x => requestText x.1 x.2) (messageText message taskId)

theorem seen_clean {ms : List (Bytes × Bytes)} (h : ∀ m ∈ ms, CleanValue m.2) :
    ∀ x ∈ (seen ms).map itemOf, NulFree x.1 ∧ CleanValue x.2 := by
  intro x hx
  obtain ⟨m, hm, rfl⟩ := List.mem_map.mp hx
  exact ⟨itemOf_nulFree m, h m ((List.takeWhile_prefix _).subset hm)⟩

theorem passed_clean {ms : List (Bytes × Bytes)} (h : ∀ m ∈ ms, CleanValue m.2) :
    ∀ e ∈ (passed reservedKeys ms).map fun x => requestText x.1 x.2, CleanValue e := by
  intro e he
  obtain ⟨x, hx, rfl⟩ := List.mem_map.mp he
  exact requestText_clean _ (seen_clean h x (List.mem_of_mem_filter hx)).2

theorem mirror_message {message : Bytes} (h : NulFree message) :
    mirror (message.length * 6 + 1) message = some (escaped message) := by
  have hlen := (escaped_length message).2
  rw [mirror_eq h, if_pos (by omega)]

/-- The answer of the normalizer to a message, where every name and the whole text fit. -/
theorem answer_events {outLen : Nat} {root : JsonRef} {ms : List (Bytes × Bytes)} {request : Request} {message : Bytes}
    (hroot : ObjText root ms) (hms : ∀ m ∈ ms, CleanValue m.2) (hmessage : NulFree message) (htask : NulFree request.taskId) :
    (answerRequest outLen root request message).events =
      if (escaped request.taskId).length < rtMed ∧ (∀ x ∈ passed reservedKeys ms, (escaped x.1).length < rtMed) ∧
          (passedText ms message request.taskId).length < outLen
      then some (passedText ms message request.taskId) else none := by
  have hrun : memberRequests ((seen ms).map itemOf) = if ∀ x ∈ passed reservedKeys ms, (escaped x.1).length < rtMed
      then some ((passed reservedKeys ms).map fun x => requestText x.1 x.2) else none := memberRequests_eq (seen_clean hms)
  rw [answerRequest, mirror_message hmessage, mirror_eq htask, objectItems_seen hroot, hrun]
  by_cases hid : (escaped request.taskId).length < rtMed
  · rw [if_pos hid]
    dsimp only
    by_cases hnames : ∀ x ∈ passed reservedKeys ms, (escaped x.1).length < rtMed
    · rw [if_pos hnames, Option.map_some, messageRequest_eq]
      by_cases hfit : (passedText ms message request.taskId).length < outLen
      · rw [if_pos ⟨hid, hnames, hfit⟩]
        exact Option.filter_some_pos (decide_eq_true hfit)
      · rw [if_neg fun h => hfit h.2.2]
        exact Option.filter_some_neg (decide_eq_false hfit)
    · rw [if_neg hnames, if_neg fun h => hnames h.2.1]
      rfl
  · rw [if_neg hid]
    dsimp only
    rw [if_neg fun h => hid h.1]

theorem request_nulFree {run : SpeakerRun} {request : Request} (h : rtConversationalRequestTask run = some request) :
    NulFree request.taskId := by
  have hturn {kind requestKind : Bytes} {task : JsonRef} (h : openRequest run.runId kind requestKind task = some request) :
      NulFree request.taskId := by
    obtain ⟨-, -, h⟩ := Option.bind_eq_some_iff.mp h
    obtain ⟨taskKind, -, h⟩ := Option.bind_eq_some_iff.mp h
    obtain ⟨state, -, h⟩ := Option.bind_eq_some_iff.mp h
    obtain ⟨-, -, h⟩ := Option.bind_eq_some_iff.mp h
    obtain ⟨input, -, h⟩ := Option.bind_eq_some_iff.mp h
    obtain ⟨inputType, -, h⟩ := Option.bind_eq_some_iff.mp h
    obtain ⟨-, -, h⟩ := Option.bind_eq_some_iff.mp h
    obtain ⟨taskId, hid, h⟩ := Option.bind_eq_some_iff.mp h
    obtain ⟨text, -, h⟩ := Option.bind_eq_some_iff.mp h
    obtain rfl := Option.some.inj h
    exact (getString_text hid).nulFree
  obtain ⟨active, -, h⟩ := Option.bind_eq_some_iff.mp h
  rw [Option.orElse_eq_orElse, Option.orElse_eq_or] at h
  rcases Option.or_eq_some_iff.mp h with h | ⟨-, h⟩
  · obtain ⟨task, -, htask⟩ := List.exists_of_findSome?_eq_some h
    exact hturn htask
  · obtain ⟨task, -, htask⟩ := List.exists_of_findSome?_eq_some h
    exact hturn htask

/-! ## The speaker -/

theorem carriesMember_name {m : Bytes × Bytes} {key : Bytes} {value : JsonRef} (hvalue : CleanValue value)
    (h : CarriesMember m (requestText key value)) : Names m key := by
  obtain ⟨name, args, payload, hname, hasks, -⟩ := h
  have htext := requestText_asks key hvalue
  obtain rfl := Option.some.inj (htext.inPayload.symm.trans hasks.inPayload)
  rwa [hasks.ofAction.unique htext.ofAction] at hname

/-- Requests that carry the members they should show that every key was read whole. -/
theorem legible_of_carried {ms : List (Bytes × Bytes)} (hms : ∀ m ∈ ms, CleanValue m.2)
    (h : List.Forall₂ CarriesMember (routedMembers ms) ((passed reservedKeys ms).map fun x => requestText x.1 x.2)) : Legible ms :=
  legible_of_shown reservedKeys_short (fun m hm _ hcarries => carriesMember_name (hms m hm) hcarries) h

theorem memberLookup_names {ms : List (Bytes × Bytes)} (h : Legible ms) (hbody : ∀ m ∈ ms, StrBody m.1) (key : Bytes) :
    memberLookup key ms = (ms.find? fun m => Names m key).map Prod.snd := by
  induction ms with
  | nil => rfl
  | cons m ms ih =>
    obtain ⟨⟨d, hd, hnul⟩, hrest⟩ := List.forall_mem_cons.mp h
    obtain ⟨hm, hbodies⟩ := List.forall_mem_cons.mp hbody
    have hnames := names_of_copy hm hd
    have hcopy : jsonRefStringCopy 256 (quoted m.1) = some d :=
      jsonRefStringCopy_mono (by decide) (keyOf_names hnames hnul (stringCopyWrite_fits hd).1)
    obtain ⟨k, v⟩ := m
    rw [memberLookup, hcopy, List.find?_cons, ih hrest hbodies]
    dsimp only
    by_cases hkey : d = key
    · rw [if_pos hkey, decide_eq_true (hkey ▸ hnames)]
      rfl
    · have hother : ¬ Names (k, v) key := fun hn => hkey (hnames.unique hn)
      rw [if_neg hkey, decide_eq_false hother]

theorem routedText_eq {ms : List (Bytes × Bytes)} {v : JsonRef} {taskId message : Bytes} (h : Legible ms)
    (hbody : ∀ m ∈ ms, StrBody m.1) (hv : Decodes v message) : routedText ms v taskId = passedText ms message taskId := by
  have hhead : lit "\x7b\"events\":[" = ch '{' :: (quoted (lit "events") ++ [ch ':', ch '[']) := by (repeat rw [lit_ofList]); decide
  have hclose : lit "]\x7d" = [ch ']', ch '}'] := by decide
  rw [routedText, routedMembers, passedText, passed_legible reservedKeys_short h hbody, List.map_map, decoded_eq hv, eventsText_eq, objText_tail, arrText, hhead,
    hclose]
  simp [tailText, Function.comp_def]

/-- The members of the output's object, as every reader of it finds them. -/
theorem Holds.root {output : Bytes} {ms : List (Bytes × Bytes)} (h : Holds output ms) :
    ∃ root, jsonRefFirstObject output = some root ∧ ObjText root ms ∧ (∀ m ∈ ms, StrBody m.1) ∧ ∀ m ∈ ms, CleanValue m.2 := by
  obtain ⟨root, hfirst, hroot⟩ := h
  have hnul : NulFree root := fun c hc => cstr_nulFree _ c ((Source.EventLog.firstObjectLoop_sound hfirst).2 hc)
  exact ⟨root, hfirst, hroot, fun m hm => (hroot.wellformed m hm).1,
    fun m hm => ⟨(hroot.wellformed m hm).2, (hroot.nulFree hnul m hm).2⟩⟩

/-- What the normalizer emits beyond an empty list is its answer to the open request. -/
theorem conversational_answer {run : SpeakerRun} {outLen : Nat} {output events : Bytes} {root : JsonRef}
    {ms : List (Bytes × Bytes)} {request : Request} (hopen : rtConversationalRequestTask run = some request)
    (hfirst : jsonRefFirstObject output = some root) (hroot : ObjText root ms)
    (h : (rtAgentNormalizeConversationalOutput run outLen output).events = some events) :
    noEvents outLen = some events ∨ ∃ v message, memberLookup (lit "message") ms = some v ∧ jsonRefStringDup v = some message ∧
      (answerRequest outLen root request message).events = some events := by
  rw [rtAgentNormalizeConversationalOutput, hfirst, Option.bind_some, jsonRefObjectGet_eq hroot] at h
  cases hlookup : memberLookup (lit "message") ms with
  | none =>
    rw [hlookup] at h
    cases h
  | some v =>
    rw [hlookup, Option.map_some] at h
    dsimp only at h
    split at h
    · exact .inl h
    · rw [hopen] at h
      cases hdup : jsonRefStringDup v with
      | none =>
        rw [hdup] at h
        cases h
      | some message =>
        rw [hdup] at h
        exact .inr ⟨v, message, rfl, hdup, h⟩

theorem conversational_eq {run : SpeakerRun} (outLen : Nat) {output message : Bytes} {root v : JsonRef} {ms : List (Bytes × Bytes)}
    {request : Request} (hopen : rtConversationalRequestTask run = some request) (hfirst : jsonRefFirstObject output = some root)
    (hroot : ObjText root ms) (hlookup : memberLookup (lit "message") ms = some v) (hstring : jsonRefInferType v = .string)
    (hdup : jsonRefStringDup v = some message) :
    rtAgentNormalizeConversationalOutput run outLen output = answerRequest outLen root request message := by
  rw [rtAgentNormalizeConversationalOutput, hfirst, Option.bind_some, jsonRefObjectGet_eq hroot, hlookup, Option.map_some]
  dsimp only
  rw [hstring, if_neg nofun, hopen, hdup]

theorem speaker_faithful {run : SpeakerRun} {outLen : Nat} {output : Bytes} {ms : List (Bytes × Bytes)} {v : JsonRef}
    {request : Request} (hspeaks : Speaks output ms v) (hopen : rtConversationalRequestTask run = some request) :
    (∃ events, (rtAgentNormalizeConversationalOutput run outLen output).events = some events ∧
      Routed ms v request.taskId events) ↔ Routable outLen ms v request.taskId := by
  obtain ⟨root, hfirst, hroot, hbody, hms⟩ := hspeaks.object.root
  have htask := request_nulFree hopen
  constructor
  · rintro ⟨events, hevents, requests, last, hreads, hcarries, hmessage⟩
    rcases conversational_answer hopen hfirst hroot hevents with hnone | ⟨w, message, hlookup, hdup, hanswer⟩
    · rw [noEvents_reads hnone] at hreads
      simp at hreads
    · rw [answer_events hroot hms (jsonRefStringCopy_nulFree hdup) htask] at hanswer
      split at hanswer
      · rename_i hfits
        obtain ⟨hid, hnames, hfit⟩ := hfits
        obtain rfl := Option.some.inj hanswer
        rw [passedText, eventsText_reads (passed_clean hms) (messageText_clean _ _)] at hreads
        obtain ⟨rfl, hlast⟩ := List.append_inj' (Option.some.inj hreads) rfl
        obtain rfl := List.singleton_inj.mp hlast
        have hlegible := legible_of_carried hms hcarries
        have hfound := memberLookup_names hlegible hbody (lit "message")
        rw [hlookup, hspeaks.message] at hfound
        obtain rfl := Option.some.inj hfound
        obtain ⟨said, args, payload, hdecodes, hasks, hsays, -⟩ := hmessage
        have hargs := messageText_args message request.taskId
        obtain rfl := Option.some.inj (hargs.1.symm.trans hasks.inPayload)
        obtain rfl := Option.some.inj (hargs.2.1.symm.trans hasks.withArgs)
        obtain rfl := hsays.unique hargs.2.2.1
        have hpassed := passed_legible reservedKeys_short hlegible hbody
        refine ⟨hlegible, ⟨said, hdecodes, jsonRefStringCopy_nulFree hdup⟩, fun m hm => ?_, hid, ?_⟩
        · exact hnames _ (hpassed ▸ List.mem_map_of_mem hm)
        · rwa [routedText_eq hlegible hbody hdecodes]
      · cases hanswer
  · rintro ⟨hlegible, ⟨message, hdecodes, hnul⟩, hnames, hid, hfit⟩
    have hlookup : memberLookup (lit "message") ms = some v := by
      rw [memberLookup_names hlegible hbody, hspeaks.message]
    have hdup : jsonRefStringDup v = some message := decodes_copy hdecodes hnul (stringCopyWrite_fits hdecodes).1
    have hpassed := passed_legible reservedKeys_short hlegible hbody
    refine ⟨passedText ms message request.taskId, ?_, _, _, eventsText_reads (passed_clean hms) (messageText_clean _ _), ?_, ?_⟩
    · rw [conversational_eq outLen hopen hfirst hroot hlookup hspeaks.string hdup, answer_events hroot hms hnul htask, if_pos]
      refine ⟨hid, ?_, by rwa [← routedText_eq hlegible hbody hdecodes]⟩
      rw [hpassed]
      exact List.forall_mem_map.mpr hnames
    · rw [hpassed, List.map_map]
      refine List.forall₂_map_right_iff.mpr (List.forall₂_same.mpr fun m hm => ?_)
      have hmem := List.mem_of_mem_filter hm
      obtain ⟨d, hd, -⟩ := hlegible m hmem
      have hname := names_of_copy (hbody m hmem) hd
      exact ⟨_, _, _, (congrArg (Names m) (decoded_eq hname)).mpr hname, requestText_asks _ (hms m hmem), argsText_argsOf (hms m hmem)⟩
    · have hargs := messageText_args message request.taskId
      exact ⟨message, _, _, hdecodes, messageText_asks message request.taskId, hargs.2.2.1, hargs.2.2.2⟩

/-! ## The affair agent -/

theorem noEvents_isSome (outLen : Nat) : (noEvents outLen).isSome = true ↔ (lit "\x7b\"events\":[]\x7d").length < outLen := by
  rw [noEvents]
  split
  · rename_i hfull
    exact iff_of_false nofun (Nat.not_lt.mpr hfull)
  · rename_i hfits
    exact iff_of_true rfl (Nat.lt_of_not_le hfits)

theorem patchText_eq (payload : Bytes) :
    lit "\x7b\"events\":[\x7b\"type\":\"affair_patch\",\"payload\":" ++ payload ++ lit "\x7d]\x7d" =
      objText [(lit "events", arrText [objText [(lit "type", quoted (lit "affair_patch")), (lit "payload", payload)]])] := by
  have hhead : lit "\x7b\"events\":[\x7b\"type\":\"affair_patch\",\"payload\":" =
      ch '{' :: (quoted (lit "events") ++ ch ':' :: ch '[' :: ch '{' :: (quoted (lit "type") ++ ch ':' ::
        (quoted (lit "affair_patch") ++ ch ',' :: (quoted (lit "payload") ++ [ch ':'])))) := by (repeat rw [lit_ofList]); decide
  have hclose : lit "\x7d]\x7d" = [ch '}', ch ']', ch '}'] := by decide
  rw [hhead, hclose, objText_tail, objText_tail, arrText, elemsText]
  simp [tailText]

theorem affairPatch_isSome {outLen : Nat} {affair : JsonRef} (h : CleanValue affair) :
    (affairPatch outLen affair).events.isSome = true ↔ Acceptable outLen affair := by
  rw [affairPatch, Acceptable]
  by_cases hnull : jsonRefInferType affair = .null
  · rw [if_pos hnull, if_pos hnull]
    exact noEvents_isSome outLen
  rw [if_neg hnull, if_neg hnull]
  by_cases hobj : jsonRefInferType affair = .object
  · rw [if_pos hobj, textMember]
    cases haction : jsonRefObjectGetString affair (lit "action") rtSmall with
    | none => simp
    | some action =>
      by_cases hempty : action = []
      · subst hempty
        have hfilter : (some ([] : Bytes)).filter (fun s => s ≠ []) = none := rfl
        rw [hfilter]
        refine iff_of_false (by simp) ?_
        rintro ⟨-, action, haction, ⟨rfl, -⟩ | ⟨hmem, -⟩⟩
        · exact absurd haction (by decide)
        · obtain rfl := Option.some.inj haction
          exact absurd hmem (by decide)
      · have hfilter : (some action).filter (fun s => s ≠ []) = some action := Option.filter_some_pos (decide_eq_true hempty)
        rw [hfilter]
        dsimp only
        by_cases hnone : action = lit "none"
        · have hforeign : lit "none" ∉ affairActions := by rw [lit_ofList]; decide
          rw [if_pos hnone, noEvents_isSome]
          simp [hobj, hnone, hforeign]
        · rw [if_neg hnone]
          by_cases hknown : action ∈ affairActions
          · rw [List.contains_iff_mem.mpr hknown, Bool.not_true, if_neg Bool.false_ne_true, (compacted_spec h).2,
              Option.map_some, patchText_eq]
            simp [hobj, hnone, hknown, Option.filter_some, apply_ite Option.isSome]
          · rw [Bool.eq_false_iff.mpr fun hc => hknown (List.contains_iff_mem.mp hc), Bool.not_false, if_pos rfl]
            simp [hnone, hknown]
  · rw [if_neg hobj]
    exact iff_of_false (by simp) fun h => hobj h.1

theorem accepted_iff {outLen : Nat} {output : Bytes} {ms : List (Bytes × Bytes)} (h : Holds output ms) :
    (rtAgentNormalizeAffairOutput outLen output).events.isSome = true ↔
      (∀ m ∈ seen ms, keyOf m = some (lit "affair")) ∧ ∃ v, memberLookup (lit "affair") ms = some v ∧ Acceptable outLen v := by
  obtain ⟨root, hfirst, hroot, -, hms⟩ := h.root
  rw [rtAgentNormalizeAffairOutput, hfirst, Option.bind_some, jsonRefObjectGet_eq hroot]
  cases hlookup : memberLookup (lit "affair") ms with
  | none => simp
  | some v =>
    obtain ⟨m, hm, rfl⟩ := memberLookup_mem hlookup
    rw [Option.map_some]
    dsimp only
    rw [objectItems_seen hroot]
    have hany : ((seen ms).map itemOf).any (fun x => x.1 ≠ lit "affair") = false ↔
        ∀ m ∈ seen ms, keyOf m = some (lit "affair") := by
      rw [List.any_eq_false, List.forall_mem_map]
      refine forall₂_congr fun m hm => ?_
      have hsome : (keyOf m).isSome = true := List.mem_takeWhile_imp (p := fun m => (keyOf m).isSome) hm
      obtain ⟨key, hkey⟩ := Option.isSome_iff_exists.mp hsome
      rw [itemOf_key hkey, hkey]
      simp
    split
    · rename_i hforeign
      refine iff_of_false nofun fun hall => ?_
      rw [hany.mpr hall.1] at hforeign
      cases hforeign
    · rename_i hforeign
      rw [affairPatch_isSome (hms m hm)]
      exact ⟨fun haccept => ⟨hany.mp (Bool.eq_false_iff.mpr hforeign), m.2, rfl, haccept⟩, fun ⟨_, w, hw, haccept⟩ =>
        Option.some.inj hw ▸ haccept⟩

/-- The router is faithful exactly where the keys, the message, the names and the events fit, and the affair agent's
output is checked as a whole exactly where a foreign key is seen or there is nothing to accept. -/
theorem router_faithful_iff (run : SpeakerRun) (outLen affairLen : Nat) {output affairOutput : Bytes}
    {ms affairMs : List (Bytes × Bytes)} {v : JsonRef} {request : Request} (hspeaks : Speaks output ms v)
    (hopen : rtConversationalRequestTask run = some request) (haffair : Holds affairOutput affairMs) :
    ((∃ events, (rtAgentNormalizeConversationalOutput run outLen output).events = some events ∧
        Routed ms v request.taskId events) ↔ Routable outLen ms v request.taskId) ∧
      (((rtAgentNormalizeAffairOutput affairLen affairOutput).events.isSome = true → OnlyAffair affairMs) ↔
        ((∃ w, memberLookup (lit "affair") affairMs = some w ∧ Acceptable affairLen w) → Exposed affairMs)) := by
  refine ⟨speaker_faithful hspeaks hopen, ?_⟩
  rw [accepted_iff haffair]
  constructor
  · intro h haccept
    by_cases hseen : ∀ m ∈ seen affairMs, keyOf m = some (lit "affair")
    · exact .inl (h ⟨hseen, haccept⟩)
    · simp only [not_forall] at hseen
      obtain ⟨m, hm, hkey⟩ := hseen
      exact .inr ⟨m, hm, hkey⟩
  · rintro h ⟨hseen, haccept⟩
    rcases h haccept with honly | ⟨m, hm, hkey⟩
    · exact honly
    · exact absurd (hseen m hm) hkey

/-! ## Two outputs -/

/-- A run with one open message. -/
def openRun : SpeakerRun where
  contextId := lit "c"
  runId := lit "r"
  tasks := some (lit "\x7b\"tasks\":[\x7b\"task_id\":\"task_r_1\",\"context_id\":\"c\",\"kind\":\"input\",\"state\":\"open\",\"input\":\x7b\"type\":\"message\",\"text\":\"hi\"\x7d\x7d]\x7d")

def openMessage : Request := ⟨lit "task_r_1", lit "user_message", lit "hi"⟩

theorem openRun_request : rtConversationalRequestTask openRun = some openMessage := by
  unfold openRun
  repeat rw [lit_ofList]
  decide +kernel

def okMessage : Bytes × Bytes := (lit "message", quoted (lit "ok"))

def noteMember : Bytes × Bytes := (lit "note_add", objText [(lit "text", quoted (lit "x"))])

/-- A key that fills the buffer of the iterator. -/
def longMember : Bytes × Bytes := (List.replicate rtSmall (ch 'a'), lit "1")

theorem okMessage_clean : CleanValue okMessage.2 := by
  rw [okMessage, ← escaped_plain (s := lit "ok") (List.all_eq_true.mp (by decide))]
  exact .text _

theorem holds_written {ms : List (Bytes × Bytes)} (h : WrittenMembers ms) : Holds (objText ms) ms :=
  ⟨objText ms, Snapshot.jsonRefFirstObject_whole ⟨⟨_, h.objText⟩, (CleanValue.objText h).nulFree⟩, h.objText⟩

theorem ok_speaks {ms : List (Bytes × Bytes)} (h : WrittenMembers ms)
    (hfirst : ms.find? (fun m => Names m (lit "message")) = some okMessage) : Speaks (objText ms) ms okMessage.2 :=
  ⟨holds_written h, by rw [hfirst]; rfl, rfl⟩

theorem noteMember_clean : CleanValue noteMember.2 := by
  have htext : CleanValue (quoted (lit "x")) := by
    rw [← escaped_plain (s := lit "x") (List.all_eq_true.mp (by decide))]
    exact .text _
  exact .objText (.key (by decide) htext .nil)

theorem note_written : WrittenMembers [noteMember, okMessage] :=
  .key (by decide) noteMember_clean <| .key (by decide) okMessage_clean .nil

theorem note_routable : Routable rtXl [noteMember, okMessage] okMessage.2 openMessage.taskId where
  keys := List.forall_mem_cons.mpr ⟨⟨lit "note_add", by decide +kernel, .of_all (lit_all (by decide))⟩,
    List.forall_mem_cons.mpr ⟨⟨lit "message", by decide +kernel, .of_all (lit_all (by decide))⟩, nofun⟩⟩
  message := ⟨lit "ok", by decide +kernel, .of_all (by decide)⟩
  names := by decide +kernel
  task := by decide +kernel
  fits := by decide +kernel

example : compacted (lit "[1, 2]") = lit "[1,2]" := by decide +kernel

theorem note_and_answer_routed :
    (∃ events, (rtAgentNormalizeConversationalOutput openRun rtXl (objText [noteMember, okMessage])).events = some events ∧
      Routed [noteMember, okMessage] okMessage.2 openMessage.taskId events) ∧
    ((rtAgentNormalizeAffairOutput rtXl (objText [noteMember, okMessage])).events.isSome = true →
      OnlyAffair [noteMember, okMessage]) :=
  have h := router_faithful_iff openRun rtXl rtXl (ok_speaks note_written (by decide +kernel)) openRun_request
    (holds_written note_written)
  ⟨h.1.mpr note_routable, h.2.mpr fun _ => .inr ⟨noteMember, by decide +kernel, by decide +kernel⟩⟩

theorem long_written : WrittenMembers [longMember, noteMember, okMessage] :=
  .cons (by decide +kernel) ⟨.num (decInt_numText 1), .of_all (lit_all (by decide))⟩ note_written

example : argsText (lit "\x7b\x7d") = lit "\x7b\x7d" := by decide +kernel

/-- Behind a key of 128 octets the note is lost, and the answer is all that is emitted. -/
theorem long_key_drops_note : Speaks (objText [longMember, noteMember, okMessage]) [longMember, noteMember, okMessage] okMessage.2 ∧
    rtConversationalRequestTask openRun = some openMessage ∧
    (rtAgentNormalizeConversationalOutput openRun rtXl (objText [longMember, noteMember, okMessage])).events =
      some (eventsText [] (messageText (lit "ok") openMessage.taskId)) ∧
    ¬ ∃ events, (rtAgentNormalizeConversationalOutput openRun rtXl (objText [longMember, noteMember, okMessage])).events =
      some events ∧ Routed [longMember, noteMember, okMessage] okMessage.2 openMessage.taskId events := by
  have hspeaks := ok_speaks long_written (by decide +kernel)
  have hms : ∀ m ∈ [longMember, noteMember, okMessage], CleanValue m.2 := fun m hm => (long_written m hm).2
  obtain ⟨root, hfirst, hroot, -, -⟩ := hspeaks.object.root
  have hlookup : memberLookup (lit "message") [longMember, noteMember, okMessage] = some okMessage.2 := by decide +kernel
  have hdup : jsonRefStringDup okMessage.2 = some (lit "ok") := by decide +kernel
  have hpassed : passed reservedKeys [longMember, noteMember, okMessage] = [] := by decide +kernel
  refine ⟨hspeaks, openRun_request, ?_, fun hrouted => ?_⟩
  · rw [conversational_eq rtXl openRun_request hfirst hroot hlookup rfl hdup,
      answer_events hroot hms (.of_all (lit_all (by decide))) (request_nulFree openRun_request), if_pos, passedText, hpassed, List.map_nil]
    refine ⟨by decide +kernel, by rw [hpassed]; nofun, ?_⟩
    rw [passedText, hpassed]
    decide +kernel
  · obtain ⟨d, hd, -⟩ := ((speaker_faithful hspeaks openRun_request).mp hrouted).keys longMember List.mem_cons_self
    have hfull : (stringCopyWrite rtSmall (quoted longMember.1)).2 = false := by decide +kernel
    rw [hd] at hfull
    cases hfull

end Floofclaw.Guarantees.RoutedOutputs
