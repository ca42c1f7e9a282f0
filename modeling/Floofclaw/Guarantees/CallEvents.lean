import Floofclaw.Source.AgentExec
import Floofclaw.Guarantees.TaskPayloads
import Floofclaw.Guarantees.Snapshot
import Floofclaw.Guarantees.WorkOutcomes
import Floofclaw.Guarantees.Affairs

/-!
# The events of an agent's calls

Where every key of the calls and of their arguments is legible, the normalizer
makes one event of each call, in order, with the arguments the call has. Two
things are by design: a controller's note comes first, and a note that no task
can take is dropped.
-/

set_option autoImplicit false

namespace Floofclaw.Guarantees.CallEvents
open Floofclaw.Lib Floofclaw.Source.Json Floofclaw.Source.AgentExec
open Floofclaw.Source.Inbound (busTypeIsReserved)
open Floofclaw.Source.TaskState (arrayEntries)
open Floofclaw.Guarantees.TaskPayloads (mirror_clean)
open Floofclaw.Guarantees.WorkOutcomes (mirror_some)
open Floofclaw.Guarantees.Affairs (decInt_length)

/-! ## Keys and arguments -/

/-- The key of a member as the iterator decodes it. -/
def keyOf (m : Bytes × Bytes) : Option Bytes := jsonRefStringCopy rtSmall (quoted m.1)

/-- Every key fits the buffer of the iterator and holds no NUL. -/
def Legible (ms : List (Bytes × Bytes)) : Prop := ∀ m ∈ ms, ∃ d, stringCopyWrite rtSmall (quoted m.1) = (d, true) ∧ NulFree d

def LegibleObject (obj : JsonRef) : Prop := ∃ ms, ObjText obj ms ∧ Legible ms

/-- The keys of a call and of its arguments. -/
def LegibleCall (call : JsonRef) : Prop :=
  LegibleObject call ∧
    ∀ args, jsonRefObjectGet call (lit "args") = some args → jsonRefInferType args = .object → LegibleObject args

/-- The members but `task_id`, in their order: the same keys, and the same values without the white space around their
parts. -/
def SameMembers (ms ms' : List (Bytes × Bytes)) : Prop :=
  List.Forall₂ (fun m m' => keyOf m' = keyOf m ∧ Compacts m.2 m'.2) (ms.filter fun m => keyOf m ≠ some (lit "task_id")) ms'

/-- `args` are the arguments of the call. -/
def SameArgs (call args : JsonRef) : Prop :=
  match jsonRefObjectGet call (lit "args") with
  | none => args = objText []
  | some original => ∃ ms ms', ObjText original ms ∧ ObjText args ms' ∧ SameMembers ms ms'

theorem Legible.key {ms : List (Bytes × Bytes)} (h : Legible ms) {m : Bytes × Bytes} (hm : m ∈ ms) :
    ∃ d, keyOf m = some d ∧ NulFree d ∧ d.length < rtSmall := by
  obtain ⟨d, hd, hnul⟩ := h m hm
  have hkey : keyOf m = some d := jsonRefStringCopy_eq_some.mpr ⟨d, hd, (cstr_eq_self hnul).symm⟩
  exact ⟨d, hkey, hnul, jsonRefStringCopy_length hkey⟩

/-- The item the iterator yields for a member. -/
def itemOf (m : Bytes × Bytes) : Bytes × JsonRef := ((keyOf m).getD [], m.2)

theorem iterItems_eq {obj : JsonRef} {ms : List (Bytes × Bytes)} (h : ObjText obj ms) (hlegible : Legible ms) (n cursor : Nat)
    (hn : ms.length ≤ n + cursor) : iterItems rtSmall obj n cursor = (ms.drop cursor).map itemOf := by
  induction n generalizing cursor with
  | zero =>
    rw [List.drop_eq_nil_of_le (by omega)]
    rfl
  | succ n ih =>
    rw [iterItems, jsonRefObjectIter_eq h, memberIter]
    cases hm : ms[cursor]? with
    | none =>
      rw [List.getElem?_eq_none_iff] at hm
      rw [List.drop_eq_nil_of_le hm]
      rfl
    | some m =>
      obtain ⟨hlt, hget⟩ := List.getElem?_eq_some_iff.mp hm
      obtain ⟨d, hd, -, -⟩ := hlegible.key (List.mem_of_getElem? hm)
      rw [keyOf] at hd
      rw [List.drop_eq_getElem_cons hlt, hget, List.map_cons, itemOf, keyOf, hd]
      dsimp only
      rw [hd, ih (cursor + 1) (by omega)]
      rfl

theorem objectItems_eq {obj : JsonRef} {ms : List (Bytes × Bytes)} (h : ObjText obj ms) (hlegible : Legible ms) :
    objectItems obj = ms.map itemOf :=
  iterItems_eq h hlegible _ 0 (Nat.le_trans h.count_le (Nat.le_add_right _ _))

/-- A member as it is appended. -/
def Appended (x : Bytes × JsonRef) (m : Bytes × Bytes) : Prop := m.1 = escaped x.1 ∧ Compacts x.2 m.2

theorem callArgsLoop_ok {argsArePayload bound : Bool} {items : List (Bytes × JsonRef)} {taskId : Bytes}
    {r : Bytes × List (Bytes × Bytes)} (hitems : ∀ x ∈ items, NulFree x.1 ∧ CleanValue x.2)
    (h : callArgsLoop argsArePayload bound taskId items = .ok r) :
    List.Forall₂ Appended (items.filter fun x => x.1 ≠ lit "task_id") r.2 ∧
      (r.1 = [] ↔ taskId = [] ∧ ∀ x ∈ items, x.1 ≠ lit "task_id") := by
  induction items generalizing taskId r with
  | nil =>
    cases h
    exact ⟨.nil, by simp⟩
  | cons x items ih =>
    obtain ⟨key, value⟩ := x
    obtain ⟨hx, hrest⟩ := List.forall_mem_cons.mp hitems
    rw [callArgsLoop] at h
    split at h
    · cases h
    split at h
    · rename_i htask
      rw [List.filter_cons_of_neg (by simpa using htask)]
      split at h
      · cases h
      · cases h
      · rename_i id hnamed _
        obtain ⟨hmembers, htaskId⟩ := ih hrest h
        refine ⟨hmembers, ?_⟩
        rw [htaskId]
        constructor
        · rintro ⟨rfl, -⟩
          exact absurd rfl hnamed
        · rintro ⟨-, hnone⟩
          exact absurd htask (hnone (key, value) List.mem_cons_self)
    · rename_i htask
      rw [List.filter_cons_of_pos (by simpa using htask)]
      split at h
      · rename_i ekey compact hkey hcompact
        obtain ⟨s, hs, rfl⟩ : ∃ s, callArgsLoop argsArePayload bound taskId items = .ok s ∧ r = (s.1, (ekey, compact) :: s.2) := by
          cases hloop : callArgsLoop argsArePayload bound taskId items with
          | error e =>
            rw [hloop] at h
            cases h
          | ok s =>
            rw [hloop] at h
            cases h
            exact ⟨s, rfl, rfl⟩
        obtain ⟨hmembers, htaskId⟩ := ih hrest hs
        refine ⟨.cons ⟨?_, ?_⟩ hmembers, ?_⟩
        · rw [(mirror_some hkey).1, cstr_eq_self hx.1]
        · obtain ⟨c, hc⟩ := isValue_compacts hx.2.value
          rw [jsonRefValueCompactDup, jsonCompact_eq hx.2.nulFree hc] at hcompact
          split at hcompact
          · cases hcompact
            exact hc
          · cases hcompact
        · rw [htaskId]
          simp [htask]
      · cases h

/-- The rebuilt arguments have the members of the original ones. -/
theorem sameMembers_of_appended {ms ms' : List (Bytes × Bytes)} (hlegible : Legible ms)
    (h : List.Forall₂ Appended ((ms.map itemOf).filter fun x => x.1 ≠ lit "task_id") ms') : SameMembers ms ms' := by
  induction ms generalizing ms' with
  | nil =>
    cases h
    exact .nil
  | cons m ms ih =>
    obtain ⟨d, hd, hnul, hlen⟩ := hlegible.key List.mem_cons_self
    have hrest : Legible ms := fun x hx => hlegible x (List.mem_cons_of_mem _ hx)
    have hitem : itemOf m = (d, m.2) := by rw [itemOf, hd, Option.getD_some]
    rw [List.map_cons, hitem] at h
    rw [SameMembers]
    by_cases htask : d = lit "task_id"
    · rw [List.filter_cons_of_neg (by simpa using htask)] at h
      rw [List.filter_cons_of_neg (by simp [hd, htask])]
      exact ih hrest h
    · rw [List.filter_cons_of_pos (by simpa using htask)] at h
      rw [List.filter_cons_of_pos (by simp [hd, htask])]
      cases h with
      | cons happended hforall =>
        refine .cons ⟨?_, happended.2⟩ (ih hrest hforall)
        rw [keyOf, happended.1, hd]
        exact jsonRefStringCopy_escaped hnul hlen

/-! ## Event texts -/

/-- Members behind the first one. -/
def tailText (ms : List (Bytes × Bytes)) : Bytes := ms.flatMap fun m => ch ',' :: (quoted m.1 ++ ch ':' :: m.2)

theorem membersText_tail (k v : Bytes) (ms : List (Bytes × Bytes)) :
    membersText ((k, v) :: ms) = quoted k ++ ch ':' :: (v ++ tailText ms) := by
  induction ms generalizing k v with
  | nil => simp [membersText, tailText]
  | cons m ms ih =>
    obtain ⟨k', v'⟩ := m
    rw [membersText, ih]
    simp [tailText]

theorem objText_tail (k v : Bytes) (ms : List (Bytes × Bytes)) :
    objText ((k, v) :: ms) = ch '{' :: (quoted k ++ ch ':' :: (v ++ (tailText ms ++ [ch '}']))) := by
  rw [objText, membersText_tail]
  simp

/-- The members a task and a revision add to a request. -/
def boundMembers (etask : Bytes) (ws : List (Bytes × Bytes)) : List (Bytes × Bytes) :=
  (if etask = [] then [] else [(lit "task_id", quoted etask)]) ++ ws

def requestMembers (ename : Bytes) (args : List (Bytes × Bytes)) (etask : Bytes) (ws : List (Bytes × Bytes)) :
    List (Bytes × Bytes) :=
  [(lit "action", quoted ename), (lit "args", objText args)] ++ boundMembers etask ws

theorem actionRequest_eq (ename : Bytes) (args : List (Bytes × Bytes)) (etask : Bytes) (ws : List (Bytes × Bytes)) :
    actionRequest ename args etask (tailText ws) = payloadEvent (lit "action_request") (requestMembers ename args etask ws) := by
  have hhead : lit "\x7b\"type\":\"action_request\",\"payload\":\x7b\"action\":" =
      ch '{' :: (quoted (lit "type") ++ ch ':' :: (quoted (lit "action_request") ++ ch ',' :: (quoted (lit "payload") ++
        ch ':' :: ch '{' :: (quoted (lit "action") ++ [ch ':'])))) := by (repeat rw [lit_ofList]); decide
  have hargs : lit ",\"args\":" = ch ',' :: (quoted (lit "args") ++ [ch ':']) := by (repeat rw [lit_ofList]); decide
  have htask : lit ",\"task_id\":" = ch ',' :: (quoted (lit "task_id") ++ [ch ':']) := by (repeat rw [lit_ofList]); decide
  have hclose : lit "\x7d\x7d" = [ch '}', ch '}'] := by decide
  rw [actionRequest, payloadEvent, requestMembers]
  generalize objText args = args
  rw [List.cons_append, objText_tail, objText_tail, hhead, hargs, htask, hclose, boundMembers]
  split <;> simp [tailText]

/-- The fixed texts of the event types. -/
structure EventText (type : Bytes) : Prop where
  read : jsonRefStringCopy rtSmall (quoted type) = some type
  clean : CleanValue (quoted type)

theorem EventText.of_plain {type : Bytes} (h : type.all isPlain = true) (hlen : type.length < rtSmall) : EventText type := by
  have hplain : ∀ c ∈ type, isPlain c = true := List.all_eq_true.mp h
  have hnul : NulFree type := fun c hc => isPlain_ne_zero (hplain c hc)
  have hself : escaped type = type := escaped_plain hplain
  exact ⟨by simpa [hself] using jsonRefStringCopy_escaped hnul hlen, by simpa [hself] using CleanValue.text type⟩

theorem eventMembers_written {type : Bytes} {ms : List (Bytes × Bytes)} (htype : EventText type) (hms : CleanValue (objText ms)) :
    WrittenMembers [(lit "type", quoted type), (lit "payload", objText ms)] :=
  .key (by decide) htype.clean <| .key (by decide) hms .nil

theorem payloadEvent_type {type : Bytes} {ms : List (Bytes × Bytes)} (htype : EventText type) (hms : CleanValue (objText ms)) :
    jsonRefObjectGetString (payloadEvent type ms) (lit "type") rtSmall = some type := by
  rw [payloadEvent, jsonRefObjectGetString, (eventMembers_written htype hms).get]
  exact htype.read

theorem payloadEvent_payload {type : Bytes} {ms : List (Bytes × Bytes)} (htype : EventText type) (hms : CleanValue (objText ms)) :
    jsonRefObjectGetObject (payloadEvent type ms) (lit "payload") = some (objText ms) := by
  rw [payloadEvent, jsonRefObjectGetObject, (eventMembers_written htype hms).get]
  rfl

/-- Appended members make a clean object. -/
theorem appended_objText {xs : List (Bytes × JsonRef)} {ms : List (Bytes × Bytes)} (hxs : ∀ x ∈ xs, CleanValue x.2)
    (h : List.Forall₂ Appended xs ms) : ObjText (objText ms) ms ∧ CleanValue (objText ms) := by
  have hall : ∀ m ∈ ms, (StrBody m.1 ∧ IsValue m.2) ∧ NulFree m.1 ∧ NulFree m.2 := by
    induction h with
    | nil => nofun
    | @cons x m xs ms hx _ ih =>
      obtain ⟨hhead, htail⟩ := List.forall_mem_cons.mp hxs
      refine List.forall_mem_cons.mpr ⟨?_, ih htail⟩
      rw [hx.1]
      exact ⟨⟨escaped_strBody _, hx.2.value⟩, escaped_nulFree _, hx.2.nulFree hhead.nulFree⟩
  have htext := objText_reads fun m hm => (hall m hm).1
  exact ⟨htext, htext.isValue, objText_nulFree fun m hm => (hall m hm).2⟩

/-! ## One call -/

theorem bind_ok {ε α β : Type} {x : Except ε α} {f : α → Except ε β} {b : β} (h : x >>= f = .ok b) :
    ∃ a, x = .ok a ∧ f a = .ok b := by
  cases x with
  | error e => cases h
  | ok a => exact ⟨a, rfl, h⟩

/-- The trigger of the consequence leaves its clause whole. -/
def TriggerFits (env : AgentEnv) : Prop := ∀ c, env.consequence = some c → (escaped (cstr c.trigger)).length ≤ 400

theorem workRev_length (env : AgentEnv) : (lit ",\"work_rev\":" ++ decInt env.boundWorkRev).length ≤ 40 := by
  have hlit : (lit ",\"work_rev\":").length = 12 := lit_length _
  have hnat : env.boundWorkRev.natAbs < 10 ^ 20 := by
    obtain ⟨hlo, hhi⟩ := env.boundWorkRevLong
    unfold int64Min at hlo
    unfold int64Max at hhi
    omega
  have hdec := decInt_length (by decide) hnat
  rw [List.length_append, hlit]
  omega

theorem workRevClause_ok {env : AgentEnv} {trigger name clause : Bytes} (htrigger : (escaped (cstr trigger)).length ≤ 400)
    (h : workRevClause env trigger name = .ok clause) : ∃ ws, WrittenMembers ws ∧ clause = tailText ws := by
  have hlen := workRev_length env
  have hrev : lit ",\"work_rev\":" = ch ',' :: (quoted (lit "work_rev") ++ [ch ':']) := by (repeat rw [lit_ofList]); decide
  rw [workRevClause] at h
  split at h
  · cases h
    exact ⟨[], .nil, rfl⟩
  split at h
  · cases h
    rw [clip_eq_self (hlen.trans_lt (by decide))]
    refine ⟨[(lit "work_rev", decInt env.boundWorkRev)], .key (by decide) (.long _) .nil, ?_⟩
    rw [hrev]
    simp [tailText]
  · split at h
    · cases h
    · rename_i etrigger hetrigger
      cases h
      have hclean := mirror_clean hetrigger
      rw [(mirror_some hetrigger).1] at hclean ⊢
      have hkey : lit ",\"trigger_event_id\":" = ch ',' :: (quoted (lit "trigger_event_id") ++ [ch ':']) := by (repeat rw [lit_ofList]); decide
      have hkeylen : (lit ",\"trigger_event_id\":").length = 20 := by decide
      have hfull : (lit ",\"work_rev\":" ++ decInt env.boundWorkRev ++ lit ",\"trigger_event_id\":" ++
          quoted (escaped (cstr trigger))).length < rtMed := by
        have hquoted : (quoted (escaped (cstr trigger))).length = (escaped (cstr trigger)).length + 2 := by simp [quoted]
        rw [List.length_append, List.length_append, hkeylen, hquoted]
        unfold rtMed
        omega
      rw [clip_eq_self hfull]
      refine ⟨[(lit "work_rev", decInt env.boundWorkRev), (lit "trigger_event_id", quoted (escaped (cstr trigger)))],
        .key (by decide) (.long _) (.key (by decide) hclean .nil), ?_⟩
      rw [hrev, hkey]
      simp [tailText]

theorem escapedTask_ok {taskId etask : Bytes} (h : escapedTask taskId = .ok etask) : etask = [] ∨ CleanValue (quoted etask) := by
  rw [escapedTask] at h
  split at h
  · cases h
    exact .inl rfl
  · split at h
    · cases h
    · rename_i hmirror
      cases h
      exact .inr (mirror_clean hmirror)

/-- The type of the event a call becomes. -/
def eventType (name : Bytes) : Bytes :=
  if name = lit "task.create" then lit "task_created"
  else if name = lit "task.update" then lit "task_updated"
  else if name = lit "memory.recalled" then lit "memory_recalled"
  else if [lit "memory.user", lit "memory.asst", lit "memory.fact", lit "memory.summ"].contains name then name.drop 7
  else lit "action_request"

theorem eventType_scoped {name : Bytes} (h : scopedAction name = true) : eventType name = lit "action_request" := by
  have hall : ∀ n ∈ [lit "message.send", lit "message", lit "note_add", lit "counter_bump", lit "affair_close", lit "defer"],
      eventType n = lit "action_request" := by (repeat rw [lit_ofList]); decide
  exact hall name (List.contains_iff_mem.mp h)

/-- The event of a call of this name, with these arguments. -/
inductive Shape (name : Bytes) (args : List (Bytes × Bytes)) : Bytes → Prop
  | request {ename etask : Bytes} {ws : List (Bytes × Bytes)} (htype : eventType name = lit "action_request")
      (hname : CleanValue (quoted ename)) (hread : jsonRefStringCopy rtSmall (quoted ename) = some (actionName name))
      (htask : etask = [] ∨ CleanValue (quoted etask)) (hws : WrittenMembers ws) :
      Shape name args (actionRequest ename args etask (tailText ws))
  | payload {ms : List (Bytes × Bytes)} (htype : eventType name ≠ lit "action_request") (htext : EventText (eventType name))
      (hms : ms = args ∨ ∃ etask, CleanValue (quoted etask) ∧ ms = (lit "task_id", quoted etask) :: args) :
      Shape name args (payloadEvent (eventType name) ms)

theorem escapedName_ok {name ename : Bytes} (hname : TextField rtSmall name) (h : mirror rtMed name = some ename) :
    CleanValue (quoted ename) ∧ jsonRefStringCopy rtSmall (quoted ename) = some name := by
  refine ⟨mirror_clean h, ?_⟩
  rw [(mirror_some h).1, cstr_eq_self hname.nulFree]
  exact hname.copy

theorem actionName_text {name : Bytes} (h : scopedAction name = true) : EventText (actionName name) := by
  have hall : ∀ n ∈ [lit "message.send", lit "message", lit "note_add", lit "counter_bump", lit "affair_close", lit "defer"],
      (actionName n).all isPlain = true ∧ (actionName n).length < rtSmall := by (repeat rw [lit_ofList]); decide
  obtain ⟨hplain, hlen⟩ := hall name (List.contains_iff_mem.mp h)
  exact .of_plain hplain hlen

theorem memoryType_text {name : Bytes}
    (h : [lit "memory.user", lit "memory.asst", lit "memory.fact", lit "memory.summ"].contains name = true) :
    eventType name = name.drop 7 ∧ eventType name ≠ lit "action_request" ∧ EventText (eventType name) := by
  have hall : ∀ n ∈ [lit "memory.user", lit "memory.asst", lit "memory.fact", lit "memory.summ"],
      eventType n = n.drop 7 ∧ eventType n ≠ lit "action_request" ∧ (eventType n).all isPlain = true ∧
        (eventType n).length < rtSmall := by (repeat rw [lit_ofList]); decide
  obtain ⟨hdrop, hne, hplain, hlen⟩ := hall name (List.contains_iff_mem.mp h)
  exact ⟨hdrop, hne, .of_plain hplain hlen⟩

/-- The note has no task, and its run must have one. -/
def NoTask (env : AgentEnv) (taskId : Bytes) : Prop := inferMissingTaskId env taskId = [] ∧ busTypeIsReserved env.eventKind = true

/-- What a call becomes once its task and its arguments are known. -/
theorem callEvent_ok {env : AgentEnv} {name taskId : Bytes} {args ws : List (Bytes × Bytes)} {r : Option Bytes}
    (hname : TextField rtSmall name) (hws : WrittenMembers ws) (h : callEvent env name taskId args (tailText ws) = .ok r) :
    (r = none ∧ name = sidecarName ∧ NoTask env taskId) ∨
      ∃ event, r = some event ∧ (name = sidecarName → ¬ NoTask env taskId) ∧ Shape name args event := by
  obtain ⟨etask, hetask, h⟩ := bind_ok h
  obtain ⟨ename, hename, h⟩ := bind_ok h
  have hescaped : mirror rtMed name = some ename := by
    rw [escapedName] at hename
    split at hename
    · cases hename
    · rename_i e he
      cases hename
      exact he
  obtain ⟨hclean, hread⟩ := escapedName_ok hname hescaped
  by_cases hcreate : name = lit "task.create"
  · rw [if_pos hcreate] at h
    split at h
    · cases h
    cases h
    refine .inr ⟨_, rfl, fun hside => absurd (hcreate.symm.trans hside) (by rw [lit_ofList]; decide), ?_⟩
    have htype : eventType name = lit "task_created" := if_pos hcreate
    have hshape : Shape name args (payloadEvent (eventType name) args) :=
      .payload (by rw [htype]; decide) (by rw [htype]; exact .of_plain (lit_all (by decide)) (by decide)) (.inl rfl)
    rwa [htype] at hshape
  rw [if_neg hcreate] at h
  by_cases hupdate : name = lit "task.update"
  · rw [if_pos hupdate] at h
    split at h
    · cases h
    rename_i hknown
    cases h
    refine .inr ⟨_, rfl, fun hside => absurd (hupdate.symm.trans hside) (by rw [lit_ofList]; decide), ?_⟩
    have htype : eventType name = lit "task_updated" := by rw [eventType, if_neg hcreate, if_pos hupdate]
    have htask : CleanValue (quoted etask) := by
      rw [escapedTask, if_neg fun hnil => hknown (.inl hnil)] at hetask
      split at hetask
      · cases hetask
      · rename_i hmirror
        cases hetask
        exact mirror_clean hmirror
    have hshape : Shape name args (payloadEvent (eventType name) ((lit "task_id", quoted etask) :: args)) :=
      .payload (by rw [htype]; decide) (by rw [htype]; exact .of_plain (lit_all (by decide)) (by decide)) (.inr ⟨etask, htask, rfl⟩)
    rwa [htype] at hshape
  rw [if_neg hupdate] at h
  by_cases hscoped : scopedAction name = true
  · rw [if_pos hscoped] at h
    split at h
    · cases h
    obtain ⟨etask', hetask', h⟩ := bind_ok h
    split at h
    · cases h
    cases h
    have htext := actionName_text hscoped
    refine .inr ⟨_, rfl, ?_, .request (eventType_scoped hscoped) htext.clean htext.read (escapedTask_ok hetask') hws⟩
    rintro rfl
    exact absurd hscoped (by decide)
  rw [if_neg hscoped] at h
  by_cases hrecalled : name = lit "memory.recalled"
  · rw [if_pos hrecalled] at h
    cases h
    refine .inr ⟨_, rfl, fun hside => absurd (hrecalled.symm.trans hside) (by rw [lit_ofList]; decide), ?_⟩
    have htype : eventType name = lit "memory_recalled" := by
      rw [eventType, if_neg hcreate, if_neg hupdate, if_pos hrecalled]
    have hshape : Shape name args (payloadEvent (eventType name) args) :=
      .payload (by rw [htype]; decide) (by rw [htype]; exact .of_plain (lit_all (by decide)) (by decide)) (.inl rfl)
    rwa [htype] at hshape
  rw [if_neg hrecalled] at h
  by_cases hmemory : [lit "memory.user", lit "memory.asst", lit "memory.fact", lit "memory.summ"].contains name = true
  · rw [if_pos hmemory] at h
    split at h
    · cases h
    cases h
    obtain ⟨hdrop, hne, htext⟩ := memoryType_text hmemory
    refine .inr ⟨_, rfl, ?_, ?_⟩
    · rintro rfl
      exact absurd hmemory (by (repeat rw [lit_ofList]); decide)
    · have hshape : Shape name args (payloadEvent (eventType name) args) := .payload hne htext (.inl rfl)
      rwa [hdrop] at hshape
  rw [if_neg hmemory] at h
  obtain ⟨etask', hetask', h⟩ := bind_ok h
  have htype : eventType name = lit "action_request" := by
    rw [eventType, if_neg hcreate, if_neg hupdate, if_neg hrecalled, if_neg hmemory]
  have haction : actionName name = name := by
    rw [actionName, if_neg]
    rintro rfl
    exact hscoped (by decide)
  split at h
  · rename_i hnone
    split at h
    · rename_i hside
      cases h
      exact .inl ⟨rfl, hside, hnone⟩
    · cases h
  · rename_i hsome
    split at h
    · cases h
    cases h
    rw [← haction] at hread
    exact .inr ⟨_, rfl, fun _ => hsome, .request htype hclean hread (escapedTask_ok hetask') hws⟩

/-! ## What an event carries -/

/-- Every member of the call is one of the four a call may have. -/
def OwnKeys (call : JsonRef) : Prop := ∃ ms, ObjText call ms ∧ ∀ m ∈ ms, ∃ key ∈ callKeys, keyOf m = some key

/-- A note that names no task, in a run that has none for it and must have one. -/
def Dropped (env : AgentEnv) (call : JsonRef) : Prop :=
  agentCallIntentName call = some sidecarName ∧ jsonRefObjectGet call (lit "task_id") = none ∧
    (∀ args ∈ jsonRefObjectGet call (lit "args"), jsonRefObjectGet args (lit "task_id") = none) ∧
    env.bindTaskOpenWork = false ∧ NoTask env []

instance (env : AgentEnv) (taskId : Bytes) : Decidable (NoTask env taskId) := inferInstanceAs (Decidable (_ ∧ _))

instance (env : AgentEnv) (call : JsonRef) : Decidable (Dropped env call) :=
  inferInstanceAs (Decidable (_ ∧ _ ∧ (∀ args ∈ jsonRefObjectGet call (lit "args"), _) ∧ _ ∧ _))

/-- The event is the one of this call; a request asks for its action with its arguments. -/
structure Carries (call : JsonRef) (event : Bytes) : Prop where
  type : ∃ name, agentCallIntentName call = some name ∧
    jsonRefObjectGetString event (lit "type") rtSmall = some (eventType name)
  request : ∀ name, agentCallIntentName call = some name → eventType name = lit "action_request" →
    ∃ payload args, jsonRefObjectGetObject event (lit "payload") = some payload ∧
      jsonRefObjectGetString payload (lit "action") rtSmall = some (actionName name) ∧
      jsonRefObjectGetObject payload (lit "args") = some args ∧ SameArgs call args

theorem requestMembers_written {ename etask : Bytes} {args ws : List (Bytes × Bytes)} (hname : CleanValue (quoted ename))
    (hargs : CleanValue (objText args)) (htask : etask = [] ∨ CleanValue (quoted etask)) (hws : WrittenMembers ws) :
    WrittenMembers (requestMembers ename args etask ws) := by
  refine .key (by decide) hname (.key (by decide) hargs ?_)
  rw [boundMembers]
  split
  · exact hws
  · rename_i hne
    exact .key (by decide) (htask.resolve_left hne) hws

theorem Shape.carries {call : JsonRef} {name : Bytes} {args : List (Bytes × Bytes)} {event : Bytes}
    (hname : agentCallIntentName call = some name) (hargs : CleanValue (objText args)) (htext : ObjText (objText args) args)
    (hsame : SameArgs call (objText args)) (h : Shape name args event) : Carries call event ∧ CleanValue event := by
  cases h with
  | @request ename etask ws htype hclean hread htask hws =>
    have hwritten := requestMembers_written hclean hargs htask hws
    have hpayload := CleanValue.objText hwritten
    have hrequest : EventText (lit "action_request") := .of_plain (lit_all (by decide)) (by decide)
    rw [actionRequest_eq]
    refine ⟨⟨⟨name, hname, ?_⟩, ?_⟩, CleanValue.objText (eventMembers_written hrequest hpayload)⟩
    · rw [htype]
      exact payloadEvent_type hrequest hpayload
    · intro name' hname' _
      cases hname.symm.trans hname'
      refine ⟨_, objText args, payloadEvent_payload hrequest hpayload, ?_, ?_, hsame⟩
      · rw [jsonRefObjectGetString, hwritten.get]
        exact hread
      · rw [jsonRefObjectGetObject, hwritten.get]
        rfl
  | @payload ms htype htypeText hms =>
    have hclean : CleanValue (objText ms) := by
      rcases hms with rfl | ⟨etask, htask, rfl⟩
      · exact hargs
      · have hkey : StrBody (lit "task_id") ∧ NulFree (lit "task_id") :=
          ⟨plainKey_strBody (plainKey_lit (by decide)), plainKey_nulFree (by decide)⟩
        refine ⟨(objText_reads (List.forall_mem_cons.mpr ⟨⟨hkey.1, htask.value⟩, htext.wellformed⟩)).isValue,
          objText_nulFree (List.forall_mem_cons.mpr ⟨⟨hkey.2, htask.nulFree⟩, htext.nulFree hargs.nulFree⟩)⟩
    refine ⟨⟨⟨name, hname, payloadEvent_type htypeText hclean⟩, ?_⟩,
      CleanValue.objText (eventMembers_written htypeText hclean)⟩
    intro name' hname' htype'
    cases hname.symm.trans hname'
    exact absurd htype' htype

/-- A lookup misses a key exactly when no legible member has it. -/
theorem memberLookup_legible {ms : List (Bytes × Bytes)} (h : Legible ms) (key : Bytes) :
    memberLookup key ms = none ↔ ∀ m ∈ ms, keyOf m ≠ some key := by
  induction ms with
  | nil => simp [memberLookup]
  | cons m ms ih =>
    obtain ⟨d, hd, -, -⟩ := h.key List.mem_cons_self
    have hwide : jsonRefStringCopy 256 (quoted m.1) = some d := jsonRefStringCopy_mono (by decide) hd
    obtain ⟨k, v⟩ := m
    rw [memberLookup, hwide, List.forall_mem_cons, hd]
    dsimp only
    rw [← ih fun x hx => h x (List.mem_cons_of_mem _ hx)]
    split
    · rename_i hkey
      exact iff_of_false (fun hnone => by cases hnone) fun hc => hc.1 (congrArg some hkey)
    · rename_i hkey
      exact ⟨fun hnone => ⟨fun hc => hkey (Option.some.inj hc), hnone⟩, fun hc => hc.2⟩

theorem callTaskId_ok {call : JsonRef} {taskId : Bytes} (h : callTaskId call = .ok taskId) :
    taskId = [] ↔ jsonRefObjectGet call (lit "task_id") = none := by
  rw [callTaskId] at h
  split at h
  · rename_i hnone
    cases h
    exact iff_of_true rfl hnone
  · rename_i v hsome
    split at h
    · cases h
    · cases h
    · rename_i id hne _
      cases h
      rw [hsome]
      exact iff_of_false hne nofun

theorem namedTask_ok {env : AgentEnv} (hbound : env.bindTaskOpenWork = true → env.boundTaskId ≠ []) {argsTask callTask task : Bytes}
    (h : namedTask env argsTask callTask = .ok task) :
    task = [] ↔ argsTask = [] ∧ callTask = [] ∧ env.bindTaskOpenWork = false := by
  have hnone : (if callTask ≠ [] then callTask else argsTask) = [] ↔ argsTask = [] ∧ callTask = [] := by
    split
    · rename_i hcall
      exact iff_of_false hcall fun hc => hcall hc.2
    · rename_i hcall
      exact ⟨fun hargs => ⟨hargs, not_not.mp hcall⟩, fun hc => hc.1⟩
  rw [namedTask] at h
  split at h
  · cases h
  dsimp only at h
  generalize (if callTask ≠ [] then callTask else argsTask) = named at h hnone
  split at h
  · rename_i hbind
    split at h
    · cases h
    · cases h
      refine iff_of_false ?_ (by simp [hbind])
      obtain ⟨c, s, hs⟩ := List.exists_cons_of_ne_nil (hbound hbind)
      rw [hs]
      nofun
  · rename_i hbind
    cases h
    have hfree : env.bindTaskOpenWork = false := by simpa using hbind
    rw [hnone]
    exact ⟨fun hc => ⟨hc.1, hc.2, hfree⟩, fun hc => ⟨hc.1, hc.2.1⟩⟩

/-- The rebuilt arguments of a legible call. -/
theorem callArgs_ok {env : AgentEnv} {name : Bytes} {call : JsonRef} {r : Bytes × List (Bytes × Bytes)} (hcall : LegibleCall call)
    (hclean : CleanValue call) (h : callArgs env name call = .ok r) :
    SameArgs call (objText r.2) ∧ ObjText (objText r.2) r.2 ∧ CleanValue (objText r.2) ∧
      (r.1 = [] ↔ ∀ args, jsonRefObjectGet call (lit "args") = some args → jsonRefObjectGet args (lit "task_id") = none) := by
  rw [callArgs] at h
  split at h
  · rename_i hnone
    cases h
    have hempty : WrittenMembers [] := .nil
    refine ⟨?_, hempty.objText, CleanValue.objText hempty, iff_of_true rfl ?_⟩
    · rw [SameArgs, hnone]
    · intro args hargs
      rw [hnone] at hargs
      cases hargs
  · rename_i args hargs
    split at h
    · cases h
    · rename_i r' hr
      cases h
      rw [normalizeCallArgsDup] at hr
      split at hr
      · cases hr
      rename_i hobject
      obtain ⟨ms, hms, hlegible⟩ := hcall.2 args hargs (not_not.mp hobject)
      have hargsClean : CleanValue args := by
        obtain ⟨cms, hcms, -⟩ := hcall.1
        exact .get hcms hclean.nulFree hargs
      rw [objectItems_eq hms hlegible] at hr
      have hitems : ∀ x ∈ ms.map itemOf, NulFree x.1 ∧ CleanValue x.2 := by
        intro x hx
        obtain ⟨m, hm, rfl⟩ := List.mem_map.mp hx
        obtain ⟨d, hd, hnul, -⟩ := hlegible.key hm
        rw [itemOf, hd, Option.getD_some]
        exact ⟨hnul, (hms.wellformed m hm).2, (hms.nulFree hargsClean.nulFree m hm).2⟩
      obtain ⟨happended, htask⟩ := callArgsLoop_ok hitems hr
      obtain ⟨htext, hclean'⟩ := appended_objText
        (fun x hx => (hitems x (List.mem_of_mem_filter hx)).2) happended
      refine ⟨?_, htext, hclean', ?_⟩
      · rw [SameArgs, hargs]
        exact ⟨ms, r.2, hms, htext, sameMembers_of_appended hlegible happended⟩
      · have hlookup : jsonRefObjectGet args (lit "task_id") = none ↔ ∀ m ∈ ms, keyOf m ≠ some (lit "task_id") := by
          rw [jsonRefObjectGet_eq hms]
          exact memberLookup_legible hlegible _
        rw [htask]
        constructor
        · rintro ⟨-, hnone⟩ args' hargs'
          cases hargs.symm.trans hargs'
          refine hlookup.mpr fun m hm hkey => hnone (itemOf m) (List.mem_map_of_mem hm) ?_
          rw [itemOf, hkey, Option.getD_some]
        · intro hnone
          refine ⟨rfl, fun x hx hkey => ?_⟩
          obtain ⟨m, hm, rfl⟩ := List.mem_map.mp hx
          obtain ⟨d, hd, -, -⟩ := hlegible.key hm
          rw [itemOf, hd, Option.getD_some] at hkey
          exact hlookup.mp (hnone args hargs) m hm (hd.trans (congrArg some hkey))

/-- Both readings of a call's name agree. -/
theorem callName_ok {call : JsonRef} {name name' : Bytes} (hintent : agentCallIntentName call = some name)
    (h : callName call = .ok name') : name' = name ∧ TextField rtSmall name := by
  have hmember : ∀ {key s : Bytes}, textMember call key rtSmall = some s →
      TextField rtSmall s ∧ textMember call key rtMed = some s := by
    intro key s hs
    rw [textMember, Option.filter_eq_some_iff] at hs
    refine ⟨getString_text hs.1, ?_⟩
    rw [textMember, Option.filter_eq_some_iff]
    refine ⟨?_, hs.2⟩
    obtain ⟨v, hv, hcopy⟩ := Option.bind_eq_some_iff.mp hs.1
    exact Option.bind_eq_some_iff.mpr ⟨v, hv, jsonRefStringCopy_mono (by decide) hcopy⟩
  rw [agentCallIntentName] at hintent
  split at hintent
  · cases hintent
  rename_i hobject
  rw [callName, if_neg hobject] at h
  split at hintent
  · rename_i n hname haction
    cases hintent
    rw [hname] at h
    split at h
    · cases h
    · rename_i hsome _
      cases hsome
      cases h
      exact ⟨rfl, (hmember hname).1⟩
    · rename_i hnone _
      cases hnone
    · rename_i hnone _
      cases hnone
  · rename_i n hname haction
    cases hintent
    obtain ⟨htext, hwide⟩ := hmember haction
    rw [hname, hwide] at h
    cases h
    exact ⟨clip_eq_self htext.fits, htext⟩
  · cases hintent

/-- What one call becomes. -/
theorem emitCall_ok {env : AgentEnv} {trigger name : Bytes} {call : JsonRef} {r : Option Bytes} (hcall : LegibleCall call)
    (hclean : CleanValue call) (htrigger : (escaped (cstr trigger)).length ≤ 400)
    (hbound : env.bindTaskOpenWork = true → env.boundTaskId ≠ []) (hintent : agentCallIntentName call = some name)
    (hname : TextField rtSmall name) (h : emitCall env trigger name call = .ok r) :
    OwnKeys call ∧ ((r = none ∧ Dropped env call) ∨
      ∃ event, r = some event ∧ ¬ Dropped env call ∧ Carries call event ∧ CleanValue event) := by
  rw [emitCall] at h
  split at h
  · cases h
  rename_i hforeign
  have howned : OwnKeys call := by
    obtain ⟨ms, hms, hlegible⟩ := hcall.1
    refine ⟨ms, hms, fun m hm => ?_⟩
    obtain ⟨d, hd, -, -⟩ := hlegible.key hm
    rw [objectItems_eq hms hlegible, List.find?_eq_none] at hforeign
    have hkey := hforeign (itemOf m) (List.mem_map_of_mem hm)
    rw [itemOf, hd, Option.getD_some] at hkey
    exact ⟨d, by simpa using hkey, hd⟩
  obtain ⟨callTask, hcallTask, h⟩ := bind_ok h
  obtain ⟨args, hargs, h⟩ := bind_ok h
  obtain ⟨task, htask, h⟩ := bind_ok h
  obtain ⟨clause, hclause, h⟩ := bind_ok h
  split at h
  · cases h
  obtain ⟨hsame, htext, hargsClean, hargsTask⟩ := callArgs_ok hcall hclean hargs
  obtain ⟨ws, hws, rfl⟩ := workRevClause_ok htrigger hclause
  -- the task of the call is missing exactly when nothing names one
  have hnone : task = [] ↔ (∀ args, jsonRefObjectGet call (lit "args") = some args →
      jsonRefObjectGet args (lit "task_id") = none) ∧ jsonRefObjectGet call (lit "task_id") = none ∧
        env.bindTaskOpenWork = false := by
    rw [namedTask_ok hbound htask, hargsTask, callTaskId_ok hcallTask]
  have hnoTask : task ≠ [] → ¬ NoTask env task := by
    intro hne hc
    rw [NoTask, inferMissingTaskId, if_pos hne] at hc
    exact hne hc.1
  refine ⟨howned, ?_⟩
  rcases callEvent_ok hname hws h with ⟨rfl, hside, hlost⟩ | ⟨event, rfl, hside, hshape⟩
  · have hnil : task = [] := not_not.mp fun hne => hnoTask hne hlost
    obtain ⟨hargsNone, hcallNone, hfree⟩ := hnone.mp hnil
    rw [hnil] at hlost
    exact .inl ⟨rfl, hside ▸ hintent, hcallNone, hargsNone, hfree, hlost⟩
  · obtain ⟨hcarries, hevent⟩ := hshape.carries hintent hargsClean htext hsame
    refine .inr ⟨event, rfl, ?_, hcarries, hevent⟩
    rintro ⟨hsidecar, hcallNone, hargsNone, hfree, hlost⟩
    cases hintent.symm.trans hsidecar
    refine hside rfl ?_
    rw [hnone.mpr ⟨hargsNone, hcallNone, hfree⟩]
    exact hlost

/-! ## A pass -/

/-- The events behind the first `n`. -/
def joined (n : Nat) (events : List Bytes) : Bytes :=
  if n = 0 then elemsText events else events.flatMap fun e => ch ',' :: e

theorem joined_cons (n : Nat) (e : Bytes) (events : List Bytes) :
    joined n (e :: events) = ((if 0 < n then lit "," else []) ++ e) ++ joined (n + 1) events := by
  have hcomma : lit "," = [ch ','] := by decide
  rw [joined, joined, if_neg (Nat.succ_ne_zero n), hcomma]
  cases n with
  | zero => exact TaskStoreText.elemsText_cons e events
  | succ n => rfl

theorem joined_append (n : Nat) (xs ys : List Bytes) : joined n (xs ++ ys) = joined n xs ++ joined (n + xs.length) ys := by
  induction xs generalizing n with
  | nil => simp [joined, elemsText]
  | cons x xs ih =>
    rw [List.cons_append, joined_cons, joined_cons, ih, List.length_cons, Nat.add_right_comm, Nat.add_assoc]
    simp only [List.append_assoc]

/-- The calls a pass keeps. -/
def keptCalls (keep : Bytes → Bool) (calls : List JsonRef) : List JsonRef :=
  calls.filter fun call => (agentCallIntentName call).any keep

/-- The events of the calls, without those of the dropped ones. -/
inductive EventsOf (env : AgentEnv) : List JsonRef → List Bytes → Prop
  | nil : EventsOf env [] []
  | dropped {call : JsonRef} {calls : List JsonRef} {events : List Bytes} (hdropped : Dropped env call)
      (hrest : EventsOf env calls events) : EventsOf env (call :: calls) events
  | event {call : JsonRef} {calls : List JsonRef} {e : Bytes} {events : List Bytes} (hkept : ¬ Dropped env call)
      (hcarries : Carries call e) (hclean : CleanValue e) (hrest : EventsOf env calls events) :
      EventsOf env (call :: calls) (e :: events)

theorem EventsOf.append {env : AgentEnv} {calls calls' : List JsonRef} {events events' : List Bytes}
    (h : EventsOf env calls events) (h' : EventsOf env calls' events') : EventsOf env (calls ++ calls') (events ++ events') := by
  induction h with
  | nil => exact h'
  | dropped hdropped _ ih => exact .dropped hdropped ih
  | event hkept hcarries hclean _ ih => exact .event hkept hcarries hclean ih

theorem EventsOf.clean {env : AgentEnv} {calls : List JsonRef} {events : List Bytes} (h : EventsOf env calls events) :
    ∀ e ∈ events, CleanValue e := by
  induction h with
  | nil => nofun
  | dropped _ _ ih => exact ih
  | event _ _ hclean _ ih => exact List.forall_mem_cons.mpr ⟨hclean, ih⟩

theorem appendText_ok {outLen : Nat} {out text r : Bytes} (h : appendText outLen out text = .ok r) : r = out ++ text := by
  rw [appendText] at h
  split at h
  · cases h
  · rename_i out' hout
    cases h
    exact (StoreText.rtAppendText_eq_some.mp hout).1

/-- The calls as the counting loop found them. -/
def Named (call : JsonRef) : Prop := LegibleCall call ∧ CleanValue call ∧ (agentCallIntentName call).isSome = true

/-- One pass appends the events of the calls it keeps. -/
theorem emitPass_ok {env : AgentEnv} {outLen n : Nat} {trigger out : Bytes} {keep : Bytes → Bool} {calls : List JsonRef}
    {st : Bytes × Nat} (hcalls : ∀ call ∈ calls, Named call) (htrigger : (escaped (cstr trigger)).length ≤ 400)
    (hbound : env.bindTaskOpenWork = true → env.boundTaskId ≠ []) (h : emitPass env outLen trigger keep (out, n) calls = .ok st) :
    (∀ call ∈ keptCalls keep calls, OwnKeys call) ∧
      ∃ events, EventsOf env (keptCalls keep calls) events ∧ st = (out ++ joined n events, n + events.length) := by
  induction calls generalizing out n with
  | nil =>
    cases h
    refine ⟨nofun, [], .nil, ?_⟩
    have hnil : joined n [] = [] := by
      rw [joined]
      split <;> rfl
    rw [hnil, List.append_nil]
    rfl
  | cons call calls ih =>
    obtain ⟨⟨hlegible, hclean, hnamed⟩, hrest⟩ := List.forall_mem_cons.mp hcalls
    obtain ⟨name, hintent⟩ := Option.isSome_iff_exists.mp hnamed
    rw [emitPass] at h
    obtain ⟨name', hname', h⟩ := bind_ok h
    obtain ⟨rfl, htext⟩ := callName_ok hintent hname'
    rw [keptCalls, List.filter_cons, hintent, Option.any_some]
    by_cases hkeep : keep name' = true
    · rw [hkeep, Bool.not_true, if_neg Bool.false_ne_true] at h
      rw [if_pos hkeep]
      obtain ⟨emitted, hemitted, h⟩ := bind_ok h
      obtain ⟨howned, hcase⟩ := emitCall_ok hlegible hclean htrigger hbound hintent htext hemitted
      rcases hcase with ⟨rfl, hdropped⟩ | ⟨event, rfl, hkept, hcarries, hevent⟩
      · obtain ⟨hownedRest, events, hevents, rfl⟩ := ih hrest h
        exact ⟨List.forall_mem_cons.mpr ⟨howned, hownedRest⟩, events, .dropped hdropped hevents, rfl⟩
      · dsimp only at h
        generalize hitem : (if 0 < n then lit "," else []) ++ event = item at h
        split at h
        · cases h
        obtain ⟨out', hout', h⟩ := bind_ok h
        have htextOut := appendText_ok hout'
        obtain ⟨hownedRest, events, hevents, rfl⟩ := ih hrest h
        refine ⟨List.forall_mem_cons.mpr ⟨howned, hownedRest⟩, event :: events, .event hkept hcarries hevent hevents, ?_⟩
        rw [joined_cons, hitem, htextOut, List.append_assoc, List.length_cons, Nat.add_right_comm, Nat.add_assoc]
    · have hskip : keep name' = false := by simpa using hkeep
      rw [hskip, Bool.not_false, if_pos rfl] at h
      rw [if_neg hkeep]
      exact ih hrest h

/-! ## The whole output -/

def isSidecar (call : JsonRef) : Bool := agentCallIntentName call = some sidecarName

/-- The order of the events: a controller's note first. -/
def ordered (env : AgentEnv) (calls : List JsonRef) : List JsonRef :=
  if env.bindTaskOpenWork then calls.filter isSidecar ++ calls.filter fun call => !isSidecar call else calls

/-- The events of a normalized output as its reader finds them. -/
def eventsOf (out : Bytes) : Option (List Bytes) :=
  (jsonRefFirstObject out).bind fun root => (jsonRefObjectGetArray root (lit "events")).map arrayEntries

theorem eventsOf_written {events : List Bytes} (h : ∀ e ∈ events, CleanValue e) :
    eventsOf (lit "\x7b\"events\":[" ++ elemsText events ++ lit "]\x7d") = some events := by
  have hhead : lit "\x7b\"events\":[" = ch '{' :: (quoted (lit "events") ++ [ch ':', ch '[']) := by (repeat rw [lit_ofList]); decide
  have hclose : lit "]\x7d" = [ch ']', ch '}'] := by decide
  have hwritten : WrittenMembers [(lit "events", arrText events)] := .key (by decide) (.arrText h) .nil
  have htext : lit "\x7b\"events\":[" ++ elemsText events ++ lit "]\x7d" = objText [(lit "events", arrText events)] := by
    rw [hhead, hclose, objText_tail, arrText]
    simp [tailText]
  rw [eventsOf, htext, Snapshot.jsonRefFirstObject_whole ⟨⟨_, hwritten.objText⟩, (CleanValue.objText hwritten).nulFree⟩,
    Option.bind_some, jsonRefObjectGetArray, hwritten.get]
  exact congrArg some (TaskStoreText.arrayEntries_eq (arrText_reads fun e he => (h e he).value))

theorem callsOf_clean {output : Bytes} {calls : List JsonRef} (h : callsOf output = some calls) : ∀ call ∈ calls, CleanValue call := by
  obtain ⟨root, hroot, h⟩ := Option.bind_eq_some_iff.mp h
  obtain ⟨arr, harr, rfl⟩ := Option.map_eq_some_iff.mp h
  obtain ⟨⟨ms, hms⟩, hsub⟩ := Source.EventLog.firstObjectLoop_sound hroot
  have hnul : NulFree root := fun c hc => cstr_nulFree output c (hsub hc)
  rw [jsonRefObjectGetArray, Option.filter_eq_some_iff] at harr
  have hclean : CleanValue arr := .get hms hnul harr.1
  obtain ⟨xs, hxs⟩ := isValue_array hclean.value (by simpa using harr.2)
  rw [TaskStoreText.arrayEntries_eq hxs]
  exact fun x hx => ⟨hxs.wellformed x hx, hxs.nulFree hclean.nulFree x hx⟩

/-- The counting loop names every call. -/
theorem callNames_ok {calls : List JsonRef} {names : List Bytes} (h : callNames calls = .ok names) :
    calls.map agentCallIntentName = names.map some := by
  induction calls generalizing names with
  | nil =>
    cases h
    rfl
  | cons call calls ih =>
    rw [callNames, List.mapM_cons] at h
    obtain ⟨name, hname, h⟩ := bind_ok h
    obtain ⟨rest, hrest, h⟩ := bind_ok h
    cases h
    split at hname
    · cases hname
    · rename_i name' hintent
      cases hname
      rw [List.map_cons, List.map_cons, hintent, ih hrest]

theorem controllerTrigger_ok {env : AgentEnv} {count : Nat} {trigger : Bytes} (hfits : TriggerFits env)
    (h : controllerTrigger env count = .ok trigger) :
    (escaped (cstr trigger)).length ≤ 400 ∧ (env.bindTaskOpenWork = true → env.boundTaskId ≠ []) := by
  have hnil : (escaped (cstr [])).length ≤ 400 := by decide
  rw [controllerTrigger] at h
  split at h
  · rename_i hfree
    cases h
    exact ⟨hnil, fun hbind => absurd hbind hfree⟩
  split at h
  · cases h
  rename_i hlive
  refine ⟨?_, fun _ hempty => hlive (.inl hempty)⟩
  obtain ⟨trigger', htrigger, h⟩ := bind_ok h
  split at h
  · cases h
  cases h
  rw [consequenceTrigger] at htrigger
  split at htrigger
  · split at htrigger
    · rename_i c hc
      cases htrigger
      exact hfits c (Option.filter_eq_some_iff.mp hc).1
    · cases htrigger
  · cases htrigger
    exact hnil

/-- The calls that are not dropped have one event each. -/
theorem EventsOf.one_each {env : AgentEnv} {calls : List JsonRef} {events : List Bytes} (h : EventsOf env calls events) :
    List.Forall₂ Carries (calls.filter fun call => ¬ Dropped env call) events := by
  induction h with
  | nil => exact .nil
  | dropped hdropped _ ih =>
    rw [List.filter_cons_of_neg (by simpa using hdropped)]
    exact ih
  | event hkept hcarries _ _ ih =>
    rw [List.filter_cons_of_pos (by simpa using hkept)]
    exact .cons hcarries ih

theorem named_mem {calls : List JsonRef} {names : List Bytes} (h : calls.map agentCallIntentName = names.map some) :
    ∀ call ∈ calls, (agentCallIntentName call).isSome = true := by
  intro call hcall
  have hmem : agentCallIntentName call ∈ names.map some := by
    rw [← h]
    exact List.mem_map_of_mem hcall
  obtain ⟨name, -, hname⟩ := List.mem_map.mp hmem
  rw [← hname]
  rfl

theorem keptCalls_all {calls : List JsonRef} (h : ∀ call ∈ calls, (agentCallIntentName call).isSome = true) :
    keptCalls (fun _ => true) calls = calls := by
  rw [keptCalls, List.filter_eq_self]
  intro call hcall
  obtain ⟨name, hname⟩ := Option.isSome_iff_exists.mp (h call hcall)
  rw [hname]
  rfl

theorem keptCalls_sidecar (calls : List JsonRef) : keptCalls (fun name => name = sidecarName) calls = calls.filter isSidecar := by
  refine List.filter_congr fun call _ => ?_
  rw [isSidecar]
  cases agentCallIntentName call <;> simp

theorem keptCalls_ordinary {calls : List JsonRef} (h : ∀ call ∈ calls, (agentCallIntentName call).isSome = true) :
    keptCalls (fun name => name ≠ sidecarName) calls = calls.filter fun call => !isSidecar call := by
  refine List.filter_congr fun call hcall => ?_
  obtain ⟨name, hname⟩ := Option.isSome_iff_exists.mp (h call hcall)
  rw [isSidecar, hname]
  simp

/-- Without a note there is nothing to put first. -/
theorem no_sidecar {calls : List JsonRef} {names : List Bytes} (h : calls.map agentCallIntentName = names.map some)
    (hnone : names.countP (· = sidecarName) = 0) : ∀ call ∈ calls, isSidecar call = false := by
  intro call hcall
  have hmem : agentCallIntentName call ∈ names.map some := by
    rw [← h]
    exact List.mem_map_of_mem hcall
  obtain ⟨name, hname, hintent⟩ := List.mem_map.mp hmem
  have hne := List.countP_eq_zero.mp hnone name hname
  rw [isSidecar, ← hintent]
  simpa using hne

theorem emitPasses_ok {env : AgentEnv} {outLen : Nat} {trigger out : Bytes} {calls : List JsonRef} {names : List Bytes}
    {st : Bytes × Nat} (hnames : calls.map agentCallIntentName = names.map some)
    (hcalls : ∀ call ∈ calls, LegibleCall call ∧ CleanValue call) (htrigger : (escaped (cstr trigger)).length ≤ 400)
    (hbound : env.bindTaskOpenWork = true → env.boundTaskId ≠ [])
    (h : emitPasses env outLen trigger (names.countP (· = sidecarName)) out calls = .ok st) :
    (∀ call ∈ calls, OwnKeys call) ∧
      ∃ events, EventsOf env (ordered env calls) events ∧ st.1 = out ++ elemsText events := by
  have hsome := named_mem hnames
  have hnamed : ∀ call ∈ calls, Named call := fun call hcall => ⟨(hcalls call hcall).1, (hcalls call hcall).2, hsome call hcall⟩
  rw [emitPasses] at h
  split at h
  · rename_i htwo
    obtain ⟨st1, h1, h2⟩ := bind_ok h
    obtain ⟨howned1, events1, hevents1, rfl⟩ := emitPass_ok hnamed htrigger hbound h1
    obtain ⟨howned2, events2, hevents2, rfl⟩ := emitPass_ok hnamed htrigger hbound h2
    rw [keptCalls_sidecar] at howned1 hevents1
    rw [keptCalls_ordinary hsome] at howned2 hevents2
    refine ⟨fun call hcall => ?_, events1 ++ events2, ?_, ?_⟩
    · by_cases hside : isSidecar call = true
      · exact howned1 call (List.mem_filter.mpr ⟨hcall, hside⟩)
      · exact howned2 call (List.mem_filter.mpr ⟨hcall, by simpa using hside⟩)
    · rw [ordered, if_pos htwo.1]
      exact hevents1.append hevents2
    · have hjoined := joined_append 0 events1 events2
      rw [joined, if_pos rfl] at hjoined
      dsimp only
      rw [hjoined, List.append_assoc]
  · rename_i hone
    obtain ⟨howned, events, hevents, rfl⟩ := emitPass_ok hnamed htrigger hbound h
    rw [keptCalls_all hsome] at howned hevents
    refine ⟨howned, events, ?_, ?_⟩
    · have hsame : ordered env calls = calls := by
        rw [ordered]
        split
        · rename_i hbind
          have hzero : names.countP (· = sidecarName) = 0 := Nat.eq_zero_of_not_pos fun hpos => hone ⟨hbind, hpos⟩
          have hordinary := no_sidecar hnames hzero
          rw [List.filter_eq_nil_iff.mpr fun call hcall => by simp [hordinary call hcall],
            List.filter_eq_self.mpr fun call hcall => by simp [hordinary call hcall], List.nil_append]
        · rfl
      rw [hsame]
      exact hevents
    · rw [joined, if_pos rfl]

/-- An accepted output whose calls are legible has one event for each call that is not dropped, in order, with the
arguments of the call, and its calls have no foreign members. -/
theorem normalized_calls (env : AgentEnv) (outLen : Nat) (output out : Bytes) (calls : List JsonRef)
    (hprofile : env.payloadOnly = none) (hfits : TriggerFits env) (hcalls : callsOf output = some calls)
    (hlegible : ∀ call ∈ calls, LegibleCall call) (hok : rtAgentNormalizeOutput env outLen output = .ok out) :
    (∀ call ∈ calls, OwnKeys call) ∧
      ∃ events, eventsOf out = some events ∧
        List.Forall₂ Carries ((ordered env calls).filter fun call => ¬ Dropped env call) events := by
  have hclean := callsOf_clean hcalls
  rw [rtAgentNormalizeOutput, hprofile, hcalls] at hok
  obtain ⟨names, hnames, hok⟩ := bind_ok hok
  dsimp only at hok
  split at hok
  · cases hok
  split at hok
  · cases hok
  obtain ⟨trigger, htrigger, hok⟩ := bind_ok hok
  obtain ⟨out1, hout1, hok⟩ := bind_ok hok
  obtain ⟨st, hst, hok⟩ := bind_ok hok
  obtain ⟨hshort, hbound⟩ := controllerTrigger_ok hfits htrigger
  obtain ⟨howned, events, hevents, hst⟩ :=
    emitPasses_ok (callNames_ok hnames) (fun call hcall => ⟨hlegible call hcall, hclean call hcall⟩) hshort hbound hst
  refine ⟨howned, events, ?_, hevents.one_each⟩
  rw [appendText_ok hok, hst, appendText_ok hout1, List.nil_append]
  exact eventsOf_written hevents.clean

/-! ## A note, with and without a task -/

def noteArgs : List (Bytes × Bytes) := [(lit "text", lit "1")]

def noteMembers : List (Bytes × Bytes) := [(lit "name", quoted sidecarName), (lit "args", objText noteArgs)]

def noteOutput : Bytes := objText [(lit "calls", arrText [objText noteMembers])]

/-- The result turn of a run whose task may be gone. -/
theorem unbound_long : int64Min ≤ 0 ∧ (0 : Int) ≤ int64Max := by decide

def resultTurn (openInput : Option Bytes) : AgentEnv :=
  { eventKind := lit "operation_result", knownTask := fun _ => true, openInput := openInput, boundWorkRevLong := unbound_long }

def noteRequest : Bytes :=
  lit "\x7b\"events\":[\x7b\"type\":\"action_request\",\"payload\":\x7b\"action\":\"working_memory_append\",\"args\":\x7b\"text\":1\x7d,\"task_id\":\"t1\"\x7d\x7d]\x7d"

theorem noteMembers_legible : LegibleCall (objText noteMembers) := by
  have hargs : ObjText (objText noteArgs) noteArgs := objText_reads (by
    intro x hx
    obtain rfl := List.mem_singleton.mp hx
    exact ⟨plainKey_strBody (by decide), .num (.of_digits (.of_all (by decide) (by decide)))⟩)
  have hcall : ObjText (objText noteMembers) noteMembers := objText_reads (by
    refine List.forall_mem_cons.mpr ⟨⟨plainKey_strBody (by decide), .str (StrBody.of_plain (List.all_eq_true.mp (by decide : (sidecarName).all isPlain = true)))⟩,
      List.forall_mem_cons.mpr ⟨⟨plainKey_strBody (by decide), hargs.isValue⟩, nofun⟩⟩)
  have hplain : ∀ key ∈ [lit "name", lit "args", lit "text"], stringCopyWrite rtSmall (quoted key) = (key, true) := by (repeat rw [lit_ofList]); decide
  have hnul : ∀ key ∈ [lit "name", lit "args", lit "text"], NulFree key := by
    refine List.forall_mem_cons.mpr ⟨.of_all (lit_all (by decide)), List.forall_mem_cons.mpr ⟨.of_all (lit_all (by decide)),
      List.forall_mem_cons.mpr ⟨.of_all (lit_all (by decide)), nofun⟩⟩⟩
  refine ⟨⟨noteMembers, hcall, fun m hm => ?_⟩, fun args hget _ => ?_⟩
  · have hmem : m.1 ∈ [lit "name", lit "args", lit "text"] := by
      have hkeys : noteMembers.map Prod.fst = [lit "name", lit "args"] := rfl
      have hin : m.1 ∈ noteMembers.map Prod.fst := List.mem_map_of_mem hm
      rw [hkeys] at hin
      exact List.mem_append_left [lit "text"] hin
    exact ⟨m.1, hplain _ hmem, hnul _ hmem⟩
  · have hfound : jsonRefObjectGet (objText noteMembers) (lit "args") = some (objText noteArgs) := by decide +kernel
    cases hfound.symm.trans hget
    refine ⟨noteArgs, hargs, fun m hm => ?_⟩
    obtain rfl := List.mem_singleton.mp hm
    exact ⟨lit "text", hplain _ (by (repeat rw [lit_ofList]); decide), hnul _ (by decide)⟩

theorem normalized_note : (∀ call ∈ [objText noteMembers], OwnKeys call) ∧
    ∃ events, eventsOf noteRequest = some events ∧
      List.Forall₂ Carries ((ordered (resultTurn (some (lit "t1"))) [objText noteMembers]).filter fun call =>
        ¬ Dropped (resultTurn (some (lit "t1"))) call) events :=
  normalized_calls (resultTurn (some (lit "t1"))) rtXl noteOutput noteRequest [objText noteMembers] rfl nofun
    (by decide +kernel) (by
      intro call hcall
      obtain rfl := List.mem_singleton.mp hcall
      exact noteMembers_legible) (by decide +kernel)

example : keyOf (lit "path", []) = some (lit "path") := by decide +kernel

/-- A note that no task can take: one accepted call, and no event. -/
theorem note_without_event : callsOf noteOutput = some [objText noteMembers] ∧
    rtAgentNormalizeOutput (resultTurn none) rtXl noteOutput = .ok (lit "\x7b\"events\":[]\x7d") ∧
      eventsOf (lit "\x7b\"events\":[]\x7d") = some [] := by
  decide +kernel

end Floofclaw.Guarantees.CallEvents
