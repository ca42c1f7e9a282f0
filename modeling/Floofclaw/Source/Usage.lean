import Floofclaw.Source.JsonFields

/-!
# The usage ledger

Model of `llm/usage.c`: the counters a provider's response reports, the line a
call appends to the ledger, and the reader of a line. A sum that does not fit a
`long long` is undefined and has no result. Of `LlmUsage` the counters of the
ledger are kept; the broken-down time and the measures of a call are inputs.
-/

set_option autoImplicit false

namespace Floofclaw.Source.Usage
open Floofclaw.Lib Floofclaw.Source.Json

def llmIdMax : Nat := 64
def llmNameMax : Nat := 128
def llmMediaMaxCount : Nat := 10

structure LlmUsage where
  inputChars : Int
  inputMediaCount : Nat
  inputMediaBytes : Nat
  outputChars : Int
  durationMs : Int
  inputTokens : Int
  outputTokens : Int
  totalTokens : Int
  providerCachedInputTokens : Int
  providerCachedInputTokensReported : Bool
  providerCacheCreationInputTokens : Int
  providerCacheCreationInputTokensReported : Bool
  deriving DecidableEq

/-- The counters after `memset`. -/
def noUsage : LlmUsage := ⟨0, 0, 0, 0, 0, 0, 0, 0, 0, false, 0, false⟩

/-! ## What a response reports -/

def addLong (a b : Int) : Option Int := if int64Min ≤ a + b ∧ a + b ≤ int64Max then some (a + b) else none

/-- A counter that was set to 0 before the read, whose verdict is not looked at. -/
def countOf (usage : JsonRef) (key : Bytes) : Int := (jsonRefObjectGetLong usage key 0).1

/-- A part that is added when it was read and is positive. -/
def addPart (base : Int) (part : Int × Bool) : Option Int :=
  if part.2 = true ∧ 0 < part.1 then addLong base part.1 else some base

/-- The provider's own total, else the sum. -/
def totalOr (total inputTokens outputTokens : Int) : Option Int :=
  if total ≠ 0 then some total else addLong inputTokens outputTokens

/-- `provider_cached_input_tokens` is read in place. -/
def cachedRead (details : Option JsonRef) (key : Bytes) (u : LlmUsage) : Int × Bool :=
  match details with
  | none => (u.providerCachedInputTokens, false)
  | some d => jsonRefObjectGetLong d key u.providerCachedInputTokens

def LlmUsage.noteCached (u : LlmUsage) (read : Int × Bool) : LlmUsage :=
  { u with providerCachedInputTokens := read.1, providerCachedInputTokensReported := u.providerCachedInputTokensReported || read.2 }

def LlmUsage.noteCreated (u : LlmUsage) (read : Int × Bool) : LlmUsage :=
  if read.2 = true then { u with providerCacheCreationInputTokens := read.1, providerCacheCreationInputTokensReported := true } else u

def LlmUsage.noteTokens (u : LlmUsage) (inputTokens outputTokens totalTokens : Int) : LlmUsage :=
  { u with inputTokens := inputTokens, outputTokens := outputTokens, totalTokens := totalTokens }

def geminiUsage (usage : JsonRef) (u : LlmUsage) : Option LlmUsage := do
  let inputTokens := countOf usage (lit "promptTokenCount")
  -- Thinking is billed as output but reported beside the candidates.
  let outputTokens ← addPart (countOf usage (lit "candidatesTokenCount")) (jsonRefObjectGetLong usage (lit "thoughtsTokenCount") 0)
  let totalTokens ← totalOr (countOf usage (lit "totalTokenCount")) inputTokens outputTokens
  return (u.noteTokens inputTokens outputTokens totalTokens).noteCached (cachedRead (some usage) (lit "cachedContentTokenCount") u)

def openaiChatUsage (usage : JsonRef) (u : LlmUsage) : Option LlmUsage := do
  let promptTokens := countOf usage (lit "prompt_tokens")
  let completionTokens := countOf usage (lit "completion_tokens")
  let totalTokens ← totalOr (countOf usage (lit "total_tokens")) promptTokens completionTokens
  let details := jsonRefObjectGetObject usage (lit "prompt_tokens_details")
  return (u.noteTokens promptTokens completionTokens totalTokens).noteCached (cachedRead details (lit "cached_tokens") u)

def openaiResponsesUsage (usage : JsonRef) (u : LlmUsage) : Option LlmUsage := do
  let inputTokens := countOf usage (lit "input_tokens")
  let outputTokens := countOf usage (lit "output_tokens")
  let totalTokens ← addLong inputTokens outputTokens
  let details := jsonRefObjectGetObject usage (lit "input_tokens_details")
  return (u.noteTokens inputTokens outputTokens totalTokens).noteCached (cachedRead details (lit "cached_tokens") u)

/-- The prompt is the uncached remainder and both cache counters. -/
def anthropicUsage (usage : JsonRef) (u : LlmUsage) : Option LlmUsage := do
  let cached := cachedRead (some usage) (lit "cache_read_input_tokens") u
  let created := jsonRefObjectGetLong usage (lit "cache_creation_input_tokens") 0
  let readTokens ← addPart (countOf usage (lit "input_tokens")) cached
  let inputTokens ← addPart readTokens created
  let outputTokens := countOf usage (lit "output_tokens")
  let totalTokens ← addLong inputTokens outputTokens
  return ((u.noteTokens inputTokens outputTokens totalTokens).noteCached cached).noteCreated created

/-- The object the counters of a provider kind are in. -/
def usageKey (providerKind : Bytes) : Bytes :=
  if providerKind = lit "gemini_key" then lit "usageMetadata" else lit "usage"

def usageIn (providerKind : Bytes) (usage : JsonRef) (u : LlmUsage) : Option LlmUsage :=
  if providerKind = lit "gemini_key" then geminiUsage usage u
  else if providerKind = lit "openai_chat" ∨ providerKind = lit "openai_compat" then openaiChatUsage usage u
  else if providerKind = lit "openai_responses" then openaiResponsesUsage usage u
  else anthropicUsage usage u

def llmExtractUsage (providerKind responseJson : Bytes) (u : LlmUsage) : Option LlmUsage :=
  match (jsonRefFirstObject responseJson).bind fun root => jsonRefObjectGetObject root (usageKey providerKind) with
  | none => some u
  | some usage => usageIn providerKind usage u

/-! ## The line of a call -/

/-- What `gmtime_r` fills in, in the ranges it documents. -/
structure Tm where
  year : Int
  mon : Nat
  mday : Nat
  hour : Nat
  min : Nat
  sec : Nat
  year_int : year.natAbs < 2 ^ 32
  mon_range : 1 ≤ mon ∧ mon ≤ 12
  mday_range : 1 ≤ mday ∧ mday ≤ 31
  hour_range : hour ≤ 23
  min_range : min ≤ 59
  sec_range : sec ≤ 60

/-- `strftime` with `%Y-%m-%dT%H:%M:%SZ`. -/
def Tm.text (t : Tm) : Bytes :=
  decInt t.year ++ lit "-" ++ decPadded 2 t.mon ++ lit "-" ++ decPadded 2 t.mday ++ lit "T" ++ decPadded 2 t.hour ++ lit ":" ++
    decPadded 2 t.min ++ lit ":" ++ decPadded 2 t.sec ++ lit "Z"

structure LlmProfile where
  id : Bytes
  provider : Bytes
  model : Bytes
  effort : Bytes
  maxOutputTokens : Int

/-- A counter that is `null` when no response reported it. -/
def reportedText (reported : Bool) (count : Int) : Bytes := if reported = true then decInt count else lit "null"

def usageMembers (now : Tm) (floop runId : Bytes) (callSeq : Int) (agentId : Bytes) (profile : LlmProfile) (u : LlmUsage) :
    List (Bytes × Bytes) :=
  [(lit "ts", quoted now.text), (lit "floop", quoted floop), (lit "run_id", quoted runId), (lit "call_seq", decInt callSeq),
    (lit "agent", quoted agentId), (lit "profile", quoted profile.id), (lit "provider", quoted profile.provider),
    (lit "model", quoted profile.model), (lit "input_chars", decInt u.inputChars),
    (lit "input_media_count", decNat u.inputMediaCount), (lit "input_media_bytes", decNat u.inputMediaBytes),
    (lit "output_chars", decInt u.outputChars), (lit "input_tokens", decInt u.inputTokens),
    (lit "output_tokens", decInt u.outputTokens), (lit "total_tokens", decInt u.totalTokens),
    (lit "provider_cached_input_tokens", reportedText u.providerCachedInputTokensReported u.providerCachedInputTokens),
    (lit "provider_cache_creation_input_tokens",
      reportedText u.providerCacheCreationInputTokensReported u.providerCacheCreationInputTokens),
    (lit "duration_ms", decInt u.durationMs)]

/-- What a call appends to `llm_usage.jsonl`. The line is printed into an array that may cut it. -/
def llmRecordUsage (now : Tm) (floop runId : Bytes) (callSeq : Int) (agentId : Bytes) (profile : LlmProfile) (u : LlmUsage) : Bytes :=
  if floop = [] ∨ runId = [] ∨ callSeq < 1 ∨ agentId = [] ∨ profile.id = [] ∨ profile.provider = [] ∨ profile.model = [] then []
  else clip 1024 (objText (usageMembers now floop runId callSeq agentId profile u) ++ [ch '\n'])

/-! ## Reading a line -/

structure LlmUsageRecord where
  ts : Bytes
  floop : Bytes
  runId : Bytes
  agentId : Bytes
  profileId : Bytes
  providerId : Bytes
  model : Bytes
  callSeq : Int
  inputChars : Int
  inputMediaCount : Int
  inputMediaBytes : Int
  outputChars : Int
  inputTokens : Int
  outputTokens : Int
  totalTokens : Int
  providerCachedInputTokens : Int
  providerCachedInputTokensReported : Bool
  providerCacheCreationInputTokens : Int
  providerCacheCreationInputTokensReported : Bool
  durationMs : Int
  deriving DecidableEq

/-- `json_ref_object_get_long` whose failure ends the read. -/
def getLong (root : JsonRef) (key : Bytes) : Option Int :=
  match jsonRefObjectGetLong root key 0 with
  | (n, true) => some n
  | (_, false) => none

/-- The fields every record has; the cache counters stay 0. -/
def recordFields (root : JsonRef) : Option LlmUsageRecord := do
  let ts ← jsonRefObjectGetString root (lit "ts") 64
  let floop ← jsonRefObjectGetString root (lit "floop") llmNameMax
  let runId ← jsonRefObjectGetString root (lit "run_id") llmIdMax
  let callSeq ← getLong root (lit "call_seq")
  let agentId ← jsonRefObjectGetString root (lit "agent") llmIdMax
  let profileId ← jsonRefObjectGetString root (lit "profile") llmIdMax
  let providerId ← jsonRefObjectGetString root (lit "provider") llmIdMax
  let model ← jsonRefObjectGetString root (lit "model") llmNameMax
  let inputChars ← getLong root (lit "input_chars")
  let inputMediaCount ← getLong root (lit "input_media_count")
  let inputMediaBytes ← getLong root (lit "input_media_bytes")
  let outputChars ← getLong root (lit "output_chars")
  let inputTokens ← getLong root (lit "input_tokens")
  let outputTokens ← getLong root (lit "output_tokens")
  let totalTokens ← getLong root (lit "total_tokens")
  let durationMs ← getLong root (lit "duration_ms")
  return ⟨ts, floop, runId, agentId, profileId, providerId, model, callSeq, inputChars, inputMediaCount, inputMediaBytes, outputChars,
    inputTokens, outputTokens, totalTokens, 0, false, 0, false, durationMs⟩

/-- The bounds the reader holds a record to. -/
structure LlmUsageRecord.InContract (r : LlmUsageRecord) : Prop where
  named : r.ts ≠ [] ∧ r.floop ≠ [] ∧ r.runId ≠ [] ∧ r.agentId ≠ [] ∧ r.profileId ≠ [] ∧ r.providerId ≠ [] ∧ r.model ≠ []
  callSeq : 1 ≤ r.callSeq
  inputChars : 0 ≤ r.inputChars
  inputMediaCount : 0 ≤ r.inputMediaCount ∧ r.inputMediaCount ≤ llmMediaMaxCount
  inputMediaBytes : 0 ≤ r.inputMediaBytes
  outputChars : 0 ≤ r.outputChars
  tokens : 0 ≤ r.inputTokens ∧ 0 ≤ r.outputTokens ∧ 0 ≤ r.totalTokens
  durationMs : 0 ≤ r.durationMs

theorem LlmUsageRecord.inContract_iff (r : LlmUsageRecord) : r.InContract ↔
    (r.ts ≠ [] ∧ r.floop ≠ [] ∧ r.runId ≠ [] ∧ r.agentId ≠ [] ∧ r.profileId ≠ [] ∧ r.providerId ≠ [] ∧ r.model ≠ []) ∧
    1 ≤ r.callSeq ∧ 0 ≤ r.inputChars ∧ (0 ≤ r.inputMediaCount ∧ r.inputMediaCount ≤ llmMediaMaxCount) ∧ 0 ≤ r.inputMediaBytes ∧
    0 ≤ r.outputChars ∧ (0 ≤ r.inputTokens ∧ 0 ≤ r.outputTokens ∧ 0 ≤ r.totalTokens) ∧ 0 ≤ r.durationMs :=
  ⟨fun ⟨h1, h2, h3, h4, h5, h6, h7, h8⟩ => ⟨h1, h2, h3, h4, h5, h6, h7, h8⟩,
    fun ⟨h1, h2, h3, h4, h5, h6, h7, h8⟩ => ⟨h1, h2, h3, h4, h5, h6, h7, h8⟩⟩

instance (r : LlmUsageRecord) : Decidable r.InContract := decidable_of_iff _ r.inContract_iff.symm

/-- A cache counter of a record: `null`, or a number that is not negative. -/
def cacheCount (v : JsonRef) : Option (Int × Bool) :=
  if jsonRefInferType v = .null then some (0, false)
  else
    match jsonRefGetLong v 0 with
    | (n, true) => if 0 ≤ n then some (n, true) else none
    | (_, false) => none

/-- Records of before the counter was added have no such member. -/
def createdCount (root : JsonRef) : Option (Int × Bool) :=
  match jsonRefObjectGet root (lit "provider_cache_creation_input_tokens") with
  | none => some (0, false)
  | some v => cacheCount v

def llmUsageRecordParse (json : Bytes) : Option LlmUsageRecord := do
  let root ← jsonRefTopObject json
  let r ← recordFields root
  let v ← jsonRefObjectGet root (lit "provider_cached_input_tokens")
  guard r.InContract
  let cached ← cacheCount v
  let created ← createdCount root
  return { r with
    providerCachedInputTokens := cached.1, providerCachedInputTokensReported := cached.2,
    providerCacheCreationInputTokens := created.1, providerCacheCreationInputTokensReported := created.2 }

end Floofclaw.Source.Usage
