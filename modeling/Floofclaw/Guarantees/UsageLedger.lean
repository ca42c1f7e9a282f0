import Floofclaw.Guarantees.Affairs
import Floofclaw.Guarantees.FirstLine
import Floofclaw.Guarantees.TaskPayloads
import Floofclaw.Lib.Lines
import Floofclaw.Source.Usage
import Mathlib.Algebra.BigOperators.Group.List.Basic
import Mathlib.Data.List.Induction
import Mathlib.Data.Option.Basic

/-!
# What the usage ledger says of a call

The counters come out of the provider's own numbers, added as they are. A
ledger is read back call by call as long as these numbers are counts: none of
them negative, and no sum beyond a `long long`. Then a line always fits its
array.
-/

set_option autoImplicit false

namespace Floofclaw.Guarantees.UsageLedger
open Floofclaw.Lib Floofclaw.Source.Json Floofclaw.Source.Usage
open Floofclaw.Guarantees.TaskStoreText (InLong)
open Floofclaw.Guarantees.OperationRecords (getString_printed)
open Floofclaw.Guarantees.FirstEvent
open Floofclaw.Guarantees.Affairs (decInt_length)

/-! ## Calls and what is promised of them -/

/-- An identifier that fits its array and needs no escape. -/
structure PlainField (cap : Nat) (s : Bytes) : Prop where
  plain : ∀ c ∈ s, isPlain c = true
  fits : s.length < cap

theorem PlainField.text {cap : Nat} {s : Bytes} (h : PlainField cap s) : TextField cap s :=
  ⟨fun c hc => isPlain_ne_zero (h.plain c hc), h.fits⟩

/-- A call of a model: what its provider answered, one text or the events of a stream, and what
the caller measured. -/
structure UsageCall where
  providerKind : Bytes
  responses : List Bytes
  now : Tm
  floop : Bytes
  runId : Bytes
  callSeq : Int
  agentId : Bytes
  profile : LlmProfile
  inputChars : Nat
  mediaCount : Nat
  mediaBytes : Nat
  outputChars : Nat
  durationMs : Nat
  floop_plain : PlainField llmNameMax floop
  runId_plain : PlainField llmIdMax runId
  agentId_plain : PlainField llmIdMax agentId
  profile_plain : PlainField llmIdMax profile.id ∧ PlainField llmIdMax profile.provider ∧ PlainField llmNameMax profile.model
  callSeq_int : callSeq < 2 ^ 31
  measures_long : (inputChars : Int) ≤ int64Max ∧ (outputChars : Int) ≤ int64Max ∧ (durationMs : Int) ≤ int64Max

def usageAfter (providerKind : Bytes) (responses : List Bytes) : Option LlmUsage :=
  responses.foldlM (fun u response => llmExtractUsage providerKind response u) noUsage

/-- `llm_call_ex` fills in what it measured. -/
def UsageCall.measured (call : UsageCall) (u : LlmUsage) : LlmUsage :=
  { u with
    inputChars := call.inputChars, inputMediaCount := call.mediaCount, inputMediaBytes := call.mediaBytes,
    outputChars := call.outputChars, durationMs := call.durationMs }

def UsageCall.usage (call : UsageCall) : Option LlmUsage :=
  (usageAfter call.providerKind call.responses).map call.measured

def UsageCall.lineOf (call : UsageCall) (u : LlmUsage) : Bytes :=
  llmRecordUsage call.now call.floop call.runId call.callSeq call.agentId call.profile u

/-- What a run of calls leaves in the ledger. -/
def ledger (calls : List UsageCall) : Option Bytes :=
  (calls.mapM fun (call : UsageCall) => call.usage.map call.lineOf).map List.flatten

/-- The calls the ledger has a line for. -/
structure UsageCall.Recorded (call : UsageCall) : Prop where
  floop : call.floop ≠ []
  runId : call.runId ≠ []
  callSeq : 1 ≤ call.callSeq
  agentId : call.agentId ≠ []
  profile : call.profile.id ≠ [] ∧ call.profile.provider ≠ [] ∧ call.profile.model ≠ []

theorem UsageCall.recorded_iff (call : UsageCall) : call.Recorded ↔
    ¬(call.floop = [] ∨ call.runId = [] ∨ call.callSeq < 1 ∨ call.agentId = [] ∨ call.profile.id = [] ∨
      call.profile.provider = [] ∨ call.profile.model = []) := by
  simp only [not_or, Int.not_lt]
  exact ⟨fun ⟨h1, h2, h3, h4, h5, h6, h7⟩ => ⟨h1, h2, h3, h4, h5, h6, h7⟩, fun ⟨h1, h2, h3, h4, h5, h6, h7⟩ => ⟨h1, h2, h3, h4, h5, h6, h7⟩⟩

instance (call : UsageCall) : Decidable call.Recorded := decidable_of_iff _ call.recorded_iff.symm

/-- The fields every record has. -/
def UsageCall.bareOf (call : UsageCall) (u : LlmUsage) : LlmUsageRecord :=
  ⟨call.now.text, call.floop, call.runId, call.agentId, call.profile.id, call.profile.provider, call.profile.model, call.callSeq,
    u.inputChars, u.inputMediaCount, u.inputMediaBytes, u.outputChars, u.inputTokens, u.outputTokens, u.totalTokens, 0, false, 0, false,
    u.durationMs⟩

/-- A counter no response reported reads as 0. -/
def UsageCall.recordOf (call : UsageCall) (u : LlmUsage) : LlmUsageRecord :=
  { call.bareOf u with
    providerCachedInputTokens := if u.providerCachedInputTokensReported = true then u.providerCachedInputTokens else 0
    providerCachedInputTokensReported := u.providerCachedInputTokensReported
    providerCacheCreationInputTokens := if u.providerCacheCreationInputTokensReported = true then u.providerCacheCreationInputTokens else 0
    providerCacheCreationInputTokensReported := u.providerCacheCreationInputTokensReported }

/-- What the ledger is to say of a call. -/
def UsageCall.record (call : UsageCall) : Option LlmUsageRecord :=
  if call.Recorded then call.usage.map call.recordOf else none

/-- A number the ledger can carry. -/
def Count (z : Int) : Prop := 0 ≤ z ∧ z ≤ int64Max

structure Counts (u : LlmUsage) : Prop where
  input : Count u.inputTokens
  output : Count u.outputTokens
  total : Count u.totalTokens
  cached : Count u.providerCachedInputTokens
  created : Count u.providerCacheCreationInputTokens

/-- Behind every response the counters are defined and no counter is negative. -/
def UsageCall.Derived (call : UsageCall) : Prop :=
  ∀ n, ∃ u, usageAfter call.providerKind (call.responses.take n) = some u ∧ Counts u

/-- The ledger consists of whole lines, and these say what was recorded. -/
structure ReadBack (calls : List UsageCall) (text : Bytes) : Prop where
  whole : (lined text).rest = []
  records : (lined text).ended.map llmUsageRecordParse = (calls.filterMap UsageCall.record).map some

structure UsageKept (calls : List UsageCall) : Prop where
  derived : ∀ call ∈ calls, call.Derived
  readBack : ∃ text, ledger calls = some text ∧ ReadBack calls text

/-! ## What a response reports -/

/-- The numbers of a response, added without bounds. -/
structure Tally where
  input : Int
  output : Int
  /-- The provider's own total, or 0. -/
  total : Int
  cached : Int × Bool
  created : Int × Bool

/-- A part counts when it was read and is positive. -/
def part (read : Int × Bool) : Int := if read.2 = true ∧ 0 < read.1 then read.1 else 0

def noPart : Int × Bool := (0, false)

/-- The numbers a provider kind reports, `u` being what is there already. -/
def tally (providerKind : Bytes) (usage : JsonRef) (u : LlmUsage) : Tally :=
  if providerKind = lit "gemini_key" then
    { input := countOf usage (lit "promptTokenCount")
      output := countOf usage (lit "candidatesTokenCount") + part (jsonRefObjectGetLong usage (lit "thoughtsTokenCount") 0)
      total := countOf usage (lit "totalTokenCount")
      cached := cachedRead (some usage) (lit "cachedContentTokenCount") u
      created := noPart }
  else if providerKind = lit "openai_chat" ∨ providerKind = lit "openai_compat" then
    { input := countOf usage (lit "prompt_tokens")
      output := countOf usage (lit "completion_tokens")
      total := countOf usage (lit "total_tokens")
      cached := cachedRead (jsonRefObjectGetObject usage (lit "prompt_tokens_details")) (lit "cached_tokens") u
      created := noPart }
  else if providerKind = lit "openai_responses" then
    { input := countOf usage (lit "input_tokens")
      output := countOf usage (lit "output_tokens")
      total := 0
      cached := cachedRead (jsonRefObjectGetObject usage (lit "input_tokens_details")) (lit "cached_tokens") u
      created := noPart }
  else
    { input := countOf usage (lit "input_tokens") + part (cachedRead (some usage) (lit "cache_read_input_tokens") u) +
        part (jsonRefObjectGetLong usage (lit "cache_creation_input_tokens") 0)
      output := countOf usage (lit "output_tokens")
      total := 0
      cached := cachedRead (some usage) (lit "cache_read_input_tokens") u
      created := jsonRefObjectGetLong usage (lit "cache_creation_input_tokens") 0 }

/-- The numbers of a response are counts. -/
structure Tally.Fits (t : Tally) : Prop where
  input : Count t.input
  output : Count t.output
  total : 0 ≤ t.total
  sum : t.total = 0 → t.input + t.output ≤ int64Max
  cached : 0 ≤ t.cached.1
  created : t.created.2 = true → 0 ≤ t.created.1

/-- The counters the numbers would make, were there no bounds. -/
def Tally.counters (t : Tally) (u : LlmUsage) : LlmUsage :=
  ((u.noteTokens t.input t.output (if t.total ≠ 0 then t.total else t.input + t.output)).noteCached t.cached).noteCreated t.created

/-- No sum leaves a `long long`. -/
def Tally.Defined (t : Tally) : Prop :=
  t.input ≤ int64Max ∧ t.output ≤ int64Max ∧ (t.total = 0 → InLong (t.input + t.output))

theorem countOf_range (usage : JsonRef) (key : Bytes) : InLong (countOf usage key) :=
  jsonRefObjectGetLong_range usage key ⟨by decide, by decide⟩

theorem addLong_some {a b n : Int} : addLong a b = some n ↔ InLong (a + b) ∧ n = a + b := by
  unfold addLong InLong
  rw [Option.ite_none_right_eq_some, Option.some.injEq]
  exact and_congr_right fun _ => eq_comm

/-- Adding a part never goes below the range. -/
theorem addPart_some {base n : Int} (hbase : InLong base) {read : Int × Bool} :
    addPart base read = some n ↔ base + part read ≤ int64Max ∧ n = base + part read := by
  unfold addPart part
  split
  · rename_i hread
    have hlo : int64Min ≤ base + read.1 := by
      have := hbase.1
      omega
    rw [addLong_some]
    exact and_congr_left' ⟨fun h => h.2, fun h => ⟨hlo, h⟩⟩
  · rw [Int.add_zero, Option.some.injEq, eq_comm]
    exact (and_iff_right hbase.2).symm

theorem part_nonneg (read : Int × Bool) : 0 ≤ part read := by
  unfold part
  split
  · rename_i hread
    exact Int.le_of_lt hread.2
  · exact Int.le_refl _

theorem totalOr_some {total input output n : Int} : totalOr total input output = some n ↔
    (total = 0 → InLong (input + output)) ∧ n = if total ≠ 0 then total else input + output := by
  unfold totalOr
  by_cases htotal : total = 0
  · simp [htotal, addLong_some]
  · simp [htotal, eq_comm]

@[simp] theorem noteCreated_noPart (u : LlmUsage) : u.noteCreated noPart = u := rfl

/-- The counters are the response's numbers, or undefined. -/
theorem usageIn_some {providerKind : Bytes} {usage : JsonRef} {u v : LlmUsage} :
    usageIn providerKind usage u = some v ↔ (tally providerKind usage u).Defined ∧ v = (tally providerKind usage u).counters u := by
  have hrange := countOf_range usage
  unfold usageIn tally
  split
  · simp only [geminiUsage, Option.bind_eq_bind, Option.bind_eq_some_iff, addPart_some (hrange _), totalOr_some, Option.pure_def,
      Option.some.injEq]
    constructor
    · rintro ⟨output, ⟨hout, rfl⟩, total, ⟨htotal, rfl⟩, rfl⟩
      exact ⟨⟨(hrange _).2, hout, htotal⟩, rfl⟩
    · rintro ⟨⟨-, hout, htotal⟩, rfl⟩
      exact ⟨_, ⟨hout, rfl⟩, _, ⟨htotal, rfl⟩, rfl⟩
  · split
    · simp only [openaiChatUsage, Option.bind_eq_bind, Option.bind_eq_some_iff, totalOr_some, Option.pure_def, Option.some.injEq]
      constructor
      · rintro ⟨total, ⟨htotal, rfl⟩, rfl⟩
        exact ⟨⟨(hrange _).2, (hrange _).2, htotal⟩, rfl⟩
      · rintro ⟨⟨-, -, htotal⟩, rfl⟩
        exact ⟨_, ⟨htotal, rfl⟩, rfl⟩
    · split
      · simp only [openaiResponsesUsage, Option.bind_eq_bind, Option.bind_eq_some_iff, addLong_some, Option.pure_def, Option.some.injEq]
        constructor
        · rintro ⟨total, ⟨htotal, rfl⟩, rfl⟩
          exact ⟨⟨(hrange _).2, (hrange _).2, fun _ => htotal⟩, rfl⟩
        · rintro ⟨⟨-, -, htotal⟩, rfl⟩
          exact ⟨_, ⟨htotal rfl, rfl⟩, rfl⟩
      · simp only [anthropicUsage, Option.bind_eq_bind, Option.bind_eq_some_iff, addLong_some, Option.pure_def, Option.some.injEq]
        have hcreated := part_nonneg (jsonRefObjectGetLong usage (lit "cache_creation_input_tokens") 0)
        have hread := part_nonneg (cachedRead (some usage) (lit "cache_read_input_tokens") u)
        have hinput := hrange (lit "input_tokens")
        constructor
        · rintro ⟨readTokens, hreadTokens, input, hin, total, ⟨htotal, rfl⟩, rfl⟩
          obtain ⟨hfirst, rfl⟩ := (addPart_some hinput).mp hreadTokens
          obtain ⟨hsecond, rfl⟩ := (addPart_some ⟨Int.le_trans hinput.1 (Int.le_add_of_nonneg_right hread), hfirst⟩).mp hin
          exact ⟨⟨hsecond, (hrange _).2, fun _ => htotal⟩, rfl⟩
        · rintro ⟨⟨hsecond, -, htotal⟩, rfl⟩
          have hfirst := Int.le_trans (Int.le_add_of_nonneg_right hcreated) hsecond
          exact ⟨_, (addPart_some hinput).mpr ⟨hfirst, rfl⟩, _,
            (addPart_some ⟨Int.le_trans hinput.1 (Int.le_add_of_nonneg_right hread), hfirst⟩).mpr ⟨hsecond, rfl⟩, _,
            ⟨htotal rfl, rfl⟩, rfl⟩

/-! ## Counts in, counts out -/

theorem cachedRead_range (details : Option JsonRef) (key : Bytes) {u : LlmUsage} (hu : InLong u.providerCachedInputTokens) :
    InLong (cachedRead details key u).1 := by
  unfold cachedRead
  split
  · exact hu
  · exact jsonRefObjectGetLong_range _ key hu

theorem Count.inLong {z : Int} (h : Count z) : InLong z := ⟨Int.le_trans (by decide) h.1, h.2⟩

/-- What is read of a response is in range whatever the response says. -/
theorem tally_range (providerKind : Bytes) (usage : JsonRef) {u : LlmUsage} (hu : InLong u.providerCachedInputTokens) :
    (tally providerKind usage u).total ≤ int64Max ∧ (tally providerKind usage u).cached.1 ≤ int64Max ∧
    (tally providerKind usage u).created.1 ≤ int64Max := by
  have hzero : (0 : Int) ≤ int64Max := by decide
  have hread : ∀ details key, (cachedRead details key u).1 ≤ int64Max := fun details key => (cachedRead_range details key hu).2
  unfold tally
  split
  · exact ⟨(countOf_range usage _).2, hread _ _, hzero⟩
  · split
    · exact ⟨(countOf_range usage _).2, hread _ _, hzero⟩
    · split
      · exact ⟨hzero, hread _ _, hzero⟩
      · exact ⟨hzero, hread _ _, (countOf_range usage _).2⟩

theorem counters_created (t : Tally) (u : LlmUsage) : (t.counters u).providerCacheCreationInputTokens =
    if t.created.2 = true then t.created.1 else u.providerCacheCreationInputTokens := by
  unfold Tally.counters LlmUsage.noteCreated
  split <;> rfl

theorem counters_tokens (t : Tally) (u : LlmUsage) : (t.counters u).inputTokens = t.input ∧ (t.counters u).outputTokens = t.output ∧
    (t.counters u).totalTokens = (if t.total ≠ 0 then t.total else t.input + t.output) ∧
    (t.counters u).providerCachedInputTokens = t.cached.1 := by
  unfold Tally.counters LlmUsage.noteCreated
  split <;> exact ⟨rfl, rfl, rfl, rfl⟩

theorem fits_iff {t : Tally} {u : LlmUsage} (hu : Count u.providerCacheCreationInputTokens)
    (hrange : t.total ≤ int64Max ∧ t.cached.1 ≤ int64Max ∧ t.created.1 ≤ int64Max) :
    t.Defined ∧ Counts (t.counters u) ↔ t.Fits := by
  obtain ⟨hinput, houtput, htotal, hcached⟩ := counters_tokens t u
  have hcreated := counters_created t u
  constructor
  · rintro ⟨⟨-, -, hsum⟩, hcounts⟩
    have htotalCount := hcounts.total
    rw [htotal] at htotalCount
    refine ⟨hinput ▸ hcounts.input, houtput ▸ hcounts.output, ?_, fun h => (hsum h).2, (hcached ▸ hcounts.cached).1, fun h => ?_⟩
    · by_cases hzero : t.total = 0
      · exact Int.le_of_eq hzero.symm
      · rw [if_pos hzero] at htotalCount
        exact htotalCount.1
    · have hcreatedCount := hcounts.created
      rw [hcreated, if_pos h] at hcreatedCount
      exact hcreatedCount.1
  · intro h
    have hlow : (0 : Int) ≤ t.input + t.output := Int.add_nonneg h.input.1 h.output.1
    refine ⟨⟨h.input.2, h.output.2, fun hzero => Count.inLong ⟨hlow, h.sum hzero⟩⟩, ?_⟩
    refine ⟨hinput ▸ h.input, houtput ▸ h.output, ?_, hcached ▸ ⟨h.cached, hrange.2.1⟩, ?_⟩
    · rw [htotal]
      by_cases hzero : t.total = 0
      · rw [if_neg fun hne => hne hzero]
        exact ⟨hlow, h.sum hzero⟩
      · rw [if_pos hzero]
        exact ⟨h.total, hrange.1⟩
    · rw [hcreated]
      split
      · rename_i hread
        exact ⟨h.created hread, hrange.2.2⟩
      · exact hu

/-- A read into a variable leaves what stood there, or does not depend on it. -/
theorem getLong_from (obj key : Bytes) : (∀ old, jsonRefObjectGetLong obj key old = (old, false)) ∨
    ∀ old, jsonRefObjectGetLong obj key old = jsonRefObjectGetLong obj key 0 := by
  unfold jsonRefObjectGetLong
  cases jsonRefObjectGet obj key with
  | none => exact .inl fun _ => rfl
  | some v =>
    unfold jsonRefGetLong
    dsimp only
    split
    · exact .inr fun _ => rfl
    · exact .inl fun _ => rfl

theorem cachedRead_from (details : Option JsonRef) (key : Bytes) :
    (∀ u, cachedRead details key u = (u.providerCachedInputTokens, false)) ∨
    ∀ u, cachedRead details key u = cachedRead details key noUsage := by
  cases details with
  | none => exact .inl fun _ => rfl
  | some d =>
    rcases getLong_from d key with hkept | hread
    · exact .inl fun u => hkept _
    · exact .inr fun u => hread _

/-- Whether a response's numbers are counts does not depend on what was counted before. -/
theorem tally_from {u : LlmUsage} (hu : Count u.providerCachedInputTokens) (providerKind : Bytes) (usage : JsonRef) :
    (tally providerKind usage u).Fits ↔ (tally providerKind usage noUsage).Fits := by
  have hcached : ∀ (t : Tally) details key, Tally.Fits { t with cached := cachedRead details key u } ↔
      Tally.Fits { t with cached := cachedRead details key noUsage } := by
    intro t details key
    rcases cachedRead_from details key with hkept | hread
    · constructor
      · exact fun h => { h with cached := by rw [hkept]; exact Int.le_refl _ }
      · exact fun h => { h with cached := by rw [hkept]; exact hu.1 }
    · rw [hread]
  have hpart : ∀ details key, part (cachedRead details key u) = part (cachedRead details key noUsage) := by
    intro details key
    rcases cachedRead_from details key with hkept | hread
    · rw [hkept, hkept]
      rfl
    · rw [hread]
  unfold tally
  rw [hpart]
  split
  · exact hcached ⟨_, _, _, noPart, _⟩ _ _
  · split
    · exact hcached ⟨_, _, _, noPart, _⟩ _ _
    · split
      · exact hcached ⟨_, _, _, noPart, _⟩ _ _
      · exact hcached ⟨_, _, _, noPart, _⟩ _ _

/-- The numbers a response reports to its provider kind are counts; a response without them reports none. -/
def ResponseCounts (providerKind responseJson : Bytes) : Prop :=
  ∀ usage, ((jsonRefFirstObject responseJson).bind fun root => jsonRefObjectGetObject root (usageKey providerKind)) = some usage →
    (tally providerKind usage noUsage).Fits

theorem extract_iff {u : LlmUsage} (hu : Counts u) (providerKind responseJson : Bytes) :
    (∃ v, llmExtractUsage providerKind responseJson u = some v ∧ Counts v) ↔ ResponseCounts providerKind responseJson := by
  unfold llmExtractUsage ResponseCounts
  split
  · rename_i habsent
    exact ⟨fun _ usage h => (nomatch habsent.symm.trans h), fun _ => ⟨u, rfl, hu⟩⟩
  · rename_i usage husage
    simp only [usageIn_some, husage, Option.some.injEq, forall_eq']
    rw [← tally_from hu.cached, ← fits_iff hu.created (tally_range providerKind usage hu.cached.inLong)]
    exact ⟨fun ⟨_, ⟨hdefined, heq⟩, hcounts⟩ => ⟨hdefined, heq ▸ hcounts⟩, fun h => ⟨_, ⟨h.1, rfl⟩, h.2⟩⟩

theorem noUsage_counts : Counts noUsage := by
  constructor <;> exact ⟨by decide, by decide⟩

theorem usageAfter_snoc (providerKind : Bytes) (responses : List Bytes) (response : Bytes) :
    usageAfter providerKind (responses ++ [response]) = (usageAfter providerKind responses).bind (llmExtractUsage providerKind response) := by
  simp [usageAfter]

/-- Every response of a call is counted as long as every one reports counts. -/
theorem derived_iff (call : UsageCall) :
    call.Derived ↔ ∀ response ∈ call.responses, ResponseCounts call.providerKind response := by
  unfold UsageCall.Derived
  generalize call.responses = responses
  induction responses using List.reverseRecOn with
  | nil => simpa [usageAfter] using noUsage_counts
  | append_singleton responses response ih =>
    have hfront : (∀ n, ∃ u, usageAfter call.providerKind ((responses ++ [response]).take n) = some u ∧ Counts u) ↔
        (∀ n, ∃ u, usageAfter call.providerKind (responses.take n) = some u ∧ Counts u) ∧
        ∃ u, usageAfter call.providerKind (responses ++ [response]) = some u ∧ Counts u := by
      constructor
      · intro h
        refine ⟨fun n => ?_, ?_⟩
        · have hn := h (min n responses.length)
          rwa [List.take_append_of_le_length (Nat.min_le_right _ _), ← List.take_take, List.take_length] at hn
        · have hlast := h (responses ++ [response]).length
          rwa [List.take_length] at hlast
      · rintro ⟨hall, hlast⟩ n
        by_cases hn : n ≤ responses.length
        · rw [List.take_append_of_le_length hn]
          exact hall n
        · rw [List.take_of_length_le (by simp; omega)]
          exact hlast
    rw [hfront, ih, List.forall_mem_append, List.forall_mem_singleton]
    refine and_congr_right fun hcounts => ?_
    obtain ⟨u, hu, hcount⟩ := ih.mpr hcounts responses.length
    rw [List.take_length] at hu
    rw [usageAfter_snoc, hu]
    exact extract_iff hcount call.providerKind response

/-! ## A line -/

theorem year_plain (z : Int) : PlainText (decInt z) := by
  cases z with
  | ofNat n => exact fun c hc => isDigit_plain (decNat_digits n c hc)
  | negSucc n => exact List.forall_mem_cons.mpr ⟨by decide, fun c hc => isDigit_plain (decNat_digits _ c hc)⟩

theorem time_plain (t : Tm) : PlainText t.text := by
  have hpad : ∀ n, PlainText (decPadded 2 n) := fun n c hc => isDigit_plain (decPadded_digits 2 n c hc)
  have hdash : PlainText (lit "-") := .of_all (by decide)
  have ht : PlainText (lit "T") := .of_all (by decide)
  have hcolon : PlainText (lit ":") := .of_all (by decide)
  have hz : PlainText (lit "Z") := .of_all (by decide)
  exact (((((((((((year_plain t.year).append hdash).append (hpad _)).append hdash).append (hpad _)).append ht).append (hpad _)).append
    hcolon).append (hpad _)).append hcolon).append (hpad _)).append hz

theorem time_length (t : Tm) : t.text.length ≤ 27 := by
  have hpad : ∀ n, n < 100 → (decPadded 2 n).length ≤ 2 := fun n hn => decPadded_length (k := 2) (by decide) hn
  have hyear : (decInt t.year).length ≤ 10 + 1 := decInt_length (by decide) (Nat.lt_trans t.year_int (by decide))
  have hmon := hpad t.mon (Nat.lt_of_le_of_lt t.mon_range.2 (by decide))
  have hmday := hpad t.mday (Nat.lt_of_le_of_lt t.mday_range.2 (by decide))
  have hhour := hpad t.hour (Nat.lt_of_le_of_lt t.hour_range (by decide))
  have hmin := hpad t.min (Nat.lt_of_le_of_lt t.min_range (by decide))
  have hsec := hpad t.sec (Nat.lt_of_le_of_lt t.sec_range (by decide))
  have hlits : (lit "-").length = 1 ∧ (lit "T").length = 1 ∧ (lit ":").length = 1 ∧ (lit "Z").length = 1 := ⟨lit_length _, lit_length _, lit_length _, lit_length _⟩
  simp only [Tm.text, List.length_append]
  omega

theorem time_ne_nil (t : Tm) : t.text ≠ [] := by simp [Tm.text, lit]

theorem time_field (t : Tm) : PlainField 64 t.text := ⟨time_plain t, Nat.lt_of_le_of_lt (time_length t) (by decide : 27 < 64)⟩

/-- A count takes at most 19 digits. -/
theorem Count.natLength {n : Nat} (h : Count n) : (decNat n).length ≤ 19 := by
  have hn : n < 10 ^ 19 := by
    have := h.2
    unfold int64Max at this
    omega
  exact decFuel_length (n + 1) n (by decide) hn

theorem Count.length {z : Int} (h : Count z) : (decInt z).length ≤ 19 := by
  obtain ⟨n, rfl⟩ := Int.eq_ofNat_of_zero_le h.1
  exact h.natLength

theorem reportedText_length {reported : Bool} {z : Int} (h : Count z) : (reportedText reported z).length ≤ 19 := by
  unfold reportedText
  split
  · exact h.length
  · decide

/-- What a call's line carries is in the reader's bounds. -/
structure Carried (call : UsageCall) (u : LlmUsage) : Prop where
  recorded : call.Recorded
  counts : Counts u
  inputChars : Count u.inputChars
  mediaCount : u.inputMediaCount ≤ llmMediaMaxCount
  mediaBytes : Count u.inputMediaBytes
  outputChars : Count u.outputChars
  durationMs : Count u.durationMs

section Line
variable {call : UsageCall} {u : LlmUsage}

def membersOf (call : UsageCall) (u : LlmUsage) : List (Bytes × Bytes) :=
  usageMembers call.now call.floop call.runId call.callSeq call.agentId call.profile u

theorem quoted_length (s : Bytes) : (quoted s).length = s.length + 2 := by simp [quoted]

theorem keys_length (call : UsageCall) (u : LlmUsage) : ((membersOf call u).map fun m => m.1.length).sum = 215 := by
  simp only [membersOf, usageMembers, List.map_cons, List.map_nil]
  repeat rw [lit_length]
  rfl

theorem quotedField_length {cap : Nat} {s : Bytes} (h : PlainField cap s) : (quoted s).length ≤ cap - 1 + 2 := by
  rw [quoted_length]
  exact Nat.add_le_add_right (Nat.le_sub_one_of_lt h.fits) 2

theorem values_length (h : Carried call u) : ((membersOf call u).map fun m => m.2.length).sum ≤ 731 := by
  have hts : (quoted call.now.text).length ≤ 27 + 2 := by
    rw [quoted_length]
    exact Nat.add_le_add_right (time_length call.now) 2
  have hseq : (decInt call.callSeq).length ≤ 10 + 1 := by
    have hlow := h.recorded.callSeq
    have hhigh := call.callSeq_int
    exact decInt_length (by decide) (by omega)
  have hcount : (decNat u.inputMediaCount).length ≤ 2 :=
    decFuel_length _ _ (by decide) (Nat.lt_of_le_of_lt h.mediaCount (by decide))
  have hcached := @reportedText_length u.providerCachedInputTokensReported _ h.counts.cached
  have hcreated := @reportedText_length u.providerCacheCreationInputTokensReported _ h.counts.created
  simp only [membersOf, usageMembers, List.map_cons, List.map_nil, List.sum_cons, List.sum_nil]
  -- The values one by one, each with the most octets it can have.
  refine Nat.le_trans (Nat.add_le_add hts <| Nat.add_le_add (quotedField_length call.floop_plain) <|
    Nat.add_le_add (quotedField_length call.runId_plain) <| Nat.add_le_add hseq <|
    Nat.add_le_add (quotedField_length call.agentId_plain) <| Nat.add_le_add (quotedField_length call.profile_plain.1) <|
    Nat.add_le_add (quotedField_length call.profile_plain.2.1) <| Nat.add_le_add (quotedField_length call.profile_plain.2.2) <|
    Nat.add_le_add h.inputChars.length <| Nat.add_le_add hcount <| Nat.add_le_add h.mediaBytes.natLength <|
    Nat.add_le_add h.outputChars.length <| Nat.add_le_add h.counts.input.length <| Nat.add_le_add h.counts.output.length <|
    Nat.add_le_add h.counts.total.length <| Nat.add_le_add hcached <| Nat.add_le_add hcreated <|
    Nat.add_le_add h.durationMs.length (Nat.le_refl 0)) (by decide)

/-- The line fits its array. -/
theorem line_fits (h : Carried call u) : (objText (membersOf call u) ++ [ch '\n']).length < 1024 := by
  have hkeys := keys_length call u
  have hvalues := values_length h
  have hcount : (membersOf call u).length = 18 := rfl
  have hsum : ((membersOf call u).map fun m => m.1.length + m.2.length + 4).sum =
      ((membersOf call u).map fun m => m.1.length).sum + ((membersOf call u).map fun m => m.2.length).sum + 18 * 4 := by
    rw [List.sum_map_add, List.sum_map_add, List.map_const', List.sum_replicate, hcount]
    rfl
  rw [List.length_append, objText_length (List.ne_nil_of_length_pos (hcount ▸ by decide)), hsum, hkeys, List.length_singleton]
  omega

theorem lineOf_eq (h : Carried call u) : call.lineOf u = objText (membersOf call u) ++ [ch '\n'] := by
  rw [UsageCall.lineOf, llmRecordUsage, if_neg (call.recorded_iff.mp h.recorded)]
  exact clip_eq_self (line_fits h)

theorem reportedText_clean (reported : Bool) (z : Int) : CleanValue (reportedText reported z) := by
  unfold reportedText
  split
  · exact .long z
  · exact .null

theorem members_written (call : UsageCall) (u : LlmUsage) : WrittenMembers (membersOf call u) :=
  .key (by decide) (time_plain call.now).clean <| .key (by decide) (PlainText.clean call.floop_plain.plain) <|
    .key (by decide) (PlainText.clean call.runId_plain.plain) <| .key (by decide) (.long _) <|
    .key (by decide) (PlainText.clean call.agentId_plain.plain) <|
    .key (by decide) (PlainText.clean call.profile_plain.1.plain) <|
    .key (by decide) (PlainText.clean call.profile_plain.2.1.plain) <|
    .key (by decide) (PlainText.clean call.profile_plain.2.2.plain) <| .key (by decide) (.long _) <|
    .key (by decide) (.long (Int.ofNat _)) <| .key (by decide) (.long (Int.ofNat _)) <| .key (by decide) (.long _) <|
    .key (by decide) (.long _) <| .key (by decide) (.long _) <| .key (by decide) (.long _) <|
    .key (by decide) (reportedText_clean _ _) <| .key (by decide) (reportedText_clean _ _) <| .key (by decide) (.long _) .nil

theorem reportedText_oneLine (reported : Bool) (z : Int) : OneLine (reportedText reported z) := by
  unfold reportedText
  split
  · exact .decInt z
  · decide

theorem members_oneLine (call : UsageCall) (u : LlmUsage) : OneLine (objText (membersOf call u)) := by
  have htext : ∀ {cap s}, PlainField cap s → OneLine (quoted s) := fun h => (OneLine.of_plain h.plain).quoted
  refine OneLineMembers.objText ?_
  simp only [OneLineMembers, membersOf, usageMembers, List.forall_mem_cons]
  exact ⟨⟨plainKey_lit (by decide), htext (time_field call.now)⟩, ⟨plainKey_lit (by decide), htext call.floop_plain⟩, ⟨plainKey_lit (by decide), htext call.runId_plain⟩,
    ⟨plainKey_lit (by decide), .decInt _⟩, ⟨plainKey_lit (by decide), htext call.agentId_plain⟩, ⟨plainKey_lit (by decide), htext call.profile_plain.1⟩,
    ⟨plainKey_lit (by decide), htext call.profile_plain.2.1⟩, ⟨plainKey_lit (by decide), htext call.profile_plain.2.2⟩, ⟨plainKey_lit (by decide), .decInt _⟩,
    ⟨plainKey_lit (by decide), .decInt (Int.ofNat _)⟩, ⟨plainKey_lit (by decide), .decInt (Int.ofNat _)⟩, ⟨plainKey_lit (by decide), .decInt _⟩, ⟨plainKey_lit (by decide), .decInt _⟩,
    ⟨plainKey_lit (by decide), .decInt _⟩, ⟨plainKey_lit (by decide), .decInt _⟩, ⟨plainKey_lit (by decide), reportedText_oneLine _ _⟩,
    ⟨plainKey_lit (by decide), reportedText_oneLine _ _⟩, ⟨plainKey_lit (by decide), .decInt _⟩, by simp⟩

/-! ## A line read back -/

theorem text_read {cap : Nat} {key s : Bytes} (hs : PlainField cap s) (hget : assoc key (membersOf call u) = some (quoted s)) :
    jsonRefObjectGetString (objText (membersOf call u)) key cap = some s :=
  getString_printed hs.text (by rw [(members_written call u).get, hget, escaped_plain hs.plain])

theorem long_read {key : Bytes} {z : Int} (hz : InLong z) (hget : assoc key (membersOf call u) = some (decInt z)) :
    getLong (objText (membersOf call u)) key = some z := by
  rw [getLong, jsonRefObjectGetLong, (members_written call u).get, hget]
  dsimp only
  rw [jsonRefGetLong_decInt hz.1 hz.2]

/-- A cache counter that was not reported reads as 0. -/
theorem cacheCount_printed {reported : Bool} {z : Int} (hz : Count z) :
    cacheCount (reportedText reported z) = some (if reported = true then z else 0, reported) := by
  cases reported with
  | false => rfl
  | true =>
    have hnumber : jsonRefInferType (decInt z) ≠ .null := by
      rw [inferType_numText (decInt_numText z)]
      decide
    rw [reportedText, if_pos rfl, cacheCount, if_neg hnumber, jsonRefGetLong_decInt hz.inLong.1 hz.inLong.2]
    dsimp only
    rw [if_pos hz.1, if_pos rfl]

theorem callSeq_inLong (h : Carried call u) : InLong call.callSeq := by
  have hlow := h.recorded.callSeq
  have hhigh := call.callSeq_int
  refine Count.inLong ⟨by omega, ?_⟩
  unfold int64Max
  omega

theorem mediaCount_count (h : Carried call u) : Count u.inputMediaCount := by
  have := h.mediaCount
  unfold llmMediaMaxCount at this
  refine ⟨Int.natCast_nonneg _, ?_⟩
  unfold int64Max
  omega

/-- The line says what was recorded. -/
theorem line_read (h : Carried call u) : llmUsageRecordParse (objText (membersOf call u)) = some (call.recordOf u) := by
  have hfields : recordFields (objText (membersOf call u)) = some (call.bareOf u) := by
    rw [recordFields, text_read (time_field call.now) rfl, text_read call.floop_plain rfl, text_read call.runId_plain rfl,
      long_read (callSeq_inLong h) rfl, text_read call.agentId_plain rfl, text_read call.profile_plain.1 rfl,
      text_read call.profile_plain.2.1 rfl, text_read call.profile_plain.2.2 rfl, long_read h.inputChars.inLong rfl,
      long_read (mediaCount_count h).inLong rfl, long_read h.mediaBytes.inLong rfl, long_read h.outputChars.inLong rfl,
      long_read h.counts.input.inLong rfl, long_read h.counts.output.inLong rfl, long_read h.counts.total.inLong rfl,
      long_read h.durationMs.inLong rfl]
    rfl
  have hcached : jsonRefObjectGet (objText (membersOf call u)) (lit "provider_cached_input_tokens") =
      some (reportedText u.providerCachedInputTokensReported u.providerCachedInputTokens) := (members_written call u).get _
  have hcreated : jsonRefObjectGet (objText (membersOf call u)) (lit "provider_cache_creation_input_tokens") =
      some (reportedText u.providerCacheCreationInputTokensReported u.providerCacheCreationInputTokens) :=
    (members_written call u).get _
  have hcontract : (call.bareOf u).InContract :=
    { named := ⟨time_ne_nil _, h.recorded.floop, h.recorded.runId, h.recorded.agentId, h.recorded.profile.1, h.recorded.profile.2.1,
        h.recorded.profile.2.2⟩
      callSeq := h.recorded.callSeq
      inputChars := h.inputChars.1
      inputMediaCount := ⟨(mediaCount_count h).1, Int.ofNat_le.mpr h.mediaCount⟩
      inputMediaBytes := h.mediaBytes.1
      outputChars := h.outputChars.1
      tokens := ⟨h.counts.input.1, h.counts.output.1, h.counts.total.1⟩
      durationMs := h.durationMs.1 }
  have hguard : guard (call.bareOf u).InContract = some () := if_pos hcontract
  rw [llmUsageRecordParse, Floofclaw.Guarantees.TaskPayloads.written_top (members_written call u)]
  simp only [Option.bind_eq_bind, Option.bind_some, hfields, hcached, hguard, cacheCount_printed h.counts.cached,
    createdCount, hcreated, cacheCount_printed h.counts.created]
  rfl

end Line

/-! ## What the reader lets through -/

theorem getLong_inLong {root : JsonRef} {key : Bytes} {n : Int} (h : getLong root key = some n) : InLong n := by
  have hrange := @jsonRefObjectGetLong_range root key 0 ⟨by decide, by decide⟩
  unfold getLong at h
  split at h
  · rename_i m hm
    rw [hm] at hrange
    exact Option.some.inj h ▸ hrange
  · cases h

theorem recordFields_bytes {root : JsonRef} {r : LlmUsageRecord} (h : recordFields root = some r) : InLong r.inputMediaBytes := by
  unfold recordFields at h
  -- The ten fields before the one at issue, then the five behind it.
  iterate 10 obtain ⟨_, -, h⟩ := Option.bind_eq_some_iff.mp h
  obtain ⟨bytes, hbytes, h⟩ := Option.bind_eq_some_iff.mp h
  iterate 5 obtain ⟨_, -, h⟩ := Option.bind_eq_some_iff.mp h
  cases h
  exact getLong_inLong hbytes

theorem parse_media {text : Bytes} {r : LlmUsageRecord} (h : llmUsageRecordParse text = some r) :
    r.inputMediaCount ≤ llmMediaMaxCount ∧ r.inputMediaBytes ≤ int64Max := by
  unfold llmUsageRecordParse at h
  obtain ⟨root, -, h⟩ := Option.bind_eq_some_iff.mp h
  obtain ⟨bare, hbare, h⟩ := Option.bind_eq_some_iff.mp h
  obtain ⟨_, -, h⟩ := Option.bind_eq_some_iff.mp h
  obtain ⟨_, hguard, h⟩ := Option.bind_eq_some_iff.mp h
  obtain ⟨_, -, h⟩ := Option.bind_eq_some_iff.mp h
  obtain ⟨_, -, h⟩ := Option.bind_eq_some_iff.mp h
  cases h
  exact ⟨((Option.guard_eq_some' _).mp hguard).inputMediaCount.2, (recordFields_bytes hbare).2⟩

/-- A record that is read has an input count that is no less than 0. -/
theorem parse_input {text root : Bytes} {r : LlmUsageRecord} (hroot : jsonRefTopObject text = some root)
    (h : llmUsageRecordParse text = some r) : ∀ n, getLong root (lit "input_tokens") = some n → 0 ≤ n := by
  intro n hn
  unfold llmUsageRecordParse at h
  obtain ⟨root', hroot', h⟩ := Option.bind_eq_some_iff.mp h
  obtain rfl : root = root' := Option.some.inj (hroot.symm.trans hroot')
  obtain ⟨bare, hbare, h⟩ := Option.bind_eq_some_iff.mp h
  obtain ⟨_, -, h⟩ := Option.bind_eq_some_iff.mp h
  obtain ⟨_, hguard, -⟩ := Option.bind_eq_some_iff.mp h
  have hcontract := (Option.guard_eq_some' _).mp hguard
  unfold recordFields at hbare
  iterate 12 obtain ⟨_, -, hbare⟩ := Option.bind_eq_some_iff.mp hbare
  obtain ⟨input, hinput, hbare⟩ := Option.bind_eq_some_iff.mp hbare
  iterate 3 obtain ⟨_, -, hbare⟩ := Option.bind_eq_some_iff.mp hbare
  cases hbare
  obtain rfl : n = input := Option.some.inj (hn.symm.trans hinput)
  exact hcontract.tokens.1

/-! ## The ledger -/

/-- What a call needs to be in the ledger as it was. -/
structure UsageCall.Countable (call : UsageCall) : Prop where
  responses : ∀ response ∈ call.responses, ResponseCounts call.providerKind response
  media : call.Recorded → call.mediaCount ≤ llmMediaMaxCount ∧ (call.mediaBytes : Int) ≤ int64Max

theorem lineOf_unrecorded {call : UsageCall} (h : ¬ call.Recorded) (u : LlmUsage) : call.lineOf u = [] := by
  rw [call.recorded_iff, not_not] at h
  rw [UsageCall.lineOf, llmRecordUsage, if_pos h]

/-- A call that counts adds one line at most, and the line says what was recorded. -/
theorem Countable.line {call : UsageCall} (h : call.Countable) : ∃ ls : List Bytes,
    call.usage.map call.lineOf = some (unlines ls) ∧ (∀ l ∈ ls, ch '\n' ∉ l) ∧
    ls.map llmUsageRecordParse = call.record.toList.map some := by
  obtain ⟨u, hu, hcounts⟩ := (derived_iff call).mpr h.responses call.responses.length
  rw [List.take_length] at hu
  have husage : call.usage = some (call.measured u) := by rw [UsageCall.usage, hu, Option.map_some]
  rw [husage, Option.map_some, UsageCall.record, husage]
  by_cases hrec : call.Recorded
  · obtain ⟨hcount, hbytes⟩ := h.media hrec
    have hcarried : Carried call (call.measured u) :=
      { recorded := hrec
        counts := ⟨hcounts.input, hcounts.output, hcounts.total, hcounts.cached, hcounts.created⟩
        inputChars := ⟨Int.natCast_nonneg _, call.measures_long.1⟩
        mediaCount := hcount
        mediaBytes := ⟨Int.natCast_nonneg _, hbytes⟩
        outputChars := ⟨Int.natCast_nonneg _, call.measures_long.2.1⟩
        durationMs := ⟨Int.natCast_nonneg _, call.measures_long.2.2⟩ }
    refine ⟨[objText (membersOf call (call.measured u))], ?_, ?_, ?_⟩
    · rw [lineOf_eq hcarried]
      simp
    · exact List.forall_mem_singleton.mpr (members_oneLine _ _)
    · rw [if_pos hrec]
      simp [line_read hcarried]
  · refine ⟨[], ?_, by simp, ?_⟩
    · rw [lineOf_unrecorded hrec, unlines_nil]
    · rw [if_neg hrec]
      rfl

theorem ledger_cons (call : UsageCall) (calls : List UsageCall) : ledger (call :: calls) =
    (call.usage.map call.lineOf).bind fun line => (ledger calls).map (line ++ ·) := by
  unfold ledger
  rw [List.mapM_cons]
  cases call.usage.map call.lineOf with
  | none => rfl
  | some line =>
    cases calls.mapM fun (call : UsageCall) => call.usage.map call.lineOf <;> rfl

theorem ledger_lines {calls : List UsageCall} (h : ∀ call ∈ calls, call.Countable) : ∃ ls : List Bytes,
    ledger calls = some (unlines ls) ∧ (∀ l ∈ ls, ch '\n' ∉ l) ∧
    ls.map llmUsageRecordParse = (calls.filterMap UsageCall.record).map some := by
  induction calls with
  | nil => exact ⟨[], rfl, by simp, rfl⟩
  | cons call calls ih =>
    obtain ⟨hcall, hrest⟩ := List.forall_mem_cons.mp h
    obtain ⟨ls, hledger, hones, hread⟩ := ih hrest
    obtain ⟨front, hline, hfront, hfrontRead⟩ := Countable.line hcall
    refine ⟨front ++ ls, ?_, List.forall_mem_append.mpr ⟨hfront, hones⟩, ?_⟩
    · rw [ledger_cons, hline, Option.bind_some, hledger, Option.map_some, unlines_append]
    · rw [List.map_append, hfrontRead, hread]
      cases hrecord : call.record <;> simp [hrecord]

/-- The ledger keeps every call of a run as it was exactly if what the providers reported are
counts, and the media of a call are within the reader's bounds. -/
theorem usage_kept_iff (calls : List UsageCall) : UsageKept calls ↔ ∀ call ∈ calls, call.Countable := by
  constructor
  · intro h call hcall
    have hresponses := (derived_iff call).mp (h.derived call hcall)
    refine ⟨hresponses, fun hrec => ?_⟩
    obtain ⟨u, hu, -⟩ := h.derived call hcall call.responses.length
    rw [List.take_length] at hu
    have hrecord : call.record = some (call.recordOf (call.measured u)) := by
      rw [UsageCall.record, if_pos hrec, UsageCall.usage, hu, Option.map_some, Option.map_some]
    obtain ⟨text, -, hread⟩ := h.readBack
    have hmem : some (call.recordOf (call.measured u)) ∈ (lined text).ended.map llmUsageRecordParse := by
      rw [hread.records]
      exact List.mem_map_of_mem (List.mem_filterMap.mpr ⟨call, hcall, hrecord⟩)
    obtain ⟨line, -, hline⟩ := List.mem_map.mp hmem
    obtain ⟨hcount, hbytes⟩ := parse_media hline
    exact ⟨Int.ofNat_le.mp hcount, hbytes⟩
  · intro h
    obtain ⟨ls, hledger, hones, hread⟩ := ledger_lines h
    refine ⟨fun call hcall => (derived_iff call).mpr (h call hcall).responses, unlines ls, hledger, ?_⟩
    constructor
    · rw [lined_unlines hones]
    · rw [lined_unlines hones]
      exact hread

/-! ## A negative count -/

def reportedNegative : Bytes := lit "\x7b\"usage\":\x7b\"prompt_tokens\":-1\x7d\x7d"

def negativeCall : UsageCall :=
  { providerKind := lit "openai_chat"
    responses := [reportedNegative]
    now := ⟨2026, 8, 8, 0, 0, 0, by decide, by decide, by decide, by decide, by decide, by decide⟩
    floop := lit "hello"
    runId := lit "run_001"
    callSeq := 1
    agentId := lit "chat"
    profile := ⟨lit "mock", lit "mock", lit "mock-v1", [], 0⟩
    inputChars := 10
    mediaCount := 0
    mediaBytes := 0
    outputChars := 5
    durationMs := 1
    floop_plain := ⟨PlainText.of_all (lit_all (by decide)), by decide⟩
    runId_plain := ⟨PlainText.of_all (lit_all (by decide)), by decide⟩
    agentId_plain := ⟨PlainText.of_all (lit_all (by decide)), by decide⟩
    profile_plain := ⟨⟨PlainText.of_all (by decide), by decide⟩, ⟨PlainText.of_all (by decide), by decide⟩, ⟨PlainText.of_all (by (repeat rw [lit_ofList]); decide), by decide⟩⟩
    callSeq_int := by decide
    measures_long := by decide }

/-- What the negative call leaves in its usage. -/
def negativeUsage : LlmUsage := negativeCall.measured { noUsage with inputTokens := -1, totalTokens := -1 }

theorem negative_ledger : ledger [negativeCall] = some (unlines [objText (membersOf negativeCall negativeUsage)]) := by
  have husage : negativeCall.usage = some negativeUsage := by decide +kernel
  have hrecorded : negativeCall.Recorded := ⟨by decide, by decide, by decide, by decide, by decide, by decide, by decide⟩
  have hfits : (objText (membersOf negativeCall negativeUsage) ++ [ch '\n']).length < 1024 := by decide +kernel
  rw [ledger_cons, husage, Option.map_some, UsageCall.lineOf, llmRecordUsage, if_neg (negativeCall.recorded_iff.mp hrecorded)]
  rw [membersOf] at hfits ⊢
  rw [clip_eq_self hfits, Option.bind_some, show ledger [] = some [] from rfl, Option.map_some, List.append_nil, unlines_cons, unlines_nil]

theorem negative_parse : llmUsageRecordParse (objText (membersOf negativeCall negativeUsage)) = none := by
  refine Option.eq_none_iff_forall_ne_some.mpr fun r hr => ?_
  have hread : getLong (objText (membersOf negativeCall negativeUsage)) (lit "input_tokens") = some (-1) :=
    long_read ⟨by decide, by decide⟩ rfl
  have hcount := parse_input (Floofclaw.Guarantees.TaskPayloads.written_top (members_written negativeCall negativeUsage)) hr _ hread
  exact absurd hcount (by decide)

/-- A provider that reports a negative count leaves a line the reader refuses. -/
theorem negative_refused : ¬ UsageKept [negativeCall] ∧
    (ledger [negativeCall]).map (fun text => (lined text).ended.map llmUsageRecordParse) = some [none] := by
  refine ⟨fun h => ?_, ?_⟩
  · obtain ⟨u, hu, hcounts⟩ := h.derived negativeCall List.mem_cons_self 1
    have hneg : (usageAfter negativeCall.providerKind (negativeCall.responses.take 1)).map LlmUsage.inputTokens = some (-1) := by
      decide +kernel
    rw [hu, Option.map_some, Option.some.injEq] at hneg
    exact absurd (hneg ▸ hcounts.input.1) (by decide)
  · rw [negative_ledger, Option.map_some, lined_unlines (List.forall_mem_singleton.mpr (members_oneLine _ _)), List.map_singleton,
      negative_parse]

end Floofclaw.Guarantees.UsageLedger
