import Floofclaw.Guarantees.UsageLedger
import Floofclaw.Source.GeminiStream

/-!
# The Gemini event stream and its cuts

However the octets of a response come in, the stream gathers the texts of the
events, and the counters are those of the last event that has usage metadata;
the cached tokens are read in place and stay when an event does not report
them. An attempt that was given up leaves nothing behind.
-/

set_option autoImplicit false

namespace Floofclaw.Guarantees.GeminiStreams
open Floofclaw.Lib Floofclaw.Source.Json Floofclaw.Source.MessageStream Floofclaw.Source.Usage Floofclaw.Source.GeminiStream
open Floofclaw.Guarantees.UsageLedger

/-! ## What a response says -/

/-- The lines of a response; the last one need not be ended. -/
def allLines (t : Bytes) : List Bytes := (lined t).ended ++ if (lined t).rest = [] then [] else [(lined t).rest]

def events (t : Bytes) : List Bytes := (allLines t).filterMap dataPayload

def eventText (event : Bytes) : Option Bytes := llmExtractGeminiText event llmRespMax

def eventTexts (t : Bytes) : List Bytes := (events t).filterMap eventText

/-- The decoder behind a text it took. -/
def fedOne (sink : Bytes → Bool) (decoder : LlmMessageStream) (text : Bytes) : Option LlmMessageStream :=
  if (llmMessageStreamFeed sink decoder text).2 = true then some (llmMessageStreamFeed sink decoder text).1 else none

/-- The decoder behind texts it took one by one. -/
def fedWith (sink : Bytes → Bool) (decoder : LlmMessageStream) (texts : List Bytes) : Option LlmMessageStream :=
  texts.foldlM (fedOne sink) decoder

def metadataOf (event : Bytes) : Option JsonRef :=
  (jsonRefFirstObject event).bind fun root => jsonRefObjectGetObject root (lit "usageMetadata")

/-- The token counts an event reports. -/
def tokensOf (event : Bytes) : Option (Int × Int × Int) :=
  (metadataOf event).map fun usage =>
    let t := tally geminiKey usage noUsage
    (t.input, t.output, if t.total ≠ 0 then t.total else t.input + t.output)

/-- The cached tokens are read in place. -/
def cachedStep (cached : Int × Bool) (event : Bytes) : Int × Bool :=
  match metadataOf event with
  | none => cached
  | some usage =>
    let read := jsonRefObjectGetLong usage (lit "cachedContentTokenCount") cached.1
    (read.1, cached.2 || read.2)

/-- The counters behind events: the tokens of the last one that has metadata, the cached tokens as
the reads left them. -/
def reportedUsage (events : List Bytes) : LlmUsage :=
  let tokens := ((events.filterMap tokensOf).getLast?).getD (0, 0, 0)
  let cached := events.foldl cachedStep (0, false)
  { noUsage with
    inputTokens := tokens.1, outputTokens := tokens.2.1, totalTokens := tokens.2.2,
    providerCachedInputTokens := cached.1, providerCachedInputTokensReported := cached.2 }

/-- The sums of an event stay in range. -/
def SumsFit (event : Bytes) : Prop := ∀ usage, metadataOf event = some usage → (tally geminiKey usage noUsage).Defined

/-- What a stream is to have behind a response. -/
structure Decoded (sink : Bytes → Bool) (t : Bytes) (r : GeminiStreamState × Bool) : Prop where
  text : r.1.modelText = (eventTexts t).flatten
  succeeds : r.2 = true ↔ (eventTexts t).flatten ≠ []
  decoder : fedWith sink llmMessageStreamCreate (eventTexts t) = some r.1.decoder
  fed : r.1.decoder.raw = (eventTexts t).flatten
  usage : r.1.usage = some (reportedUsage (events t))

/-! ## A line -/

/-- What a line changes. -/
structure Reply where
  modelText : Bytes
  decoder : LlmMessageStream
  usage : Option LlmUsage

def reply (s : GeminiStreamState) : Reply := ⟨s.modelText, s.decoder, s.usage⟩

def withReply (s : GeminiStreamState) (r : Reply) : GeminiStreamState :=
  { s with modelText := r.modelText, decoder := r.decoder, usage := r.usage }

/-- An event's text behind a reply; `none` ends the stream. -/
def appendText (sink : Bytes → Bool) (r : Reply) (text : Bytes) : Option Reply :=
  if llmRespMax < r.modelText.length + text.length + 1 then none
  else
    match llmMessageStreamFeed sink r.decoder text with
    | (decoder, true) => some ⟨r.modelText ++ text, decoder, r.usage⟩
    | (_, false) => none

def gather (sink : Bytes → Bool) (r : Reply) (line : Bytes) : Option Reply :=
  match dataPayload line with
  | none => some r
  | some event =>
    let r := { r with usage := r.usage.bind (llmExtractUsage geminiKey event) }
    match eventText event with
    | none => some r
    | some text => appendText sink r text

theorem takeDelta_append {sink : Bytes → Bool} {s : GeminiStreamState} {text : Bytes} {r : Reply}
    (h : appendText sink (reply s) text = some r) : takeDelta sink s text = (withReply s r, true) := by
  unfold appendText reply at h
  dsimp only at h
  by_cases hlong : llmRespMax < s.modelText.length + text.length + 1
  · rw [if_pos hlong] at h
    cases h
  · rw [if_neg hlong] at h
    rw [takeDelta, if_neg hlong]
    rcases hfeed : llmMessageStreamFeed sink s.decoder text with ⟨decoder, _ | _⟩
    · rw [hfeed] at h
      cases h
    · rw [hfeed] at h
      cases h
      rfl

theorem processLine_gather {sink : Bytes → Bool} {s : GeminiStreamState} {r : Reply} (h : gather sink (reply s) s.line = some r) :
    geminiStreamProcessLine sink s = (withReply s r, true) := by
  unfold gather at h
  unfold geminiStreamProcessLine
  cases hevent : dataPayload s.line with
  | none =>
    rw [hevent] at h
    cases h
    rfl
  | some event =>
    rw [hevent] at h
    unfold eventText at h
    dsimp only at h ⊢
    cases htext : llmExtractGeminiText event llmRespMax with
    | none =>
      rw [htext] at h
      cases h
      rfl
    | some text =>
      rw [htext] at h
      exact takeDelta_append h

/-- What a line does to the rest of the stream, and to the counters. -/
theorem processLine_frame (sink : Bytes → Bool) (s : GeminiStreamState) :
    (geminiStreamProcessLine sink s).1.raw = s.raw ∧ (geminiStreamProcessLine sink s).1.failed = s.failed ∧
    (geminiStreamProcessLine sink s).1.usage =
      match dataPayload s.line with
      | none => s.usage
      | some event => s.usage.bind (llmExtractUsage geminiKey event) := by
  unfold geminiStreamProcessLine
  cases dataPayload s.line with
  | none => exact ⟨rfl, rfl, rfl⟩
  | some event =>
    dsimp only
    cases llmExtractGeminiText event llmRespMax with
    | none => exact ⟨rfl, rfl, rfl⟩
    | some text =>
      dsimp only
      unfold takeDelta
      split <;> exact ⟨rfl, rfl, rfl⟩

/-! ## The cuts -/

def gatherAll (sink : Bytes → Bool) (r : Reply) (lines : List Bytes) : Option Reply := lines.foldlM (gather sink) r

/-- Octets up to the first newline, if there is one. -/
theorem cut_line (bytes : Bytes) : (ch '\n' ∉ bytes ∧ bytes.takeWhile (· ≠ ch '\n') = bytes ∧ bytes.dropWhile (· ≠ ch '\n') = []) ∨
    ∃ part rest, ch '\n' ∉ part ∧ bytes = part ++ ch '\n' :: rest ∧ bytes.takeWhile (· ≠ ch '\n') = part ∧
      bytes.dropWhile (· ≠ ch '\n') = ch '\n' :: rest := by
  have hpart : ch '\n' ∉ bytes.takeWhile (· ≠ ch '\n') := fun h => by simpa using List.mem_takeWhile_imp h
  have hsplit : bytes.takeWhile (· ≠ ch '\n') ++ bytes.dropWhile (· ≠ ch '\n') = bytes := List.takeWhile_append_dropWhile
  cases hrest : bytes.dropWhile (· ≠ ch '\n') with
  | nil =>
    rw [hrest, List.append_nil] at hsplit
    exact .inl ⟨hsplit ▸ hpart, hsplit, rfl⟩
  | cons c rest =>
    have hhead := List.head?_dropWhile_not (fun c => decide (c ≠ ch '\n')) bytes
    rw [hrest] at hhead
    have hc : c = ch '\n' := by simpa using hhead
    subst hc
    rw [hrest] at hsplit
    exact .inr ⟨_, rest, hpart, hsplit.symm, rfl, rfl⟩

theorem lined_cut {part : Bytes} (hpart : ch '\n' ∉ part) (line rest : Bytes) :
    (part ++ ch '\n' :: rest).foldl Lined.put ⟨[], line⟩ =
      ⟨(line ++ part) :: (rest.foldl Lined.put ⟨[], []⟩).ended, (rest.foldl Lined.put ⟨[], []⟩).rest⟩ := by
  rw [List.foldl_append, Lined.put_part hpart, List.foldl_cons]
  exact Lined.fold_ended rest [line ++ part] []

/-- What one call of the callback does to a line that is open. -/
theorem writeLoop_gathered {sink : Bytes → Bool} {n : Nat} {s : GeminiStreamState} {bytes : Bytes} {r : Reply}
    (hn : bytes.length ≤ n) (hroom : s.line.length + bytes.length < llmRespMax)
    (hgather : gatherAll sink (reply s) (bytes.foldl Lined.put ⟨[], s.line⟩).ended = some r) :
    writeLoop sink n s bytes = { withReply s r with line := (bytes.foldl Lined.put ⟨[], s.line⟩).rest } := by
  induction n generalizing s bytes with
  | zero =>
    obtain rfl := List.length_eq_zero_iff.mp (Nat.le_zero.mp hn)
    cases hgather
    rfl
  | succ n ih =>
    by_cases hempty : bytes = []
    · subst hempty
      cases hgather
      rfl
    · rw [writeLoop, if_neg hempty]
      dsimp only
      rcases cut_line bytes with ⟨hpart, htake, hdrop⟩ | ⟨part, rest, hpart, hbytes, htake, hdrop⟩
      · have hfits : ¬ llmRespMax < s.line.length + bytes.length + 1 := by omega
        rw [htake, hdrop, if_neg hfits]
        rw [Lined.put_part hpart] at hgather ⊢
        cases hgather
        rfl
      · have hlength := congrArg List.length hbytes
        rw [List.length_append, List.length_cons] at hlength
        have hfits : ¬ llmRespMax < s.line.length + part.length + 1 := by omega
        rw [htake, hdrop, if_neg hfits]
        rw [hbytes, lined_cut hpart] at hgather ⊢
        obtain ⟨r', hline, hlines⟩ := Option.bind_eq_some_iff.mp hgather
        have hprocess : geminiStreamProcessLine sink { s with line := s.line ++ part } =
            (withReply { s with line := s.line ++ part } r', true) := processLine_gather hline
        dsimp only
        rw [hprocess]
        dsimp only
        exact ih (s := { withReply { s with line := s.line ++ part } r' with line := [] }) (by omega)
          (by simp only [List.length_nil]; omega) hlines

/-- Cut at will, a response is gathered line by line. -/
theorem stream_gathered {sink : Bytes → Bool} {chunks : List Bytes} {r : Reply} (hcap : chunks.flatten.length ≤ llmHttpResponseCap)
    (hgather : gatherAll sink (reply geminiStreamStart) (lined chunks.flatten).ended = some r) :
    chunks.foldl (geminiStreamWriteCb sink) geminiStreamStart =
      { withReply geminiStreamStart r with raw := chunks.flatten, line := (lined chunks.flatten).rest } := by
  induction chunks using List.reverseRecOn generalizing r with
  | nil =>
    cases hgather
    rfl
  | append_singleton chunks bytes ih =>
    rw [List.flatten_append, List.flatten_singleton] at hcap hgather ⊢
    rw [lined_append_ended] at hgather ⊢
    rw [gatherAll, List.foldlM_append] at hgather
    obtain ⟨front, hfront, hback⟩ := Option.bind_eq_some_iff.mp hgather
    rw [List.length_append] at hcap
    rw [List.foldl_append, ih (by omega) hfront, List.foldl_cons, List.foldl_nil, geminiStreamWriteCb, if_neg (by simp [withReply, geminiStreamStart, geminiStreamReset])]
    dsimp only
    rw [if_neg (Nat.not_lt.mpr hcap)]
    have hline := lined_rest_length chunks.flatten
    have hmax : llmHttpResponseCap + 1 = llmRespMax := rfl
    exact writeLoop_gathered (s := { withReply geminiStreamStart front with raw := chunks.flatten ++ bytes, line := (lined chunks.flatten).rest })
      (Nat.le_refl _) (by dsimp only; omega) hback

/-! ## Events -/

def countEvents (usage : Option LlmUsage) (events : List Bytes) : Option LlmUsage :=
  events.foldl (fun u event => u.bind (llmExtractUsage geminiKey event)) usage

theorem fedOne_some {sink : Bytes → Bool} {d d' : LlmMessageStream} {text : Bytes} (h : fedOne sink d text = some d') :
    llmMessageStreamFeed sink d text = (d', true) := by
  rw [fedOne, Option.ite_none_right_eq_some, Option.some.injEq] at h
  exact Prod.ext h.2 h.1

theorem appendText_some {sink : Bytes → Bool} {r : Reply} {text : Bytes} {decoder : LlmMessageStream}
    (hroom : r.modelText.length + text.length < llmRespMax) (hfeed : llmMessageStreamFeed sink r.decoder text = (decoder, true)) :
    appendText sink r text = some ⟨r.modelText ++ text, decoder, r.usage⟩ := by
  rw [appendText, if_neg (by omega), hfeed]

/-- A response whose texts fit and are taken by the decoder is gathered. -/
theorem gatherAll_some {sink : Bytes → Bool} {r : Reply} {decoder : LlmMessageStream} (lines : List Bytes)
    (hroom : r.modelText.length + ((lines.filterMap dataPayload).filterMap eventText).flatten.length < llmRespMax)
    (hfed : fedWith sink r.decoder ((lines.filterMap dataPayload).filterMap eventText) = some decoder) :
    gatherAll sink r lines = some ⟨r.modelText ++ ((lines.filterMap dataPayload).filterMap eventText).flatten, decoder,
      countEvents r.usage (lines.filterMap dataPayload)⟩ := by
  induction lines generalizing r with
  | nil =>
    cases hfed
    simp [gatherAll, countEvents]
  | cons line lines ih =>
    rw [gatherAll, List.foldlM_cons]
    cases hevent : dataPayload line with
    | none =>
      rw [List.filterMap_cons_none hevent] at hroom hfed ⊢
      have hline : gather sink r line = some r := by rw [gather, hevent]
      rw [hline]
      exact ih hroom hfed
    | some event =>
      rw [List.filterMap_cons_some hevent] at hroom hfed ⊢
      cases htext : eventText event with
      | none =>
        rw [List.filterMap_cons_none htext] at hroom hfed ⊢
        have hline : gather sink r line = some { r with usage := r.usage.bind (llmExtractUsage geminiKey event) } := by
          rw [gather, hevent]
          dsimp only
          rw [htext]
        rw [hline]
        exact ih (r := { r with usage := r.usage.bind (llmExtractUsage geminiKey event) }) hroom hfed
      | some text =>
        rw [List.filterMap_cons_some htext] at hroom hfed ⊢
        rw [List.flatten_cons, List.length_append] at hroom
        obtain ⟨d, hfeed, hrest⟩ := Option.bind_eq_some_iff.mp hfed
        have hline : gather sink r line =
            some ⟨r.modelText ++ text, d, r.usage.bind (llmExtractUsage geminiKey event)⟩ := by
          rw [gather, hevent]
          dsimp only
          rw [htext]
          exact appendText_some (r := { r with usage := r.usage.bind (llmExtractUsage geminiKey event) }) (by dsimp only; omega) (fedOne_some hfeed)
        rw [hline]
        refine (ih (r := ⟨r.modelText ++ text, d, r.usage.bind (llmExtractUsage geminiKey event)⟩) ?_ hrest).trans ?_
        · dsimp only
          rw [List.length_append]
          omega
        · simp [countEvents]

/-! ## Counters -/

theorem usageKey_gemini : usageKey geminiKey = lit "usageMetadata" := if_pos rfl

theorem tally_gemini (usage : JsonRef) (u : LlmUsage) : tally geminiKey usage u =
    { input := countOf usage (lit "promptTokenCount")
      output := countOf usage (lit "candidatesTokenCount") + part (jsonRefObjectGetLong usage (lit "thoughtsTokenCount") 0)
      total := countOf usage (lit "totalTokenCount")
      cached := jsonRefObjectGetLong usage (lit "cachedContentTokenCount") u.providerCachedInputTokens
      created := noPart } := if_pos rfl

/-- An event more: its tokens, and the cached tokens read over the ones before. -/
theorem reportedUsage_snoc {events : List Bytes} {event : Bytes} (hfit : SumsFit event) :
    llmExtractUsage geminiKey event (reportedUsage events) = some (reportedUsage (events ++ [event])) := by
  unfold llmExtractUsage
  rw [usageKey_gemini]
  cases hmeta : metadataOf event with
  | none =>
    have habsent : ((jsonRefFirstObject event).bind fun root => jsonRefObjectGetObject root (lit "usageMetadata")) = none := hmeta
    rw [habsent]
    simp [reportedUsage, tokensOf, hmeta, cachedStep]
  | some usage =>
    have hpresent : ((jsonRefFirstObject event).bind fun root => jsonRefObjectGetObject root (lit "usageMetadata")) = some usage := hmeta
    have hdefined := hfit usage hmeta
    rw [hpresent]
    dsimp only
    rw [tally_gemini] at hdefined
    rw [usageIn_some, tally_gemini]
    refine ⟨hdefined, ?_⟩
    have htokens : tokensOf event = some ((tally geminiKey usage noUsage).input, (tally geminiKey usage noUsage).output,
        if (tally geminiKey usage noUsage).total ≠ 0 then (tally geminiKey usage noUsage).total
        else (tally geminiKey usage noUsage).input + (tally geminiKey usage noUsage).output) := by
      rw [tokensOf, hmeta]
      rfl
    rw [tally_gemini] at htokens
    unfold reportedUsage Tally.counters
    simp only [List.filterMap_append, List.filterMap_cons_some htokens, List.filterMap_nil, List.getLast?_append, List.getLast?_singleton,
      Option.some_or, Option.getD_some, List.foldl_append, List.foldl_cons, List.foldl_nil, cachedStep, hmeta, noteCreated_noPart]
    rfl

theorem countEvents_reported {events : List Bytes} (hfit : ∀ event ∈ events, SumsFit event) :
    countEvents (some noUsage) events = some (reportedUsage events) := by
  induction events using List.reverseRecOn with
  | nil => rfl
  | append_singleton events event ih =>
    obtain ⟨hfront, hlast⟩ := List.forall_mem_append.mp hfit
    have hstep : countEvents (some noUsage) (events ++ [event]) =
        (countEvents (some noUsage) events).bind (llmExtractUsage geminiKey event) := by
      rw [countEvents, List.foldl_append]
      rfl
    rw [hstep, ih hfront, Option.bind_some]
    exact reportedUsage_snoc (hlast event List.mem_cons_self)

/-! ## The decoder -/

theorem emitNewText_raw (sink : Bytes → Bool) (d : LlmMessageStream) (decoded : Bytes) : (emitNewText sink d decoded).1.raw = d.raw := by
  unfold emitNewText
  split
  · rfl
  · split <;> rfl

theorem inspectStream_raw (sink : Bytes → Bool) (d : LlmMessageStream) : (inspectStream sink d).1.raw = d.raw := by
  unfold inspectStream
  split
  · rfl
  · split
    · rfl
    · exact emitNewText_raw sink d _
    · exact emitNewText_raw sink d _

theorem fedOne_raw {sink : Bytes → Bool} {d d' : LlmMessageStream} {text : Bytes} (h : fedOne sink d text = some d') :
    d'.raw = d.raw ++ text := by
  have hfeed := fedOne_some h
  unfold llmMessageStreamFeed at hfeed
  by_cases hdisabled : d.disabled = true
  · rw [if_pos hdisabled] at hfeed
    cases hfeed
  · rw [if_neg hdisabled] at hfeed
    by_cases hempty : text = []
    · rw [if_pos hempty] at hfeed
      cases hfeed
      rw [hempty, List.append_nil]
    · rw [if_neg hempty] at hfeed
      split at hfeed
      · cases hfeed
      · have hraw := inspectStream_raw sink { d with raw := d.raw ++ text }
        rw [hfeed] at hraw
        exact hraw

/-- A decoder that took every text has them all. -/
theorem fedWith_raw {sink : Bytes → Bool} {d d' : LlmMessageStream} {texts : List Bytes} (h : fedWith sink d texts = some d') :
    d'.raw = d.raw ++ texts.flatten := by
  induction texts generalizing d with
  | nil =>
    cases h
    simp
  | cons text texts ih =>
    obtain ⟨next, hone, hrest⟩ := Option.bind_eq_some_iff.mp h
    rw [ih hrest, fedOne_raw hone, List.flatten_cons, List.append_assoc]

/-! ## An attempt that is given up -/

/-- The counters an attempt can touch are all the counters that are set. -/
def Clears (s : GeminiStreamState) : Prop := ∃ u, s.usage = some u ∧ clearUsage u = noUsage

theorem extract_clears {u : LlmUsage} {event : Bytes} (hu : clearUsage u = noUsage) (hfit : SumsFit event) :
    ∃ v, llmExtractUsage geminiKey event u = some v ∧ clearUsage v = noUsage := by
  unfold llmExtractUsage
  rw [usageKey_gemini]
  cases hmeta : metadataOf event with
  | none =>
    have habsent : ((jsonRefFirstObject event).bind fun root => jsonRefObjectGetObject root (lit "usageMetadata")) = none := hmeta
    rw [habsent]
    exact ⟨u, rfl, hu⟩
  | some usage =>
    have hpresent : ((jsonRefFirstObject event).bind fun root => jsonRefObjectGetObject root (lit "usageMetadata")) = some usage := hmeta
    have hdefined := hfit usage hmeta
    rw [tally_gemini] at hdefined
    rw [hpresent]
    dsimp only
    refine ⟨(tally geminiKey usage u).counters u, usageIn_some.mpr ⟨?_, rfl⟩, ?_⟩
    · rw [tally_gemini]
      exact hdefined
    · rw [tally_gemini]
      exact hu

def LineFits (line : Bytes) : Prop := ∀ event, dataPayload line = some event → SumsFit event

theorem processLine_clears {sink : Bytes → Bool} {s : GeminiStreamState} (h : Clears s) (hline : LineFits s.line) :
    Clears (geminiStreamProcessLine sink s).1 := by
  obtain ⟨u, hu, hclear⟩ := h
  obtain ⟨-, -, husage⟩ := processLine_frame sink s
  unfold Clears
  rw [husage]
  cases hevent : dataPayload s.line with
  | none => exact ⟨u, hu, hclear⟩
  | some event =>
    dsimp only
    rw [hu, Option.bind_some]
    exact extract_clears hclear (hline event hevent)

/-- Whether or not the callback fails, the counters stay clearable; while it does not, it keeps the open line. -/
theorem writeLoop_clears {sink : Bytes → Bool} {n : Nat} {s : GeminiStreamState} {bytes : Bytes} (hn : bytes.length ≤ n) (h : Clears s)
    (hlines : ∀ l ∈ (bytes.foldl Lined.put ⟨[], s.line⟩).ended, LineFits l) :
    Clears (writeLoop sink n s bytes) ∧
    ((writeLoop sink n s bytes).failed = true ∨ (writeLoop sink n s bytes).line = (bytes.foldl Lined.put ⟨[], s.line⟩).rest) := by
  induction n generalizing s bytes with
  | zero =>
    obtain rfl := List.length_eq_zero_iff.mp (Nat.le_zero.mp hn)
    exact ⟨h, .inr rfl⟩
  | succ n ih =>
    by_cases hempty : bytes = []
    · subst hempty
      exact ⟨h, .inr rfl⟩
    · rw [writeLoop, if_neg hempty]
      dsimp only
      split
      · exact ⟨h, .inl rfl⟩
      · rcases cut_line bytes with ⟨hpart, htake, hdrop⟩ | ⟨part, rest, hpart, hbytes, htake, hdrop⟩
        · rw [htake, hdrop, Lined.put_part hpart]
          exact ⟨h, .inr rfl⟩
        · have hlength := congrArg List.length hbytes
          rw [List.length_append, List.length_cons] at hlength
          rw [htake, hdrop]
          rw [hbytes, lined_cut hpart] at hlines ⊢
          obtain ⟨hline, hrest⟩ := List.forall_mem_cons.mp hlines
          have hprocess := @processLine_clears sink { s with line := s.line ++ part } h hline
          dsimp only
          rcases hrun : geminiStreamProcessLine sink { s with line := s.line ++ part } with ⟨s', _ | _⟩
          · rw [hrun] at hprocess
            exact ⟨hprocess, .inl rfl⟩
          · rw [hrun] at hprocess
            dsimp only
            exact ih (s := { s' with line := [] }) (by omega) hprocess hrest

theorem attempt_clears {sink : Bytes → Bool} {chunks : List Bytes} (hlines : ∀ l ∈ (lined chunks.flatten).ended, LineFits l) :
    Clears (chunks.foldl (geminiStreamWriteCb sink) geminiStreamStart) ∧
    ((chunks.foldl (geminiStreamWriteCb sink) geminiStreamStart).failed = true ∨
      (chunks.foldl (geminiStreamWriteCb sink) geminiStreamStart).line = (lined chunks.flatten).rest) := by
  induction chunks using List.reverseRecOn with
  | nil => exact ⟨⟨noUsage, rfl, rfl⟩, .inr rfl⟩
  | append_singleton chunks bytes ih =>
    rw [List.flatten_append, List.flatten_singleton, lined_append_ended] at hlines ⊢
    obtain ⟨hfront, hback⟩ := List.forall_mem_append.mp hlines
    obtain ⟨hclears, hopen⟩ := ih hfront
    rw [List.foldl_append, List.foldl_cons, List.foldl_nil]
    generalize chunks.foldl (geminiStreamWriteCb sink) geminiStreamStart = s at hclears hopen
    unfold geminiStreamWriteCb
    by_cases hfailed : s.failed = true
    · rw [if_pos hfailed]
      exact ⟨hclears, .inl hfailed⟩
    · rw [if_neg hfailed]
      split
      · exact ⟨hclears, .inl rfl⟩
      · have hline := hopen.resolve_left hfailed
        rw [← hline] at hback ⊢
        exact writeLoop_clears (s := { s with raw := s.raw ++ bytes }) (Nat.le_refl _) hclears hback

/-- The stream after attempts that were given up. -/
def afterAborted (sink : Bytes → Bool) (aborted : List (List Bytes)) : GeminiStreamState :=
  aborted.foldl (fun s chunks => geminiStreamReset (chunks.foldl (geminiStreamWriteCb sink) s)) geminiStreamStart

theorem events_fit {t : Bytes} (h : ∀ event ∈ events t, SumsFit event) : ∀ l ∈ (lined t).ended, LineFits l := by
  intro l hl event hevent
  exact h event (List.mem_filterMap.mpr ⟨l, List.mem_append_left _ hl, hevent⟩)

theorem aborted_forgotten {sink : Bytes → Bool} {aborted : List (List Bytes)}
    (hsums : ∀ chunks ∈ aborted, ∀ event ∈ events chunks.flatten, SumsFit event) : afterAborted sink aborted = geminiStreamStart := by
  unfold afterAborted
  induction aborted with
  | nil => rfl
  | cons chunks aborted ih =>
    obtain ⟨hfirst, hrest⟩ := List.forall_mem_cons.mp hsums
    obtain ⟨⟨u, hu, hclear⟩, -⟩ := @attempt_clears sink chunks (events_fit hfirst)
    have hreset : geminiStreamReset (chunks.foldl (geminiStreamWriteCb sink) geminiStreamStart) = geminiStreamStart := by
      rw [geminiStreamReset, hu, Option.map_some, hclear]
      rfl
    rw [List.foldl_cons, hreset]
    exact ih hrest

/-! ## The reply -/

theorem finish_decoded {sink : Bytes → Bool} {t : Bytes} {r : Reply}
    (hall : gatherAll sink (reply geminiStreamStart) (allLines t) = some r) :
    ∃ front, gatherAll sink (reply geminiStreamStart) (lined t).ended = some front ∧
      geminiStreamFinish sink { withReply geminiStreamStart front with raw := t, line := (lined t).rest } =
        ({ withReply geminiStreamStart r with raw := t }, decide (r.modelText ≠ [])) := by
  by_cases hrest : (lined t).rest = []
  · rw [allLines, if_pos hrest, List.append_nil] at hall
    refine ⟨r, hall, ?_⟩
    rw [hrest]
    rfl
  · rw [allLines, if_neg hrest, gatherAll, List.foldlM_append] at hall
    obtain ⟨front, hfront, hlast⟩ := Option.bind_eq_some_iff.mp hall
    refine ⟨front, hfront, ?_⟩
    obtain ⟨last, hline, hend⟩ := Option.bind_eq_some_iff.mp hlast
    cases hend
    have hprocess := @processLine_gather sink
      { withReply geminiStreamStart front with raw := t, line := (lined t).rest } _ hline
    rw [geminiStreamFinish, if_neg (by simp [withReply, geminiStreamStart, geminiStreamReset]), if_neg hrest, hprocess]
    rfl

/-- Whatever was given up before and however the response is cut, the stream has the texts of its
events, handed to the decoder as they are, and the counters its events report. -/
theorem stream_decoded (sink : Bytes → Bool) (aborted : List (List Bytes)) (chunks : List Bytes)
    (hsums : ∀ attempt ∈ chunks :: aborted, ∀ event ∈ events attempt.flatten, SumsFit event)
    (hcap : chunks.flatten.length ≤ llmHttpResponseCap) (hreply : (eventTexts chunks.flatten).flatten.length < llmRespMax)
    (hfed : (fedWith sink llmMessageStreamCreate (eventTexts chunks.flatten)).isSome = true) :
    afterAborted sink aborted = geminiStreamStart ∧
    Decoded sink chunks.flatten (geminiStreamFinish sink (chunks.foldl (geminiStreamWriteCb sink) (afterAborted sink aborted))) := by
  obtain ⟨hthis, hothers⟩ := List.forall_mem_cons.mp hsums
  have hstart := @aborted_forgotten sink aborted hothers
  refine ⟨hstart, ?_⟩
  obtain ⟨decoder, hdecoder⟩ := Option.isSome_iff_exists.mp hfed
  have hall := @gatherAll_some sink (reply geminiStreamStart) decoder (allLines chunks.flatten)
    (by rw [show (reply geminiStreamStart).modelText = [] from rfl, List.length_nil, Nat.zero_add]; exact hreply) hdecoder
  obtain ⟨front, hfront, hfinish⟩ := finish_decoded hall
  rw [hstart, stream_gathered hcap hfront, hfinish]
  refine ⟨rfl, ?_, hdecoder, fedWith_raw hdecoder, countEvents_reported hthis⟩
  rw [decide_eq_true_eq]
  rfl

/-! ## Streams at hand -/

instance (t : Tally) : Decidable t.Defined :=
  inferInstanceAs (Decidable (t.input ≤ int64Max ∧ t.output ≤ int64Max ∧
    (t.total = 0 → int64Min ≤ t.input + t.output ∧ t.input + t.output ≤ int64Max)))

theorem sumsFit_iff (event : Bytes) :
    ((metadataOf event).all fun usage => decide (tally geminiKey usage noUsage).Defined) = true ↔ SumsFit event := by
  unfold SumsFit
  cases metadataOf event <;> simp

instance (event : Bytes) : Decidable (SumsFit event) := decidable_of_iff _ (sumsFit_iff event)

def dataLine (event : Bytes) : Bytes := lit "data: " ++ event ++ lit "\r\n"

def cachedEvent : Bytes := lit "\x7b\"usageMetadata\":\x7b\"promptTokenCount\":10,\"cachedContentTokenCount\":8\x7d\x7d"

/-- An event with a part of the reply, whose usage may be empty. -/
def textEvent (escapedText usage : Bytes) : Bytes :=
  lit "\x7b\"candidates\":[\x7b\"content\":\x7b\"parts\":[\x7b\"text\":\"" ++ escapedText ++ lit "\"\x7d]\x7d\x7d]" ++ usage ++
    lit "\x7d"

def plainUsage : Bytes := lit ",\"usageMetadata\":\x7b\"promptTokenCount\":10,\"candidatesTokenCount\":1\x7d"

def helloChunks : List Bytes := [lit ": hello\ndata: ", textEvent (lit "hi") plainUsage ++ lit "\n", dataLine (lit "[DONE]")]

/-- A stream in three pieces, after one that broke off. -/
theorem hello_decoded : afterAborted (fun _ => true) [[dataLine cachedEvent, lit "data: \x7b\"cand"]] = geminiStreamStart ∧
    Decoded (fun _ => true) helloChunks.flatten (geminiStreamFinish (fun _ => true) (helloChunks.foldl (geminiStreamWriteCb fun _ => true)
      (afterAborted (fun _ => true) [[dataLine cachedEvent, lit "data: \x7b\"cand"]]))) :=
  stream_decoded (fun _ => true) [[dataLine cachedEvent, lit "data: \x7b\"cand"]] helloChunks
    (by unfold helloChunks dataLine textEvent plainUsage cachedEvent; repeat rw [lit_ofList]
        decide +kernel)
    (by unfold helloChunks dataLine textEvent plainUsage; repeat rw [lit_ofList]
        decide +kernel)
    (by unfold helloChunks dataLine textEvent plainUsage; repeat rw [lit_ofList]
        decide +kernel)
    (by unfold helloChunks dataLine textEvent plainUsage; repeat rw [lit_ofList]
        decide +kernel)

example : allLines (lit "a\nb") = [lit "a", lit "b"] := by decide +kernel

def hugeEvent : Bytes :=
  lit "\x7b\"usageMetadata\":\x7b\"promptTokenCount\":9223372036854775807,\"candidatesTokenCount\":1\x7d\x7d"

/-- What a stream has behind a response that comes in one piece to a sink that takes every delta. -/
def streamed (t : Bytes) : GeminiStreamState × Bool :=
  geminiStreamFinish (fun _ => true) (geminiStreamWriteCb (fun _ => true) geminiStreamStart t)

/-- The cached tokens of an event before the last one stay; a reply of 32 brackets within each other
is refused by the decoder and fails the stream; a response without text fails it too; a sum that
overflows leaves the counters undefined. -/
theorem stream_shortfalls :
    ((streamed (dataLine cachedEvent ++ dataLine (textEvent (lit "hi") plainUsage))).1.usage ≠
      llmExtractUsage geminiKey (textEvent (lit "hi") plainUsage) noUsage) ∧
    ((eventTexts (dataLine (textEvent (lit "\x7b\\\"a\\\":" ++ List.replicate 32 (ch '[')) []))).flatten ≠ [] ∧
      (streamed (dataLine (textEvent (lit "\x7b\\\"a\\\":" ++ List.replicate 32 (ch '[')) []))).2 = false) ∧
    (streamed (dataLine cachedEvent)).2 = false ∧ (streamed (dataLine hugeEvent)).1.usage = none := by
  unfold dataLine textEvent cachedEvent plainUsage hugeEvent
  repeat rw [lit_ofList]
  decide +kernel

end Floofclaw.Guarantees.GeminiStreams
