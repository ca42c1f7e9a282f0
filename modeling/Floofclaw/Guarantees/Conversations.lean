import Floofclaw.Source.Inbound

/-!
# Which conversation a run belongs to

The context id of a run scopes its memory, its tasks and its turn. It is joined
from the channel and the narrowest id the envelope gives, unless the envelope
already carries a whole `chat:` id. Two conversations share an id only then, or
through a colon in a channel's name, or when the id is cut at its buffer.
-/

set_option autoImplicit false

namespace Floofclaw.Guarantees.Conversations
open Floofclaw.Lib Floofclaw.Source.Json Floofclaw.Source.Inbound

/-- A turn of a conversation, as against a typed event or a runtime envelope. -/
def Conversational (env : ParsedEnvelope) : Prop := env.kind = .userMessage ∨ env.kind = .affairReview

instance (env : ParsedEnvelope) : Decidable (Conversational env) := inferInstanceAs (Decidable (_ ∨ _))

/-- What tells the conversations of a channel apart. -/
def conversationKey (env : ParsedEnvelope) : Option Bytes :=
  if env.contextId ≠ [] then some env.contextId else if env.adapterId ≠ [] then some env.adapterId else none

/-- The channel with the key behind it. -/
def channelText (channel : Bytes) : Option Bytes → Bytes
  | none => channel
  | some key => channel ++ ch ':' :: key

/-- The id is the envelope's own: no whole id is passed through, the channel has no colon and nothing is cut. -/
structure OwnId (env : ParsedEnvelope) : Prop where
  notWhole : (lit "chat:").isPrefixOf env.contextId = false
  channel : ch ':' ∉ env.channel
  fits : (lit "chat:").length + (channelText env.channel (conversationKey env)).length < rtMed

/-- A text before the first colon is known from the whole. -/
theorem append_colon_inj {a a' b b' : Bytes} (ha : ch ':' ∉ a) (ha' : ch ':' ∉ a')
    (h : a ++ ch ':' :: b = a' ++ ch ':' :: b') : a = a' ∧ b = b' := by
  induction a generalizing a' with
  | nil =>
    cases a' with
    | nil => exact ⟨rfl, by simpa using h⟩
    | cons d a' =>
      rw [List.nil_append, List.cons_append, List.cons.injEq] at h
      exact absurd (List.mem_cons.mpr (.inl h.1)) ha'
  | cons c a ih =>
    cases a' with
    | nil =>
      rw [List.nil_append, List.cons_append, List.cons.injEq] at h
      exact absurd (List.mem_cons.mpr (.inl h.1.symm)) ha
    | cons d a' =>
      rw [List.cons_append, List.cons_append, List.cons.injEq] at h
      obtain ⟨hab, hrest⟩ := ih (fun hmem => ha (List.mem_cons_of_mem _ hmem))
        (fun hmem => ha' (List.mem_cons_of_mem _ hmem)) h.2
      exact ⟨by rw [h.1, hab], hrest⟩

theorem channelText_inj {a a' : Bytes} {key key' : Option Bytes} (ha : ch ':' ∉ a) (ha' : ch ':' ∉ a') :
    channelText a key = channelText a' key' ↔ a = a' ∧ key = key' := by
  constructor
  · intro h
    cases key with
    | none =>
      cases key' with
      | none => exact ⟨h, rfl⟩
      | some k' =>
        -- a colon behind the one channel would stand inside the other
        refine absurd ?_ ha
        rw [show a = a' ++ ch ':' :: k' from h]
        simp
    | some k =>
      cases key' with
      | none =>
        refine absurd ?_ ha'
        rw [show a' = a ++ ch ':' :: k from h.symm]
        simp
      | some k' =>
        obtain ⟨haa, hkk⟩ := append_colon_inj ha ha' h
        exact ⟨haa, by rw [hkk]⟩
  · rintro ⟨rfl, rfl⟩
    rfl

theorem scopedContextId_eq (scope : Bytes) (env : ParsedEnvelope) :
    scopedContextId scope env = clip rtMed (scope ++ channelText env.channel (conversationKey env)) := by
  rw [scopedContextId, conversationKey]
  split
  · simp [channelText, lit]
  · split
    · simp [channelText, lit]
    · rfl

theorem conversation_id {env : ParsedEnvelope} (hkind : Conversational env) (hown : OwnId env) :
    inboundContextId env = lit "chat:" ++ channelText env.channel (conversationKey env) := by
  have hscoped : scopedContextId (lit "chat:") env = lit "chat:" ++ channelText env.channel (conversationKey env) := by
    rw [scopedContextId_eq, clip_eq_self]
    rw [List.length_append]
    exact hown.fits
  rcases hkind with hkind | hkind <;> simp [inboundContextId, hkind, hown.notWhole, hscoped]

theorem populate_contextId {heap runId : Bytes} {op : Option RtOperationSnapshot} {env : ParsedEnvelope} {c : InboundContext}
    (hkind : env.kind ≠ .completion) (h : populateInboundContext heap runId op env = some c) :
    c.contextId = inboundContextId env := by
  rw [populateInboundContext, if_neg hkind] at h
  simp only [Option.bind_eq_bind, Option.bind_eq_some_iff, Option.pure_def, Option.some.injEq] at h
  obtain ⟨_, _, _, _, rfl⟩ := h
  rfl

/-- A typed event without a whole id of its own stays in its own namespace. -/
theorem event_id_scoped {env : ParsedEnvelope} (hkind : env.kind = .custom)
    (hevent : (lit "event:").isPrefixOf env.contextId = false) (hchat : (lit "chat:").isPrefixOf env.contextId = false) :
    (lit "chat:").isPrefixOf (inboundContextId env) = false := by
  have hid : inboundContextId env = clip rtMed (lit "event:" ++ channelText env.channel (conversationKey env)) := by
    simp [inboundContextId, hkind, hevent, hchat, scopedContextId_eq]
  rw [hid]
  rfl

/-- Two turns whose ids are their own share a context exactly when they have the same channel and the same key; a typed
event without a whole id never lands in a conversation. -/
theorem conversations_distinct {heap runId : Bytes} {op : Option RtOperationSnapshot} {env : ParsedEnvelope} {c : InboundContext}
    (hc : populateInboundContext heap runId op env = some c) :
    (∀ heap' runId' op' env' c', populateInboundContext heap' runId' op' env' = some c' → Conversational env →
      Conversational env' → OwnId env → OwnId env' →
        (c.contextId = c'.contextId ↔ env.channel = env'.channel ∧ conversationKey env = conversationKey env')) ∧
    (env.kind = .custom → (lit "event:").isPrefixOf env.contextId = false → (lit "chat:").isPrefixOf env.contextId = false →
      (lit "chat:").isPrefixOf c.contextId = false) := by
  constructor
  · intro heap' runId' op' env' c' hc' hkind hkind' hown hown'
    have hne : env.kind ≠ .completion := by rcases hkind with h | h <;> simp [h]
    have hne' : env'.kind ≠ .completion := by rcases hkind' with h | h <;> simp [h]
    rw [populate_contextId hne hc, populate_contextId hne' hc', conversation_id hkind hown, conversation_id hkind' hown',
      List.append_cancel_left_eq]
    exact channelText_inj hown.channel hown'.channel
  · intro hkind hevent hchat
    rw [populate_contextId (by simp [hkind]) hc]
    exact event_id_scoped hkind hevent hchat

/-- The text of a message envelope. -/
def messageText (channel contextId : Bytes) : Bytes :=
  lit "\x7b\"type\":\"user_message\",\"channel\":\"" ++ channel ++ lit "\",\"payload\":\x7b\"text\":\"hi\",\"context_id\":\"" ++
    contextId ++ lit "\"\x7d\x7d"

/-- A plain message of a conversation, as it is parsed. -/
def messageEnvelope (channel contextId : Bytes) : ParsedEnvelope :=
  { kind := .userMessage, envelopeId := [], originEventId := [], type := lit "user_message", channel := channel
    userText := lit "hi", adapterId := [], contextId := contextId, ref := none, affairId := [], action := [], actionTaskId := []
    actionArgs := [], payload := lit "\x7b\"text\":\"hi\",\"context_id\":\"" ++ contextId ++ lit "\"\x7d", mediaRef := none
    operationId := [], completionToken := [], claimCause := [] }

/-- Two direct messages of one channel run in contexts of their own. -/
theorem direct_messages_distinct :
    parseInboundEnvelope (fun _ => none) (messageText (lit "irc") (lit "dm:ann")) =
        .ok (messageEnvelope (lit "irc") (lit "dm:ann")) ∧
      ∃ c c', populateInboundContext [] (lit "run_001") none (messageEnvelope (lit "irc") (lit "dm:ann")) = some c ∧
        populateInboundContext [] (lit "run_002") none (messageEnvelope (lit "irc") (lit "dm:bob")) = some c' ∧
          c.contextId ≠ c'.contextId := by
  have hown : ∀ key ∈ [lit "dm:ann", lit "dm:bob"], OwnId (messageEnvelope (lit "irc") key) := by
    intro key hkey
    rcases List.mem_cons.mp hkey with rfl | hkey
    · exact ⟨by decide, by (repeat rw [lit_ofList]); decide, by decide⟩
    · rw [List.mem_singleton.mp hkey]
      exact ⟨by decide, by (repeat rw [lit_ofList]); decide, by decide⟩
  have hsome : (populateInboundContext [] (lit "run_001") none (messageEnvelope (lit "irc") (lit "dm:ann"))).isSome = true := by
    decide +kernel
  have hsome' : (populateInboundContext [] (lit "run_002") none (messageEnvelope (lit "irc") (lit "dm:bob"))).isSome = true := by
    decide +kernel
  obtain ⟨c, hc⟩ := Option.isSome_iff_exists.mp hsome
  obtain ⟨c', hc'⟩ := Option.isSome_iff_exists.mp hsome'
  refine ⟨by decide +kernel, c, c', hc, hc', fun heq => ?_⟩
  have hkey := ((conversations_distinct hc).1 _ _ _ _ c' hc' (.inl rfl) (.inl rfl) (hown _ (by simp)) (hown _ (by simp))).mp heq
  exact absurd hkey.2 (by (repeat rw [lit_ofList]); decide)

/-- The envelope a message text is admitted as, and the context of its run. -/
def admitted (text : Bytes) : Option (ParsedEnvelope × Bytes) :=
  match parseInboundEnvelope (fun _ => none) text with
  | .error _ => none
  | .ok env => (populateInboundContext [] (lit "run_001") none env).map fun c => (env, c.contextId)

/-- The two texts are messages of different conversations and run in one context. -/
def Collides (text text' : Bytes) : Prop :=
  ∃ e e', admitted text = some e ∧ admitted text' = some e' ∧ Conversational e.1 ∧ Conversational e'.1 ∧ e.2 = e'.2 ∧
    ¬ (e.1.channel = e'.1.channel ∧ conversationKey e.1 = conversationKey e'.1)

theorem collides_of_check {text text' : Bytes} (h : (admitted text).any (fun e => (admitted text').any fun e' =>
    decide (Conversational e.1 ∧ Conversational e'.1 ∧ e.2 = e'.2 ∧
      ¬ (e.1.channel = e'.1.channel ∧ conversationKey e.1 = conversationKey e'.1))) = true) : Collides text text' := by
  rw [Option.any_eq_true] at h
  obtain ⟨e, he, h⟩ := h
  rw [Option.any_eq_true] at h
  obtain ⟨e', he', h⟩ := h
  exact ⟨e, e', he, he', of_decide_eq_true h⟩

/-- A whole id names a conversation of another channel; a colon may belong to the channel or to the key; two long ids are
cut to the same text. -/
theorem conversations_collide :
    Collides (messageText (lit "irc") (lit "chat:cli:ann")) (messageText (lit "cli") (lit "ann")) ∧
      Collides (messageText (lit "irc") (lit "dm:ann")) (messageText (lit "irc:dm") (lit "ann")) ∧
      Collides (messageText (lit "cli") (List.replicate 503 (ch 'x') ++ lit "a"))
        (messageText (lit "cli") (List.replicate 503 (ch 'x') ++ lit "b")) := by
  refine ⟨collides_of_check ?_, collides_of_check ?_, collides_of_check ?_⟩
  · decide +kernel
  · decide +kernel
  · decide +kernel

end Floofclaw.Guarantees.Conversations
